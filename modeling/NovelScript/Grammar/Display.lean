/-
Lines that change the picture: an image, its attributes, and clauses that each
begin with a word of their own and may stand in any order, each at most once.
-/
import NovelScript.Grammar.Header
import NovelScript.Script

namespace NovelScript.Grammar

open Text

/-- The words that begin a clause. -/
def clauseWords : List String := ["as", "at", "behind", "onlayer", "zorder", "with"]

/-- The words whose clause has one word only. -/
def oneWordClauses : List String := ["as", "onlayer", "zorder"]

/-- Whether a text is the name of an image. -/
def isImage : List Char → Bool
  | c :: cs => isWordChar c && cs.all fun c => isDottedChar c || c = '-'
  | [] => false

/-- Whether a word begins a clause. -/
def beginsClause (w : String) : Bool := clauseWords.contains w

/-- The clauses of a line by their words; nothing if one is repeated, empty or too long. -/
def clauses? (done : List (String × String)) (ws : List String) : Option (List (String × String)) :=
  match ws with
  | [] => some done
  | word :: more =>
    let value := more.takeWhile fun w => !beginsClause w
    if (done.lookup word).isSome then none
    else if value.isEmpty || (oneWordClauses.contains word && value.length ≠ 1) then none
    else clauses? (done ++ [(word, String.intercalate " " value)])
      (more.dropWhile fun w => !beginsClause w)
termination_by ws.length
decreasing_by
  have := (List.dropWhile_sublist (p := fun w => !beginsClause w) (l := more)).length_le
  simp only [List.length_cons]; omega

/-- The integer that a text is. -/
def integer? (cs : List Char) : Option Int :=
  match Numeral.read? cs with
  | some n => match n.isInteger, n.toNumber with
    | true, .int i => some i
    | _, _ => none
  | none => none

/-- The place in the order of a layer that the clauses give: the outer option is none if it is not
an integer. -/
def zorder? (clauses : List (String × String)) : Option (Option Int) :=
  match clauses.lookup "zorder" with
  | none => some none
  | some w => (integer? w.toList).map some

/-- The clauses among the words after an image. -/
def displayClauses? (ws : List String) : Option (List (String × String)) :=
  clauses? [] (ws.dropWhile fun w => !beginsClause w)

/-- The options of a display statement, from the words after its image. -/
def displayOptions? (ws : List String) : Option DisplayOptions := do
  let attributes := ws.takeWhile fun w => !beginsClause w
  let clauses ← displayClauses? ws
  let zorder ← zorder? clauses
  some {
    attributes := if attributes.isEmpty then none else some attributes
    asTag := clauses.lookup "as"
    atPosition := clauses.lookup "at"
    behind := clauses.lookup "behind"
    layer := clauses.lookup "onlayer"
    zorder := zorder
    transition := clauses.lookup "with" }

/-- The image of a line that changes the picture, and the words after it. A line that ends in a
colon is none: it opens a block. -/
def displayWords? (verb : DisplayVerb) (cs : List Char) : Option (String × List String) := do
  if cs.getLast? = some ':' then none
  else
    let rest ← afterKeyword? verb.word cs
    match words rest with
    | [] => none
    | image :: more =>
      if image = "expression".toList || !isImage image then none
      else some (String.ofList image, more.map String.ofList)

/-- A change of the picture. -/
def display? (verb : DisplayVerb) (cs : List Char) : Option Simple := do
  let (image, ws) ← displayWords? verb cs
  some (.display verb image (← displayOptions? ws))

end NovelScript.Grammar
