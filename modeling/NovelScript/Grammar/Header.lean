/-
Headers of compound statements: labels, menus and conditionals. A header is
looked at without the colon at its end; whether the colon was there is told
beside it, so that a header without one is still a header and is complained
about.

The arguments behind a name are cut at commas if they are balanced. If they are
not, the text behind the name is no list of arguments and the line no header,
whatever it looks like. A condition goes to the end of the header and may be
anything that is not empty. The word for a further branch is looked for with the
same care as that for a conditional: both have to be followed by white space,
while the last resort is the word alone.
-/
import NovelScript.Source.Line
import NovelScript.Text.Bracket
import NovelScript.Text.Lines
import NovelScript.Text.Word

namespace NovelScript.Grammar

open Text

/-- A line without the colon at its end and the white space around it, and whether the colon was
there. -/
def splitHeader (cs : List Char) : List Char × Bool :=
  let s := trimEnd cs
  if s.getLast? = some ':' then (trimEnd s.dropLast, true) else (s, false)

/-- The header of a line, without its colon. -/
def headOf (l : Line) : List Char := (splitHeader l.content.toList).1

/-- Whether a line ends in a colon. -/
def hasColon (l : Line) : Bool := (splitHeader l.content.toList).2

/-- Whether a text is a bracketed list by its looks: its first and last characters are brackets. -/
def isBracketed (cs : List Char) : Bool :=
  2 ≤ cs.length && cs.head? == some '(' && cs.getLast? == some ')'

/-- A list of texts, absent when it is empty. -/
def presentList (items : List (List Char)) : Option (List String) :=
  if items.isEmpty then none else some (items.map String.ofList)

/-- Arguments that may follow a name: none at all, or a bracketed list that is balanced. -/
def arguments? (cs : List Char) : Option (Option (List String)) :=
  if cs.isEmpty then some none
  else if isBracketed cs then (balancedArguments? cs).map presentList
  else none

-- ============================================================= labels

/-- The name and the parameters of a label's header. -/
def label? (head : List Char) : Option (String × Option (List String)) := do
  let rest ← keyword? "label" head
  let (name, rest) ← labelName? rest
  let parameters ← arguments? (trimStart rest)
  some (String.ofList name, parameters)

-- ======================================================== conditionals

/-- What follows a keyword and white space, if anything does. -/
def afterKeyword? (word : String) (cs : List Char) : Option (List Char) :=
  match keyword? word cs with
  | some (c :: rest) => some (c :: rest)
  | _ => none

/-- The condition in the header of a conditional. -/
def ifCondition? (head : List Char) : Option String :=
  (afterKeyword? "if" head).map String.ofList

/-- The condition in the header of a further branch; the inner one is none for the last resort. -/
def branchCondition? (head : List Char) : Option (Option String) :=
  match afterKeyword? "elif" head with
  | some cond => some (some (String.ofList cond))
  | none => if head = "else".toList then some none else none

/-- Whether a line opens a conditional. -/
def opensConditional (l : Line) : Bool := (ifCondition? (headOf l)).isSome

/-- Whether a line continues a conditional. -/
def continuesConditional (l : Line) : Bool := (branchCondition? (headOf l)).isSome

/-- The word that opens a branch. -/
def branchWord (condition : Option String) : String :=
  if condition.isSome then "elif" else "else"

-- ============================================================== menus

/-- The screen in the brackets of a menu's header. -/
def menuScreen? (cs : List Char) : Option String := do
  let rest ← after? "screen".toList (trim cs)
  let rest ← after? ['='] (trimStart rest)
  let rest := trimStart rest
  match literal? rest with
  | some (literal, []) => (unquote? literal).map String.ofList
  | some _ => none
  | none =>
    match name? rest with
    | some (name, []) => some (String.ofList name)
    | _ => none

/-- The name at the front of a menu's header, if there is one. -/
def menuName (cs : List Char) : Option (List Char) × List Char :=
  match (blanks? cs).bind name? with
  | some (name, rest) => (some name, rest)
  | none => (none, cs)

/-- The name and the screen of a menu's header. -/
def menu? (head : List Char) : Option (Option String × Option String) := do
  let rest ← after? "menu".toList head
  let (name, rest) := menuName rest
  let name := name.map String.ofList
  let rest := trimStart rest
  if rest.isEmpty then some (name, none)
  else if isBracketed rest then
    let screen ← menuScreen? rest.tail.dropLast
    some (name, some screen)
  else none

/-- A literal at the front of a choice's header, and its condition. -/
def choice? (head : List Char) : Option (List Char × Option String) := do
  let (literal, rest) ← literal? head
  let text ← unquote? literal
  if rest.isEmpty then some (text, none)
  else
    let rest ← blanks? rest
    let cond ← afterKeyword? "if" rest
    some (text, some (String.ofList cond))

/-- The variable of a menu's set line. -/
def menuSet? (head : List Char) : Option String := do
  let rest ← keyword? "set" head
  match dotted? rest with
  | some (name, []) => some (String.ofList name)
  | _ => none

/-- The speaker and the text of a menu's question. -/
def menuPrompt? (head : List Char) : Option (String × List Char) := do
  let (speaker, rest) ← name? head
  let rest ← blanks? rest
  match literal? rest with
  | some (literal, []) => (unquote? literal).map fun text => (String.ofList speaker, text)
  | _ => none

end NovelScript.Grammar
