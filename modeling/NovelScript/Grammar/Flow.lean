/-
Lines that move play around: jumps, calls and returns. A line is looked at
without the white space at its end.
-/
import NovelScript.Grammar.Header
import NovelScript.Script

namespace NovelScript.Grammar

open Text

/-- A jump. -/
def jump? (cs : List Char) : Option Simple := do
  let rest ← keyword? "jump" cs
  match afterKeyword? "expression" rest with
  | some target => some (.jump (String.ofList target) (some true))
  | none =>
    match labelName? rest with
    | some (target, []) => some (.jump (String.ofList target) none)
    | _ => none

/-- Splits the label to come back to off the end of a call. -/
def fromClause (cs : List Char) : List Char × Option String :=
  let back := cs.reverse
  let label := (back.takeWhile fun c => !isBlank c).reverse
  let split : Option (List Char) := do
    let rest ← blanks? (back.dropWhile fun c => !isBlank c)
    let rest ← after? "from".toList.reverse rest
    let rest ← blanks? rest
    match dotted? label with
    | some (_, []) => some rest.reverse
    | _ => none
  match split with
  | some rest => (rest, some (String.ofList label))
  | none => (cs, none)

/-- What follows the word `pass` and white space, if it opens a bracket. -/
def passArguments? (cs : List Char) : Option (List Char) :=
  match (after? "pass".toList cs).map trimStart with
  | some ('(' :: rest) => some ('(' :: rest)
  | _ => none

/-- The first place where white space is followed by the word `pass` and a bracket: the text before
it (after what `before` holds in reverse) and the bracket with all behind it. -/
def passClause? (before : List Char) : List Char → Option (List Char × List Char)
  | [] => none
  | c :: cs =>
    match (blanks? (c :: cs)).bind passArguments? with
    | some arguments => some (before.reverse, arguments)
    | none => passClause? (c :: before) cs

/-- A call of the label that an expression gives. -/
def callExpression? (rest : List Char) (label : Option String) : Option Simple :=
  match if rest.getLast? = some ')' then passClause? [] rest else none with
  | some (target, brackets) =>
    (balancedArguments? brackets).map fun arguments =>
      .call ⟨String.ofList (trimEnd target), presentList arguments, some true, label⟩
  | none => some (.call ⟨String.ofList rest, none, some true, label⟩)

/-- A call of a named label. -/
def callLabel? (rest : List Char) (label : Option String) : Option Simple := do
  let (target, rest) ← labelName? rest
  let arguments ← arguments? (trimStart rest)
  some (.call ⟨String.ofList target, arguments, none, label⟩)

/-- A call. -/
def call? (cs : List Char) : Option Simple := do
  let rest ← afterKeyword? "call" cs
  match afterKeyword? "expression" rest with
  | some rest =>
    let (rest, label) := fromClause rest
    callExpression? rest label
  | none =>
    let (rest, label) := fromClause rest
    callLabel? rest label

/-- A return. -/
def giveBack? (cs : List Char) : Option Simple := do
  let rest ← after? "return".toList cs
  if rest.isEmpty then some (.giveBack none)
  else
    let value ← blanks? rest
    some (.giveBack (some (String.ofList value)))

/-- A transition. -/
def transition? (cs : List Char) : Option Simple :=
  (afterKeyword? "with" cs).map fun name => .transition (String.ofList name)

end NovelScript.Grammar
