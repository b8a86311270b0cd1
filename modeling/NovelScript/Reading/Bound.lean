/-
The bounds of reading a script. The lines are gone through in the order in
which they are read: headers lead into their blocks, lines that are kept as raw
text are not looked at, and a menu is left at the first line that does not
belong there. A reading that stops has already given identities to what it read
before.
-/
import NovelScript.Grammar.Simple
import NovelScript.Reading

namespace NovelScript.Reading

open Grammar

/-- Where a reading ends before all lines are read. -/
structure Stop where
  /-- What there is too much of. -/
  excess : Excess
  /-- The number of the line. -/
  line : Nat
  /-- How many statements are still open there. -/
  within : Nat
deriving DecidableEq, Repr

/-- What is left of the room for nested blocks at the margin. -/
def wholeRoom : Nat := 987

/-- The room that the block of a label or a branch takes. -/
def blockRoom : Nat := 4

/-- The room that the block of a choice takes. -/
def choiceRoom : Nat := 5

/-- How far the bounds are from a place: the room that is left, and how many statements are open. -/
structure Reach where
  /-- The room that is left for nested blocks. -/
  room : Nat := wholeRoom
  /-- How many statements are open. -/
  within : Nat := 0

/-- The reach inside a block that takes a part of the room. -/
def Reach.inside (r : Reach) (part : Nat) : Reach := ⟨r.room - part, r.within + 1⟩

mutual

/-- The first stop in an item. -/
def itemStop? (r : Reach) : Item → Option Stop
  | .plain l block =>
    match firstWord? l.content.toList with
    | some "label" => if (label? (headOf l)).isSome then blockStop? r blockRoom block else none
    | some "menu" => if (menu? (headOf l)).isSome then menuStop? r {} block else none
    | some "elif" | some "else" | some "python" | some "init" => none
    | _ => (lineExcess? l.content.toList).map fun e => ⟨e, l.number, r.within⟩
  | .chain _ block branches => (blockStop? r blockRoom block).or (branchesStop? r branches)

/-- The first stop in several items. -/
def itemsStop? (r : Reach) : List Item → Option Stop
  | [] => none
  | i :: more => (itemStop? r i).or (itemsStop? r more)

/-- The first stop in a block that takes a part of the room. -/
def blockStop? (r : Reach) (part : Nat) : List Item → Option Stop
  | [] => none
  | i :: more =>
    if r.room < part then some ⟨.depth, i.line.number, r.within + 1⟩
    else (itemStop? (r.inside part) i).or (itemsStop? (r.inside part) more)

/-- The first stop in the further branches of a conditional. -/
def branchesStop? (r : Reach) : List (Line × List Item) → Option Stop
  | [] => none
  | (_, block) :: more => (blockStop? r blockRoom block).or (branchesStop? r more)

/-- The first stop in the lines of a menu. -/
def menuStop? (r : Reach) (m : MenuParts) : List Item → Option Stop
  | [] => none
  | .plain l block :: more =>
    match menuLine m l (!block.isEmpty) with
    | .parts m' => menuStop? r m' more
    | .choice text condition =>
      (blockStop? r choiceRoom block).or (menuStop? r { m with choices := m.choices ++
        [.mk (String.ofList text) condition (some l.number) []] } more)
    | .refused => none
  | .chain l block branches :: more =>
    match menuLine m l (!block.isEmpty), branches with
    | .parts m', [] => menuStop? r m' more
    | _, _ => none

end

/-- The first stop in some lines. -/
def linesStop? (ls : List Line) : Option Stop :=
  itemsStop? {} (Item.ofLines opensConditional continuesConditional (ls.dropWhile (0 < ·.depth)))

/-- The numbering when a reading stops: the lines before are read, but the statements that are still
open have no identity yet. -/
def numberingAt (stop : Stop) (numbering : Numbering) (ls : List Line) : Numbering :=
  let (_, after) := (readLines (ls.takeWhile (·.number < stop.line))).run { numbering }
  { numbering with used := max numbering.used (after.numbering.used - stop.within) }

/-- Reads a source as long as it keeps within the bounds. The numbering goes on also if it does
not. -/
def readWithin (tabSize : Int) (numbering : Numbering) (source : String) :
    Except Excess (List Stmt × List Diagnostic) × Numbering :=
  let ls := (Source.scan tabSize source).1
  match linesStop? ls with
  | some stop => (.error stop.excess, numberingAt stop numbering ls)
  | none =>
    let (statements, diagnostics, after) := read tabSize numbering source
    (.ok (statements, diagnostics), after)

end NovelScript.Reading
