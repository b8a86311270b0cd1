/-
The block form of a script: every line with the lines below it that are
deeper, and every conditional with the branches that follow it at its own
depth. Nothing is lost: the items of a list of lines, read off in order, are
these lines.
-/
import NovelScript.Source.Line
import NovelScript.Text.Lines

namespace NovelScript

/-- A line with its block, or a conditional with its block and its further branches. -/
inductive Item where
  /-- A line and the deeper lines below it. -/
  | plain (line : Line) (block : List Item)
  /-- A line that opens a conditional, the deeper lines below it, and the branches after it. -/
  | chain (line : Line) (block : List Item) (branches : List (Line × List Item))

namespace Item

/-- The first line of an item. -/
def line : Item → Line
  | plain l _ | chain l _ _ => l

mutual

/-- The lines of an item, in order. -/
def lines : Item → List Line
  | plain l block => l :: linesOfAll block
  | chain l block branches => l :: linesOfAll block ++ linesOfBranches branches

/-- The lines of several items, in order. -/
def linesOfAll : List Item → List Line
  | [] => []
  | i :: more => lines i ++ linesOfAll more

/-- The lines of several branches, in order. -/
def linesOfBranches : List (Line × List Item) → List Line
  | [] => []
  | (l, block) :: more => l :: linesOfAll block ++ linesOfBranches more

end

/-- Splits off the items at the front that continue a conditional. -/
def takeBranches (isBranch : Line → Bool) : List Item → List (Line × List Item) × List Item
  | plain l block :: more =>
    if isBranch l then
      let (branches, rest) := takeBranches isBranch more
      ((l, block) :: branches, rest)
    else ([], plain l block :: more)
  | items => ([], items)

/-- Puts a line and its block before the items that follow it. -/
def attach (opens isBranch : Line → Bool) (l : Line) (block rest : List Item) : List Item :=
  if opens l then
    let (branches, after) := takeBranches isBranch rest
    chain l block branches :: after
  else plain l block :: rest

/-- The items of a list of lines. `opens` tells the lines that open a conditional, `isBranch` those
that continue one. -/
def ofLines (opens isBranch : Line → Bool) (ls : List Line) : List Item :=
  match ls with
  | [] => []
  | l :: more =>
    attach opens isBranch l (ofLines opens isBranch (more.takeWhile (l.depth < ·.depth)))
      (ofLines opens isBranch (more.dropWhile (l.depth < ·.depth)))
termination_by ls.length
decreasing_by
  · have := (List.takeWhile_sublist (p := (l.depth < ·.depth)) (l := more)).length_le
    simp only [List.length_cons]; omega
  · have := (List.dropWhile_sublist (p := (l.depth < ·.depth)) (l := more)).length_le
    simp only [List.length_cons]; omega

end Item

/-- Lines as one text, indented against the shallowest of them. -/
def Line.relativeText (ls : List Line) : String :=
  let base := Text.least (ls.map Line.indent)
  Text.joinLines (ls.map fun l => String.ofList (List.replicate (l.indent - base) ' ') ++ l.content)

end NovelScript
