/-
How one list of lines becomes another. The longest run of lines that both lists
have stays, and what stands before and behind it is compared in the same way;
of several longest runs the one that comes first in the old list is taken, and
of several places in the new list the first. In a long list a line that is
found very often does not begin a run, because it says little about where it
belongs; but a run is continued over it.
-/
namespace NovelScript.Changes

/-- A piece of a comparison. -/
inductive Edit where
  /-- Lines that stay. -/
  | keep (lines : List String)
  /-- Lines that go, and lines that come in their place. -/
  | change (old new : List String)
deriving DecidableEq, Repr

/-- A line of the new list, and whether it may begin a run. -/
abbrev Mark := String × Bool

/-- From how many lines on frequent ones do not begin a run. -/
def longList : Nat := 200

/-- Whether a line is found very often in a list of lines. -/
def isFrequent (lines : List String) (line : String) : Bool :=
  longList ≤ lines.length && lines.length / 100 + 1 < lines.count line

/-- The lines of the new list with their marks. -/
def marked (lines : List String) : List Mark := lines.map fun l => (l, !isFrequent lines l)

-- =============================================================== runs

/-- A run of lines that both lists have. -/
structure Run where
  /-- How many lines stand before it in the old list. -/
  old : Nat
  /-- How many lines stand before it in the new list. -/
  new : Nat
  /-- How many lines it has. -/
  size : Nat
deriving DecidableEq, Repr

/-- For each line of the new list, the length of the run that ends with it and with a given line of
the old list. `before` has these lengths for the line above the given one, and `corner` the one
that lies before its first. -/
def runLengths (line : String) (corner : Nat) : List Mark → List Nat → List Nat
  | [], _ => []
  | (other, begins) :: more, before =>
    (if line = other && begins then corner + 1 else 0) ::
      runLengths line (before.headD 0) more before.tail

/-- The longer one of a run and the first longest that ends with the old line number `i`. -/
def longer (i : Nat) (best : Run) (j : Nat) : List Nat → Run
  | [] => best
  | n :: more =>
    longer i (if best.size < n then ⟨i + 1 - n, j + 1 - n, n⟩ else best) (j + 1) more

/-- The longest run, from the old line number `i` on. -/
def longestFrom (new : List Mark) (i : Nat) (before : List Nat) (best : Run) : List String → Run
  | [] => best
  | line :: more =>
    let lengths := runLengths line 0 new before
    longestFrom new (i + 1) lengths (longer i best 0 lengths) more

/-- How many lines two lists have in common at their front. -/
def commonFront : List String → List String → Nat
  | a :: as, b :: bs => if a = b then commonFront as bs + 1 else 0
  | _, _ => 0

/-- A run with the lines around it that both lists have as well. -/
def Run.widen (old new : List String) (r : Run) : Run :=
  let back := commonFront (old.take r.old).reverse (new.take r.new).reverse
  let on := commonFront (old.drop (r.old + r.size)) (new.drop (r.new + r.size))
  ⟨r.old - back, r.new - back, back + r.size + on⟩

/-- The run that stays. -/
def longestRun (old : List String) (new : List Mark) : Run :=
  (longestFrom new 0 [] ⟨0, 0, 0⟩ old).widen old (new.map (·.1))

-- ============================================================== edits

/-- Two lists without a run in common. -/
def replaced (old new : List String) : List Edit :=
  if old.isEmpty && new.isEmpty then [] else [.change old new]

/-- The pieces of a comparison. -/
def pieces (old : List String) (new : List Mark) : List Edit :=
  match longestRun old new with
  | ⟨i, j, size⟩ =>
    if 0 < size ∧ i + size ≤ old.length then
      pieces (old.take i) (new.take j) ++
        .keep ((old.drop i).take size) :: pieces (old.drop (i + size)) (new.drop (j + size))
    else replaced old (new.map (·.1))
termination_by old.length
decreasing_by
  · simp only [List.length_take]; omega
  · simp only [List.length_drop]; omega

/-- Pieces in which no two neighbours stay. -/
def merged : List Edit → List Edit
  | .keep a :: more =>
    match merged more with
    | .keep b :: rest => .keep (a ++ b) :: rest
    | rest => .keep a :: rest
  | e :: more => e :: merged more
  | [] => []

/-- How one list of lines becomes another. -/
def edits (old new : List String) : List Edit := merged (pieces old (marked new))

end NovelScript.Changes
