/-
How deep the block form is. No line of a text is more than one block deeper than
the line before it (`Climbs`), so the lines right below a line are one block
deeper than it, never more: every item of a block has the same depth, and the
block of an item is one deeper than the item. `AllAt` says so for a whole block,
down to its last line.

A line takes the deeper lines right behind it for its block, and what follows
them goes on at its own depth. `AllAt` is shown by induction along this, with
two conditions (`allAt_ofLines`): no line is less deep than the block that is
looked at, and its first line is no deeper. Inside a block the second condition
is what `Climbs` gives for the line right behind the header.

The branches of a conditional are as deep as the line that opens it, and
splitting them off from the items behind it changes no depth
(`branchesAt_takeBranches`). Lines above the first one at the margin are the
only ones without a place; they are no part of any item.
-/
import NovelScript.Proofs.Source.Nesting
import NovelScript.Proofs.Source.Scan

namespace NovelScript.Item

open Source

mutual

/-- An item at a depth: its line, and its block one deeper. The branches of a
conditional are as deep as the line that opens it. -/
def At (n : Nat) : Item → Prop
  | plain l block => l.depth = n ∧ AllAt (n + 1) block
  | chain l block branches =>
    l.depth = n ∧ AllAt (n + 1) block ∧ BranchesAt n branches

/-- Several items at a depth. -/
def AllAt (n : Nat) : List Item → Prop
  | [] => True
  | i :: more => At n i ∧ AllAt n more

/-- The branches of a conditional at a depth. -/
def BranchesAt (n : Nat) : List (Line × List Item) → Prop
  | [] => True
  | (l, block) :: more => l.depth = n ∧ AllAt (n + 1) block ∧ BranchesAt n more

end

mutual

/-- No line of an item is less deep than it. -/
theorem le_depth_of_at {n : Nat} : ∀ {i : Item}, At n i →
    ∀ l ∈ lines i, n ≤ l.depth
  | plain l block, ⟨hl, hblock⟩ => by
      refine List.forall_mem_cons.mpr ⟨hl.ge, fun b hb => ?_⟩
      have := le_depth_of_allAt hblock b hb
      omega
  | chain l block branches, ⟨hl, hblock, hbranches⟩ => by
      refine List.forall_mem_cons.mpr ⟨hl.ge, fun b hb => ?_⟩
      cases List.mem_append.mp hb with
      | inl hb =>
          have := le_depth_of_allAt hblock b hb
          omega
      | inr hb => exact le_depth_of_branchesAt hbranches b hb

theorem le_depth_of_allAt {n : Nat} : ∀ {items : List Item}, AllAt n items →
    ∀ l ∈ linesOfAll items, n ≤ l.depth
  | [], _ => by simp [linesOfAll]
  | i :: more, ⟨hi, hmore⟩ =>
      List.forall_mem_append.mpr ⟨le_depth_of_at hi, le_depth_of_allAt hmore⟩

theorem le_depth_of_branchesAt {n : Nat} :
    ∀ {branches : List (Line × List Item)}, BranchesAt n branches →
      ∀ l ∈ linesOfBranches branches, n ≤ l.depth
  | [], _ => by simp [linesOfBranches]
  | (l, block) :: more, ⟨hl, hblock, hmore⟩ => by
      refine List.forall_mem_cons.mpr ⟨hl.ge, fun b hb => ?_⟩
      cases List.mem_append.mp hb with
      | inl hb =>
          have := le_depth_of_allAt hblock b hb
          omega
      | inr hb => exact le_depth_of_branchesAt hmore b hb

end

section

variable (opens isBranch : Line → Bool)

/-- The branches that are split off are as deep as the items they were. -/
theorem branchesAt_takeBranches {n : Nat} {items : List Item}
    (h : AllAt n items) :
    BranchesAt n (takeBranches isBranch items).1
      ∧ AllAt n (takeBranches isBranch items).2 := by
  induction items with
  | nil => exact ⟨trivial, trivial⟩
  | cons i more ih =>
      cases i with
      | plain l block =>
          obtain ⟨⟨hl, hblock⟩, hmore⟩ := h
          obtain ⟨hbranches, hafter⟩ := ih hmore
          unfold takeBranches
          split
          · exact ⟨⟨hl, hblock, hbranches⟩, hafter⟩
          · exact ⟨trivial, ⟨hl, hblock⟩, hmore⟩
      | chain l block branches => exact ⟨trivial, h⟩

theorem allAt_attach {n : Nat} {l : Line} {block items : List Item}
    (hl : l.depth = n) (hblock : AllAt (n + 1) block) (hitems : AllAt n items) :
    AllAt n (attach opens isBranch l block items) := by
  unfold attach
  split
  · obtain ⟨hbranches, hafter⟩ := branchesAt_takeBranches isBranch hitems
    exact ⟨⟨hl, hblock, hbranches⟩, hafter⟩
  · exact ⟨⟨hl, hblock⟩, hitems⟩

/-- The items of lines none of which is less deep than `n`, and the first of
which is no deeper, are all at `n`. -/
theorem allAt_ofLines {ls : List Line} :
    ∀ {n : Nat}, (∃ depth, Climbs depth ls) → (∀ l ∈ ls, n ≤ l.depth) →
      (∀ l ∈ ls.head?, l.depth ≤ n) → AllAt n (ofLines opens isBranch ls) := by
  induction ls using ofLines.induct with
  | case1 =>
      intro n _ _ _
      rw [ofLines]
      trivial
  | case2 l more ihBlock ihRest =>
      intro n hclimbs hle hhead
      obtain ⟨depth, -, hmore⟩ := hclimbs
      have hl : l.depth = n :=
        le_antisymm (hhead l rfl) (hle l List.mem_cons_self)
      rw [ofLines]
      apply allAt_attach opens isBranch hl
      · -- The line right behind `l` is at most one block deeper.
        have hblock := hmore.of_isPrefix
          (List.takeWhile_prefix (p := (l.depth < ·.depth)))
        apply ihBlock ⟨l.depth, hblock⟩
        · intro b hb
          have : l.depth < b.depth := below_takeWhile l more b hb
          omega
        · intro b hb
          have := hblock.head b hb
          omega
      · apply ihRest (hmore.of_isSuffix (List.dropWhile_suffix _))
        · intro b hb
          exact hle b (List.mem_cons_of_mem l
            ((List.dropWhile_sublist _).subset hb))
        · intro b hb
          have hrest := head_dropWhile (l.depth < ·.depth) more b hb
          have : b.depth ≤ l.depth := by simpa using hrest
          omega

/-- The items of lines from the first one at the margin on are at the margin. -/
theorem allAt_margin {ls : List Line} {depth : Nat} (h : Climbs depth ls) :
    AllAt 0 (ofLines opens isBranch (ls.dropWhile (0 < ·.depth))) := by
  apply allAt_ofLines opens isBranch (h.of_isSuffix (List.dropWhile_suffix _))
  · exact fun l _ => Nat.zero_le l.depth
  · intro l hl
    have := head_dropWhile (0 < ·.depth) ls l hl
    simpa using this

end

end NovelScript.Item
