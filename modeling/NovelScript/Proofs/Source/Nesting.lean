/-
The block form against the lines it was made from.

# Nothing is lost

The items of a list of lines, read off in order, are these lines
(`linesOfAll_ofLines`). Splitting off the branches of a conditional moves none
of them.

# Where items end

Every item stands as its depth says: what it owns is deeper than its first line,
and what comes after it is not (`Stands`). The second half is a statement about
the lines behind the item, so `Stands` takes them as an argument, and items in a
row stand in front of those that follow. An item is a conditional if and only if
its line opens one, and no branch that could be part of it stands behind it.

# Putting blocks together

Lines behind which the depth falls back have their items to themselves, so the
items of two such lists in a row are the items of the one and of the other. One
thing can spoil it: if the second begins with a branch, a conditional at the end
of the first takes it.
-/
import NovelScript.Proofs.Text.Run
import NovelScript.Source.Block

namespace NovelScript.Item

section

variable (opens isBranch : Line → Bool)

-- ==================================================== nothing is lost

theorem linesOfAll_append (as bs : List Item) :
    linesOfAll (as ++ bs) = linesOfAll as ++ linesOfAll bs := by
  induction as with
  | nil => rfl
  | cons a as ih =>
      rw [List.cons_append, linesOfAll, ih, linesOfAll, List.append_assoc]

/-- Splitting off branches keeps the lines. -/
theorem lines_takeBranches (items : List Item) :
    linesOfBranches (takeBranches isBranch items).1
        ++ linesOfAll (takeBranches isBranch items).2
      = linesOfAll items := by
  induction items with
  | nil => rfl
  | cons i more ih =>
      cases i with
      | plain l block =>
          unfold takeBranches
          split
          · simp only [linesOfBranches, linesOfAll, lines]
            rw [← ih]
            simp only [List.cons_append, List.append_assoc]
          · rfl
      | chain l block branches => rfl

theorem linesOfAll_attach (l : Line) (block rest : List Item) :
    linesOfAll (attach opens isBranch l block rest)
      = l :: linesOfAll block ++ linesOfAll rest := by
  unfold attach
  split
  · simp only [linesOfAll, lines]
    rw [← lines_takeBranches isBranch rest]
    simp only [List.cons_append, List.append_assoc]
  · simp only [linesOfAll, lines]

/-- The items of some lines, read off in order, are these lines. -/
theorem linesOfAll_ofLines (ls : List Line) :
    linesOfAll (ofLines opens isBranch ls) = ls := by
  induction ls using ofLines.induct with
  | case1 => rw [ofLines]; rfl
  | case2 l more ihBlock ihRest =>
      rw [ofLines, linesOfAll_attach, ihBlock, ihRest, List.cons_append,
        List.takeWhile_append_dropWhile]

-- ===================================================== where items end

/-- Lines that are all deeper than a line. -/
def Below (l : Line) (block : List Line) : Prop :=
  ∀ b ∈ block, l.depth < b.depth

/-- Lines of which the first is no deeper than a line. -/
def Leaves (l : Line) (rest : List Line) : Prop :=
  ∀ r ∈ rest.head?, r.depth ≤ l.depth

mutual

/-- An item in front of some lines owns what is deeper and no more, and it
is a conditional if and only if its line opens one. -/
def Stands (rest : List Line) : Item → Prop
  | plain l block =>
    opens l = false ∧ Below l (linesOfAll block) ∧ Leaves l rest
      ∧ StandAll rest block
  | chain l block branches =>
    opens l = true ∧ Below l (linesOfAll block)
      ∧ Leaves l (linesOfBranches branches ++ rest)
      ∧ StandAll (linesOfBranches branches ++ rest) block
      ∧ StandBranches rest branches

/-- Several items in front of some lines do. -/
def StandAll (rest : List Line) : List Item → Prop
  | [] => True
  | i :: more => Stands (linesOfAll more ++ rest) i ∧ StandAll rest more

/-- The branches of a conditional in front of some lines do. -/
def StandBranches (rest : List Line) : List (Line × List Item) → Prop
  | [] => True
  | (l, block) :: more =>
    isBranch l = true ∧ Below l (linesOfAll block)
      ∧ Leaves l (linesOfBranches more ++ rest)
      ∧ StandAll (linesOfBranches more ++ rest) block
      ∧ StandBranches rest more

end

/-- The branches that are split off stand, and so does what follows. -/
theorem standBranches_takeBranches (rest : List Line) (items : List Item)
    (h : StandAll opens isBranch rest items) :
    StandBranches opens isBranch (linesOfAll (takeBranches isBranch items).2 ++ rest)
        (takeBranches isBranch items).1
      ∧ StandAll opens isBranch rest (takeBranches isBranch items).2 := by
  induction items with
  | nil => exact ⟨trivial, trivial⟩
  | cons i more ih =>
      cases i with
      | plain l block =>
          obtain ⟨⟨hopens, hblock, hleaves, hinner⟩, hmore⟩ := h
          obtain ⟨hbranches, hafter⟩ := ih hmore
          unfold takeBranches
          split
          · next hl =>
            rw [← lines_takeBranches isBranch more, List.append_assoc]
              at hleaves hinner
            exact ⟨⟨hl, hblock, hleaves, hinner, hbranches⟩, hafter⟩
          · exact ⟨trivial, ⟨hopens, hblock, hleaves, hinner⟩, hmore⟩
      | chain l block branches => exact ⟨trivial, h⟩

theorem standAll_attach (rest : List Line) {l : Line}
    {block items : List Item} (hbelow : Below l (linesOfAll block))
    (hleaves : Leaves l (linesOfAll items ++ rest))
    (hblock : StandAll opens isBranch (linesOfAll items ++ rest) block)
    (hitems : StandAll opens isBranch rest items) :
    StandAll opens isBranch rest (attach opens isBranch l block items) := by
  unfold attach
  split
  · next hl =>
    obtain ⟨hbranches, hafter⟩ :=
      standBranches_takeBranches opens isBranch rest items hitems
    rw [← lines_takeBranches isBranch items, List.append_assoc]
      at hleaves hblock
    exact ⟨⟨hl, hbelow, hleaves, hblock, hbranches⟩, hafter⟩
  · next hl =>
    exact ⟨⟨by simpa using hl, hbelow, hleaves, hblock⟩, hitems⟩

theorem below_takeWhile (l : Line) (ls : List Line) :
    Below l (ls.takeWhile (l.depth < ·.depth)) := by
  intro b hb
  simpa using List.mem_takeWhile_imp hb

theorem leaves_dropWhile {l : Line} {ls rest : List Line}
    (h : Leaves l rest) :
    Leaves l (ls.dropWhile (l.depth < ·.depth) ++ rest) := by
  intro r hr
  cases hd : ls.dropWhile (l.depth < ·.depth) with
  | nil => rw [hd] at hr; exact h r hr
  | cons b bs =>
      have hb := head_dropWhile (l.depth < ·.depth) ls b (by rw [hd]; rfl)
      rw [hd] at hr
      obtain rfl : b = r := by simpa using hr
      simpa using hb

/-- The items of lines stand in front of whatever is no deeper than any
of the lines. -/
theorem standAll_ofLines (ls : List Line) :
    ∀ rest, (∀ l ∈ ls, Leaves l rest) →
      StandAll opens isBranch rest (ofLines opens isBranch ls) := by
  induction ls using ofLines.induct with
  | case1 => rw [ofLines]; exact fun _ _ => trivial
  | case2 l more ihBlock ihRest =>
      intro rest hrest
      have hl := hrest l List.mem_cons_self
      have hmore : ∀ m ∈ more, Leaves m rest :=
        fun m hm => hrest m (List.mem_cons_of_mem l hm)
      rw [ofLines]
      refine standAll_attach opens isBranch rest ?_ ?_ ?_ ?_
      · rw [linesOfAll_ofLines]
        exact below_takeWhile l more
      · rw [linesOfAll_ofLines]
        exact leaves_dropWhile hl
      · rw [linesOfAll_ofLines]
        -- What follows the block is not deeper than `l`, so it is not
        -- deeper than anything inside the block either.
        refine ihBlock _ fun m hm r hr => ?_
        have hbelow := below_takeWhile l more m hm
        have hleaves : r.depth ≤ l.depth := leaves_dropWhile hl r hr
        omega
      · exact ihRest rest fun m hm =>
          hmore m ((List.dropWhile_sublist _).subset hm)

-- ================================================== putting together

/-- The first line of some items does not continue a conditional. -/
def NoBranch (ls : List Line) : Prop := ∀ l ∈ ls.head?, isBranch l = false

theorem takeBranches_append {items : List Item} {rest : List Line}
    (hrest : NoBranch isBranch rest) :
    takeBranches isBranch (items ++ ofLines opens isBranch rest)
      = ((takeBranches isBranch items).1,
          (takeBranches isBranch items).2 ++ ofLines opens isBranch rest) := by
  induction items with
  | nil =>
      cases rest with
      | nil => rw [ofLines]; rfl
      | cons r rest =>
          have hr : isBranch r = false := hrest r rfl
          rw [ofLines]
          unfold attach
          split
          · rfl
          · simp only [List.nil_append, takeBranches, hr]
            rfl
  | cons i more ih =>
      cases i with
      | plain l block =>
          rw [List.cons_append, takeBranches, takeBranches, ih]
          split <;> rfl
      | chain l block branches => rfl

theorem attach_append {l : Line} {block items : List Item}
    {rest : List Line} (hrest : NoBranch isBranch rest) :
    attach opens isBranch l block (items ++ ofLines opens isBranch rest)
      = attach opens isBranch l block items
          ++ ofLines opens isBranch rest := by
  unfold attach
  rw [takeBranches_append opens isBranch hrest]
  split <;> rfl

/-- The items of lines in a row, where the depth falls back between them
and no conditional goes on. -/
theorem ofLines_append {ls rest : List Line}
    (hleaves : ∀ l ∈ ls, Leaves l rest) (hrest : NoBranch isBranch rest) :
    ofLines opens isBranch (ls ++ rest)
      = ofLines opens isBranch ls ++ ofLines opens isBranch rest := by
  induction ls using ofLines.induct with
  | case1 => rw [List.nil_append, ofLines.eq_1, List.nil_append]
  | case2 l more _ ihRest =>
      have hl : ∀ a ∈ rest.head?, decide (l.depth < a.depth) = false := by
        intro a ha
        have := hleaves l List.mem_cons_self a ha
        simpa using this
      have hmore : ∀ m ∈ more.dropWhile (l.depth < ·.depth),
          Leaves m rest := fun m hm =>
        hleaves m (List.mem_cons_of_mem l
          ((List.dropWhile_sublist _).subset hm))
      rw [List.cons_append, ofLines, ofLines, takeWhile_append_of_stop hl,
        dropWhile_append_of_stop hl, ihRest hmore,
        attach_append opens isBranch hrest]

/-- The items of a line, the block below it, and what follows. -/
theorem ofLines_cons {l : Line} {block rest : List Line}
    (hbelow : Below l block) (hleaves : Leaves l rest) :
    ofLines opens isBranch (l :: (block ++ rest))
      = attach opens isBranch l (ofLines opens isBranch block)
          (ofLines opens isBranch rest) := by
  have hb : ∀ b ∈ block, decide (l.depth < b.depth) = true := by
    intro b hb
    simpa using hbelow b hb
  have hr : ∀ r ∈ rest.head?, decide (l.depth < r.depth) = false := by
    intro r hr
    simpa using hleaves r hr
  rw [ofLines, takeWhile_stop hb hr, dropWhile_stop hb hr]

/-- A line that opens no conditional is an item with its block. -/
theorem ofLines_plain {l : Line} {block : List Line}
    (hopens : opens l = false) (hbelow : Below l block) :
    ofLines opens isBranch (l :: block)
      = [plain l (ofLines opens isBranch block)] := by
  have hleaves : Leaves l [] := fun r hr => by simp at hr
  have h := ofLines_cons opens isBranch hbelow hleaves
  rw [List.append_nil] at h
  rw [h, ofLines.eq_1, attach, hopens]
  rfl

end

-- ============================================================== moving

section

variable (f : Line → Line)

mutual

/-- An item with its lines changed. -/
def map : Item → Item
  | plain l block => plain (f l) (mapAll block)
  | chain l block branches =>
    chain (f l) (mapAll block) (mapBranches branches)

/-- Items with their lines changed. -/
def mapAll : List Item → List Item
  | [] => []
  | i :: more => map i :: mapAll more

/-- Branches with their lines changed. -/
def mapBranches : List (Line × List Item) → List (Line × List Item)
  | [] => []
  | (l, block) :: more => (f l, mapAll block) :: mapBranches more

end

mutual

theorem lines_map : ∀ i, lines (map f i) = (lines i).map f
  | plain l block => by
      rw [map, lines, lines, lines_mapAll block]
      rfl
  | chain l block branches => by
      rw [map, lines, lines, lines_mapAll block, lines_mapBranches branches,
        List.map_append]
      rfl

theorem lines_mapAll : ∀ is, linesOfAll (mapAll f is) = (linesOfAll is).map f
  | [] => rfl
  | i :: more => by
      rw [mapAll, linesOfAll, linesOfAll, lines_map i, lines_mapAll more,
        List.map_append]

theorem lines_mapBranches :
    ∀ bs, linesOfBranches (mapBranches f bs) = (linesOfBranches bs).map f
  | [] => rfl
  | (l, block) :: more => by
      rw [mapBranches, linesOfBranches, linesOfBranches, lines_mapAll block,
        lines_mapBranches more, List.map_append]
      rfl

end

variable {f} {opens isBranch : Line → Bool}

theorem takeBranches_map (hbranch : ∀ l, isBranch (f l) = isBranch l)
    (items : List Item) :
    takeBranches isBranch (mapAll f items)
      = (mapBranches f (takeBranches isBranch items).1,
          mapAll f (takeBranches isBranch items).2) := by
  induction items with
  | nil => rfl
  | cons i more ih =>
      cases i with
      | plain l block =>
          rw [mapAll, map, takeBranches, takeBranches, hbranch, ih]
          split <;> rfl
      | chain l block branches => rfl

/-- A change of lines that keeps their order of depths and what they open
changes the lines of the items and nothing else. -/
theorem ofLines_map (hdepth : ∀ a b, (f a).depth < (f b).depth ↔ a.depth < b.depth)
    (hopens : ∀ l, opens (f l) = opens l)
    (hbranch : ∀ l, isBranch (f l) = isBranch l) (ls : List Line) :
    ofLines opens isBranch (ls.map f)
      = mapAll f (ofLines opens isBranch ls) := by
  induction ls using ofLines.induct with
  | case1 => rw [List.map_nil, ofLines.eq_1]; rfl
  | case2 l more ihBlock ihRest =>
      have hlt : (fun m : Line => decide ((f l).depth < m.depth)) ∘ f
          = fun m => decide (l.depth < m.depth) := by
        funext m
        simp only [Function.comp_apply, hdepth]
      rw [List.map_cons, ofLines, ofLines, List.takeWhile_map,
        List.dropWhile_map, hlt, ihBlock, ihRest]
      unfold attach
      rw [hopens, takeBranches_map hbranch]
      split <;> rfl

end

end NovelScript.Item
