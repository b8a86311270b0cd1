/-
Depths and dedents in closed form. The scanner keeps the widths of the open
blocks; this file says what they are, from the widths of the lines alone. Look
back from a line: the blocks that are still open are the least widths of the
last line, of the last two, of the last three and so on, and the margin
(`suffixMinima`). So the depth of a line is the number of positive widths among
these suffix minima, however irregular the indentation, and a dedent is odd if
and only if the width that it falls back to is none of them.

# One step

Entering a line cuts the minima off at its width and puts its own in front
(`Opened.enter`). That is a statement about two lists, the widths that the
scanner keeps and the minima of the widths so far; both are in order, so it is
enough to compare what is in them.

# The run

The lines are taken one after the other, with the widths of the lines in front
of them for the invariant (`Opened`). `ClosedForm` collects what comes out, for
lines and complaints; a line is named there by what stands in front of it, since
the same width may come again. What a dedent complains about is a width that is
open around the line and one that was closed, and both are told by the minima:
the greatest that is below the width of the line, and the least of those above
it.
-/
import Mathlib.Data.Finset.Card
import Mathlib.Order.Bounds.Basic
import NovelScript.Proofs.Source.Rows
import NovelScript.Proofs.Text.Lines

namespace NovelScript.Source

open Text

-- ======================================================= suffix minima

/-- The least of some widths, the least of all but the first, and so on down
to the last one. -/
def suffixMinima : List Nat → List Nat
  | [] => []
  | w :: ws => least (w :: ws) :: suffixMinima ws

/-- How many blocks are open behind lines of some widths: one for every
positive suffix minimum. -/
def blocksOpen (ws : List Nat) : Nat :=
  {v ∈ (suffixMinima ws).toFinset | 0 < v}.card

/-- A width that is open behind lines of some widths: the margin, or a suffix
minimum. -/
def IsOpen (ws : List Nat) (v : Nat) : Prop := v = 0 ∨ v ∈ suffixMinima ws

/-- One more width at the end bounds all minima and is the last of them. -/
theorem suffixMinima_concat (ws : List Nat) (w : Nat) :
    suffixMinima (ws ++ [w]) = (suffixMinima ws).map (min · w) ++ [w] := by
  induction ws with
  | nil => rfl
  | cons v ws ih =>
      have hleast : least (v :: (ws ++ [w])) = min (least (v :: ws)) w :=
        List.foldl_append
      rw [List.cons_append, suffixMinima, hleast, ih, suffixMinima,
        List.map_cons, List.cons_append]

theorem mem_suffixMinima_concat {ws : List Nat} {w v : Nat} :
    v ∈ suffixMinima (ws ++ [w]) ↔ v = w ∨ v ∈ suffixMinima ws ∧ v < w := by
  rw [suffixMinima_concat, List.mem_append, List.mem_map,
    List.mem_singleton]
  constructor
  · intro h
    cases h with
    | inl h =>
        obtain ⟨u, hu, rfl⟩ := h
        by_cases huw : u < w
        · rw [Nat.min_eq_left (Nat.le_of_lt huw)]
          exact Or.inr ⟨hu, huw⟩
        · exact Or.inl (Nat.min_eq_right (by omega))
    | inr h => exact Or.inl h
  · intro h
    cases h with
    | inl h => exact Or.inr h
    | inr h => exact Or.inl ⟨v, h.1, Nat.min_eq_left (Nat.le_of_lt h.2)⟩

-- ============================================================ one line

/-- The widths of the open blocks behind lines of some widths: they are in
order, and they are the margin, the minima and nothing else. -/
structure Opened (ws levels : List Nat) : Prop where
  /-- They are in order. -/
  ordered : Levels levels
  /-- They are the widths that are open. -/
  mem_iff : ∀ v, v ∈ levels ↔ IsOpen ws v
  /-- The last line stands in the innermost block. -/
  last : ∀ w ∈ ws.getLast?, levels.head? = some w

theorem opened_margin : Opened [] [0] where
  ordered := levels_margin
  mem_iff v := by simp [IsOpen, suffixMinima]
  last := by simp

/-- The blocks that a line leaves open are those that are no wider. -/
theorem Levels.mem_dropWhile {levels : List Nat} (h : Levels levels)
    {w v : Nat} : v ∈ levels.dropWhile (w < ·) ↔ v ∈ levels ∧ v ≤ w := by
  have hdec := h.decreasing
  have hsplit := List.takeWhile_append_dropWhile (p := (w < ·)) (l := levels)
  obtain ⟨hkept, hhead⟩ := h.dropWhile w
  constructor
  · intro hv
    refine ⟨(List.dropWhile_sublist _).subset hv, ?_⟩
    obtain ⟨u, more, hu⟩ := List.exists_cons_of_ne_nil hkept.ne_nil
    have huw : u ≤ w := hhead u (by rw [hu]; rfl)
    have hkdec := hkept.decreasing
    rw [hu] at hv hkdec
    cases List.mem_cons.mp hv with
    | inl heq => omega
    | inr hmore =>
        have := (List.pairwise_cons.mp hkdec).1 v hmore
        omega
  · intro hv
    rw [← hsplit] at hv
    cases List.mem_append.mp hv.1 with
    | inl hwide =>
        have := List.mem_takeWhile_imp hwide
        simp only [decide_eq_true_eq] at this
        omega
    | inr hkeep => exact hkeep

/-- The innermost block is the widest. -/
theorem Levels.le_head {levels : List Nat} (h : Levels levels) {u v : Nat}
    (hu : levels.head? = some u) (hv : v ∈ levels) : v ≤ u := by
  obtain ⟨more, rfl⟩ := List.head?_eq_some_iff.mp hu
  cases List.mem_cons.mp hv with
  | inl heq => omega
  | inr hmore =>
      have := (List.pairwise_cons.mp h.decreasing).1 v hmore
      omega

/-- Entering a line opens its width and closes those that are wider. -/
theorem Opened.enter {ws levels : List Nat} (h : Opened ws levels) (w : Nat) :
    Opened (ws ++ [w]) (enter levels w).1 := by
  obtain ⟨hlevels, hhead, -⟩ := enter_spec h.ordered w
  refine ⟨hlevels, fun v => ?_, fun u hu => ?_⟩
  · have hmem : v ∈ (Source.enter levels w).1
        ↔ v = w ∨ v ∈ levels ∧ v < w := by
      have hdrop := h.ordered.mem_dropWhile (w := w) (v := v)
      have hin : (levels.dropWhile (w < ·)).head? = some w → w ∈ levels :=
        fun hw => (h.ordered.mem_dropWhile.mp (List.mem_of_head? hw)).1
      rw [enter_eq]
      split
      · next hw =>
        have := hin hw
        grind
      · grind
    rw [hmem, h.mem_iff v]
    unfold IsOpen
    rw [mem_suffixMinima_concat]
    grind
  · rw [List.getLast?_append, List.getLast?_singleton, Option.some_or] at hu
    rw [hhead, Option.some.inj hu]

/-- The number of open blocks is that of the positive minima. -/
theorem Opened.length_eq {ws levels : List Nat} (h : Opened ws levels) :
    levels.length - 1 = blocksOpen ws := by
  have hnodup : levels.Nodup := h.ordered.decreasing.imp fun hgt => by omega
  have hset : {v ∈ (suffixMinima ws).toFinset | 0 < v}
      = levels.toFinset.erase 0 := by
    ext v
    rw [Finset.mem_filter, List.mem_toFinset, Finset.mem_erase,
      List.mem_toFinset, h.mem_iff]
    unfold IsOpen
    grind
  have hzero : 0 ∈ levels.toFinset :=
    List.mem_toFinset.mpr (List.mem_of_getLast? h.ordered.margin)
  unfold blocksOpen
  rw [hset, Finset.card_erase_of_mem hzero,
    List.toFinset_card_of_nodup hnodup]

/-- The widths that are closed end in the least of them. -/
theorem Levels.closed_least {levels : List Nat} (h : Levels levels)
    {w c : Nat} (hc : (levels.takeWhile (w < ·)).getLast? = some c) :
    IsLeast {v | v ∈ levels ∧ w < v} c := by
  have hsplit := List.takeWhile_append_dropWhile (p := (w < ·)) (l := levels)
  have hcmem := List.mem_of_getLast? hc
  have hcw := List.mem_takeWhile_imp hcmem
  simp only [decide_eq_true_eq] at hcw
  refine ⟨⟨(List.takeWhile_sublist _).subset hcmem, hcw⟩, fun v hv => ?_⟩
  obtain ⟨hvl, hvw⟩ := hv
  have hvtake : v ∈ levels.takeWhile (w < ·) := by
    rw [← hsplit] at hvl
    cases List.mem_append.mp hvl with
    | inl htake => exact htake
    | inr hdrop =>
        have := (h.mem_dropWhile.mp hdrop).2
        omega
  obtain ⟨front, hfront⟩ := List.getLast?_eq_some_iff.mp hc
  rw [hfront] at hvtake
  have hdec := h.decreasing.sublist (List.takeWhile_sublist (w < ·))
  rw [hfront] at hdec
  cases List.mem_append.mp hvtake with
  | inl hin =>
      have := (List.pairwise_append.mp hdec).2.2 v hin c List.mem_cons_self
      omega
  | inr hin => exact Nat.le_of_eq (List.mem_singleton.mp hin).symm

/-- The widths that are kept begin with the greatest of them. -/
theorem Levels.kept_greatest {levels : List Nat} (h : Levels levels)
    {w : Nat} (hw : w ∉ levels) :
    IsGreatest {v | v ∈ levels ∧ v < w}
      ((levels.dropWhile (w < ·)).headD 0) := by
  obtain ⟨hkept, -⟩ := h.dropWhile w
  obtain ⟨u, more, hu⟩ := List.exists_cons_of_ne_nil hkept.ne_nil
  have humem : u ∈ levels.dropWhile (w < ·) := by
    rw [hu]
    exact List.mem_cons_self
  obtain ⟨hul, huw⟩ := h.mem_dropWhile.mp humem
  have hne : u ≠ w := fun heq => hw (heq ▸ hul)
  rw [hu, List.headD_cons]
  refine ⟨⟨hul, by omega⟩, fun v hv => ?_⟩
  have hvd := h.mem_dropWhile.mpr ⟨hv.1, Nat.le_of_lt hv.2⟩
  exact hkept.le_head (by rw [hu]; rfl) hvd

/-- A line is odd if it closes a block and stands in none that was open; and
then the two widths that are told are those around its own. -/
theorem enter_odd {levels : List Nat} (h : Levels levels) {w u : Nat}
    (hu : levels.head? = some u) :
    ((enter levels w).2.isSome = true ↔ w < u ∧ w ∉ levels)
      ∧ ∀ outer closed, (enter levels w).2 = some (outer, closed) →
        IsGreatest {v | v ∈ levels ∧ v < w} outer
          ∧ IsLeast {v | v ∈ levels ∧ w < v} closed := by
  -- The levels fall towards the margin. So the width is one of them exactly if
  -- it is what is left on top when all wider ones are taken away.
  have hhead : (levels.dropWhile (w < ·)).head? = some w ↔ w ∈ levels := by
    constructor
    · exact fun hw => (h.mem_dropWhile.mp (List.mem_of_head? hw)).1
    · intro hw
      obtain ⟨hkept, hle⟩ := h.dropWhile w
      obtain ⟨v, more, hv⟩ := List.exists_cons_of_ne_nil hkept.ne_nil
      have hvw : v ≤ w := hle v (by rw [hv]; rfl)
      have hwv : w ≤ v := hkept.le_head (by rw [hv]; rfl)
        (h.mem_dropWhile.mpr ⟨hw, Nat.le_refl w⟩)
      rw [hv, List.head?_cons, Nat.le_antisymm hvw hwv]
  -- And something was taken away exactly if the top was wider.
  have hclosed : (levels.takeWhile (w < ·)).getLast? = none ↔ ¬ w < u := by
    obtain ⟨more, rfl⟩ := List.head?_eq_some_iff.mp hu
    rw [List.getLast?_eq_none_iff, List.takeWhile_cons]
    by_cases hwu : w < u
    · simp [hwu]
    · simp [hwu]
  unfold enter
  simp only
  by_cases hw : w ∈ levels
  · rw [if_pos (hhead.mpr hw)]
    simp [hw]
  · rw [if_neg fun hin => hw (hhead.mp hin)]
    cases hc : (levels.takeWhile (w < ·)).getLast? with
    | none => simp [hclosed.mp hc]
    | some c =>
        have hwu : w < u := by
          by_contra hnot
          rw [hclosed.mpr hnot] at hc
          cases hc
        refine ⟨by simp [hwu, hw], fun outer closed heq => ?_⟩
        obtain ⟨rfl, rfl⟩ := Prod.mk.inj (Option.some.inj heq)
        exact ⟨h.kept_greatest hw, h.closed_least hc⟩

-- =========================================================== many lines

section

variable (tabSize : Int)

/-- Behind some lines the blocks are open that their widths say. -/
theorem Opened.levelsAfter {ws levels : List Nat} (h : Opened ws levels)
    (rs : List (Nat × List Char)) :
    Opened (ws ++ rs.map fun r => rawWidth tabSize r.2)
      (levelsAfter tabSize levels rs) := by
  induction rs generalizing ws levels with
  | nil =>
      rw [List.map_nil, List.append_nil]
      exact h
  | cons r rs ih =>
      rw [List.map_cons, List.append_cons]
      exact ih (h.enter _)

theorem map_indent_scanNumbered (levels : List Nat)
    (rs : List (Nat × List Char)) :
    (scanNumbered tabSize levels rs).1.map Line.indent
      = rs.map fun r => rawWidth tabSize r.2 := by
  induction rs generalizing levels with
  | nil => rfl
  | cons r rs ih => exact congrArg (rawWidth tabSize r.2 :: ·) (ih _)

theorem map_indent_scanFrom (levels : List Nat) (number : Nat)
    (raws : List (List Char)) :
    (scanFrom tabSize levels number raws).1.map Line.indent
      = (raws.filter isInked).map (rawWidth tabSize) := by
  rw [scanFrom_numbered, map_indent_scanNumbered, ← map_snd_numbered number,
    List.map_map]
  rfl

/-- Every line that is handed on stands between the others as it does in the
text, inside the blocks that those before it leave open. -/
theorem exists_split {levels : List Nat} {rs : List (Nat × List Char)}
    {front back : List Line} {l : Line}
    (h : (scanNumbered tabSize levels rs).1 = front ++ l :: back) :
    ∃ as r bs, rs = as ++ r :: bs
      ∧ (scanNumbered tabSize levels as).1 = front
      ∧ lineOf tabSize (levelsAfter tabSize levels as) r.1 r.2 = l := by
  induction front generalizing levels rs with
  | nil =>
      cases rs with
      | nil => cases h
      | cons r rs => exact ⟨[], r, rs, rfl, rfl, (List.cons.inj h).1⟩
  | cons f front ih =>
      cases rs with
      | nil => cases h
      | cons r rs =>
          rw [scanNumbered, List.cons_append] at h
          obtain ⟨hf, hmore⟩ := List.cons.inj h
          obtain ⟨as, q, bs, hrs, hfront, hl⟩ := ih hmore
          refine ⟨r :: as, q, bs, congrArg (r :: ·) hrs, ?_, hl⟩
          rw [scanNumbered, hf, hfront]

/-- Complaints are those about each line, inside the blocks that the lines
before it leave open. -/
theorem mem_found_scanNumbered {levels : List Nat}
    {rs : List (Nat × List Char)} {d : Diagnostic} :
    d ∈ (scanNumbered tabSize levels rs).2 ↔ ∃ as r bs, rs = as ++ r :: bs
      ∧ d ∈ lineFound tabSize (levelsAfter tabSize levels as) r.1 r.2 := by
  constructor
  · intro hd
    induction rs generalizing levels with
    | nil => cases hd
    | cons r rs ih =>
        rw [scanNumbered] at hd
        cases List.mem_append.mp hd with
        | inl hd => exact ⟨[], r, rs, rfl, hd⟩
        | inr hd =>
            obtain ⟨as, q, bs, hrs, hq⟩ := ih hd
            exact ⟨r :: as, q, bs, congrArg (r :: ·) hrs, hq⟩
  · intro h
    obtain ⟨as, r, bs, rfl, hd⟩ := h
    rw [scanNumbered_append]
    exact List.mem_append_right _ (List.mem_append_left _ hd)

/-- A complaint is about the line that stands where it arose. -/
theorem exists_line_of_mem_found {levels : List Nat}
    {rs : List (Nat × List Char)} {d : Diagnostic}
    (h : d ∈ (scanNumbered tabSize levels rs).2) :
    ∃ (as : List (Nat × List Char)) (r : Nat × List Char) (back : List Line),
      (scanNumbered tabSize levels rs).1 = (scanNumbered tabSize levels as).1
          ++ lineOf tabSize (levelsAfter tabSize levels as) r.1 r.2 :: back
        ∧ d ∈ lineFound tabSize (levelsAfter tabSize levels as) r.1 r.2 := by
  obtain ⟨as, r, bs, rfl, hfound⟩ := (mem_found_scanNumbered tabSize).mp h
  rw [scanNumbered_append, scanNumbered]
  exact ⟨as, r, _, rfl, hfound⟩

/-- No line is complained about twice, and complaints come in the order of
the lines. -/
theorem sublist_found_scanNumbered (levels : List Nat)
    (rs : List (Nat × List Char)) :
    ((scanNumbered tabSize levels rs).2.map Diagnostic.line).Sublist
      (rs.map Prod.fst) := by
  induction rs generalizing levels with
  | nil => exact .slnil
  | cons r rs ih =>
      have hmore := ih (enter levels (rawWidth tabSize r.2)).1
      rw [scanNumbered, List.map_append, List.map_cons]
      unfold lineFound
      cases (enter levels (rawWidth tabSize r.2)).2 with
      | none => exact hmore.cons r.1
      | some odd => exact hmore.cons_cons r.1

-- ================================================== deeper means wider

/-- Blocks that a line leaves open, in number, are left open as they are. -/
theorem suffix_enter {levels kept : List Nat} {w : Nat}
    (h : kept <:+ levels) (hlength : kept.length < (enter levels w).1.length) :
    kept <:+ (enter levels w).1 := by
  have hdrop : levels.dropWhile (w < ·) <:+ levels := List.dropWhile_suffix _
  rw [enter_eq] at hlength ⊢
  split at hlength
  · next hw =>
    rw [if_pos hw]
    exact List.suffix_of_suffix_length_le h hdrop (Nat.le_of_lt hlength)
  · next hw =>
    rw [if_neg hw]
    rw [List.length_cons] at hlength
    exact (List.suffix_of_suffix_length_le h hdrop (by omega)).trans
      (List.suffix_cons _ _)

/-- Lines that stay inside some open blocks are wider than all of these. -/
theorem wider_scanNumbered {levels kept : List Nat} (h : Levels levels)
    (hkept : kept <:+ levels) {rs : List (Nat × List Char)}
    {inside back : List Line}
    (hlines : (scanNumbered tabSize levels rs).1 = inside ++ back)
    (hinside : ∀ b ∈ inside, kept.length ≤ b.depth) :
    ∀ b ∈ inside, ∀ v ∈ kept, v < b.indent := by
  -- The induction is on the rows that are left, over any levels above those
  -- kept.
  induction rs generalizing levels inside with
  | nil =>
      have hnone : inside = [] := (List.append_eq_nil_iff.mp hlines.symm).1
      simp [hnone]
  | cons r rs ih =>
      cases inside with
      | nil => simp
      | cons b inside =>
          rw [scanNumbered, List.cons_append] at hlines
          obtain ⟨rfl, hmore⟩ := List.cons.inj hlines
          obtain ⟨hlevels, hhead, -⟩ := enter_spec h (rawWidth tabSize r.2)
          have hpos := List.length_pos_of_ne_nil hlevels.ne_nil
          have hlength : kept.length
              < (enter levels (rawWidth tabSize r.2)).1.length := by
            have hdepth := hinside _ List.mem_cons_self
            unfold lineOf at hdepth
            simp only at hdepth
            omega
          have hstill := suffix_enter hkept hlength
          intro c hc v hv
          cases List.mem_cons.mp hc with
          | inr hc =>
              exact ih hlevels hstill hmore
                (fun b hb => hinside b (List.mem_cons_of_mem _ hb)) c hc v hv
          | inl hc =>
              obtain ⟨more, hmore'⟩ := List.head?_eq_some_iff.mp hhead
              have hdec := hlevels.decreasing
              rw [hmore'] at hstill hdec hlength
              have hvmore : v ∈ more := by
                cases List.suffix_cons_iff.mp hstill with
                | inl heq => rw [heq] at hlength; omega
                | inr hsuffix => exact hsuffix.subset hv
              rw [hc]
              exact (List.pairwise_cons.mp hdec).1 v hvmore

end

/-- Lines that are deeper than one before them, and so are those in between,
are wider than that one. -/
theorem indent_lt_of_deeper (tabSize : Int) (source : String)
    {front inside back : List Line} {a : Line}
    (h : (scan tabSize source).1 = front ++ a :: (inside ++ back))
    (hinside : ∀ b ∈ inside, a.depth < b.depth) :
    ∀ b ∈ inside, a.indent < b.indent := by
  rw [scan, scanFrom_numbered] at h
  obtain ⟨as, r, bs, hrs, rfl, rfl⟩ := exists_split tabSize h
  have hlevels := levels_margin.levelsAfter tabSize as
  obtain ⟨hopen, hhead, -⟩ := enter_spec hlevels (rawWidth tabSize r.2)
  have hpos := List.length_pos_of_ne_nil hopen.ne_nil
  rw [hrs, scanNumbered_append, scanNumbered] at h
  have hback := (List.cons.inj (List.append_cancel_left h)).2
  refine fun b hb => wider_scanNumbered tabSize hopen List.suffix_rfl hback
    (fun c hc => ?_) b hb _ (List.mem_of_head? hhead)
  have hdepth := hinside c hc
  unfold lineOf at hdepth
  simp only at hdepth
  omega

/-- The nearest line before a line that is less deep is so by one, and is
narrower. -/
theorem parent_scan (tabSize : Int) (source : String)
    {front between back : List Line} {a l : Line}
    (h : (scan tabSize source).1 = front ++ a :: (between ++ l :: back))
    (hlt : a.depth < l.depth) (hbetween : ∀ b ∈ between, l.depth ≤ b.depth) :
    a.depth + 1 = l.depth ∧ a.indent < l.indent := by
  have hclimbs := climbs_scan tabSize source
  rw [h] at hclimbs
  have hfirst := hclimbs.of_append
  constructor
  · -- The line right behind `a` is no deeper than one block below it.
    have hle : l.depth ≤ a.depth + 1 := by
      cases between with
      | nil => exact hfirst.1
      | cons b between =>
          have := hbetween b List.mem_cons_self
          have := hfirst.1
          omega
    omega
  · have hinside : ∀ b ∈ between ++ [l], a.depth < b.depth := by
      intro b hb
      cases List.mem_append.mp hb with
      | inl hb =>
          have := hbetween b hb
          omega
      | inr hb =>
          rw [List.mem_singleton.mp hb]
          exact hlt
    rw [List.append_cons between] at h
    exact indent_lt_of_deeper tabSize source h hinside l (by simp)

-- ========================================== faults of the scanner itself

/-- What a scanner that looks for faults of its own would stop at. -/
inductive Defect where
  /-- An indentation is narrower than none. -/
  | negativeWidth (number : Nat)
  /-- A line is more than one block deeper than the line before it. -/
  | depthJump (previous depth number : Nat)
deriving DecidableEq, Repr

/-- The wording of a fault. -/
def Defect.message : Defect → String
  | negativeWidth number =>
    "negative indentation width on line " ++ toString number
  | depthJump previous depth number =>
    "indentation depth jumped from " ++ toString previous ++ " to "
      ++ toString depth ++ " on line " ++ toString number

/-- The scanner, if it looks for faults of its own on every line that carries
meaning. The line before it had the depth `previous`. -/
def guardedFrom (tabSize : Int) (levels : List Nat) (previous number : Nat) :
    List (List Char) → Except Defect (List Line × List Diagnostic)
  | [] => .ok ([], [])
  | raw :: more => do
    let content := raw.dropWhile isIndent
    if isTrivia content then
      guardedFrom tabSize levels previous (number + 1) more
    else
      let width : Int := widthOf tabSize (raw.takeWhile isIndent)
      if width < 0 then throw (.negativeWidth number)
      let (levels', odd) := enter levels width.toNat
      let depth := levels'.length - 1
      if previous + 1 < depth then throw (.depthJump previous depth number)
      let (lines, diagnostics) ←
        guardedFrom tabSize levels' depth (number + 1) more
      pure (⟨String.ofList content, width.toNat, depth, number⟩ :: lines,
        oddFound number width.toNat odd ++ diagnostics)

/-- The scanner on a source, if it looks for faults of its own. -/
def guardedScan (tabSize : Int) (source : String) :
    Except Defect (List Line × List Diagnostic) :=
  guardedFrom tabSize [0] 0 1 (physicalLines (withoutMark source.toList))

/-- It finds none: a width is a count, and entering a line opens one block at
most. -/
theorem guardedFrom_eq (tabSize : Int) {levels : List Nat}
    (h : Levels levels) (number : Nat) (raws : List (List Char)) :
    guardedFrom tabSize levels (levels.length - 1) number raws
      = .ok (scanFrom tabSize levels number raws) := by
  induction raws generalizing levels number with
  | nil => rfl
  | cons raw more ih =>
      cases hinked : isInked raw with
      | false =>
          have htrivia : isTrivia (raw.dropWhile isIndent) = true := by
            rw [isInked_eq] at hinked
            simpa using hinked
          rw [guardedFrom, scanFrom_idle hinked, ← ih h]
          simp only [htrivia, if_true]
      | true =>
          have htrivia : isTrivia (raw.dropWhile isIndent) = false := by
            rw [isInked_eq] at hinked
            simpa using hinked
          obtain ⟨hopen, -, hlength⟩ := enter_spec h (rawWidth tabSize raw)
          have hpos := List.length_pos_of_ne_nil h.ne_nil
          have hwidth : ¬ ((rawWidth tabSize raw : Nat) : Int) < 0 := by omega
          have hjump : ¬ levels.length - 1 + 1
              < (enter levels (rawWidth tabSize raw)).1.length - 1 := by omega
          rw [guardedFrom, scanFrom_inked hinked]
          simp only [htrivia, ← rawWidth.eq_1, Int.toNat_natCast, hwidth,
            hjump, ih hopen]
          rfl

-- ======================================================== the closed form

/-- Whether a line of some width, behind lines of some widths, falls back to
no block that is open. -/
def IsOdd (ws : List Nat) (w : Nat) : Prop :=
  (∃ v ∈ ws.getLast?, w < v) ∧ w ≠ 0 ∧ w ∉ suffixMinima ws

/-- Lines and complaints as the widths of the lines determine them. -/
structure ClosedForm (ws : List Nat) (ls : List Line)
    (ds : List Diagnostic) : Prop where
  /-- The lines have these widths. -/
  widths : ls.map Line.indent = ws
  /-- A line is as deep as there are positive minima up to it. -/
  depth : ∀ front l back, ls = front ++ l :: back →
    l.depth = blocksOpen ((front ++ [l]).map Line.indent)
  /-- A line is complained about if it is odd, and only then. -/
  reported : ∀ front l back, ls = front ++ l :: back →
    ((∃ d ∈ ds, d.line = l.number) ↔ IsOdd (front.map Line.indent) l.indent)
  /-- A complaint is about one line, and names the greatest open width below
  its own and the least one above it. -/
  named : ∀ d ∈ ds, ∃ front l back outer closed, ls = front ++ l :: back
    ∧ d = ⟨l.number, .dedent l.indent outer closed⟩
    ∧ d.message = "inconsistent dedent: indentation " ++ toString l.indent
      ++ " matches no enclosing block (expected " ++ toString outer ++ " or "
      ++ toString closed ++ ")"
    ∧ IsGreatest {v | IsOpen (front.map Line.indent) v ∧ v < l.indent} outer
    ∧ IsLeast {v | IsOpen (front.map Line.indent) v ∧ l.indent < v} closed
  /-- No line is complained about twice. -/
  once : ds.Pairwise fun a b => a.line < b.line
  /-- The lines at the margin are those inside no block. -/
  margin : ∀ l ∈ ls, l.depth = 0 ↔ l.indent = 0
  /-- No line is more than one block deeper than the line before it. -/
  climbs : Climbs 0 ls
  /-- The nearest line before a line that is less deep is so by one, and is
  narrower. -/
  parent : ∀ front a between l back,
    ls = front ++ a :: (between ++ l :: back) → a.depth < l.depth →
      (∀ b ∈ between, l.depth ≤ b.depth) →
        a.depth + 1 = l.depth ∧ a.indent < l.indent

/-- A line is found in one place only. -/
theorem split_unique {ls front front' back back' : List Line} {l l' : Line}
    (hls : ls.Pairwise fun a b => a.number < b.number)
    (h : ls = front ++ l :: back) (h' : ls = front' ++ l' :: back')
    (hnumber : l.number = l'.number) : front = front' ∧ l = l' := by
  rw [h] at hls
  obtain ⟨-, hmore, hbefore⟩ := List.pairwise_append.mp hls
  have hbehind := (List.pairwise_cons.mp hmore).1
  have hfront : l' ∉ front := fun hin => by
    have := hbefore l' hin l List.mem_cons_self
    omega
  have hback : l' ∉ back := fun hin => by
    have := hbehind l' hin
    omega
  have hsame := h.symm.trans h'
  obtain ⟨heq, hl, -⟩ := (List.append_cons_inj_of_notMem hfront hback).mp hsame
  exact ⟨heq, hl⟩

/-- Behind lines whose blocks are open as their widths say, a line is odd as
its width says, and is told the open widths around its own. -/
theorem Opened.enter_odd {ws levels : List Nat} (h : Opened ws levels)
    (w : Nat) :
    ((Source.enter levels w).2.isSome = true ↔ IsOdd ws w)
      ∧ ∀ outer closed, (Source.enter levels w).2 = some (outer, closed) →
        IsGreatest {v | IsOpen ws v ∧ v < w} outer
          ∧ IsLeast {v | IsOpen ws v ∧ w < v} closed := by
  obtain ⟨u, more, hu⟩ := List.exists_cons_of_ne_nil h.ordered.ne_nil
  have hhead : levels.head? = some u := by rw [hu]; rfl
  obtain ⟨hodd, htold⟩ := Source.enter_odd h.ordered (w := w) hhead
  have hlast : w < u ↔ ∃ v ∈ ws.getLast?, w < v := by
    cases hws : ws.getLast? with
    | none =>
        -- No line stands in front, so nothing but the margin is open.
        have hnil : ws = [] := List.getLast?_eq_none_iff.mp hws
        have hopen := (h.mem_iff u).mp (List.mem_of_head? hhead)
        rw [hnil] at hopen
        have hzero : u = 0 := by simpa [IsOpen, suffixMinima] using hopen
        simp [hzero]
    | some v =>
        have hv := h.last v hws
        rw [hhead] at hv
        simp [Option.some.inj hv]
  constructor
  · rw [hodd, hlast, h.mem_iff]
    unfold IsOdd IsOpen
    rw [not_or]
  · simp only [← h.mem_iff]
    exact htold

theorem mem_lineFound {tabSize : Int} {levels : List Nat} {number : Nat}
    {raw : List Char} {d : Diagnostic} :
    d ∈ lineFound tabSize levels number raw ↔ ∃ outer closed,
      (enter levels (rawWidth tabSize raw)).2 = some (outer, closed)
        ∧ d = ⟨number, .dedent (rawWidth tabSize raw) outer closed⟩ := by
  unfold lineFound
  cases (enter levels (rawWidth tabSize raw)).2 with
  | none => simp [oddFound]
  | some odd =>
      obtain ⟨outer, closed⟩ := odd
      simp [oddFound]

/-- The scanner complains about nothing but widths that are none of an open
block. -/
theorem exists_dedent_of_mem_scan {tabSize : Int} {source : String}
    {d : Diagnostic} (h : d ∈ (scan tabSize source).2) :
    ∃ width outer closed, d.cause = .dedent width outer closed := by
  rw [scan, scanFrom_numbered, mem_found_scanNumbered] at h
  obtain ⟨as, r, bs, -, hfound⟩ := h
  obtain ⟨outer, closed, -, rfl⟩ := mem_lineFound.mp hfound
  exact ⟨_, outer, closed, rfl⟩

/-- Every source is scanned as the widths of its lines say (`ClosedForm`), and a
scanner that looks for faults of its own finds none. -/
theorem closedForm_scan (tabSize : Int) (source : String) :
    ClosedForm (((physicalLines (withoutMark source.toList)).filter
          isInked).map (rawWidth tabSize))
        (scan tabSize source).1 (scan tabSize source).2
      ∧ guardedScan tabSize source = .ok (scan tabSize source) := by
  have hguard := guardedFrom_eq tabSize levels_margin 1
    (physicalLines (withoutMark source.toList))
  refine ⟨?_, hguard⟩
  generalize hrs : numbered 1 (physicalLines (withoutMark source.toList)) = rs
  have hscan : scan tabSize source = scanNumbered tabSize [0] rs := by
    rw [scan, scanFrom_numbered, hrs]
  have hnumbers := increasing_scan tabSize source
  -- What the scanner keeps behind some lines are the minima of their widths.
  -- The cases below read their parts of the claim off at one line.
  have hopened : ∀ as, Opened
      ((scanNumbered tabSize [0] as).1.map Line.indent)
      (levelsAfter tabSize [0] as) := by
    intro as
    rw [map_indent_scanNumbered]
    exact opened_margin.levelsAfter tabSize as
  constructor
  case widths =>
    rw [hscan, map_indent_scanNumbered, ← map_snd_numbered 1, hrs,
      List.map_map]
    rfl
  case depth =>
    intro front l back h
    rw [hscan] at h
    obtain ⟨as, r, bs, -, rfl, rfl⟩ := exists_split tabSize h
    rw [List.map_append]
    exact ((hopened as).enter (rawWidth tabSize r.2)).length_eq
  case reported =>
    intro front l back h
    constructor
    · intro hd
      obtain ⟨d, hd, hline⟩ := hd
      rw [hscan] at hd
      obtain ⟨as, r, back', h', hfound⟩ := exists_line_of_mem_found tabSize hd
      obtain ⟨outer, closed, hodd, rfl⟩ := mem_lineFound.mp hfound
      rw [← hscan] at h'
      -- A complaint names a number, and no other line has this number.
      obtain ⟨rfl, rfl⟩ := split_unique hnumbers h h' hline.symm
      exact ((hopened as).enter_odd (rawWidth tabSize r.2)).1.mp
        (Option.isSome_iff_exists.mpr ⟨_, hodd⟩)
    · intro hodd
      rw [hscan] at h ⊢
      obtain ⟨as, r, bs, rfl, rfl, rfl⟩ := exists_split tabSize h
      have hsome := ((hopened as).enter_odd (rawWidth tabSize r.2)).1.mpr hodd
      obtain ⟨⟨outer, closed⟩, htold⟩ := Option.isSome_iff_exists.mp hsome
      exact ⟨_, (mem_found_scanNumbered tabSize).mpr ⟨as, r, bs, rfl,
        mem_lineFound.mpr ⟨outer, closed, htold, rfl⟩⟩, rfl⟩
  case named =>
    intro d hd
    rw [hscan] at hd ⊢
    obtain ⟨as, r, back, h, hfound⟩ := exists_line_of_mem_found tabSize hd
    obtain ⟨outer, closed, hodd, rfl⟩ := mem_lineFound.mp hfound
    obtain ⟨houter, hclosed⟩ :=
      ((hopened as).enter_odd (rawWidth tabSize r.2)).2 outer closed hodd
    exact ⟨_, _, back, outer, closed, h, rfl, rfl, houter, hclosed⟩
  case once =>
    have hsub := sublist_found_scanNumbered tabSize [0] rs
    rw [← map_number_scanNumbered tabSize [0], ← hscan] at hsub
    exact List.pairwise_map.mp ((List.pairwise_map.mpr hnumbers).sublist hsub)
  case margin => exact depth_eq_zero_iff tabSize levels_margin
  case climbs => exact climbs_scan tabSize source
  case parent =>
    exact fun _ _ _ _ _ => parent_scan tabSize source

/-- A line that falls back between two open blocks takes over the depth of
the one that it closes. -/
example : suffixMinima [0, 4, 8, 6] = [0, 4, 6, 6]
    ∧ blocksOpen [0, 4, 8, 6] = 2 := by decide

end NovelScript.Source
