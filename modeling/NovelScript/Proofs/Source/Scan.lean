/-
What the scanner hands on. A line that is there has something on it, no line
break in it, and a content that is trimmed (`Scanned`).

# Open blocks

The widths of the open blocks are strictly decreasing and end in the margin
(`Levels`); entering a line keeps them so, and opens at most one block. From
this one step follow the facts about whole texts, each by one induction over the
lines with the widths and the number of the next line as parameters:

* no line is more than one block deeper than the line before it (`Climbs`),
* numbers increase,
* every complaint about an indentation is about a line that is there.

# Physical lines

A text is cut at line feeds and at carriage returns, of which one in front of a
line feed does not count again. The cut is made character by character, with the
line that was begun as a parameter, so what is shown of it is shown for any such
beginning; for whole texts it is enough to know what comes in front of a line
feed (`physicalLines_feed`).
-/
import NovelScript.Proofs.Text.Ink
import NovelScript.Source.Line

namespace NovelScript.Source

open Text

-- ====================================================== physical lines

theorem unbroken_of_mem_physicalFrom {line cs : List Char}
    (hline : Unbroken line) :
    ∀ p ∈ physicalFrom line cs, Unbroken p := by
  induction line, cs using physicalFrom.induct with
  | case1 line =>
      rw [physicalFrom]
      intro p hp
      obtain rfl : p = line.reverse := by simpa using hp
      exact fun c hc => hline c (List.mem_reverse.mp hc)
  | case2 line cs ih =>
      rw [physicalFrom]
      intro p hp
      rcases List.mem_cons.mp hp with rfl | hp
      · exact fun c hc => hline c (List.mem_reverse.mp hc)
      · exact ih (by simp [Unbroken]) p hp
  | case3 line c cs hpair hc ih =>
      rw [physicalFrom.eq_3 _ _ _ hpair, if_pos hc]
      intro p hp
      rcases List.mem_cons.mp hp with rfl | hp
      · exact fun c hc => hline c (List.mem_reverse.mp hc)
      · exact ih (by simp [Unbroken]) p hp
  | case4 line c cs hpair hc ih =>
      rw [physicalFrom.eq_3 _ _ _ hpair, if_neg hc]
      refine ih ?_
      intro d hd
      rcases List.mem_cons.mp hd with rfl | hd
      · exact ⟨fun h => hc (Or.inr h), fun h => hc (Or.inl h)⟩
      · exact hline d hd

/-- No line of a text has a line break in it. -/
theorem unbroken_of_mem_physicalLines {cs p : List Char}
    (h : p ∈ physicalLines cs) : Unbroken p :=
  unbroken_of_mem_physicalFrom (by simp [Unbroken]) p h

/-- What has no line break in it belongs to the line that was begun. -/
theorem physicalFrom_append {cs : List Char} (h : Unbroken cs)
    (before rest : List Char) :
    physicalFrom before (cs ++ rest)
      = physicalFrom (cs.reverse ++ before) rest := by
  induction cs generalizing before with
  | nil => rfl
  | cons c cs ih =>
      obtain ⟨hfeed, hreturn⟩ := h c List.mem_cons_self
      have hmore : Unbroken cs :=
        h.subset fun d hd => List.mem_cons_of_mem c hd
      have hpair : ∀ ds, c = '\r' → cs ++ rest = '\n' :: ds → False :=
        fun _ hc _ => hreturn hc
      rw [List.cons_append, physicalFrom.eq_3 _ _ _ hpair,
        if_neg (by simp [hfeed, hreturn]), ih hmore, List.reverse_cons,
        List.append_assoc]
      rfl

theorem physicalFrom_feed (before rest : List Char) :
    physicalFrom before ('\n' :: rest)
      = before.reverse :: physicalLines rest := by
  rw [physicalFrom.eq_3 _ _ _ (by simp), if_pos (.inr rfl), physicalLines]

/-- A text without line breaks is its own line. -/
theorem physicalLines_line {cs : List Char} (h : Unbroken cs) :
    physicalLines cs = [cs] := by
  have hline := physicalFrom_append h [] []
  rw [List.append_nil, List.append_nil, physicalFrom, List.reverse_reverse]
    at hline
  exact hline

/-- The first line is what stands in front of the first line break. -/
theorem physicalLines_feed {cs : List Char} (h : Unbroken cs)
    (rest : List Char) :
    physicalLines (cs ++ '\n' :: rest) = cs :: physicalLines rest := by
  rw [physicalLines, physicalFrom_append h, physicalFrom_feed, List.append_nil,
    List.reverse_reverse]

theorem withoutMark_eq_self {cs : List Char}
    (h : cs.head? ≠ some '\uFEFF') : withoutMark cs = cs := by
  cases cs with
  | nil => rfl
  | cons c cs =>
      have hc : c ≠ '\uFEFF' := by simpa using h
      unfold withoutMark
      split
      · next heq => exact absurd (List.cons.inj heq).1 hc
      · rfl

-- ============================================================== widths

/-- The widths of open blocks: strictly decreasing, down to the margin. -/
structure Levels (levels : List Nat) : Prop where
  /-- Each block is narrower than those in it. -/
  decreasing : levels.Pairwise (· > ·)
  /-- The outermost one is the margin. -/
  margin : levels.getLast? = some 0

theorem levels_margin : Levels [0] := ⟨by simp, rfl⟩

theorem Levels.ne_nil {levels : List Nat} (h : Levels levels) :
    levels ≠ [] := by
  rintro rfl
  cases h.margin

/-- What is left of the open blocks when the wider ones are closed. -/
theorem Levels.dropWhile {levels : List Nat} (h : Levels levels) (w : Nat) :
    Levels (levels.dropWhile (w < ·))
      ∧ ∀ v ∈ (levels.dropWhile (w < ·)).head?, v ≤ w := by
  obtain ⟨front, hfront⟩ := List.dropWhile_suffix (w < ·) (l := levels)
  have hne : levels.dropWhile (w < ·) ≠ [] := by
    intro hnil
    have hall := List.dropWhile_eq_nil_iff.mp hnil
    have := hall 0 (List.mem_of_getLast? h.margin)
    simp at this
  refine ⟨⟨h.decreasing.sublist (List.dropWhile_sublist _), ?_⟩, ?_⟩
  · rw [← h.margin]
    conv => rhs; rw [← hfront]
    rw [List.getLast?_append_of_ne_nil _ hne]
  · intro v hv
    simpa using head_dropWhile (w < ·) levels v hv

theorem Levels.cons {levels : List Nat} {w : Nat} (h : Levels levels)
    (hw : ∀ v ∈ levels.head?, v < w) : Levels (w :: levels) := by
  cases levels with
  | nil => exact absurd rfl h.ne_nil
  | cons v more =>
      have hvw : v < w := hw v rfl
      have hdec := h.decreasing
      refine ⟨?_, by rw [List.getLast?_cons_cons]; exact h.margin⟩
      rw [List.pairwise_cons]
      refine ⟨fun u hu => ?_, hdec⟩
      rcases List.mem_cons.mp hu with rfl | hu
      · exact hvw
      · have := (List.pairwise_cons.mp hdec).1 u hu
        omega

/-- The open blocks after a line are those before it, without the wider
ones, and the line's own in front. -/
theorem enter_eq (levels : List Nat) (w : Nat) :
    (enter levels w).1
      = if (levels.dropWhile (w < ·)).head? = some w
        then levels.dropWhile (w < ·)
        else w :: levels.dropWhile (w < ·) := by
  simp only [enter]
  split
  · rfl
  · split <;> rfl

/-- Entering a line keeps the open blocks in order, has the line's own in
front, and opens one at most. -/
theorem enter_spec {levels : List Nat} (h : Levels levels) (w : Nat) :
    Levels (enter levels w).1 ∧ (enter levels w).1.head? = some w
      ∧ (enter levels w).1.length ≤ levels.length + 1 := by
  obtain ⟨hkept, hhead⟩ := h.dropWhile w
  have hlen := (List.dropWhile_sublist (w < ·) (l := levels)).length_le
  rw [enter_eq]
  split
  · next hw => exact ⟨hkept, hw, by omega⟩
  · next hw =>
    refine ⟨hkept.cons fun v hv => ?_, rfl, by simpa using hlen⟩
    have := hhead v hv
    rcases Nat.lt_or_ge v w with h | h
    · exact h
    · obtain rfl : v = w := by omega
      exact absurd hv hw

-- =============================================================== lines

/-- Lines none of which is more than one block deeper than the line before
it, which had the given depth. -/
def Climbs : Nat → List Line → Prop
  | _, [] => True
  | depth, l :: ls => l.depth ≤ depth + 1 ∧ Climbs l.depth ls

theorem Climbs.of_append {depth : Nat} {front ls : List Line} {a : Line}
    (h : Climbs depth (front ++ a :: ls)) : Climbs a.depth ls := by
  induction front generalizing depth with
  | nil => exact h.2
  | cons f front ih => exact ih h.2

theorem Climbs.head {depth : Nat} {ls : List Line} (h : Climbs depth ls) :
    ∀ l ∈ ls.head?, l.depth ≤ depth + 1 := by
  intro l hl
  cases ls with
  | nil => cases hl
  | cons a ls =>
      obtain rfl := Option.some.inj hl
      exact h.1

theorem Climbs.of_isPrefix {depth : Nat} {front ls : List Line}
    (h : Climbs depth ls) (hfront : front <+: ls) : Climbs depth front := by
  obtain ⟨back, rfl⟩ := hfront
  induction front generalizing depth with
  | nil => trivial
  | cons f front ih => exact ⟨h.1, ih h.2⟩

theorem Climbs.of_isSuffix {depth : Nat} {ls back : List Line}
    (h : Climbs depth ls) (hback : back <:+ ls) : ∃ d, Climbs d back := by
  obtain ⟨front, rfl⟩ := hback
  induction front generalizing depth with
  | nil => exact ⟨depth, h⟩
  | cons f front ih => exact ih h.2

/-- What stands on a line as the scanner hands it on, behind the
indentation. -/
structure Content (cs : List Char) : Prop where
  /-- It has no line breaks. -/
  unbroken : Unbroken cs
  /-- The indentation is off. -/
  cut : ∀ c ∈ cs.head?, isIndent c = false
  /-- It carries meaning. -/
  meaning : isTrivia cs = false

/-- A line as the scanner hands it on. -/
abbrev Scanned (l : Line) : Prop := Content l.content.toList

theorem scanned_of_mem_scanFrom {tabSize : Int} {levels : List Nat}
    {number : Nat} {ps : List (List Char)}
    (hps : ∀ p ∈ ps, Unbroken p) :
    ∀ l ∈ (scanFrom tabSize levels number ps).1, Scanned l := by
  induction ps generalizing levels number with
  | nil => simp [scanFrom]
  | cons p ps ih =>
      have hmore : ∀ q ∈ ps, Unbroken q :=
        fun q hq => hps q (List.mem_cons_of_mem p hq)
      rw [scanFrom]
      simp only
      split
      · exact ih hmore
      · next htrivia =>
        intro l hl
        rcases List.mem_cons.mp hl with rfl | hl
        · refine ⟨?_, ?_, ?_⟩
          · rw [String.toList_ofList]
            exact (hps p List.mem_cons_self).subset
              fun c hc => (List.dropWhile_subset _) hc
          · rw [String.toList_ofList]
            exact head_dropWhile _ _
          · rw [String.toList_ofList]
            simpa using htrivia
        · exact ih hmore l hl

/-- Lines and complaints of a scan, told by the numbers they carry. -/
theorem numbers_scanFrom {tabSize : Int} {levels : List Nat} {number : Nat}
    {ps : List (List Char)} :
    (scanFrom tabSize levels number ps).1.Pairwise
        (fun a b => a.number < b.number)
      ∧ (∀ l ∈ (scanFrom tabSize levels number ps).1, number ≤ l.number)
      ∧ (∀ d ∈ (scanFrom tabSize levels number ps).2,
          ∃ l ∈ (scanFrom tabSize levels number ps).1,
            l.number = d.line) := by
  induction ps generalizing levels number with
  | nil => simp [scanFrom]
  | cons p ps ih =>
      rw [scanFrom]
      simp only
      split
      · obtain ⟨hpair, hle, hdiag⟩ :=
          @ih levels (number + 1)
        exact ⟨hpair, fun l hl => by have := hle l hl; omega, hdiag⟩
      · obtain ⟨hpair, hle, hdiag⟩ := @ih
          (enter levels (widthOf tabSize (p.takeWhile isIndent))).1
          (number + 1)
        refine ⟨List.pairwise_cons.mpr ⟨fun l hl => hle l hl, hpair⟩, ?_, ?_⟩
        · intro l hl
          rcases List.mem_cons.mp hl with rfl | hl
          · exact le_refl _
          · have := hle l hl
            omega
        · intro d hd
          -- A complaint is about the line itself, or it is about one below.
          have hrest : ∀ d ∈ (scanFrom tabSize (enter levels
              (widthOf tabSize (p.takeWhile isIndent))).1
              (number + 1) ps).2, _ := hdiag
          split at hd
          · rcases List.mem_cons.mp hd with rfl | hd
            · exact ⟨_, List.mem_cons_self, rfl⟩
            · obtain ⟨l, hl, hn⟩ := hrest d hd
              exact ⟨l, List.mem_cons_of_mem _ hl, hn⟩
          · obtain ⟨l, hl, hn⟩ := hrest d hd
            exact ⟨l, List.mem_cons_of_mem _ hl, hn⟩

theorem climbs_scanFrom {tabSize : Int} {levels : List Nat} {number : Nat}
    {ps : List (List Char)} (h : Levels levels) :
    Climbs (levels.length - 1) (scanFrom tabSize levels number ps).1 := by
  induction ps generalizing levels number with
  | nil => exact trivial
  | cons p ps ih =>
      rw [scanFrom]
      simp only
      split
      · exact ih h
      · obtain ⟨hlevels, -, hlen⟩ :=
          enter_spec h (widthOf tabSize (p.takeWhile isIndent))
        have hpos := List.length_pos_of_ne_nil h.ne_nil
        refine ⟨?_, ih hlevels⟩
        simp only
        omega

-- =============================================================== texts

variable (tabSize : Int) (source : String)

theorem scanned_of_mem_scan :
    ∀ l ∈ (scan tabSize source).1, Scanned l :=
  scanned_of_mem_scanFrom fun _ hp => unbroken_of_mem_physicalLines hp

/-- Numbers increase from line to line. -/
theorem increasing_scan : (scan tabSize source).1.Pairwise
    (fun a b => a.number < b.number) :=
  numbers_scanFrom.1

/-- Every complaint of the scanner is about a line that is there. -/
theorem exists_line_of_mem_scan :
    ∀ d ∈ (scan tabSize source).2,
      ∃ l ∈ (scan tabSize source).1, l.number = d.line :=
  numbers_scanFrom.2.2

/-- No line is more than one block deeper than the line before it, and the
first one is at most one block deep. -/
theorem climbs_scan : Climbs 0 (scan tabSize source).1 :=
  climbs_scanFrom levels_margin

end NovelScript.Source
