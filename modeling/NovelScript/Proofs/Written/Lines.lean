/-
What an outline looks like on the page. Its lines are rows: an outline one level
deeper has the same rows further to the right (`lines_succ`), and a header with
its body is one row and the body's rows moved. The rows of a page, and empty
lines between them, are what the scanner finds when it takes the text of the
page apart again.

# Spelling

`Spells indentSize os rows` says that the lines of an outline are these rows. It
is put together like the outline, as `Echo` is, so that for each kind of
statement only its own lines have to be looked at.

# The page

A page is its lines joined, with a line feed at the end, and there may be lines
between statements that have nothing on them. They are no rows. So the scanner
finds the rows of the page in order, though not at the numbers that they would
have without the empty lines; what is shown of a page read again is shown up to
numbers for that reason.
-/
import NovelScript.Proofs.Source.Rows
import NovelScript.Proofs.Text.Lines
import NovelScript.Written.Statement

namespace NovelScript

open Source

namespace Outline

-- =============================================================== depths

/-- The indentation of a level, in front of that of the levels above. -/
theorem pad_succ {indentSize depth : Int} (hsize : 0 ≤ indentSize)
    (hdepth : 0 ≤ depth) :
    pad indentSize (depth + 1)
      = String.ofList (List.replicate indentSize.toNat ' ')
          ++ pad indentSize depth := by
  have hwidth : (indentSize * (depth + 1)).toNat
      = indentSize.toNat + (indentSize * depth).toNat := by
    rw [Int.mul_add, Int.mul_one, Int.add_comm,
      Int.toNat_add hsize (Int.mul_nonneg hsize hdepth)]
  rw [pad, pad, hwidth, List.replicate_add, String.ofList_append]

/-- The indentation of a level. -/
def level (indentSize : Int) (text : String) : String :=
  String.ofList (List.replicate indentSize.toNat ' ') ++ text

mutual

/-- An outline one level deeper has its lines further to the right. -/
theorem lines_succ {indentSize : Int} (hsize : 0 ≤ indentSize) :
    ∀ {depth : Int}, 0 ≤ depth → ∀ o : Outline,
      lines indentSize (depth + 1) o
        = (lines indentSize depth o).map (level indentSize)
  | depth, hdepth, .line text => by
      simp only [lines, List.map_cons, List.map_nil, level,
        pad_succ hsize hdepth, String.append_assoc]
  | depth, hdepth, .block head body => by
      have hbody := linesOfAll_succ hsize
        (Int.add_nonneg hdepth (Int.le_of_lt Int.zero_lt_one)) body
      simp only [lines, List.map_cons, level, pad_succ hsize hdepth,
        String.append_assoc]
      split
      · simp only [List.map_cons, List.map_nil, level,
          pad_succ hsize (Int.add_nonneg hdepth
            (Int.le_of_lt Int.zero_lt_one)),
          pad_succ hsize hdepth, String.append_assoc]
      · rw [hbody]

theorem linesOfAll_succ {indentSize : Int} (hsize : 0 ≤ indentSize) :
    ∀ {depth : Int}, 0 ≤ depth → ∀ os : List Outline,
      linesOfAll indentSize (depth + 1) os
        = (linesOfAll indentSize depth os).map (level indentSize)
  | _, _, [] => rfl
  | depth, hdepth, o :: more => by
      rw [linesOfAll, linesOfAll, lines_succ hsize hdepth o,
        linesOfAll_succ hsize hdepth more, List.map_append]

end

theorem linesOfAll_append (indentSize depth : Int) (as bs : List Outline) :
    linesOfAll indentSize depth (as ++ bs)
      = linesOfAll indentSize depth as ++ linesOfAll indentSize depth bs := by
  induction as with
  | nil => rfl
  | cons a as ih =>
      rw [List.cons_append, linesOfAll, ih, linesOfAll, List.append_assoc]

-- ================================================================= rows

/-- The rows of an outline at the margin. -/
def Spells (indentSize : Int) (os : List Outline) (rows : List Row) : Prop :=
  linesOfAll indentSize 0 os = rows.map Row.written

/-- The rows of a body; one without lines says `pass`. -/
def bodyRows (rows : List Row) : List Row :=
  if rows.isEmpty then [⟨0, "pass"⟩] else rows

theorem written_margin (text : String) :
    Row.written ⟨0, text⟩ = text := by
  rw [Row.written, List.replicate_zero, String.ofList_nil, String.empty_append]

theorem written_shift (indentSize : Int) (r : Row) :
    (r.shift indentSize.toNat).written = level indentSize r.written := by
  rw [Row.written, Row.shift, level, Row.written, ← String.append_assoc,
    ← String.ofList_append, ← List.replicate_add, Nat.add_comm]

variable {indentSize : Int}

theorem pad_zero : pad indentSize 0 = "" := by
  rw [pad, Int.mul_zero]
  rfl

theorem spells_nil : Spells indentSize [] [] := rfl

theorem spells_line (text : String) :
    Spells indentSize [.line text] [⟨0, text⟩] := by
  simp only [Spells, linesOfAll, lines, pad_zero, String.empty_append,
    List.append_nil, List.map_cons, List.map_nil, written_margin]

theorem linesOfAll_line (ts : List String) :
    linesOfAll indentSize 0 (ts.map Outline.line) = ts := by
  induction ts with
  | nil => rfl
  | cons t ts ih =>
      rw [List.map_cons, linesOfAll, ih, lines, pad_zero, String.empty_append]
      rfl

theorem Spells.append {as bs : List Outline} {rows rows' : List Row}
    (ha : Spells indentSize as rows) (hb : Spells indentSize bs rows') :
    Spells indentSize (as ++ bs) (rows ++ rows') := by
  rw [Spells, linesOfAll_append, List.map_append, ha, hb]

/-- Every outline has a line. -/
theorem lines_ne_nil (depth : Int) (o : Outline) :
    lines indentSize depth o ≠ [] := by
  cases o with
  | line text => simp [lines]
  | block head body => simp [lines]

theorem Spells.isEmpty_eq {os : List Outline} {rows : List Row}
    (h : Spells indentSize os rows) : os.isEmpty = rows.isEmpty := by
  cases os with
  | nil =>
      have hnil : rows.map Row.written = [] := h.symm
      rw [List.map_eq_nil_iff.mp hnil]
      rfl
  | cons o more =>
      cases rows with
      | nil =>
          rw [Spells, linesOfAll, List.map_nil] at h
          exact absurd (List.append_eq_nil_iff.mp h).1 (lines_ne_nil 0 o)
      | cons r rows => rfl

/-- The rows of a header and its body. -/
theorem Spells.block (hsize : 0 ≤ indentSize) {head : String}
    {body : List Outline} {rows : List Row} (h : Spells indentSize body rows) :
    Spells indentSize [.block head body]
      (⟨0, head⟩ :: (bodyRows rows).map (Row.shift indentSize.toNat)) := by
  have hshift : ∀ rows : List Row,
      (rows.map (Row.shift indentSize.toNat)).map Row.written
        = (rows.map Row.written).map (level indentSize) := by
    intro rows
    simp only [List.map_map]
    exact List.map_congr_left fun r _ => written_shift indentSize r
  have hpad : pad indentSize (0 + 1) ++ "pass" = level indentSize "pass" := by
    rw [pad_succ hsize (Int.le_refl 0), pad_zero, String.append_empty]
    rfl
  simp only [Spells, linesOfAll, lines, pad_zero, String.empty_append,
    List.append_nil, List.map_cons, written_margin, List.cons.injEq,
    true_and]
  rw [hshift, h.isEmpty_eq, bodyRows]
  split
  · rw [List.map_cons, List.map_nil, written_margin, hpad]
    rfl
  · rw [linesOfAll_succ hsize (Int.le_refl 0), h]

end Outline

namespace Written

/-- A header stands over a body that comes to some line, or has no statements
at all. -/
theorem headed_eq_block {body : List Stmt} {inner : List Outline}
    (h : inner = [] → body = []) (head : String) :
    headed head (!body.isEmpty) inner = .block head inner := by
  cases inner with
  | nil => rw [h rfl]; rfl
  | cons o more => simp [headed]

end Written

-- ================================================================= pages

namespace Written

open Text

theorem toList_page (lines : List String) :
    (page lines).toList = lines.flatMap fun l => l.toList ++ ['\n'] := by
  have hjoined : ∀ l ls, (joinLines (l :: ls)).toList ++ ['\n']
      = (l :: ls).flatMap fun l => l.toList ++ ['\n'] := by
    intro l ls
    induction ls generalizing l with
    | nil =>
        rw [joinLines, String.toList_intercalate]
        simp
    | cons m ls ih =>
        rw [List.flatMap_cons, ← ih m, joinLines, joinLines,
          String.toList_intercalate, String.toList_intercalate]
        simp only [List.map_cons, List.intercalate_cons_cons,
          List.append_assoc]
        rfl
  cases lines with
  | nil => rfl
  | cons l ls =>
      rw [← hjoined, page, if_neg (by simp), String.toList_append]
      rfl

/-- The lines of a page are found again. -/
theorem splitAt_page {lines : List String}
    (h : ∀ l ∈ lines, '\n' ∉ l.toList) :
    splitAt '\n' (page lines).toList = lines.map String.toList ++ [[]] := by
  rw [toList_page]
  induction lines with
  | nil => rfl
  | cons l ls ih =>
      rw [List.flatMap_cons, List.append_assoc, List.singleton_append,
        splitAt_append (h l List.mem_cons_self),
        ih fun m hm => h m (List.mem_cons_of_mem l hm)]
      rfl

/-- Pages of as many lines are made of the same lines, if the lines of one
of them are lines. -/
theorem eq_of_page_eq {lines lines' : List String}
    (h : ∀ l ∈ lines, '\n' ∉ l.toList)
    (hcount : lines'.length = lines.length ∨ ∀ l ∈ lines', '\n' ∉ l.toList)
    (hpage : page lines' = page lines) : lines' = lines := by
  have hbreaks : ∀ ls : List String, (page ls).toList.count '\n'
      = ls.length + (ls.map fun l => l.toList.count '\n').sum := by
    intro ls
    rw [toList_page]
    induction ls with
    | nil => rfl
    | cons l ls ih =>
        rw [List.flatMap_cons, List.count_append, ih, List.count_append,
          List.map_cons, List.sum_cons, List.length_cons]
        simp only [List.count_cons_self, List.count_nil]
        omega
  have hnone : ∀ ls : List String,
      (ls.map fun l => l.toList.count '\n').sum = 0
        ↔ ∀ l ∈ ls, '\n' ∉ l.toList := by
    intro ls
    rw [List.sum_eq_zero_iff_forall_eq_nat, List.forall_mem_map]
    simp only [List.count_eq_zero]
  have h' : ∀ l ∈ lines', '\n' ∉ l.toList := by
    rcases hcount with hcount | h'
    · have hzero := (hnone lines).mpr h
      have hsum := congrArg (fun s => s.toList.count '\n') hpage
      simp only [hbreaks] at hsum
      exact (hnone lines').mp (by omega)
    · exact h'
  have hlists := congrArg (fun s => splitAt '\n' s.toList) hpage
  simp only [splitAt_page h, splitAt_page h', List.append_cancel_right_eq]
    at hlists
  exact (List.map_injective_iff.mpr fun _ _ => String.toList_inj.mp) hlists

/-- The lines of a page are found again, and an empty one at its end. -/
theorem physicalLines_page {lines : List String}
    (h : ∀ l ∈ lines, Unbroken l.toList) :
    physicalLines (page lines).toList
      = lines.map String.toList ++ [[]] := by
  rw [toList_page]
  induction lines with
  | nil => rfl
  | cons l ls ih =>
      rw [List.flatMap_cons, List.append_assoc, List.singleton_append,
        physicalLines_feed (h l List.mem_cons_self),
        ih fun m hm => h m (List.mem_cons_of_mem l hm)]
      rfl

/-- The lines of a text without a line break at its end are found again. -/
theorem physicalLines_joinLines {lines : List String} (hne : lines ≠ [])
    (h : ∀ l ∈ lines, Unbroken l.toList) :
    physicalLines (joinLines lines).toList = lines.map String.toList := by
  cases lines with
  | nil => exact absurd rfl hne
  | cons l ls =>
      induction ls generalizing l with
      | nil =>
          rw [joinLines, String.intercalate_singleton,
            physicalLines_line (h l List.mem_cons_self)]
          rfl
      | cons m ls ih =>
          rw [toList_joinLines_cons_cons,
            physicalLines_feed (h l List.mem_cons_self),
            ih m (List.cons_ne_nil m ls)
              fun k hk => h k (List.mem_cons_of_mem l hk)]
          rfl

/-- Lines of which the first one begins with no byte order mark. -/
def Unmarked (lines : List String) : Prop :=
  ∀ l ∈ lines.head?, l.toList.head? ≠ some '\uFEFF'

/-- A page begins as its first line does. -/
theorem head_page {lines : List String} (h : Unmarked lines) :
    (page lines).toList.head? ≠ some '\uFEFF' := by
  rw [toList_page]
  cases lines with
  | nil => decide
  | cons l ls =>
      have hl := h l rfl
      rw [List.flatMap_cons, List.append_assoc, List.singleton_append]
      cases hcs : l.toList with
      | nil => simp
      | cons c cs =>
          rw [hcs] at hl
          exact hl

/-- A page without a byte order mark in front of it has none. -/
theorem withoutMark_page {lines : List String} (h : Unmarked lines) :
    withoutMark (page lines).toList = (page lines).toList :=
  withoutMark_eq_self (head_page h)

/-- The physical lines of a page, up to a byte order mark. -/
def Unwraps (lines : List String) (raws : List (List Char)) : Prop :=
  Unmarked lines ∧ raws = lines.map String.toList
    ∨ ∃ t more, raws = t :: more
      ∧ lines.map String.toList = ('\uFEFF' :: t) :: more

/-- A page is scanned line by line, but a byte order mark in front of it is
not there for the scanner. -/
theorem scan_page (tabSize : Int) {lines : List String}
    (h : ∀ l ∈ lines, Unbroken l.toList) :
    ∃ raws, scan tabSize (page lines)
        = scanFrom tabSize [0] 1 raws ∧ raws.length = lines.length
      ∧ Unwraps lines raws := by
  have hlast : ∀ raws : List (List Char),
      scanFrom tabSize [0] 1 (raws ++ [[]]) = scanFrom tabSize [0] 1 raws := by
    intro raws
    rw [scanFrom_append, scanFrom_idle isInked_nil]
    simp [scanFrom]
  have hplain : ∀ lines : List String, (∀ l ∈ lines, Unbroken l.toList) →
      scanFrom tabSize [0] 1 (physicalLines (page lines).toList)
        = scanFrom tabSize [0] 1 (lines.map String.toList) := by
    intro lines h
    rw [physicalLines_page h, hlast]
  -- If the first line begins with a mark then this is dropped, and the page is
  -- scanned like the one without it.
  by_cases hmark : Unmarked lines
  · refine ⟨_, ?_, List.length_map _, Or.inl ⟨hmark, rfl⟩⟩
    rw [scan, withoutMark_page hmark, hplain lines h]
  · unfold Unmarked at hmark
    push Not at hmark
    obtain ⟨l, hl, hmarked⟩ := hmark
    cases lines with
    | nil => cases hl
    | cons l' more =>
        obtain rfl : l' = l := Option.some.inj hl
        obtain ⟨t, ht⟩ : ∃ t, l'.toList = '\uFEFF' :: t := by
          cases hcs : l'.toList with
          | nil =>
              rw [hcs] at hmarked
              cases hmarked
          | cons c t =>
              rw [hcs] at hmarked
              obtain rfl : c = '\uFEFF' := Option.some.inj hmarked
              exact ⟨t, rfl⟩
        refine ⟨t :: more.map String.toList, ?_, by simp,
          Or.inr ⟨t, more.map String.toList, rfl, by rw [List.map_cons, ht]⟩⟩
        have hu : ∀ m ∈ String.ofList t :: more, Unbroken m.toList := by
          intro m hm
          rcases List.mem_cons.mp hm with rfl | hm
          · rw [String.toList_ofList]
            refine (h l' List.mem_cons_self).subset fun c hc => ?_
            rw [ht]
            exact List.mem_cons_of_mem _ hc
          · exact h m (List.mem_cons_of_mem _ hm)
        have hpage : (page (l' :: more)).toList
            = '\uFEFF' :: (page (String.ofList t :: more)).toList := by
          rw [toList_page, toList_page, List.flatMap_cons,
            List.flatMap_cons, ht, String.toList_ofList]
          rfl
        rw [scan, hpage, withoutMark, hplain _ hu, List.map_cons,
          String.toList_ofList]

end Written

end NovelScript
