/-
The margin of code. Three rules cut it off.

* What is written loses as many characters as its shallowest line has blanks in
  front.
* What is read is told by the widths of its lines: each is indented against the
  least of them.
* What is compared loses the longest beginning of spaces and tabs that its lines
  share.

Where nothing but spaces stands in front of a line the lines are rows, and there
the three come to the same: the rows move to the left until the shallowest
stands at the margin (`leftmost`).

# Why they agree on rows

How the lines are indented against each other plays no part in this. Each rule
looks at one line and at the least of all, and the least moves with them. Blank
lines have no part in the least and become empty (`inkLines`). Where there is
but one line that is not blank, all three leave the trimmed code, which is how
code on one line is told from code in a block (`inkLines_cases`).
-/
import NovelScript.Proofs.Source.Rows
import NovelScript.Proofs.Text.Lines

namespace NovelScript

namespace Text

-- =================================================== lines that are not blank

/-- The lines of code that are not blank. -/
def inkLines (code : List Char) : List (List Char) :=
  (splitAt '\n' code).filter fun l => !(trim l).isEmpty

theorem ink_of_mem_inkLines {code l : List Char} (h : l ∈ inkLines code) :
    trim l ≠ [] ∧ l ∈ splitAt '\n' code := by
  obtain ⟨hl, hink⟩ := List.mem_filter.mp h
  exact ⟨by simpa using hink, hl⟩

theorem inkLines_line {l : List Char} (h : '\n' ∉ l) :
    inkLines l = if trim l = [] then [] else [l] := by
  rw [inkLines, splitAt_of_not_mem h]
  by_cases hink : trim l = []
  · simp [hink]
  · simp [hink]

theorem inkLines_append {l : List Char} (h : '\n' ∉ l) (rest : List Char) :
    inkLines (l ++ '\n' :: rest) = inkLines l ++ inkLines rest := by
  rw [inkLines, inkLines, inkLines, splitAt_append h, splitAt_of_not_mem h,
    ← List.filter_append]
  rfl

theorem trim_break {as bs : List Char} (ha : trim as ≠ []) (hb : trim bs ≠ []) :
    '\n' ∈ trim (as ++ '\n' :: bs) := by
  have hstart : trimStart as ≠ [] := fun h =>
    ha (trim_eq_nil.mpr (trimStart_eq_nil.mp h))
  have hend : trimEnd bs ≠ [] := fun h =>
    hb (trim_eq_nil.mpr (trimEnd_eq_nil.mp h))
  obtain ⟨front, hfront, has⟩ := blanks_append_trimStart as
  have hcut : trimStart (as ++ '\n' :: bs) = trimStart as ++ '\n' :: bs := by
    conv => lhs; rw [has, List.append_assoc]
    exact trimStart_append hfront ((startsInk_trimStart as).append hstart)
  rw [trim, hcut, ← List.singleton_append, ← List.append_assoc,
    trimEnd_append_right _ hend]
  simp

/-- Code has no line that is not blank, or one, or is broken between two. -/
theorem inkLines_cases (code : List Char) :
    (inkLines code = [] ∧ trim code = [])
      ∨ (∃ l, inkLines code = [l] ∧ trim code = trim l)
      ∨ (2 ≤ (inkLines code).length ∧ '\n' ∈ trim code) := by
  -- The induction is on the length, because the first line and its break are
  -- cut off together.
  induction hn : code.length using Nat.strong_induction_on generalizing code with
  | _ n ih =>
    by_cases hfeed : '\n' ∈ code
    · obtain ⟨l, rest, rfl, hl⟩ := List.eq_append_cons_of_mem hfeed
      have hrest := ih rest.length (by simp [← hn]; omega) rest rfl
      rw [inkLines_append hl, inkLines_line hl]
      by_cases hink : trim l = []
      · have hfront : Blanks (l ++ ['\n']) := by
          intro c hc
          rcases List.mem_append.mp hc with hc | hc
          · exact trim_eq_nil.mp hink c hc
          · obtain rfl := List.mem_singleton.mp hc
            decide
        have hcut := trim_append_of_blanks rest hfront blanks_nil
        rw [List.append_nil, List.append_assoc, List.singleton_append] at hcut
        rw [if_pos hink, List.nil_append, hcut]
        exact hrest
      · -- The first line has ink. If nothing below has any, the rest is trimmed
        -- away with the break; else there are two such lines and the break
        -- between them stays.
        rw [if_neg hink]
        rcases hrest with ⟨hnone, hblank⟩ | hmore
        · have hback : Blanks ('\n' :: rest) := by
            intro c hc
            rcases List.mem_cons.mp hc with rfl | hc
            · decide
            · exact trim_eq_nil.mp hblank c hc
          have hcut := trim_append_of_blanks l blanks_nil hback
          rw [hnone]
          exact .inr (.inl ⟨l, rfl, hcut⟩)
        · have hpos : 1 ≤ (inkLines rest).length ∧ trim rest ≠ [] := by
            rcases hmore with ⟨m, hm, htrim⟩ | ⟨htwo, hbreak⟩
            · have hm' := ink_of_mem_inkLines
                (hm ▸ List.mem_singleton_self m : m ∈ inkLines rest)
              exact ⟨by simp [hm], htrim ▸ hm'.1⟩
            · exact ⟨by omega, List.ne_nil_of_mem hbreak⟩
          refine .inr (.inr ⟨?_, trim_break hink hpos.2⟩)
          simp only [List.singleton_append, List.length_cons]
          omega
    · rw [inkLines_line hfeed]
      by_cases hink : trim code = []
      · exact .inl ⟨if_pos hink, hink⟩
      · exact .inr (.inl ⟨code, if_neg hink, rfl⟩)

/-- Trimmed code on one line is the only line that is not blank. -/
theorem exists_inkLine {code : List Char} (hne : trim code ≠ [])
    (hone : '\n' ∉ trim code) :
    ∃ l, inkLines code = [l] ∧ trim code = trim l := by
  rcases inkLines_cases code with ⟨-, hnil⟩ | hline | ⟨-, hbreak⟩
  · exact absurd hnil hne
  · exact hline
  · exact absurd hbreak hone

/-- The only line that is not blank is the trimmed code. -/
theorem trim_of_inkLines {code l : List Char} (h : inkLines code = [l]) :
    trim code = trim l := by
  rcases inkLines_cases code with ⟨hnone, -⟩ | ⟨m, hm, htrim⟩ | ⟨htwo, -⟩
  · rw [h] at hnone
    cases hnone
  · rw [h] at hm
    obtain ⟨rfl, -⟩ := List.cons.inj hm
    exact htrim
  · simp [h] at htwo

end Text

namespace Source

open Text

-- ============================================================== to the left

/-- Rows, moved to the left until the shallowest stands at the margin. -/
def leftmost (rows : List Row) : List Row :=
  rows.map fun r => { r with indent := r.indent - least (rows.map Row.indent) }

theorem sound_leftmost {rows : List Row} (h : ∀ r ∈ rows, r.Sound) :
    ∀ r ∈ leftmost rows, r.Sound := by
  intro r hr
  obtain ⟨q, hq, rfl⟩ := List.mem_map.mp hr
  exact h q hq

theorem least_le_indent {rows : List Row} {r : Row} (hr : r ∈ rows) :
    least (rows.map Row.indent) ≤ r.indent := by
  have hmem : r.indent ∈ rows.map Row.indent := List.mem_map_of_mem hr
  cases hrows : rows.map Row.indent with
  | nil =>
      rw [hrows] at hmem
      cases hmem
  | cons n ns =>
      rw [hrows] at hmem
      exact (least_spec n ns).2 r.indent hmem

/-- Where rows stood before makes no difference. -/
theorem leftmost_shift (p : Nat) (rows : List Row) :
    leftmost (rows.map (Row.shift p)) = leftmost rows := by
  cases hrows : rows with
  | nil => rfl
  | cons r more =>
      rw [← hrows]
      have hindents : (rows.map (Row.shift p)).map Row.indent
          = (rows.map Row.indent).map (· + p) := by
        simp only [List.map_map]
        rfl
      have hleast : least ((rows.map Row.indent).map (· + p))
          = least (rows.map Row.indent) + p :=
        least_add p (by simp [hrows])
      rw [leftmost, leftmost, hindents, hleast, List.map_map]
      refine List.map_congr_left fun q _ => ?_
      simp only [Function.comp_apply, Row.shift, Nat.add_sub_add_right]

/-- Rows are moved by as much as the shallowest of them is indented. -/
theorem map_shift_leftmost (rows : List Row) :
    (leftmost rows).map (Row.shift (least (rows.map Row.indent))) = rows := by
  rw [leftmost, List.map_map]
  refine (List.map_congr_left fun r hr => ?_).trans (List.map_id rows)
  have hle := least_le_indent hr
  simp only [Function.comp_apply, Row.shift, Nat.sub_add_cancel hle, id_eq]

theorem leftmost_leftmost (rows : List Row) :
    leftmost (leftmost rows) = leftmost rows := by
  conv => rhs; rw [← map_shift_leftmost rows]
  rw [leftmost_shift]

theorem drop_indented {p m : Nat} (h : m ≤ p) (raw : List Char) :
    (indented p raw).drop m = indented (p - m) raw := by
  rw [indented, indented, List.drop_append_of_le_length (by simpa using h),
    List.drop_replicate]

theorem map_drop_physical (rows : List Row) :
    (physical rows).map (·.drop (least (rows.map Row.indent)))
      = physical (leftmost rows) := by
  rw [physical, physical, leftmost, List.map_map, List.map_map]
  refine List.map_congr_left fun r hr => ?_
  simp only [Function.comp_apply, toList_written,
    drop_indented (least_le_indent hr)]

-- ============================================================== for comparing

theorem commonStart_replicate (m n : Nat) (c : Char) :
    commonStart (List.replicate m c) (List.replicate n c)
      = List.replicate (min m n) c := by
  induction m generalizing n with
  | zero => cases n <;> simp [commonStart]
  | succ m ih =>
      cases n with
      | zero => simp [commonStart]
      | succ n =>
          rw [List.replicate_succ, List.replicate_succ, commonStart, if_pos rfl,
            ih, ← List.replicate_succ, Nat.succ_min_succ]

theorem tabbing_written {r : Row} (h : r.Sound) :
    tabbing r.written.toList = List.replicate r.indent ' ' :=
  takeWhile_written h

/-- What sound rows share in front is as wide as the least of their
indentations. -/
theorem commonTabbing_physical {rows : List Row} (h : ∀ r ∈ rows, r.Sound) :
    commonTabbing (physical rows)
      = List.replicate (least (rows.map Row.indent)) ' ' := by
  have hfold : ∀ {rows : List Row}, (∀ r ∈ rows, r.Sound) → ∀ n : Nat,
      (physical rows).foldl (fun margin l => commonStart margin (tabbing l))
          (List.replicate n ' ')
        = List.replicate ((rows.map Row.indent).foldl min n) ' ' := by
    intro rows
    induction rows with
    | nil => exact fun _ _ => rfl
    | cons r rows ih =>
        intro h n
        have hmore := ih fun q hq => h q (List.mem_cons_of_mem r hq)
        rw [physical] at hmore
        rw [physical, List.map_cons, List.foldl_cons,
          tabbing_written (h r List.mem_cons_self), commonStart_replicate, hmore]
        rfl
  cases rows with
  | nil => rfl
  | cons r rows =>
      rw [physical, List.map_cons, commonTabbing,
        tabbing_written (h r List.mem_cons_self)]
      exact hfold (fun q hq => h q (List.mem_cons_of_mem r hq)) r.indent

theorem joined_physical (rows : List Row) :
    joined ['\n'] (physical rows) = (joinLines (rows.map Row.written)).toList := by
  cases rows with
  | nil => rfl
  | cons r rows =>
      induction rows generalizing r with
      | nil =>
          rw [List.map_cons, List.map_nil, joinLines,
            String.intercalate_singleton]
          rfl
      | cons q rows ih =>
          have hmore := ih q
          rw [physical, List.map_cons] at hmore
          rw [physical, List.map_cons, List.map_cons, joined, hmore,
            List.append_assoc]
          · exact (toList_joinLines_cons_cons _ _ _).symm
          · exact List.cons_ne_nil _ _

/-- Code whose lines are rows but for blanks at their ends is compared by the
rows, moved to the left. -/
theorem normalCode_rows {code : List Char} {rows : List Row}
    (h : ∀ r ∈ rows, r.Sound)
    (hlines : (inkLines code).map trimEnd = physical rows) :
    normalCode code = (joinLines ((leftmost rows).map Row.written)).toList := by
  rw [inkLines] at hlines
  rw [normalCode, hlines, commonTabbing_physical h, List.length_replicate,
    map_drop_physical, joined_physical]

-- =============================================================== for writing

/-- The row of a line of code: the blanks in front, and what is left. -/
def inkRow (l : List Char) : Row := ⟨leadWidth l, String.ofList (trim l)⟩

/-- The rows of code. -/
def codeRows (code : List Char) : List Row := (inkLines code).map inkRow

/-- Code with nothing but spaces in front of what stands on its lines, and no
comment on a line of its own. -/
def Spaced (code : List Char) : Prop :=
  ∀ l ∈ inkLines code, (∀ c ∈ l.takeWhile isBlank, c = ' ')
    ∧ (trimStart l).head? ≠ some '#'

theorem eq_indented {l : List Char} (h : ∀ c ∈ l.takeWhile isBlank, c = ' ') :
    l = indented (leadWidth l) (trimStart l) := by
  have hsplit : l.takeWhile isBlank ++ trimStart l = l :=
    List.takeWhile_append_dropWhile
  have hwidth : (l.takeWhile isBlank).length = leadWidth l := by
    have hlength := congrArg List.length hsplit
    rw [List.length_append] at hlength
    rw [leadWidth]
    omega
  conv => lhs; rw [← hsplit]
  rw [indented, ← hwidth, ← List.eq_replicate_of_mem h]

/-- A line of code loses its blanks at the end and spaces in front. -/
theorem trimEnd_drop {l : List Char} {m : Nat}
    (h : ∀ c ∈ l.takeWhile isBlank, c = ' ') (hink : trim l ≠ [])
    (hm : m ≤ leadWidth l) :
    trimEnd (l.drop m)
      = ({ inkRow l with indent := leadWidth l - m } : Row).written.toList := by
  conv => lhs; rw [eq_indented h, drop_indented hm, indented]
  rw [toList_written, inkRow, String.toList_ofList]
  exact trimEnd_append_right _ hink

theorem sound_inkRow {l : List Char} (hu : Unbroken l) (hink : trim l ≠ [])
    (hhash : (trimStart l).head? ≠ some '#') : (inkRow l).Sound := by
  have htidy := tidy_trim hink
  have hunbroken : Unbroken (trim l) := hu.subset fun c hc =>
    (trimStart_suffix l).subset ((trimEnd_isPrefix _).subset hc)
  obtain ⟨back, hback⟩ := trimEnd_isPrefix (trimStart l)
  rw [Row.Sound, inkRow, String.toList_ofList]
  cases htrim : trim l with
  | nil => exact absurd htrim hink
  | cons c cs =>
      rw [htrim] at htidy hunbroken
      refine content_cons hunbroken (startsInk_cons.mp htidy.starts) ?_
      rintro rfl
      rw [← hback, ← trim, htrim] at hhash
      exact hhash rfl

section

variable {code : List Char} (h : Spaced code)
include h

theorem sound_codeRows (hreturn : '\r' ∉ code) :
    ∀ r ∈ codeRows code, r.Sound := by
  intro r hr
  obtain ⟨l, hl, rfl⟩ := List.mem_map.mp hr
  obtain ⟨hink, hmem⟩ := ink_of_mem_inkLines hl
  refine sound_inkRow (fun c hc => ⟨?_, ?_⟩) hink (h l hl).2
  · rintro rfl
    exact not_mem_of_mem_splitAt hmem hc
  · rintro rfl
    exact hreturn (mem_of_mem_splitAt hmem hc)

/-- Its lines without blanks at the end. -/
theorem map_trimEnd_inkLines :
    (inkLines code).map trimEnd = physical (codeRows code) := by
  rw [physical, codeRows, List.map_map]
  refine List.map_congr_left fun l hl => ?_
  exact trimEnd_drop (m := 0) (h l hl).1 (ink_of_mem_inkLines hl).1
    (Nat.zero_le _)

/-- Its lines without the margin, as they are written. -/
theorem cutMargin_inkLines :
    (cutMargin (inkLines code)).map trimEnd
      = physical (leftmost (codeRows code)) := by
  have hindents : (codeRows code).map Row.indent
      = (inkLines code).map leadWidth := by
    rw [codeRows, List.map_map]
    rfl
  rw [cutMargin, physical, leftmost, hindents, codeRows]
  simp only [List.map_map]
  refine List.map_congr_left fun l hl => ?_
  refine trimEnd_drop (h l hl).1 (ink_of_mem_inkLines hl).1 ?_
  rw [← hindents]
  exact least_le_indent (List.mem_map_of_mem hl)

/-- Without the margin, as it is compared. -/
theorem normalCode_spaced (hreturn : '\r' ∉ code) :
    normalCode code
      = (joinLines ((leftmost (codeRows code)).map Row.written)).toList :=
  normalCode_rows (sound_codeRows h hreturn) (map_trimEnd_inkLines h)

end

end Source

end NovelScript
