/-
Lines that are moved. The scanner looks at a line only if something stands on
it, and then at three things: its number, its width and what the open blocks
are. So a text scans by its numbered lines with something on them
(`scanFrom_numbered`), and these may get other numbers, may move to the right,
and may stand inside blocks that are open anyway: every line and every complaint
moves with them (`scanNumbered_move`), also where an indentation is out of
order.

# Moving

`Line.move p d f` moves a line by `p` columns into `d` blocks and gives it the
number `f` says. A complaint names its line, and one about a dedent three widths
besides, which move with the column (`Diagnostic.move`). The column may only
change for all lines at once: it is the order of the widths that the scanner
looks at, and a common shift keeps it.

# Open blocks

Blocks that are open anyway stand below all others in the list of widths, and no
line of the text is narrow enough to close them. So the widths inside them are
those without them, moved, with the outer ones behind; the induction over the
lines carries this through.
-/
import NovelScript.Proofs.Source.Scan

namespace NovelScript

/-- A line moved to the right, into deeper blocks, and to another number. -/
def Line.move (p d : Nat) (f : Nat → Nat) (l : Line) : Line :=
  ⟨l.content, l.indent + p, l.depth + d, f l.number⟩

/-- A cause whose line moved to the right, and the open blocks with it. -/
def Cause.move (p : Nat) : Cause → Cause
  | .dedent width outer closed => .dedent (width + p) (outer + p) (closed + p)
  | c => c

/-- A complaint that moves with its line. -/
def Diagnostic.move (p : Nat) (f : Nat → Nat) (d : Diagnostic) : Diagnostic :=
  ⟨f d.line, d.cause.move p⟩

theorem Cause.move_zero (c : Cause) : c.move 0 = c := by
  cases c <;> rfl

namespace Source

open Text

-- ============================================================ one line

/-- Whether something stands on a line besides white space and a comment. -/
def isInked (raw : List Char) : Bool :=
  !raw.all isBlank && (raw.dropWhile isIndent).head? != some '#'

theorem isBlank_of_isIndent {c : Char} (h : isIndent c = true) :
    isBlank c = true := by
  rw [isIndent, Bool.or_eq_true, decide_eq_true_eq, decide_eq_true_eq] at h
  rcases h with rfl | rfl <;> decide

/-- The scanner passes over the other lines. -/
theorem isInked_eq (raw : List Char) :
    isInked raw = !isTrivia (raw.dropWhile isIndent) := by
  have hblank : (trim (raw.dropWhile isIndent)).isEmpty = raw.all isBlank := by
    rw [Bool.eq_iff_iff, List.isEmpty_iff, trim_eq_nil, List.all_eq_true]
    constructor
    · intro h c hc
      rw [← List.takeWhile_append_dropWhile (p := isIndent) (l := raw)] at hc
      rcases List.mem_append.mp hc with hc | hc
      · exact isBlank_of_isIndent (List.mem_takeWhile_imp hc)
      · exact h c hc
    · exact fun h c hc => h c ((List.dropWhile_subset _) hc)
  rw [isInked, isTrivia, hblank, Bool.not_or, Bool.and_comm]
  rfl

theorem isInked_nil : isInked [] = false := rfl

/-- The width of a line's indentation. -/
def rawWidth (tabSize : Int) (raw : List Char) : Nat :=
  widthOf tabSize (raw.takeWhile isIndent)

/-- The complaint about a line of some width, if its width is odd. -/
def oddFound (number width : Nat) : Option (Nat × Nat) → List Diagnostic
  | none => []
  | some (outer, closed) => [⟨number, .dedent width outer closed⟩]

/-- A line inside some open blocks. -/
def lineOf (tabSize : Int) (levels : List Nat) (number : Nat)
    (raw : List Char) : Line :=
  ⟨String.ofList (raw.dropWhile isIndent), rawWidth tabSize raw,
    (enter levels (rawWidth tabSize raw)).1.length - 1, number⟩

/-- What entering a line gives rise to. -/
def lineFound (tabSize : Int) (levels : List Nat) (number : Nat)
    (raw : List Char) : List Diagnostic :=
  oddFound number (rawWidth tabSize raw) (enter levels (rawWidth tabSize raw)).2

/-- A line with nothing on it only counts. -/
theorem scanFrom_idle {raw : List Char} (h : isInked raw = false)
    (tabSize : Int) (levels : List Nat) (number : Nat)
    (more : List (List Char)) :
    scanFrom tabSize levels number (raw :: more)
      = scanFrom tabSize levels (number + 1) more := by
  have htrivia : isTrivia (raw.dropWhile isIndent) = true := by
    simpa [isInked_eq] using h
  rw [scanFrom]
  simp only [htrivia, if_true]

/-- A line with something on it is handed on and opens or closes blocks. -/
theorem scanFrom_inked {raw : List Char} (h : isInked raw = true)
    (tabSize : Int) (levels : List Nat) (number : Nat)
    (more : List (List Char)) :
    scanFrom tabSize levels number (raw :: more)
      = (lineOf tabSize levels number raw
          :: (scanFrom tabSize (enter levels (rawWidth tabSize raw)).1
              (number + 1) more).1,
        lineFound tabSize levels number raw
          ++ (scanFrom tabSize (enter levels (rawWidth tabSize raw)).1
              (number + 1) more).2) := by
  have htrivia : isTrivia (raw.dropWhile isIndent) = false := by
    simpa [isInked_eq] using h
  rw [scanFrom]
  simp only [htrivia, lineFound, rawWidth]
  cases (enter levels (widthOf tabSize (raw.takeWhile isIndent))).2 <;> rfl

-- ====================================================== numbered lines

/-- The lines with something on them, and their numbers. -/
def numbered (number : Nat) : List (List Char) → List (Nat × List Char)
  | [] => []
  | raw :: more =>
    if isInked raw then (number, raw) :: numbered (number + 1) more
    else numbered (number + 1) more

/-- The scanner on lines that all have something on them. -/
def scanNumbered (tabSize : Int) (levels : List Nat) :
    List (Nat × List Char) → List Line × List Diagnostic
  | [] => ([], [])
  | r :: more =>
    (lineOf tabSize levels r.1 r.2
        :: (scanNumbered tabSize (enter levels (rawWidth tabSize r.2)).1
            more).1,
      lineFound tabSize levels r.1 r.2
        ++ (scanNumbered tabSize (enter levels (rawWidth tabSize r.2)).1
            more).2)

variable (tabSize : Int)

/-- A text scans by its numbered lines with something on them. -/
theorem scanFrom_numbered (levels : List Nat) (number : Nat)
    (raws : List (List Char)) :
    scanFrom tabSize levels number raws
      = scanNumbered tabSize levels (numbered number raws) := by
  induction raws generalizing levels number with
  | nil => rfl
  | cons raw more ih =>
      cases h : isInked raw with
      | false => rw [scanFrom_idle h, numbered, h, ih]; rfl
      | true => rw [scanFrom_inked h, numbered, h, ih]; rfl

theorem numbered_append (number : Nat) (as bs : List (List Char)) :
    numbered number (as ++ bs)
      = numbered number as ++ numbered (number + as.length) bs := by
  induction as generalizing number with
  | nil => rfl
  | cons a as ih =>
      have hcount : number + 1 + as.length = number + (a :: as).length := by
        rw [List.length_cons]
        omega
      rw [List.cons_append, numbered, numbered, ih, hcount]
      cases isInked a <;> rfl

theorem numbered_add (number k : Nat) (raws : List (List Char)) :
    numbered (number + k) raws
      = (numbered number raws).map fun r => (r.1 + k, r.2) := by
  induction raws generalizing number with
  | nil => rfl
  | cons raw more ih =>
      have hcount : number + k + 1 = number + 1 + k := by omega
      rw [numbered, numbered, hcount, ih]
      cases isInked raw <;> rfl

theorem map_snd_numbered (number : Nat) (raws : List (List Char)) :
    (numbered number raws).map Prod.snd = raws.filter isInked := by
  induction raws generalizing number with
  | nil => rfl
  | cons raw more ih =>
      rw [numbered, List.filter_cons]
      cases isInked raw with
      | false => exact ih (number + 1)
      | true => exact congrArg (raw :: ·) (ih (number + 1))

/-- The open blocks behind some lines. -/
def levelsAfter (levels : List Nat) (rs : List (Nat × List Char)) : List Nat :=
  rs.foldl (fun levels r => (enter levels (rawWidth tabSize r.2)).1) levels

theorem Levels.levelsAfter {levels : List Nat} (h : Levels levels)
    (rs : List (Nat × List Char)) :
    Levels (levelsAfter tabSize levels rs) := by
  induction rs generalizing levels with
  | nil => exact h
  | cons r rs ih => exact ih (enter_spec h _).1

/-- Lines in front of other lines are scanned first. -/
theorem scanNumbered_append (levels : List Nat)
    (as bs : List (Nat × List Char)) :
    scanNumbered tabSize levels (as ++ bs)
      = ((scanNumbered tabSize levels as).1
          ++ (scanNumbered tabSize (levelsAfter tabSize levels as) bs).1,
        (scanNumbered tabSize levels as).2
          ++ (scanNumbered tabSize (levelsAfter tabSize levels as) bs).2) := by
  induction as generalizing levels with
  | nil => rfl
  | cons a as ih =>
      simp only [List.cons_append, scanNumbered, ih, List.append_assoc]
      rfl

theorem map_number_scanNumbered (levels : List Nat)
    (rs : List (Nat × List Char)) :
    (scanNumbered tabSize levels rs).1.map Line.number = rs.map Prod.fst := by
  induction rs generalizing levels with
  | nil => rfl
  | cons r rs ih => exact congrArg (r.1 :: ·) (ih _)

theorem enter_zero {levels : List Nat} (h : Levels levels) :
    enter levels 0 = ([0], none) := by
  have hkept : levels.dropWhile (0 < ·) = [0] := by
    obtain ⟨⟨hdec, hmargin⟩, hhead⟩ := h.dropWhile 0
    cases hl : levels.dropWhile (0 < ·) with
    | nil => rw [hl] at hmargin; cases hmargin
    | cons v more =>
        rw [hl] at hdec hmargin hhead
        obtain rfl : v = 0 := Nat.le_zero.mp (hhead v rfl)
        cases more with
        | nil => rfl
        | cons u more =>
            have := (List.pairwise_cons.mp hdec).1 u List.mem_cons_self
            omega
  simp only [enter, hkept]
  rfl

/-- Lines of a text in front of others are scanned first. -/
theorem scanFrom_append (levels : List Nat) (number : Nat)
    (as bs : List (List Char)) :
    scanFrom tabSize levels number (as ++ bs)
      = ((scanFrom tabSize levels number as).1
          ++ (scanFrom tabSize
              (levelsAfter tabSize levels (numbered number as))
              (number + as.length) bs).1,
        (scanFrom tabSize levels number as).2
          ++ (scanFrom tabSize
              (levelsAfter tabSize levels (numbered number as))
              (number + as.length) bs).2) := by
  simp only [scanFrom_numbered, numbered_append, scanNumbered_append]

/-- A line at the margin closes all blocks, so what was open before lines
that begin with one does not matter. -/
theorem scanNumbered_margin {levels : List Nat} (h : Levels levels)
    {rs : List (Nat × List Char)}
    (hmargin : ∀ r ∈ rs.head?, rawWidth tabSize r.2 = 0) :
    scanNumbered tabSize levels rs = scanNumbered tabSize [0] rs := by
  cases rs with
  | nil => rfl
  | cons r rs =>
      have h0 : rawWidth tabSize r.2 = 0 := hmargin r rfl
      simp only [scanNumbered, lineOf, lineFound, h0, enter_zero h,
        enter_zero levels_margin]

-- ======================================================= to the right

/-- A line with spaces in front of it. -/
def indented (p : Nat) (raw : List Char) : List Char :=
  List.replicate p ' ' ++ raw

/-- A line whose indentation is as wide as it is long. -/
def Tabless (raw : List Char) : Prop := '\t' ∉ raw.takeWhile isIndent

instance (raw : List Char) : Decidable (Tabless raw) :=
  inferInstanceAs (Decidable (¬ '\t' ∈ raw.takeWhile isIndent))

theorem spaces_isIndent (p : Nat) :
    ∀ c ∈ List.replicate p ' ', isIndent c = true := by
  intro c hc
  rw [(List.mem_replicate.mp hc).2]
  rfl

theorem takeWhile_indented (p : Nat) (raw : List Char) :
    (indented p raw).takeWhile isIndent
      = List.replicate p ' ' ++ raw.takeWhile isIndent :=
  List.takeWhile_append_of_pos (spaces_isIndent p)

theorem dropWhile_indented (p : Nat) (raw : List Char) :
    (indented p raw).dropWhile isIndent = raw.dropWhile isIndent :=
  List.dropWhile_append_of_pos (spaces_isIndent p)

theorem isInked_indented (p : Nat) (raw : List Char) :
    isInked (indented p raw) = isInked raw := by
  rw [isInked_eq, dropWhile_indented, isInked_eq]

/-- Without tabs a width is a length. -/
theorem widthOf_tabless {lead : List Char} (h : '\t' ∉ lead) :
    widthOf tabSize lead = lead.length := by
  have key : ∀ lead : List Char, '\t' ∉ lead → ∀ column,
      lead.foldl (advance tabSize) column = column + lead.length := by
    intro lead
    induction lead with
    | nil => exact fun _ _ => rfl
    | cons c lead ih =>
        intro h column
        have hc : ¬ c = '\t' := fun hc => h (hc ▸ List.mem_cons_self)
        have hmore : '\t' ∉ lead := fun hm => h (List.mem_cons_of_mem c hm)
        rw [List.foldl_cons, ih hmore, advance, if_neg hc, List.length_cons]
        omega
  rw [widthOf, key lead h, Nat.zero_add]

theorem rawWidth_tabless {raw : List Char} (h : Tabless raw) :
    rawWidth tabSize raw = (raw.takeWhile isIndent).length :=
  widthOf_tabless tabSize h

theorem tabless_indented {raw : List Char} (h : Tabless raw) (p : Nat) :
    Tabless (indented p raw) := by
  rw [Tabless, takeWhile_indented, List.mem_append, not_or]
  exact ⟨fun hm => by simp [List.mem_replicate] at hm, h⟩

theorem rawWidth_indented {p : Nat} {raw : List Char}
    (h : 0 < p → Tabless raw) :
    rawWidth tabSize (indented p raw) = rawWidth tabSize raw + p := by
  rcases Nat.eq_zero_or_pos p with rfl | hp
  · rfl
  · rw [rawWidth_tabless tabSize (h hp),
      rawWidth_tabless tabSize (tabless_indented (h hp) p),
      takeWhile_indented, List.length_append, List.length_replicate]
    omega

/-- Spaces in front of a line make it as wide, whatever follows them. -/
theorem le_rawWidth_indented (p : Nat) (raw : List Char) :
    p ≤ rawWidth tabSize (indented p raw) := by
  have hwider : ∀ (lead : List Char) (column : Nat),
      column ≤ lead.foldl (advance tabSize) column := by
    intro lead
    induction lead with
    | nil => exact fun _ => Nat.le_refl _
    | cons c lead ih =>
        intro column
        have hstep : column ≤ advance tabSize column c := by
          unfold advance
          split
          · split <;> omega
          · omega
        exact Nat.le_trans hstep (ih _)
  have hspaces : widthOf tabSize (List.replicate p ' ') = p := by
    rw [widthOf_tabless tabSize (by simp [List.mem_replicate]),
      List.length_replicate]
  rw [rawWidth, takeWhile_indented, widthOf, List.foldl_append, ← widthOf,
    hspaces]
  exact hwider _ p

/-- The open blocks of lines that stand `p` columns further to the right,
inside other open blocks. -/
def deeper (p : Nat) (outer levels : List Nat) : List Nat :=
  levels.map (· + p) ++ outer

theorem dropWhile_deeper {levels : List Nat} (h : Levels levels)
    (w p : Nat) (outer : List Nat) :
    (deeper p outer levels).dropWhile (w + p < ·)
        = deeper p outer (levels.dropWhile (w < ·))
      ∧ (deeper p outer levels).takeWhile (w + p < ·)
        = (levels.takeWhile (w < ·)).map (· + p) := by
  obtain ⟨hkept, hhead⟩ := h.dropWhile w
  have hcut : deeper p outer levels
      = (levels.takeWhile (w < ·)).map (· + p)
        ++ deeper p outer (levels.dropWhile (w < ·)) := by
    rw [deeper, deeper, ← List.append_assoc, ← List.map_append,
      List.takeWhile_append_dropWhile]
  have hwide : ∀ v ∈ (levels.takeWhile (w < ·)).map (· + p),
      decide (w + p < v) = true := by
    intro v hv
    obtain ⟨u, hu, rfl⟩ := List.mem_map.mp hv
    simpa using List.mem_takeWhile_imp hu
  have hstop : ∀ v ∈ (deeper p outer (levels.dropWhile (w < ·))).head?,
      decide (w + p < v) = false := by
    intro v hv
    cases hl : levels.dropWhile (w < ·) with
    | nil => exact absurd hl hkept.ne_nil
    | cons u more =>
        have := hhead u (by rw [hl]; rfl)
        rw [hl] at hv
        obtain rfl : u + p = v := by simpa [deeper] using hv
        simpa using this
  rw [hcut]
  exact ⟨dropWhile_stop hwide hstop, takeWhile_stop hwide hstop⟩

/-- Entering a line is the same further to the right, and a complaint goes
along. -/
theorem enter_deeper {levels : List Nat} (h : Levels levels) (w p : Nat)
    (outer : List Nat) :
    enter (deeper p outer levels) (w + p)
      = (deeper p outer (enter levels w).1,
          (enter levels w).2.map fun odd => (odd.1 + p, odd.2 + p)) := by
  obtain ⟨hdrop, htake⟩ := dropWhile_deeper h w p outer
  obtain ⟨hkept, -⟩ := h.dropWhile w
  obtain ⟨v, more, hv⟩ := List.exists_cons_of_ne_nil hkept.ne_nil
  have hhead : (deeper p outer (v :: more)).head? = some (v + p) := rfl
  by_cases hw : v = w
  · subst hw
    simp only [enter, hdrop, hv, hhead, List.head?_cons, if_true,
      Option.map_none]
  · have hw' : ¬ some (v + p) = some (w + p) := by
      simpa using hw
    have hw'' : ¬ some v = some w := by simpa using hw
    simp only [enter, hdrop, htake, hv, hhead, List.head?_cons, if_neg hw',
      if_neg hw'', List.getLast?_map]
    cases (levels.takeWhile (w < ·)).getLast? <;> rfl

theorem oddFound_move (f : Nat → Nat) (number width p : Nat)
    (odd : Option (Nat × Nat)) :
    oddFound (f number) (width + p)
        (odd.map fun odd => (odd.1 + p, odd.2 + p))
      = (oddFound number width odd).map (Diagnostic.move p f) := by
  cases odd <;> rfl

/-- Lines that get other numbers and move to the right, into blocks that
are open anyway, are the same lines elsewhere, with the same complaints. -/
theorem scanNumbered_move {levels : List Nat} (h : Levels levels)
    (outer : List Nat) (p : Nat) (f : Nat → Nat)
    {rs : List (Nat × List Char)} (hrs : ∀ r ∈ rs, 0 < p → Tabless r.2) :
    scanNumbered tabSize (deeper p outer levels)
        (rs.map fun r => (f r.1, indented p r.2))
      = ((scanNumbered tabSize levels rs).1.map
            (Line.move p outer.length f),
          (scanNumbered tabSize levels rs).2.map (Diagnostic.move p f)) := by
  induction rs generalizing levels with
  | nil => rfl
  | cons r rs ih =>
      have hwidth := rawWidth_indented tabSize (hrs r List.mem_cons_self)
      obtain ⟨hlevels, -, -⟩ := enter_spec h (rawWidth tabSize r.2)
      have hmore := ih hlevels
        fun q hq => hrs q (List.mem_cons_of_mem r hq)
      have hdepth : (deeper p outer
            (enter levels (rawWidth tabSize r.2)).1).length - 1
          = (enter levels (rawWidth tabSize r.2)).1.length - 1
            + outer.length := by
        have := List.length_pos_of_ne_nil hlevels.ne_nil
        rw [deeper, List.length_append, List.length_map]
        omega
      simp only [List.map_cons, scanNumbered, lineOf, lineFound, hwidth,
        enter_deeper h, dropWhile_indented, hdepth, hmore, oddFound_move,
        List.map_append]
      rfl

theorem deeper_zero (levels : List Nat) : deeper 0 [] levels = levels := by
  simp [deeper]

/-- Lines with other numbers are the same lines. -/
theorem scanNumbered_renumber {levels : List Nat} (h : Levels levels)
    (f : Nat → Nat) (rs : List (Nat × List Char)) :
    scanNumbered tabSize levels (rs.map fun r => (f r.1, r.2))
      = ((scanNumbered tabSize levels rs).1.map (Line.move 0 0 f),
          (scanNumbered tabSize levels rs).2.map (Diagnostic.move 0 f)) := by
  have htabs : ∀ r ∈ rs, 0 < 0 → Tabless r.2 :=
    fun _ _ hp => absurd hp (lt_irrefl 0)
  have hmove := scanNumbered_move tabSize h [] 0 f htabs
  rwa [deeper_zero] at hmove

/-- Lines of a text further down are the same lines. -/
theorem scanFrom_later {levels : List Nat} (h : Levels levels)
    (number k : Nat) (raws : List (List Char)) :
    scanFrom tabSize levels (number + k) raws
      = ((scanFrom tabSize levels number raws).1.map (Line.move 0 0 (· + k)),
          (scanFrom tabSize levels number raws).2.map
            (Diagnostic.move 0 (· + k))) := by
  rw [scanFrom_numbered, numbered_add,
    scanNumbered_renumber tabSize h (· + k), ← scanFrom_numbered]

theorem numbered_indented (p number : Nat) (raws : List (List Char)) :
    numbered number (raws.map (indented p))
      = (numbered number raws).map fun r => (r.1, indented p r.2) := by
  induction raws generalizing number with
  | nil => rfl
  | cons raw more ih =>
      rw [List.map_cons, numbered, numbered, isInked_indented, ih]
      cases isInked raw <;> rfl

theorem mem_of_mem_numbered {number : Nat} {raws : List (List Char)}
    {r : Nat × List Char} (h : r ∈ numbered number raws) : r.2 ∈ raws := by
  have hmem := List.mem_map_of_mem (f := Prod.snd) h
  rw [map_snd_numbered] at hmem
  exact List.mem_of_mem_filter hmem

/-- The first of lines at the margin opens, further to the right, the block
that it would have found open inside another one. -/
theorem scanNumbered_opening {p : Nat} (hp : 0 < p)
    {rs : List (Nat × List Char)}
    (hfirst : ∀ r ∈ rs.head?, rawWidth tabSize r.2 = p) :
    scanNumbered tabSize [0] rs
      = scanNumbered tabSize (deeper p [0] [0]) rs := by
  cases rs with
  | nil => rfl
  | cons r rs =>
      have hwidth : rawWidth tabSize r.2 = p := hfirst r rfl
      have hopen : enter [0] p = ([p, 0], none) := by
        have hw : ([0].dropWhile (p < ·)).head? ≠ some p := by
          simp
          omega
        simp only [enter, if_neg hw]
        simp
      have hopened : enter (deeper p [0] [0]) p = ([p, 0], none) := by
        simp [enter, deeper]
      simp only [scanNumbered, lineOf, lineFound, hwidth, hopen, hopened]

/-- Lines that begin at the margin and are moved to the right are the same
lines one block deeper. -/
theorem scanFrom_block {p : Nat} (hp : 0 < p) (number k : Nat)
    {raws : List (List Char)} (htabs : ∀ raw ∈ raws, Tabless raw)
    (hmargin : ∀ r ∈ (numbered number raws).head?,
      rawWidth tabSize r.2 = 0) :
    scanFrom tabSize [0] (number + k) (raws.map (indented p))
      = ((scanFrom tabSize [0] number raws).1.map (Line.move p 1 (· + k)),
          (scanFrom tabSize [0] number raws).2.map
            (Diagnostic.move p (· + k))) := by
  have htabs' : ∀ r ∈ numbered number raws, 0 < p → Tabless r.2 :=
    fun r hr _ => htabs r.2 (mem_of_mem_numbered hr)
  have hmoved : numbered (number + k) (raws.map (indented p))
      = (numbered number raws).map fun r => (r.1 + k, indented p r.2) := by
    rw [numbered_indented, numbered_add, List.map_map]
    rfl
  have hfirst : ∀ r ∈ ((numbered number raws).map
      fun r => (r.1 + k, indented p r.2)).head?,
      rawWidth tabSize r.2 = p := by
    intro r hr
    rw [List.head?_map, Option.mem_def, Option.map_eq_some_iff] at hr
    obtain ⟨q, hq, rfl⟩ := hr
    rw [rawWidth_indented tabSize
      (htabs' q (List.mem_of_head? hq)), hmargin q hq, Nat.zero_add]
  rw [scanFrom_numbered, scanFrom_numbered, hmoved,
    scanNumbered_opening tabSize hp hfirst]
  exact scanNumbered_move tabSize levels_margin [0] p (· + k) htabs'

end Source

end NovelScript
