/-
Rows: lines as a writer lays them out, an indentation of spaces and what stands
behind it. Scanned, a row is a line of the same indentation and content,
whatever the tab size (`scanFrom_row`), as long as there is something on it that
the scanner hands on (`Sound`).

# Depth

What is left to the scanner is the depth, and there two things hold that blocks
are built on. A row at the margin closes all blocks, so what stands in front of
it does not matter to it or to the rows behind. And rows that are all moved to
the right, behind a line at the margin, are the same lines one block deeper: by
how much they were moved does not matter, as long as it is by something.

So the rows of a page need no widths to be known. A page is laid out block by
block, each moved to the right below its header, and by these two rules its
lines have the depths of the blocks.
-/
import NovelScript.Proofs.Source.Shift

namespace NovelScript.Source

open Text

/-- An indentation and what stands behind it. -/
structure Row where
  /-- How many spaces. -/
  indent : Nat
  /-- The text behind them. -/
  content : String

namespace Row

/-- A row as it is written. -/
def written (r : Row) : String :=
  String.ofList (List.replicate r.indent ' ') ++ r.content

/-- A row moved to the right. -/
def shift (p : Nat) (r : Row) : Row := { r with indent := r.indent + p }

/-- A row with something on it that the scanner hands on. -/
abbrev Sound (r : Row) : Prop := Content r.content.toList

end Row

/-- Rows as the lines of a text. -/
def physical (rows : List Row) : List (List Char) :=
  rows.map fun r => r.written.toList

-- ============================================================ one row

/-- What begins with a character that is no white space and opens no
comment is handed on. -/
theorem content_cons {c : Char} {cs : List Char} (hu : Unbroken (c :: cs))
    (hc : isBlank c = false) (hhash : c ≠ '#') : Content (c :: cs) := by
  have hne : trim (c :: cs) ≠ [] := by
    rw [ne_eq, trim_eq_nil]
    intro hb
    rw [hb c List.mem_cons_self] at hc
    cases hc
  refine ⟨hu, fun d hd => ?_, ?_⟩
  · obtain rfl : c = d := by simpa using hd
    by_contra hindent
    have : c = ' ' ∨ c = '\t' := by
      rwa [isIndent, Bool.not_eq_false, Bool.or_eq_true, decide_eq_true_eq,
        decide_eq_true_eq] at hindent
    rcases this with rfl | rfl
    · exact absurd hc (by decide)
    · exact absurd hc (by decide)
  · simp [isTrivia, hhash, hne]

theorem toList_written (r : Row) :
    r.written.toList = indented r.indent r.content.toList := by
  rw [Row.written, String.toList_append, String.toList_ofList, indented]

theorem unbroken_written {r : Row} (h : r.Sound) :
    Unbroken r.written.toList := by
  have hspaces : Unbroken (List.replicate r.indent ' ') := by
    intro c hc
    rw [(List.mem_replicate.mp hc).2]
    decide
  rw [toList_written, indented]
  exact unbroken_append.mpr ⟨hspaces, h.unbroken⟩

section

variable {r : Row} (h : r.Sound)
include h

theorem takeWhile_written :
    r.written.toList.takeWhile isIndent = List.replicate r.indent ' ' := by
  rw [toList_written]
  exact takeWhile_stop (spaces_isIndent r.indent) h.cut

theorem dropWhile_written :
    r.written.toList.dropWhile isIndent = r.content.toList := by
  rw [toList_written]
  exact dropWhile_stop (spaces_isIndent r.indent) h.cut

theorem tabless_written : Tabless r.written.toList := by
  rw [Tabless, takeWhile_written h]
  intro hm
  simp [List.mem_replicate] at hm

theorem isInked_written : isInked r.written.toList = true := by
  rw [isInked_eq, dropWhile_written h, h.meaning]
  rfl

theorem rawWidth_written (tabSize : Int) :
    rawWidth tabSize r.written.toList = r.indent := by
  rw [rawWidth_tabless tabSize (tabless_written h), takeWhile_written h,
    List.length_replicate]

/-- A row is scanned as a line of its indentation and content. -/
theorem scanFrom_row (tabSize : Int) (levels : List Nat) (number : Nat)
    (more : List (List Char)) :
    scanFrom tabSize levels number (r.written.toList :: more)
      = (⟨r.content, r.indent, (enter levels r.indent).1.length - 1, number⟩
            :: (scanFrom tabSize (enter levels r.indent).1 (number + 1)
                more).1,
          oddFound number r.indent (enter levels r.indent).2
            ++ (scanFrom tabSize (enter levels r.indent).1 (number + 1)
                more).2) := by
  rw [scanFrom_inked (isInked_written h), lineOf, lineFound,
    rawWidth_written h, dropWhile_written h, String.ofList_toList]

end

-- ============================================================== many rows

variable (tabSize : Int)

/-- A row at the margin closes all blocks, so what was open before rows
that begin with one does not matter. -/
theorem scanFrom_margin {levels : List Nat} (h : Levels levels)
    (number : Nat) {rows : List Row} (hrows : ∀ r ∈ rows, r.Sound)
    (hmargin : ∀ r ∈ rows.head?, r.indent = 0) :
    scanFrom tabSize levels number (physical rows)
      = scanFrom tabSize [0] number (physical rows) := by
  cases rows with
  | nil => rfl
  | cons r rows =>
      have hr := hrows r List.mem_cons_self
      have h0 : r.indent = 0 := hmargin r rfl
      rw [physical, List.map_cons, scanFrom_row hr tabSize levels number,
        scanFrom_row hr tabSize [0] number, h0, enter_zero h,
        enter_zero levels_margin]

theorem physical_shift (p : Nat) (rows : List Row) :
    physical (rows.map (Row.shift p)) = (physical rows).map (indented p) := by
  rw [physical, physical, List.map_map, List.map_map]
  refine List.map_congr_left fun r _ => ?_
  simp only [Function.comp_apply, toList_written, Row.shift, indented]
  rw [← List.append_assoc, List.replicate_append_replicate, Nat.add_comm]

theorem tabless_of_mem_physical {rows : List Row}
    (hrows : ∀ r ∈ rows, r.Sound) : ∀ raw ∈ physical rows, Tabless raw := by
  intro raw hraw
  obtain ⟨r, hr, rfl⟩ := List.mem_map.mp hraw
  exact tabless_written (hrows r hr)

theorem numbered_margin {rows : List Row} (hrows : ∀ r ∈ rows, r.Sound)
    (hmargin : ∀ r ∈ rows.head?, r.indent = 0) (number : Nat) :
    ∀ r ∈ (numbered number (physical rows)).head?,
      rawWidth tabSize r.2 = 0 := by
  cases rows with
  | nil => simp [physical, numbered]
  | cons q rows =>
      have hq := hrows q List.mem_cons_self
      intro r hr
      rw [physical, List.map_cons, numbered, isInked_written hq] at hr
      obtain rfl := Option.some.inj hr
      rw [rawWidth_written hq]
      exact hmargin q rfl

/-- Rows are scanned the same whatever the tab size. -/
theorem scanFrom_tabSize (tabSize' : Int) (levels : List Nat) (number : Nat)
    {rows : List Row} (hrows : ∀ r ∈ rows, r.Sound) :
    scanFrom tabSize levels number (physical rows)
      = scanFrom tabSize' levels number (physical rows) := by
  induction rows generalizing levels number with
  | nil => rfl
  | cons r rows ih =>
      have hr := hrows r List.mem_cons_self
      have hmore := fun levels number => ih levels number
        fun q hq => hrows q (List.mem_cons_of_mem r hq)
      rw [physical] at hmore
      rw [physical, List.map_cons, scanFrom_row hr, scanFrom_row hr, hmore]

/-- Rows that are scanned without complaint are, behind a line at the
margin, the same lines one block deeper. -/
theorem scanFrom_shift {number : Nat} {rows : List Row}
    (hrows : ∀ r ∈ rows, r.Sound) (hmargin : ∀ r ∈ rows.head?, r.indent = 0)
    {ls : List Line}
    (hscan : scanFrom tabSize [0] number (physical rows) = (ls, []))
    {p : Nat} (hp : 0 < p) :
    scanFrom tabSize [0] number (physical (rows.map (Row.shift p)))
      = (ls.map (Line.move p 1 id), []) := by
  have hblock := scanFrom_block tabSize hp number 0
    (tabless_of_mem_physical hrows) (numbered_margin tabSize hrows hmargin _)
  rw [hscan, ← physical_shift] at hblock
  exact hblock

/-- Rows that are scanned without complaint somewhere are scanned so
everywhere, whatever the tab size. -/
theorem scanFrom_elsewhere {tabSize : Int} (tabSize' : Int) {number : Nat}
    (number' : Nat) {rows : List Row} (hrows : ∀ r ∈ rows, r.Sound)
    {ls : List Line}
    (hscan : scanFrom tabSize [0] number (physical rows) = (ls, [])) :
    ∃ as : List Line, ls = as.map (Line.move 0 0 (· + number))
      ∧ scanFrom tabSize' [0] number' (physical rows)
        = (as.map (Line.move 0 0 (· + number')), []) := by
  have hhere := scanFrom_later tabSize levels_margin 0 number (physical rows)
  have hthere := scanFrom_later tabSize' levels_margin 0 number'
    (physical rows)
  rw [Nat.zero_add] at hhere hthere
  rw [scanFrom_tabSize tabSize tabSize' [0] 0 hrows, hscan] at hhere
  have hquiet := List.map_eq_nil_iff.mp (congrArg Prod.snd hhere).symm
  rw [hquiet] at hthere
  exact ⟨_, congrArg Prod.fst hhere, hthere⟩

-- ====================================================== handed on

/-- What is handed on of some lines are the contents of those with something
on them. -/
theorem map_content_scanFrom (levels : List Nat) (number : Nat)
    (raws : List (List Char)) :
    (scanFrom tabSize levels number raws).1.map (·.content.toList)
      = (raws.filter isInked).map (·.dropWhile isIndent) := by
  induction raws generalizing levels number with
  | nil => rfl
  | cons raw more ih =>
      cases h : isInked raw with
      | false =>
          rw [scanFrom_idle h, ih, List.filter_cons_of_neg (by simp [h])]
      | true =>
          rw [scanFrom_inked h, List.filter_cons_of_pos h, List.map_cons,
            List.map_cons, ih, lineOf, String.toList_ofList]

/-- Rows are scanned as lines of their indentations and contents. -/
theorem map_row_scanFrom (levels : List Nat) (number : Nat)
    {rows : List Row} (h : ∀ r ∈ rows, r.Sound) :
    (scanFrom tabSize levels number (physical rows)).1.map
      (fun l => (⟨l.indent, l.content⟩ : Row)) = rows := by
  induction rows generalizing levels number with
  | nil => rfl
  | cons r rows ih =>
      have hmore := fun levels number =>
        ih levels number fun q hq => h q (List.mem_cons_of_mem r hq)
      rw [physical] at hmore
      rw [physical, List.map_cons, scanFrom_row (h r List.mem_cons_self),
        List.map_cons, hmore]

/-- If no line is missing, all lines have something on them. -/
theorem map_content_of_length_le {levels : List Nat} {number : Nat}
    {raws : List (List Char)} {ls : List Line} {found : List Diagnostic}
    (hscan : scanFrom tabSize levels number raws = (ls, found))
    (hlength : raws.length ≤ ls.length) :
    ls.map (·.content.toList) = raws.map (·.dropWhile isIndent) := by
  have hcontents := map_content_scanFrom tabSize levels number raws
  rw [hscan] at hcontents
  have hcount := congrArg List.length hcontents
  simp only [List.length_map] at hcount
  have hall : raws.filter isInked = raws :=
    List.filter_sublist.eq_of_length_le (by omega)
  rw [hcontents, hall]

/-- The lines at the margin are those inside no block. -/
theorem depth_eq_zero_iff {levels : List Nat} (h : Levels levels)
    {number : Nat} {raws : List (List Char)} :
    ∀ l ∈ (scanFrom tabSize levels number raws).1,
      l.depth = 0 ↔ l.indent = 0 := by
  induction raws generalizing levels number with
  | nil => simp [scanFrom]
  | cons raw more ih =>
      cases hinked : isInked raw with
      | false =>
          rw [scanFrom_idle hinked]
          exact ih h
      | true =>
          obtain ⟨hlevels, hhead, -⟩ := enter_spec h (rawWidth tabSize raw)
          rw [scanFrom_inked hinked]
          intro l hl
          rcases List.mem_cons.mp hl with rfl | hl
          · show (enter levels (rawWidth tabSize raw)).1.length - 1 = 0
              ↔ rawWidth tabSize raw = 0
            constructor
            · intro hlength
              have hmargin := hlevels.margin
              obtain ⟨rest, hopened⟩ := List.head?_eq_some_iff.mp hhead
              rw [hopened] at hlength hmargin
              rw [List.length_cons, Nat.add_sub_cancel] at hlength
              obtain rfl := List.length_eq_zero_iff.mp hlength
              exact Option.some.inj hmargin
            · intro hzero
              rw [hzero, enter_zero h]
              rfl
          · exact ih hlevels l hl

/-- A first line that opens no block stands at the margin. -/
theorem indent_of_depth_zero {number : Nat} {raws : List (List Char)}
    {l : Line} {ls : List Line} {found : List Diagnostic}
    (hscan : scanFrom tabSize [0] number raws = (l :: ls, found))
    (hdepth : l.depth = 0) : l.indent = 0 :=
  (depth_eq_zero_iff tabSize levels_margin l
    (by rw [hscan]; exact List.mem_cons_self)).mp hdepth

end NovelScript.Source
