/-
The mark in front of a page. Reading drops one byte order mark from the front of
a text. If a page began with one, then the line behind it would be read without
it, and the question is whether what is read can be written as that page all the
same.

# Why it cannot

It cannot if nothing is complained about. A page that is written for lines
begins with the word of a statement, or with raw text, that is, with the first
of these lines as it stands (`Front`). So the first line with something on it
would have to begin with the mark that was dropped, and each line after it would
have to be that line again, without end.

# How the descent is made

* `front_of_linesYield` says how a page begins that is written for lines of
  which nothing is complained about. There are three cases, and raw text of
  several lines is the one to be careful with: all of its lines but the first
  are indented.
* A line with a mark in front begins no statement with a word of its own, so it
  is raw text. If the page of the lines below it were all that was scanned, then
  this page would begin with the same line once more, and no empty line would
  stand between the two (`asks_for_no_gap`).
* `topLines_ne_cons` is the induction over the lines that were scanned: a page
  has no line with a mark in front of those that it is read from. It ends
  because each step takes one line off.

`unmarked_of_again` puts this to use for texts that were read without complaint
and written as they were.
-/
import NovelScript.Proofs.RoundTrip.Lasting
import NovelScript.Proofs.RoundTrip.Lines

namespace NovelScript.Reading

open Grammar Source Text
open Outline (linesOfAll linesOfAll_line)
open Written (Unmarked)

variable {layout : PageLayout} {tabSize : Int}

-- ========================================================= first lines

/-- A line that has something on it and is not indented is the first one, and
stands at the margin. -/
theorem scanFrom_content {raw : List Char} (h : Content raw) (number : Nat)
    (raws : List (List Char)) :
    scanFrom tabSize [0] number (raw :: raws)
      = (⟨String.ofList raw, 0, 0, number⟩
          :: (scanFrom tabSize [0] (number + 1) raws).1,
        (scanFrom tabSize [0] (number + 1) raws).2) := by
  have hrow : Row.Sound ⟨0, String.ofList raw⟩ := by
    rwa [Row.Sound, String.toList_ofList]
  have hscan := scanFrom_row hrow tabSize [0] number raws
  rw [toList_written, String.toList_ofList, enter_zero levels_margin] at hscan
  exact hscan

/-- A first line that is indented opens a block. -/
theorem depth_pos_of_scan_row {r : Row} (h : r.Sound) (hindent : 0 < r.indent)
    {number : Nat} {raws : List (List Char)} {l : Line} {more : List Line}
    {found : List Diagnostic}
    (hscan : scanFrom tabSize [0] number (r.written.toList :: raws)
      = (l :: more, found)) : l.depth ≠ 0 := by
  intro hdepth
  have hzero := indent_of_depth_zero tabSize hscan hdepth
  rw [scanFrom_row h] at hscan
  obtain ⟨rfl, -⟩ := List.cons.inj (Prod.mk.inj hscan).1
  exact absurd hzero (Nat.ne_of_gt hindent)

/-- Lines as they are handed on by the scanner: those at the margin are those
inside no block. -/
def Handed (ls : List Line) : Prop :=
  ∀ l ∈ ls, Scanned l ∧ (l.depth = 0 ↔ l.indent = 0)

theorem handed_scan {number : Nat} {raws : List (List Char)} {ls : List Line}
    {found : List Diagnostic} (hraws : ∀ raw ∈ raws, Unbroken raw)
    (hscan : scanFrom tabSize [0] number raws = (ls, found)) : Handed ls := by
  have hlines : (scanFrom tabSize [0] number raws).1 = ls := by rw [hscan]
  intro l hl
  rw [← hlines] at hl
  exact ⟨scanned_of_mem_scanFrom hraws l hl,
    depth_eq_zero_iff tabSize levels_margin l hl⟩

-- =============================================================== fronts

/-- Code begins with its sign or its word. -/
theorem opening_code {indentSize : Int} {id : String} {c : Code}
    {os : List Outline} (hw : Written.simple id (.code c) = .ok os) :
    Opening (linesOfAll indentSize 0 os) := by
  obtain rfl := Except.ok.inj hw
  rcases code_cases c.code (Written.isSet c.early) (Written.isSet c.hide)
    (Written.isSet c.init) with ⟨hline, -⟩ | ⟨-, hopens, hblock⟩
  · rw [hline]
    refine opening_line ?_ []
    rw [String.toList_append]
    exact Opens.append ⟨'$', _, rfl, by decide, by decide, by decide⟩ _
  · rw [hblock]
    exact opening_block hopens _ []

/-- How a page begins that is written for lines: with the word of a statement,
with raw text of one line, or with raw text of several lines, of which all but
the first are indented. -/
inductive Front (layout : PageLayout) :
    List Line → List Stmt → List String → Prop where
  /-- Something else than raw text. -/
  | opens {ls : List Line} {us : List Stmt} {lines : List String}
    (h : Opening lines) : Front layout ls us lines
  /-- A line as it stands, before the page of the other lines. -/
  | line {l : Line} {rest : List Line} {vs : List Stmt} {lines : List String}
    (hyield : linesYield rest = ⟨vs, []⟩)
    (hlines : Written.topLines layout vs = .ok lines) :
    Front layout (l :: rest) (bareSimple l (.raw l.content) :: vs)
      (l.content
        :: (Written.gap layout (bareSimple l (.raw l.content)) vs ++ lines))
  /-- A line as it stands, and one that is indented. -/
  | block {l b : Line} {rest : List Line} {us : List Stmt}
    {lines : List String} (hindent : 0 < b.indent) :
    Front layout (l :: b :: rest) us
      (l.content :: (⟨b.indent, b.content⟩ : Row).written :: lines)

/-- The first of the items of lines; if it is no conditional then it takes the
deeper lines below its own. -/
theorem itemsOf_cons (l : Line) (more : List Line) :
    ∃ i rest, itemsOf (l :: more) = i :: rest ∧ i.line = l
      ∧ ∀ m items, i = .plain m items → ∃ block below, more = block ++ below
        ∧ Item.linesOfAll items = block ∧ rest = itemsOf below
        ∧ (∀ b ∈ block, l.depth < b.depth)
        ∧ ∀ b ∈ below.head?, b.depth ≤ l.depth := by
  rw [itemsOf, Item.ofLines, Item.attach]
  split
  · exact ⟨_, _, rfl, rfl, by rintro _ _ ⟨⟩⟩
  · refine ⟨_, _, rfl, rfl, ?_⟩
    rintro _ _ ⟨⟩
    refine ⟨more.takeWhile (l.depth < ·.depth),
      more.dropWhile (l.depth < ·.depth), List.takeWhile_append_dropWhile.symm,
      linesOfAll_itemsOf _, rfl, fun b hb => ?_, fun b hb => ?_⟩
    · simpa using List.mem_takeWhile_imp hb
    · simpa using head_dropWhile _ _ b hb

/-- Lines against a first line at the margin are indented as they are. -/
theorem relativeRows_margin {l : Line} (h : l.indent = 0) (block : List Line) :
    relativeRows (l :: block)
      = ⟨0, l.content⟩ :: block.map fun m => ⟨m.indent, m.content⟩ := by
  have hleast : least ((l :: block).map Line.indent) = 0 :=
    Nat.le_zero.mp (h ▸ (least_spec l.indent (block.map Line.indent)).2 _
      List.mem_cons_self)
  rw [relativeRows, hleast, List.map_cons, h]
  simp only [Nat.sub_zero]

/-- A page that begins with raw text. -/
theorem front_raw {l : Line} {block rest : List Line} {vs : List Stmt}
    {lines : List String} (hs : ∀ m ∈ l :: block, Scanned m)
    (hindent : l.indent = 0) (hblock : ∀ b ∈ block, 0 < b.indent)
    (hyield : linesYield rest = ⟨vs, []⟩)
    (hlines : Written.topLines layout vs = .ok lines) :
    Front layout (l :: (block ++ rest)) (bareRaw l (l :: block) :: vs)
      (linesOfAll layout.indentSize 0
          (Phrase.raw (Line.relativeText (l :: block)))
        ++ (Written.gap layout (bareRaw l (l :: block)) vs ++ lines)) := by
  have hfirst : (⟨0, l.content⟩ : Row).written = l.content :=
    String.empty_append
  rw [Phrase.raw, splitLines_relativeText hs (List.cons_ne_nil _ _),
    linesOfAll_line, relativeRows_margin hindent, List.map_cons, hfirst]
  cases block with
  | nil =>
      rw [bareRaw, relativeText_single]
      exact .line hyield hlines
  | cons b block => exact .block (hblock b List.mem_cons_self)

/-- A page that is written for lines of which nothing is complained about: what
is known of its first line is enough to see that no mark stands in front of it.
-/
theorem front_of_linesYield {l : Line} {more : List Line} {us : List Stmt}
    {lines : List String} (hhanded : Handed (l :: more))
    (h : linesYield (l :: more) = ⟨us, []⟩)
    (hlines : Written.topLines layout us = .ok lines) :
    Front layout (l :: more) us lines := by
  have hdepth := depth_of_linesYield h l rfl
  obtain ⟨i, rest, hitems, rfl, hplain⟩ := itemsOf_cons l more
  rw [linesYield_margin (by simpa using hdepth), hitems] at h
  obtain ⟨u, vs, rfl, -, hquiet, hrest⟩ :=
    quietItem_cons (hhanded _ List.mem_cons_self).1 h
  obtain ⟨os, hos, hlines⟩ := bind_eq_ok.mp hlines
  obtain ⟨after, hafter, hlines⟩ := bind_eq_ok.mp hlines
  obtain rfl := pure_eq_ok.mp hlines
  rw [List.append_assoc]
  -- The first item decides alone how the page begins, whatever follows.
  cases hquiet with
  | compound hcompound => exact .opens ((hcompound.opening hos).append _)
  | @single l items s hsingle =>
      obtain ⟨block, below, rfl, hitems', rfl, hdeeper, hback⟩ :=
        hplain _ _ rfl
      rw [Item.line] at *
      rw [hitems'] at hsingle
      rw [bareSimple, Written.stmt] at hos
      cases hsingle with
      | spoken hspoken hnone =>
          obtain ⟨t, ht⟩ := hspoken.worded
          obtain rfl := Except.ok.inj ((ht.written _).symm.trans hos)
          exact .opens ((opening_line (ht.opens hspoken) []).append _)
      | code hflags => exact .opens ((opening_code hos).append _)
      | raw =>
          obtain rfl := Except.ok.inj hos
          -- Raw text is written as it stood, so its indentations are those of
          -- its lines: at the margin the first, and deeper all the others.
          rw [hdepth] at hdeeper hback
          have hmargin : ∀ m ∈ l :: block, m.depth = 0 ↔ m.indent = 0 :=
            fun m hm => (hhanded m (List.mem_append_left below hm)).2
          refine front_raw (fun m hm => ?_)
            ((hmargin l List.mem_cons_self).mp hdepth) (fun b hb => ?_) ?_
            hafter
          · exact (hhanded m (List.mem_append_left below hm)).1
          · have hb' := hmargin b (List.mem_cons_of_mem l hb)
            have := hdeeper b hb
            omega
          · rw [linesYield_margin fun b hb => Nat.le_zero.mp (hback b hb)]
            exact hrest

theorem Front.exists_cons {ls : List Line} {us : List Stmt}
    {lines : List String} (h : Front layout ls us lines) :
    ∃ t after, lines = t :: after := by
  cases h with
  | opens h =>
      obtain ⟨t, after, rfl, -⟩ := h
      exact ⟨t, after, rfl⟩
  | line => exact ⟨_, _, rfl⟩
  | block => exact ⟨_, _, rfl⟩

/-- The first line of a page can be scanned as it is. -/
theorem Front.content {l : Line} {more : List Line} {us : List Stmt}
    {t : String} {lines : List String} (hl : Scanned l)
    (hone : OneLine t) (h : Front layout (l :: more) us (t :: lines)) :
    Content t.toList := by
  cases h with
  | opens h =>
      obtain ⟨_, _, hcons, hopens⟩ := h
      obtain ⟨rfl, -⟩ := List.cons.inj hcons
      exact hopens.content hone
  | line => exact hl
  | block => exact hl

/-- A single line of raw text does not ask for empty lines around it. -/
theorem isRawBlock_line {l : Line} (hl : Scanned l) :
    Written.isRawBlock (bareSimple l (.raw l.content)) = false := by
  show l.content.toList.contains '\n' = false
  rw [List.contains_eq_mem, decide_eq_false_iff_not]
  exact fun hfeed => (hl.unbroken _ hfeed).1 rfl

/-- Behind a single line of raw text there is an empty line at most if what
follows asks for it. -/
theorem gap_line {l : Line} (hl : Scanned l) (vs : List Stmt) :
    Written.gap layout (bareSimple l (.raw l.content)) vs = []
      ∨ Written.gap layout (bareSimple l (.raw l.content)) vs = [""]
        ∧ ∃ v ws, vs = v :: ws
          ∧ (Written.isLabel v || Written.isRawBlock v) = true := by
  cases vs with
  | nil => exact Or.inl rfl
  | cons v ws =>
      have hlabel : Written.isLabel (bareSimple l (.raw l.content)) = false :=
        rfl
      have hdefinition :
          Written.isDefinition (bareSimple l (.raw l.content)) = false := rfl
      rw [Written.gap, Written.needsBlank, isRawBlock_line hl, hlabel,
        hdefinition, Bool.false_or, Bool.false_and, Bool.or_false,
        Bool.or_false]
      split
      · next hblank =>
        exact Or.inr ⟨rfl, v, ws, rfl, (Bool.and_eq_true_iff.mp hblank).2⟩
      · exact Or.inl rfl

-- ============================================================== no mark

theorem ne_nil_of_topLines {us : List Stmt} {lines : List String}
    (hlines : Written.topLines layout us = .ok lines) {x : List Char}
    {raws : List (List Char)} (heq : lines.map String.toList = x :: raws) :
    us ≠ [] := by
  rintro rfl
  obtain rfl := pure_eq_ok.mp hlines
  cases heq

/-- The front of a page that is written for something. -/
theorem exists_front {ls : List Line} {us : List Stmt} {lines : List String}
    (hhanded : Handed ls) (hyield : linesYield ls = ⟨us, []⟩)
    (hlines : Written.topLines layout us = .ok lines)
    (hunbroken : ∀ t ∈ lines, Unbroken t.toList) (hne : us ≠ []) :
    ∃ l more t after, ls = l :: more ∧ lines = t :: after ∧ Content t.toList
      ∧ Front layout ls us lines := by
  cases ls with
  | nil =>
      rw [linesYield, List.takeWhile_nil, List.dropWhile_nil, Item.ofLines]
        at hyield
      exact absurd (Yield.mk.inj hyield).1.symm hne
  | cons l more =>
      have hfront := front_of_linesYield hhanded hyield hlines
      obtain ⟨t, after, rfl⟩ := hfront.exists_cons
      exact ⟨l, more, t, after, rfl, rfl, hfront.content
        (hhanded l List.mem_cons_self).1 (hunbroken t List.mem_cons_self),
        hfront⟩

/-- Where a line begins with a mark and the page of the lines below it is all
that was scanned, that page begins with the line, so what is below it is no
label; and it is no raw text of several lines, because the indented one among
them would stand below the line itself. -/
theorem asks_for_no_gap {l : Line} {more : List Line} {number : Nat}
    {v : Stmt} {ws : List Stmt} {lines : List String}
    (hmark : l.content.toList.head? = some '\uFEFF')
    (hscan : scanFrom tabSize [0] number (lines.map String.toList)
      = (l :: more, []))
    (hyield : linesYield more = ⟨v :: ws, []⟩)
    (hlines : Written.topLines layout (v :: ws) = .ok lines)
    (hunbroken : ∀ t ∈ lines, Unbroken t.toList) :
    (Written.isLabel v || Written.isRawBlock v) = false := by
  have hhanded := handed_scan (by simpa using hunbroken) hscan
  obtain ⟨m, rest, t, after, rfl, rfl, ht, hfront⟩ :=
    exists_front (List.forall_mem_cons.mp hhanded).2 hyield hlines hunbroken
      (List.cons_ne_nil v ws)
  rw [List.map_cons, scanFrom_content ht] at hscan
  obtain ⟨hcons, hfound⟩ := Prod.mk.inj hscan
  obtain ⟨rfl, hrows⟩ := List.cons.inj hcons
  have hbelow := fun b hb => (hhanded b (List.mem_cons_of_mem _ hb)).1
  cases hfront with
  | opens h =>
      rw [String.ofList_toList] at hmark
      exact absurd hmark (h.unmarked t rfl)
  | line => exact isRawBlock_line (hbelow m List.mem_cons_self)
  | @block _ b _ _ _ hindent =>
      exact absurd (depth_of_linesYield hyield m rfl)
        (depth_pos_of_scan_row (r := ⟨b.indent, b.content⟩)
          (hbelow b (by simp)) hindent (Prod.ext hrows hfound))

/-- No page has a line with a mark in front of those that it is read from. -/
theorem topLines_ne_cons {x : List Char} (hx : x.head? = some '\uFEFF')
    {raws : List (List Char)} {number : Nat} {ls : List Line}
    {us : List Stmt} {lines : List String}
    (hunbroken : ∀ t ∈ lines, Unbroken t.toList)
    (hscan : scanFrom tabSize [0] number raws = (ls, []))
    (hyield : linesYield ls = ⟨us, []⟩)
    (hlines : Written.topLines layout us = .ok lines) :
    lines.map String.toList ≠ x :: raws := by
  intro heq
  -- If a page had the mark and then its own lines, then its first line would be
  -- the second, and so on. The induction is on the lines behind the mark.
  induction raws generalizing number ls us lines with
  | nil =>
      obtain ⟨l, more, -, -, rfl, -⟩ := exists_front
        (handed_scan (by simp) hscan) hyield hlines hunbroken
        (ne_nil_of_topLines hlines heq)
      cases (Prod.mk.inj hscan).1
  | cons f raws ih =>
      have hraws : ∀ raw ∈ f :: raws, Unbroken raw := by
        intro raw hraw
        obtain ⟨t, ht, rfl⟩ := List.mem_map.mp
          (heq ▸ List.mem_cons_of_mem x hraw)
        exact hunbroken t ht
      have hhanded := handed_scan hraws hscan
      obtain ⟨l, more, t, after, rfl, rfl, -, hfront⟩ := exists_front hhanded
        hyield hlines hunbroken (ne_nil_of_topLines hlines heq)
      have hbelow := (List.forall_mem_cons.mp hhanded).2
      obtain ⟨rfl, hnext⟩ := List.cons.inj heq
      cases hfront with
      | opens h => exact h.unmarked t rfl hx
      | block hindent =>
          obtain ⟨rfl, -⟩ := List.cons.inj hnext
          exact depth_pos_of_scan_row (hbelow _ List.mem_cons_self).1 hindent
            hscan (depth_of_linesYield hyield l rfl)
      | @line _ _ vs lines hrest hvs =>
          have hafter : ∀ t ∈ lines, Unbroken t.toList := fun t ht =>
            hunbroken t (List.mem_cons_of_mem _ (List.mem_append_right _ ht))
          rcases gap_line (hhanded l List.mem_cons_self).1 vs
            with hgap | ⟨hgap, v, ws, rfl, hv⟩
          · -- The next line is this one again.
            rw [hgap, List.nil_append] at hnext
            obtain ⟨m, rest, t, after, rfl, rfl, ht, -⟩ := exists_front hbelow
              hrest hvs hafter (ne_nil_of_topLines hvs hnext)
            obtain ⟨rfl, hrows⟩ := List.cons.inj hnext
            rw [scanFrom_content ht] at hscan
            obtain ⟨hcons, hfound⟩ := Prod.mk.inj hscan
            obtain ⟨rfl, hmore⟩ := List.cons.inj hcons
            refine ih hafter (Prod.ext hmore hfound) hrest hvs ?_
            rw [hnext, String.toList_ofList]
          · rw [hgap, List.singleton_append, List.map_cons] at hnext
            obtain ⟨rfl, rfl⟩ := List.cons.inj hnext
            rw [String.toList_empty, scanFrom_idle isInked_nil] at hscan
            rw [asks_for_no_gap hx hscan hrest hvs hafter] at hv
            cases hv

/-- Nor is there a page of which the first line has a mark in front of the
first one that it is read from. -/
theorem topLines_ne_mark {t : List Char} {raws : List (List Char)}
    {number : Nat} {ls : List Line} {us : List Stmt} {lines : List String}
    (hunbroken : ∀ t ∈ lines, Unbroken t.toList)
    (hraws : ∀ raw ∈ t :: raws, Unbroken raw)
    (hscan : scanFrom tabSize [0] number (t :: raws) = (ls, []))
    (hyield : linesYield ls = ⟨us, []⟩)
    (hlines : Written.topLines layout us = .ok lines) :
    lines.map String.toList ≠ ('\uFEFF' :: t) :: raws := by
  cases hinked : isInked t with
  | false =>
      rw [scanFrom_idle hinked] at hscan
      exact topLines_ne_cons rfl hunbroken hscan hyield hlines
  | true =>
      intro heq
      obtain ⟨l, more, u, after, rfl, rfl, -, hfront⟩ := exists_front
        (handed_scan hraws hscan) hyield hlines hunbroken
        (ne_nil_of_topLines hlines heq)
      rw [scanFrom_inked hinked] at hscan
      obtain ⟨rfl, -⟩ := List.cons.inj (Prod.mk.inj hscan).1
      obtain ⟨hu, -⟩ := List.cons.inj heq
      -- The line itself is shorter.
      have hshort : u ≠ (lineOf tabSize [0] number t).content := by
        rintro rfl
        rw [lineOf, String.toList_ofList] at hu
        have hlength := (List.dropWhile_sublist isIndent (l := t)).length_le
        rw [hu, List.length_cons] at hlength
        omega
      cases hfront with
      | opens h =>
          refine h.unmarked u rfl ?_
          rw [hu]
          rfl
      | line => exact hshort rfl
      | block => exact hshort rfl

/-- A page that is read without complaint and written as it was does not
begin with a mark. -/
theorem unmarked_of_again {numbering after : Numbering} {us : List Stmt}
    {lines : List String}
    (hread : read tabSize numbering (Written.page lines) = (us, [], after))
    (hlines : Written.topLines layout us = .ok lines)
    (hunbroken : ∀ t ∈ lines, Unbroken t.toList) : Unmarked lines := by
  obtain ⟨raws, hraws, -, hunwraps⟩ := Written.scan_page tabSize hunbroken
  rcases hunwraps with ⟨hunmarked, -⟩ | ⟨t, more, rfl, hmarked⟩
  · exact hunmarked
  · exfalso
    obtain ⟨hodd, hquiet⟩ := quiet_of_read (congrArg (·.2.1) hread)
    have hstmts := anonymousAll_read tabSize numbering (Written.page lines)
    rw [hread] at hstmts
    rw [hraws] at hodd hquiet hstmts
    have hyield : linesYield (scanFrom tabSize [0] 1 (t :: more)).1
        = ⟨Stmt.anonymousAll us, []⟩ := by
      rw [show Stmt.anonymousAll us = _ from hstmts, ← hquiet]
    have hwritten : Written.topLines layout (Stmt.anonymousAll us)
        = .ok lines := by
      rwa [← Written.toOption_eq_some, Stmt.anonymousAll,
        Written.toOption_topLines_relabel, Written.toOption_eq_some]
    have hmap : ∀ raw ∈ ('\uFEFF' :: t) :: more, Unbroken raw := by
      rw [← hmarked]
      simpa using hunbroken
    obtain ⟨hfirst, hmore⟩ := List.forall_mem_cons.mp hmap
    refine topLines_ne_mark hunbroken (List.forall_mem_cons.mpr ⟨?_, hmore⟩)
      (Prod.ext rfl hodd) hyield hwritten hmarked
    exact hfirst.subset fun c hc => List.mem_cons_of_mem _ hc

end NovelScript.Reading
