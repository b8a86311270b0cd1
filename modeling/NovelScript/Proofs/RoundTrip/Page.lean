/-
A script on the page. The statements at the margin follow each other, some of
them set apart by an empty line, which the scanner skips. A page reads as its
statements read, and the statements that come back ask for the same empty lines
if they mean the same.

# Reading a page

A page is built from its end: in front of lines that read as statements, rows
that read as one more statement are put, with or without an empty line between
them (`LegiblePage.cons`). The induction over the statements of a script follows
that. A byte order mark in front is the one thing that a page must not begin
with (`LegiblePage.read`).

# Empty lines

Whether a line is left empty between two statements depends on what kind of
statements they are: whether one defines something, and whether one is raw text
of several lines. Both are kept by statements that mean the same
(`needsBlank_again`), so the gap in front of what comes back is the gap that was
there (`gap_again`). This is why the two pages can be compared line by line.

# Scripts

`topLines_again` takes all of this together. Beside the page it carries the
number of its lines, by which two pages that are the same are the same gap by
gap and statement by statement.
-/
import NovelScript.Proofs.RoundTrip.Tree

namespace NovelScript.Reading

open Grammar Source Text
open Draft (SimpleAlike)
open Outline (linesOfAll)

/-- Lines that read as statements, wherever a page goes on with them. -/
structure LegiblePage (lines : List String) (ss : List Stmt) : Prop where
  /-- They are lines. -/
  unbroken : ∀ l ∈ lines, Unbroken l.toList
  /-- They read as the statements. -/
  reads : ∀ tabSize levels number, Levels levels → ∃ ls,
    scanFrom tabSize levels number (lines.map String.toList ++ [[]])
        = (ls, [])
      ∧ ReadAs ls ss ∧ ∀ l ∈ ls.head?, l.depth = 0

theorem legiblePage_nil : LegiblePage [] [] := by
  refine ⟨by simp, fun tabSize levels number _ => ⟨[], ?_, readAs_nil, by simp⟩⟩
  rw [List.map_nil, List.nil_append, scanFrom_idle isInked_nil]
  rfl

/-- Rows in front of a page, and perhaps an empty line between them. -/
theorem LegiblePage.cons {rows : List Row} {ss ts : List Stmt}
    (h : Legible rows ss) {gap lines : List String}
    (hgap : gap = [] ∨ gap = [""]) (hpage : LegiblePage lines ts) :
    LegiblePage (rows.map Row.written ++ gap ++ lines) (ss ++ ts) := by
  refine ⟨fun l hl => ?_, fun tabSize levels number hlevels => ?_⟩
  · rcases List.mem_append.mp hl with hl | hl
    · rcases List.mem_append.mp hl with hl | hl
      · obtain ⟨r, hr, rfl⟩ := List.mem_map.mp hl
        exact unbroken_written (h.laid.sound r hr)
      · rcases hgap with rfl | rfl
        · cases hl
        · obtain rfl := List.mem_singleton.mp hl
          simp [Unbroken]
    · exact hpage.unbroken l hl
  · obtain ⟨as, hscan, ha⟩ := h.reads tabSize number
    have hafter := hlevels.levelsAfter tabSize
      (numbered number (physical rows))
    generalize hlv : levelsAfter tabSize levels
      (numbered number (physical rows)) = levels' at hafter
    -- The gap is one blank line at most, which the scanner passes over; only
    -- the number of the next line depends on it.
    have hskip : ∃ k, scanFrom tabSize levels'
        (number + (physical rows).length) (gap.map String.toList
          ++ (lines.map String.toList ++ [[]]))
        = scanFrom tabSize levels' k (lines.map String.toList ++ [[]]) := by
      rcases hgap with rfl | rfl
      · exact ⟨_, rfl⟩
      · exact ⟨_, scanFrom_idle isInked_nil _ _ _ _⟩
    obtain ⟨k, hskip⟩ := hskip
    obtain ⟨bs, hscan', hb, hdepth⟩ := hpage.reads tabSize _ k hafter
    refine ⟨as ++ bs, ?_, ha.append hb hdepth, ?_⟩
    · have hrows : (rows.map Row.written ++ gap ++ lines).map String.toList
          ++ [[]] = physical rows
            ++ (gap.map String.toList ++ (lines.map String.toList ++ [[]])) := by
        simp [physical]
      rw [hrows, scanFrom_append, hlv, hskip, hscan',
        scanFrom_margin tabSize hlevels _ h.laid.sound h.laid.margin, hscan]
      rfl
    · cases as with
      | nil => exact hdepth
      | cons a as =>
          intro l hl
          exact h.laid.head_depth hscan l hl

/-- A page that begins with no byte order mark reads as its statements,
without complaint. -/
theorem LegiblePage.read {lines : List String} {ss : List Stmt}
    (h : LegiblePage lines ss)
    (hmark : Written.Unmarked lines)
    (tabSize : Int) (numbering : Numbering) :
    (Reading.read tabSize numbering (Written.page lines)).2.1 = []
      ∧ Stmt.unlabelAll
          (Reading.read tabSize numbering (Written.page lines)).1 = ss := by
  obtain ⟨ls, hscan, hread, hdepth⟩ := h.reads tabSize [0] 1 levels_margin
  have hall : Source.scan tabSize (Written.page lines) = (ls, []) := by
    rw [Source.scan, Written.withoutMark_page hmark,
      Written.physicalLines_page h.unbroken, hscan]
  have hlines := linesYield_margin hdepth
  have hstmts := anonymousAll_read tabSize numbering (Written.page lines)
  rw [hall, hlines] at hstmts
  constructor
  · rw [found_read, hall, hlines, hread.quiet, List.append_nil,
      List.mergeSort_nil]
  · rw [← Stmt.unlabelAll_anonymousAll, hstmts, hread.stmts]

-- ========================================================== empty lines

variable {f : Simple → Simple}

theorem isDefinition_of_simpleAlike {s s' : Simple} (h : SimpleAlike s s')
    (tag tag' : Tag) :
    Written.isDefinition (.simple tag' s') = Written.isDefinition (.simple tag s) := by
  have hkind : ∀ tag s, Written.isDefinition (.simple tag s)
      = decide ((Draft.ofSimple s).1 = .define
          ∨ (Draft.ofSimple s).1 = .default) := by
    intro tag s
    cases s with
    | display verb image o => cases verb <;> rfl
    | _ => rfl
  rw [hkind, hkind, h.1]

theorem isRawBlock_of_simpleAlike {s s' : Simple} (h : SimpleAlike s s')
    (tag tag' : Tag) :
    Written.isRawBlock (.simple tag' s') = Written.isRawBlock (.simple tag s) := by
  by_cases hraw : ∃ c, s = .raw c ∨ s' = .raw c
  · obtain ⟨c, rfl | rfl⟩ := hraw
    · rw [Draft.eq_raw_of_raw_simpleAlike h]
      rfl
    · rw [Draft.eq_raw_of_simpleAlike h]
      rfl
  · have hnone : ∀ tag s, (∀ c, s ≠ .raw c) →
        Written.isRawBlock (.simple tag s) = false := by
      intro tag s hs
      cases s with
      | raw c => exact absurd rfl (hs c)
      | _ => rfl
    rw [hnone tag s fun c hc => hraw ⟨c, Or.inl hc⟩,
      hnone tag' s' fun c hc => hraw ⟨c, Or.inr hc⟩]

/-- Statements that mean the same ask for the same empty lines: these depend on
the kinds of statements, and for raw text on whether it is one line. -/
theorem needsBlank_again {s t : Stmt}
    (hs : s.Leaves fun s => SimpleAlike s (f s))
    (ht : t.Leaves fun s => SimpleAlike s (f s)) :
    Written.needsBlank (Stmt.again f s) (Stmt.again f t)
      = Written.needsBlank s t := by
  have hlabel : ∀ s, Written.isLabel (Stmt.again f s) = Written.isLabel s := by
    intro s
    cases s <;> rfl
  have hdefinition : ∀ s : Stmt, s.Leaves (fun s => SimpleAlike s (f s)) →
      Written.isDefinition (Stmt.again f s) = Written.isDefinition s := by
    intro s hs
    cases s with
    | simple tag s => exact isDefinition_of_simpleAlike hs tag _
    | _ => rfl
  have hblock : ∀ s : Stmt, s.Leaves (fun s => SimpleAlike s (f s)) →
      Written.isRawBlock (Stmt.again f s) = Written.isRawBlock s := by
    intro s hs
    cases s with
    | simple tag s => exact isRawBlock_of_simpleAlike hs tag _
    | _ => rfl
  simp only [Written.needsBlank, hlabel, hdefinition s hs, hdefinition t ht,
    hblock s hs, hblock t ht]

theorem gap_again (layout : PageLayout) {s : Stmt} {ss : List Stmt}
    (h : Stmt.LeavesAll (fun s => SimpleAlike s (f s)) (s :: ss)) :
    Written.gap layout (Stmt.again f s) (Stmt.againAll f ss)
      = Written.gap layout s ss := by
  cases ss with
  | nil => rfl
  | cons t ss =>
      rw [Stmt.againAll, Written.gap, Written.gap,
        needsBlank_again h.1 h.2.1]

-- ============================================================== scripts

/-- A script is written as a page that reads as the script comes back. What
comes back is written as a page that is the same if and only if all simple
statements in it are written the same, provided that they mean the same. -/
theorem topLines_again {layout : PageLayout} (hsize : 0 < layout.indentSize) :
    ∀ ss : List Stmt, Stmt.ProperAll ss →
      Stmt.LeavesAll (fun s => Leaf layout.indentSize s (f s)) ss →
      ∃ lines, Written.topLines layout ss = .ok lines
        ∧ LegiblePage lines (Stmt.againAll f ss)
        ∧ (Stmt.LeavesAll (fun s => SimpleAlike s (f s)) ss →
            ∃ lines', Written.topLines layout (Stmt.againAll f ss) = .ok lines'
              ∧ lines'.length = lines.length
              ∧ (lines' = lines ↔ Stmt.LeavesAll (fun s =>
                  linesOf layout.indentSize (f s)
                    = linesOf layout.indentSize s) ss))
  | [], _, _ => ⟨[], rfl, legiblePage_nil, fun _ =>
      ⟨[], rfl, rfl, iff_of_true rfl trivial⟩⟩
  | s :: ss, hproper, hleaves => by
      obtain ⟨os, os', rows, hs, hs', hecho, hlegible⟩ :=
        returns_again hsize s hproper.1 hleaves.1
      obtain ⟨lines, hlines, hpage, hagain⟩ :=
        topLines_again hsize ss hproper.2 hleaves.2
      have hgap : Written.gap layout s ss = []
          ∨ Written.gap layout s ss = [""] := by
        unfold Written.gap
        split
        · split
          · exact Or.inr rfl
          · exact Or.inl rfl
        · exact Or.inl rfl
      refine ⟨rows.map Row.written ++ Written.gap layout s ss ++ lines, ?_,
        hpage.cons hlegible hgap, fun halike => ?_⟩
      · rw [Written.topLines, hs, hlines, ← hecho.spells]
        rfl
      · obtain ⟨lines', hlines', hcount, hsame⟩ := hagain halike.2
        refine ⟨linesOfAll layout.indentSize 0 os' ++ Written.gap layout s ss
          ++ lines', ?_, ?_, ?_⟩
        · rw [Stmt.againAll, Written.topLines, hs', hlines',
            ← gap_again layout halike]
          rfl
        · simp only [List.length_append, hecho.count, hcount, List.length_map]
        · rw [Stmt.LeavesAll, ← hecho.same, ← hsame]
          constructor
          · intro h
            -- Both pages have as many lines for the first statement, so they
            -- can be compared part by part.
            have hfirst : (linesOfAll layout.indentSize 0 os').length
                = (rows.map Row.written).length := by
              rw [hecho.count, List.length_map]
            rw [List.append_assoc, List.append_assoc] at h
            obtain ⟨h1, h2⟩ := List.append_inj h hfirst
            exact ⟨h1, List.append_cancel_left h2⟩
          · rintro ⟨h1, h2⟩
            rw [h1, h2]

end NovelScript.Reading
