/-
What lasts. Some statements last if their text reads without complaint as
statements that mean the same and have the same text (`Lasts`). Lasting is a
matter of the simple statements alone: a script of any depth lasts if every
simple statement in it would last alone at the top of a page, and if its
compound statements can be written at all (`lasts_of_leaves`).

# From a page to a leaf

Of a simple statement it is only assumed that its own page comes back. From that
it is won that the lines of this page are rows, so that the statement can be put
below any header: it is a `Leaf`, and what comes back for it is written on the
same lines (`exists_leaf_of_lasts`). That two texts are the same says less than
that their lines are, since a line of raw text may hold a line break;
`lines_eq_of_page_eq` closes that gap for statements that mean the same.

# The mark in front

A file may begin with a byte order mark, which the reader takes off. So lines
that are written as they stand come back only if the first of them does not
begin with that mark. Compound statements begin with a word of their own
(`Stmt.Compound.opening`) and simple ones with a line that has come back from
the top of a page, so no script begins with one (`unmarked_topLines`).

# From leaves to a tree

A statement that lasts alone is `Steady`: it returns as one statement, in the
same lines, without a mark. The tree theorem (`topLines_again`) puts leaves of
that kind into their places, and `lasts_of_steady` is what is left of it when
all of them are steady. The choice of what comes back for each leaf is made once
for the whole script, and a lone `pass` has to be returned as it is, since a
body of one such line is read as an empty one (`KeepsPass`).
-/
import NovelScript.Proofs.Draft.Phrases
import NovelScript.Proofs.RoundTrip.Alone

namespace NovelScript

open Grammar Reading Source Text
open Draft (SimpleAlike)
open Outline (bodyLines_line level lines linesOfAll linesOfAll_block
  linesOfAll_line pad_zero spells_line)
open Written (Unmarked)

variable {layout : PageLayout} {tabSize : Int} {numbering : Numbering}

/-- Statements whose text reads without complaint as statements that mean the
same and have the same text. -/
def Lasts (layout : PageLayout) (tabSize : Int) (numbering : Numbering)
    (ss : List Stmt) : Prop :=
  ∃ text ts after, Written.script layout ss = .ok text
    ∧ read tabSize numbering text = (ts, [], after)
    ∧ Draft.listDifference (Draft.ofStmts ss) (Draft.ofStmts ts) = .ok none
    ∧ Written.script layout ts = .ok text

-- ================================================================ alone

/-- A statement that is neither raw text nor code is written on one line. -/
theorem exists_line_of_simple {id : String} {s : Simple} {os : List Outline}
    (hraw : ∀ c, s ≠ .raw c) (hcode : ∀ c, s ≠ .code c)
    (hw : Written.simple id s = .ok os) : ∃ t, os = [.line t] := by
  cases s with
  | raw c => exact absurd rfl (hraw c)
  | code c => exact absurd rfl (hcode c)
  | say d =>
      cases hwho : Written.speaking id d with
      | error e =>
          rw [Written.simple, hwho] at hw
          cases hw
      | ok who =>
          rw [Written.simple, hwho] at hw
          exact ⟨_, (Except.ok.inj hw).symm⟩
  | _ => exact ⟨_, (Except.ok.inj hw).symm⟩

/-- The text of a simple statement is the page of its lines. -/
theorem script_simple {tag : Tag} {s : Simple} {text : String} :
    Written.script layout [.simple tag s] = .ok text
      ↔ ∃ os, Written.simple "" s = .ok os
        ∧ text = Written.page (linesOfAll layout.indentSize 0 os) := by
  have hscript : ∀ os, Written.simple tag.id s = .ok os →
      Written.script layout [.simple tag s]
        = .ok (Written.page (linesOfAll layout.indentSize 0 os)) := by
    intro os hs
    rw [Written.script, Written.topLines, Written.stmt, hs, Written.topLines,
      Written.gap]
    simp [Bind.bind, Except.bind, pure, Except.pure]
  constructor
  · intro h
    cases hs : Written.simple tag.id s with
    | error e =>
        rw [Written.script, Written.topLines, Written.stmt, hs] at h
        cases h
    | ok os =>
        rw [hscript os hs] at h
        exact ⟨os, Written.simple_of_ok "" hs, (Except.ok.inj h).symm⟩
  · rintro ⟨os, hs, rfl⟩
    exact hscript os (Written.simple_of_ok tag.id hs)

/-- Code is written on lines. -/
theorem feed_not_mem_code {indentSize : Int} (hsize : 0 ≤ indentSize)
    {c : Code} {os : List Outline} (hw : Written.simple "" (.code c) = .ok os) :
    ∀ t ∈ linesOfAll indentSize 0 os, '\n' ∉ t.toList := by
  obtain rfl := Except.ok.inj hw
  rcases code_cases c.code (Written.isSet c.early) (Written.isSet c.hide)
    (Written.isSet c.init) with ⟨hline, hfeed, -⟩ | ⟨hone, -, hblock⟩
  · have hlines : linesOfAll indentSize 0
        [.line ("$ " ++ String.ofList (trim c.code.toList))]
        = ["$ " ++ String.ofList (trim c.code.toList)] := linesOfAll_line [_]
    rw [hline, hlines]
    intro t ht
    obtain rfl := List.mem_singleton.mp ht
    rw [String.toList_append, List.mem_append, not_or]
    exact ⟨by decide, by rwa [String.toList_ofList]⟩
  · rw [hblock, linesOfAll_block hsize]
    intro t ht
    rcases List.mem_cons.mp ht with rfl | ht
    · exact fun hfeed => (hone _ hfeed).1 rfl
    · obtain ⟨u, hu, rfl⟩ := List.mem_map.mp ht
      have hbody : '\n' ∉ u.toList := by
        by_cases hne : codeLines c.code.toList = []
        · rw [hne] at hu
          obtain rfl := List.mem_singleton.mp hu
          decide
        · rw [bodyLines_line hne] at hu
          exact feed_not_mem_codeLines hu
      rw [level, String.toList_append, String.toList_ofList, List.mem_append,
        not_or]
      refine ⟨fun hfeed => ?_, hbody⟩
      exact absurd (List.mem_replicate.mp hfeed).2 (by decide)

/-- Statements that mean the same and have the same text have the same lines,
if the lines of the second one are lines. -/
theorem lines_eq_of_page_eq {indentSize : Int} (hsize : 0 ≤ indentSize)
    {s s' : Simple} {os os' : List Outline} (halike : SimpleAlike s s')
    (hs : Written.simple "" s = .ok os) (hs' : Written.simple "" s' = .ok os')
    (hunbroken : ∀ t ∈ linesOfAll indentSize 0 os', Unbroken t.toList)
    (hpage : Written.page (linesOfAll indentSize 0 os)
      = Written.page (linesOfAll indentSize 0 os')) :
    linesOfAll indentSize 0 os = linesOfAll indentSize 0 os' := by
  refine Written.eq_of_page_eq (fun t ht hfeed => (hunbroken t ht _ hfeed).1 rfl)
    ?_ hpage
  by_cases hraw : ∃ c, s = .raw c
  · obtain ⟨c, rfl⟩ := hraw
    obtain rfl := Draft.eq_raw_of_raw_simpleAlike halike
    obtain rfl := Except.ok.inj (hs.symm.trans hs')
    exact Or.inl rfl
  · by_cases hcode : ∃ c, s = .code c
    · obtain ⟨c, rfl⟩ := hcode
      exact Or.inr (feed_not_mem_code hsize hs)
    · obtain ⟨t, rfl⟩ := exists_line_of_simple (not_exists.mp hraw)
        (not_exists.mp hcode) hs
      have hraw' : ∀ c, s' ≠ .raw c := by
        rintro c rfl
        exact hraw ⟨c, Draft.eq_raw_of_simpleAlike halike⟩
      have hcode' : ∀ c, s' ≠ .code c := by
        rintro c rfl
        have hkind := halike.1
        cases s with
        | code c => exact hcode ⟨c, rfl⟩
        | display verb image o => cases verb <;> cases hkind
        | _ => cases hkind
      obtain ⟨t', rfl⟩ := exists_line_of_simple hraw' hcode' hs'
      exact Or.inl rfl

/-- A statement that lasts alone is a leaf, and comes back written as the same
lines. -/
theorem exists_leaf_of_lasts (hsize : 0 < layout.indentSize) {tag : Tag}
    {s : Simple} (h : Lasts layout tabSize numbering [.simple tag s]) :
    ∃ s', Leaf layout.indentSize s s' ∧ SimpleAlike s s'
      ∧ linesOf layout.indentSize s' = linesOf layout.indentSize s
      ∧ ∃ lines, linesOf layout.indentSize s = .ok lines
        ∧ Unmarked lines := by
  obtain ⟨text, ts, after, hw, hread, hdiff, hw'⟩ := h
  have hsize' := Int.le_of_lt hsize
  -- What comes back is one simple statement.
  obtain ⟨tag', s', rfl, halike⟩ : ∃ tag' s', ts = [.simple tag' s']
      ∧ SimpleAlike s s' := by
    have hall := Draft.listDifference_eq_ok_none.mp hdiff
    cases ts with
    | nil => cases hall
    | cons t more =>
        obtain ⟨hfirst, hmore⟩ := List.forall₂_cons.mp hall
        cases more with
        | cons u more => cases hmore
        | nil =>
            obtain ⟨tag', s', rfl, halike⟩ := Draft.exists_simple_of_alike hfirst
            exact ⟨tag', s', rfl, halike⟩
  obtain ⟨os, hs, rfl⟩ := script_simple.mp hw
  obtain ⟨os', hs', hpage⟩ := script_simple.mp hw'
  -- It was read from all lines of the page.
  generalize htext : Written.page (linesOfAll layout.indentSize 0 os) = text
    at hread hpage
  obtain ⟨hodd, hquiet⟩ := quiet_of_read (congrArg (·.2.1) hread)
  have hstmts := anonymousAll_read tabSize numbering text
  have hscanned := scanned_of_mem_scan tabSize text
  rw [hread] at hstmts
  generalize hscan : scan tabSize text = scanned at hodd hquiet hstmts hscanned
  obtain ⟨ls, odd⟩ := scanned
  obtain rfl : odd = [] := hodd
  have hyield : linesYield ls = ⟨[.simple ⟨"", tag'.line⟩ s'], []⟩ := by
    rw [← hquiet]
    exact congrArg (Yield.mk · _) hstmts.symm
  obtain ⟨l, block, rfl, hdepth, hsingle, hreads⟩ :=
    single_of_linesYield hscanned hyield
  have hwritten := hsingle.writtenAs hscanned hs'
  -- The lines that it is written on are the lines of the page.
  have hunbroken := hwritten.unbroken hsize' hscanned
  have hlines := lines_eq_of_page_eq hsize' halike hs hs' hunbroken
    (htext.trans hpage)
  obtain ⟨raws, hraws, hcount, hunwraps⟩ :=
    Written.scan_page tabSize hunbroken
  rw [hpage, hraws] at hscan
  obtain ⟨rows, hspells, hlaid, hunmarked, rfl⟩ :=
    hwritten.rows hsize' hscanned hunwraps hcount hscan hdepth
  have hspells' : linesOfAll layout.indentSize 0 os = rows.map Row.written :=
    hlines.trans hspells
  rw [hspells, List.map_map] at hscan
  have hleaf : Leaf layout.indentSize s s' := by
    refine ⟨⟨os, os', rows, hs, hs', hspells', ?_, hlaid.legible hscan hreads⟩,
      ?_⟩
    · rw [hspells, List.length_map]
    · rintro c rfl -
      exact Draft.eq_raw_of_simpleAlike halike
  refine ⟨s', hleaf, halike, ?_, _, congrArg (Except.map _) hs, ?_⟩
  · rw [linesOf, linesOf, hs, hs', Except.map, Except.map, hlines]
  · rw [hlines]
    exact hunmarked

-- ================================================================ trees

/-- The lines of a simple statement carry no mark. -/
def Bare (indentSize : Int) (s : Simple) : Prop :=
  ∃ lines, linesOf indentSize s = .ok lines ∧ Unmarked lines

theorem unmarked_append {as bs : List String} (ha : Unmarked as)
    (hb : Unmarked bs) : Unmarked (as ++ bs) := by
  cases as with
  | nil => exact hb
  | cons a as => exact ha

/-- Lines of which the first one begins with something on it. -/
def Opening (lines : List String) : Prop :=
  ∃ t more, lines = t :: more ∧ Opens t.toList

theorem Opening.unmarked {lines : List String} (h : Opening lines) :
    Unmarked lines := by
  obtain ⟨t, more, rfl, c, rest, hc, -, -, hmark⟩ := h
  intro l hl
  obtain rfl := Option.some.inj hl
  rw [hc]
  exact fun heq => hmark (Option.some.inj heq)

theorem Opening.append {as : List String} (h : Opening as)
    (bs : List String) : Opening (as ++ bs) := by
  obtain ⟨t, more, rfl, ht⟩ := h
  exact ⟨t, more ++ bs, rfl, ht⟩

section

variable {indentSize : Int} {head : String} (h : Opens head.toList)
include h

theorem opening_line (more : List Outline) :
    Opening (linesOfAll indentSize 0 (.line head :: more)) := by
  rw [linesOfAll, lines, pad_zero, String.empty_append]
  exact ⟨_, _, rfl, h⟩

theorem opening_block (body more : List Outline) :
    Opening (linesOfAll indentSize 0 (.block head body :: more)) := by
  rw [linesOfAll, lines, pad_zero, String.empty_append]
  exact ⟨_, _, rfl, h⟩

theorem opening_headed (hasBody : Bool) (body more : List Outline) :
    Opening (linesOfAll indentSize 0
      (Written.headed head hasBody body :: more)) := by
  unfold Written.headed
  split
  · exact opening_line h more
  · exact opening_block h body more

end

theorem opens_branchHead (condition : Option String) :
    Opens (Phrase.branchHead true condition).toList := by
  cases condition with
  | none => exact ⟨'e', _, rfl, by decide, by decide, by decide⟩
  | some c =>
      rw [Phrase.branchHead]
      simp only [if_true, String.toList_append]
      exact ⟨'i', _, rfl, by decide, by decide, by decide⟩

/-- A compound statement begins with its word. -/
theorem Stmt.Compound.opening {indentSize : Int} {s : Stmt}
    {os : List Outline} (h : s.Compound) (hs : Written.stmt s = .ok os) :
    Opening (linesOfAll indentSize 0 os) := by
  rw [Written.stmt.eq_def] at hs
  cases s with
  | simple tag s => cases h
  | label tag name parameters body =>
      obtain ⟨inner, -, hs⟩ := bind_eq_ok.mp hs
      obtain rfl := pure_eq_ok.mp hs
      refine opening_headed ?_ _ _ _
      rw [toList_labelHead]
      exact ⟨'l', _, rfl, by decide, by decide, by decide⟩
  | menu tag head choices =>
      obtain ⟨inner, -, hs⟩ := bind_eq_ok.mp hs
      obtain rfl := pure_eq_ok.mp hs
      refine opening_block ?_ _ _
      rw [toList_menuHead]
      exact ⟨'m', _, rfl, by decide, by decide, by decide⟩
  | conditional tag branches =>
      cases branches with
      | nil => exact absurd rfl h
      | cons b more =>
          obtain ⟨condition, line, body⟩ := b
          dsimp only at hs
          rw [Written.branchBlocks] at hs
          obtain ⟨inner, -, hs⟩ := bind_eq_ok.mp hs
          obtain ⟨rest, -, hs⟩ := bind_eq_ok.mp hs
          obtain rfl := pure_eq_ok.mp hs
          exact opening_headed (opens_branchHead condition) _ _ _

/-- A statement carries no mark in front if none of its simple statements
does. -/
theorem unmarked_stmt {indentSize : Int} {s : Stmt} {os : List Outline}
    (hs : Written.stmt s = .ok os) (hleaves : s.Leaves (Bare indentSize)) :
    Unmarked (linesOfAll indentSize 0 os) := by
  have hcompound : s.Compound → Unmarked (linesOfAll indentSize 0 os) :=
    fun h => (h.opening hs).unmarked
  cases s with
  | simple tag s =>
      obtain ⟨lines, hlines, hunmarked⟩ := hleaves
      rw [linesOf, Written.simple_of_ok "" hs] at hlines
      obtain rfl := Except.ok.inj hlines
      exact hunmarked
  | label tag name parameters body => exact hcompound trivial
  | menu tag head choices => exact hcompound trivial
  | conditional tag branches =>
      cases branches with
      | nil =>
          obtain rfl := Except.ok.inj hs
          simp [Unmarked, linesOfAll]
      | cons b more => exact hcompound (List.cons_ne_nil b more)

/-- A script carries no mark in front if none of its simple statements
does. -/
theorem unmarked_topLines : ∀ {ss : List Stmt} {lines : List String},
    Written.topLines layout ss = .ok lines →
    Stmt.LeavesAll (Bare layout.indentSize) ss → Unmarked lines
  | [], _, h, _ => by
      obtain rfl := Except.ok.inj h
      simp [Unmarked]
  | s :: ss, _, h, hleaves => by
      obtain ⟨os, hs, h⟩ := bind_eq_ok.mp h
      obtain ⟨more, hss, h⟩ := bind_eq_ok.mp h
      obtain rfl := pure_eq_ok.mp h
      have hgap : Unmarked (Written.gap layout s ss) := by
        unfold Written.gap
        split
        · split <;> simp [Unmarked]
        · simp [Unmarked]
      exact unmarked_append (unmarked_append (unmarked_stmt hs hleaves.1) hgap)
        (unmarked_topLines hss hleaves.2)

/-- A simple statement that comes back alike and is then written on the same
lines, without a mark in front. -/
structure Steady (indentSize : Int) (s s' : Simple) : Prop where
  /-- It comes back. -/
  leaf : Leaf indentSize s s'
  /-- It means the same. -/
  alike : SimpleAlike s s'
  /-- It is written the same. -/
  same : linesOf indentSize s' = linesOf indentSize s
  /-- No mark is in front of it. -/
  bare : Bare indentSize s

/-- A statement that lasts alone is steady. -/
theorem exists_steady (hsize : 0 < layout.indentSize) {tag : Tag} {s : Simple}
    (h : Lasts layout tabSize numbering [.simple tag s]) :
    ∃ s', Steady layout.indentSize s s' := by
  obtain ⟨s', hleaf, halike, hsame, hbare⟩ := exists_leaf_of_lasts hsize h
  exact ⟨s', hleaf, halike, hsame, hbare⟩

/-- Scripts last if their compound statements can be written and their simple
statements are steady. -/
theorem lasts_of_steady (hsize : 0 < layout.indentSize) {ss : List Stmt}
    (hproper : Stmt.ProperAll ss) {f : Simple → Simple}
    (hpass : Draft.KeepsPass f)
    (h : Stmt.LeavesAll (fun s => Steady layout.indentSize s (f s)) ss) :
    Lasts layout tabSize numbering ss := by
  have halike := Stmt.LeavesAll.mono (fun _ => Steady.alike) ss h
  obtain ⟨lines, hlines, hpage, hagain⟩ := topLines_again hsize ss hproper
    (Stmt.LeavesAll.mono (fun _ => Steady.leaf) ss h)
  obtain ⟨lines', hlines', -, hsame⟩ := hagain halike
  obtain rfl : lines' = lines :=
    hsame.mpr (Stmt.LeavesAll.mono (fun _ => Steady.same) ss h)
  obtain ⟨hquiet, hread⟩ := hpage.read
    (unmarked_topLines hlines (Stmt.LeavesAll.mono (fun _ => Steady.bare) ss h))
    tabSize numbering
  generalize hresult : read tabSize numbering (Written.page lines') = result
    at hquiet hread
  obtain ⟨ts, found, after⟩ := result
  -- What is read is what comes back, and carries other labels only.
  have hback : List.Forall₂ Draft.Alike (Draft.ofStmts ss)
      (Draft.ofStmts ts) := by
    rw [← Draft.alike_relabelAll (fun _ => ⟨"", none⟩) (fun _ => none),
      ← Stmt.unlabelAll, hread]
    exact (Draft.alike_againAll hpass ss).mpr halike
  have hwritten : Written.topLines layout ts = .ok lines' := by
    rw [← Written.toOption_eq_some,
      ← Written.toOption_topLines_relabel (fun _ => ⟨"", none⟩)
        (fun _ => none), ← Stmt.unlabelAll, hread, hlines']
    rfl
  refine ⟨Written.page lines', ts, after, ?_, ?_,
    Draft.listDifference_eq_ok_none.mpr hback, ?_⟩
  · rw [Written.script, hlines]
    rfl
  · rw [hresult]
    exact congrArg (fun found => (ts, found, after)) hquiet
  · rw [Written.script, hwritten]
    rfl

/-- A simple statement lasts alone if it is written on one line and read from
that line by no rule of a compound statement. -/
theorem lasts_line (hsize : 0 < layout.indentSize) {s : Simple} {t : String}
    (hw : Written.simple "" s = .ok [.line t]) (halike : SimpleAlike s s)
    (hcontent : Content t.toList) (hmark : t.toList.head? ≠ some '\uFEFF')
    (hword : ∀ r ∈ "if" :: ruledWords, firstWord? t.toList ≠ some r)
    (hkind : lineKind t.toList = .simple s) (tag : Tag) :
    Lasts layout tabSize numbering [.simple tag s] := by
  have hlines : linesOf layout.indentSize s = .ok [t] := by
    rw [linesOf, hw]
    exact congrArg Except.ok (linesOfAll_line [t])
  -- The page is one line without a word that heads a block, so it is read as an
  -- item of its own.
  have hlegible : Legible [⟨0, t⟩] [.simple ⟨"", none⟩ s] := by
    refine ⟨laid_row hcontent, scans_row hcontent fun number => ?_⟩
    have hitems : itemsOf [headerLine t number]
        = [.plain (headerLine t number) []] :=
      itemsOf_line (opensConditional_of_firstWord?
        (hword "if" List.mem_cons_self))
    have hyield : itemYield (.plain (headerLine t number) [])
        = ⟨[bareSimple (headerLine t number) s], []⟩ := by
      rw [itemYield_unruled fun r hr => hword r (List.mem_cons_of_mem _ hr)]
      simp only [simpleYield, headerLine, hkind]
      rfl
    refine ⟨fun l hl => ?_, ?_, ?_⟩
    · obtain rfl := Option.some.inj hl
      exact continuesConditional_of_firstWord?
        (hword "elif" (by decide)) (hword "else" (by decide))
    · rw [hitems, itemsYield, hyield]
      rfl
    · rw [hitems, itemsYield, hyield]
      rfl
  refine lasts_of_steady hsize (f := id) ⟨trivial, trivial⟩ (fun _ _ => rfl)
    ⟨⟨⟨⟨_, _, _, hw, hw, spells_line t, ?_, hlegible⟩, fun _ h _ => h⟩, halike,
      rfl, _, hlines, ?_⟩, trivial⟩
  · exact congrArg List.length (linesOfAll_line [t])
  · intro l hl
    obtain rfl := Option.some.inj hl
    exact hmark

/-- Scripts last if their compound statements can be written and their simple
statements last alone. So whether a script lasts is a question about single
statements, each on a page of its own. -/
theorem lasts_of_leaves (hsize : 0 < layout.indentSize) {ss : List Stmt}
    (hproper : Stmt.ProperAll ss)
    (hleaves : Stmt.LeavesAll (fun s => ∃ tag numbering,
      Lasts layout tabSize numbering [.simple tag s]) ss) :
    Lasts layout tabSize numbering ss := by
  -- What each simple statement comes back as; raw text as itself.
  have hback : ∀ s : Simple, ∃ s',
      ((∃ tag numbering, Lasts layout tabSize numbering [.simple tag s]) →
        Steady layout.indentSize s s') ∧ ∀ c, s = .raw c → s' = .raw c := by
    intro s
    by_cases hs : ∃ tag numbering,
        Lasts layout tabSize numbering [.simple tag s]
    · obtain ⟨tag, numbering, hlasts⟩ := hs
      obtain ⟨s', hsteady⟩ := exists_steady hsize hlasts
      refine ⟨s', fun _ => hsteady, ?_⟩
      rintro c rfl
      exact Draft.eq_raw_of_raw_simpleAlike hsteady.alike
    · exact ⟨s, fun h => absurd h hs, fun _ => id⟩
  choose f hf hraw using hback
  exact lasts_of_steady hsize hproper (fun c _ => hraw _ c rfl)
    (Stmt.LeavesAll.mono hf ss hleaves)

/-- A label with a conditional, a menu and an empty branch below it. -/
theorem lasts_label_menu : Lasts { indentSize := 2 } 4 default
    [.label ⟨"d", none⟩ "day" (some ["n=1"])
      [.conditional ⟨"c", none⟩
        [.mk (some "n > 0") none
          [.menu ⟨"m", none⟩ { prompt := some "Go?", promptSpeaker := some "e" }
            [.mk "Yes." (some "ok") none
              [.simple ⟨"j", none⟩ (.jump "end" none)]]],
        .mk none none [.simple ⟨"p", none⟩ (.raw "pass")]]]] := by
  have hpass : Lasts { indentSize := 2 } 4 default
      [.simple ⟨"p", none⟩ (.raw "pass")] :=
    lasts_line (by decide) (t := "pass") rfl (Draft.simpleAlike_raw.mpr rfl)
      content_pass (by decide) (by decide) (by decide) _
  have hjump : Lasts { indentSize := 2 } 4 default
      [.simple ⟨"j", none⟩ (.jump "end" none)] := by
    have hsame : Draft.listDifference
        (Draft.ofStmts [.simple ⟨"j", none⟩ (.jump "end" none)])
        (Draft.ofStmts [.simple ⟨"j", none⟩ (.jump "end" none)])
        = .ok none := rfl
    have halike := (List.forall₂_cons.mp
      (Draft.listDifference_eq_ok_none.mp hsame)).1
    exact lasts_line (by decide) (t := "jump end") rfl
      (Draft.alike_simple.mp halike)
      (content_cons (by unfold Unbroken; decide) (by decide) (by decide))
      (by decide) (by decide) rfl _
  -- The two simple statements last alone. What is left is that the compound
  -- ones can be written.
  have hname : LabelName "day".toList :=
    .inl ⟨'d', ['a', 'y'], rfl, by decide, by decide⟩
  have hparameters : Parameters (some ["n=1"]) :=
    List.forall_mem_singleton.mpr ⟨by unfold Unbroken; decide, by decide⟩
  have hhead : MenuHead.Proper
      { prompt := some "Go?", promptSpeaker := some "e" } := by
    refine ⟨by rintro _ ⟨⟩, by rintro _ ⟨⟩, ?_, by rintro _ ⟨⟩⟩
    rintro _ ⟨⟩
    exact ⟨⟨'e', [], rfl, by decide, by decide⟩, "Go?", rfl⟩
  have hif : ∀ c ∈ some "n > 0", Condition c := by
    rintro _ ⟨⟩
    exact ⟨tidy_iff.mpr (by decide), by unfold Unbroken; decide⟩
  have hoffer : ∀ c ∈ Written.present (some "ok"), Condition c := by
    rintro _ ⟨⟩
    exact inline_of_all (by decide) (by decide)
  have hyes : Stmt.Proper (.menu ⟨"m", none⟩
      { prompt := some "Go?", promptSpeaker := some "e" }
      [.mk "Yes." (some "ok") none
        [.simple ⟨"j", none⟩ (.jump "end" none)]]) :=
    ⟨hhead, hoffer, by rintro ⟨⟩, ⟨trivial, trivial⟩, trivial⟩
  refine lasts_of_leaves (by decide) ⟨⟨hname, hparameters, by rintro ⟨⟩,
    ⟨by simp, hif, by simp, by rintro ⟨⟩, ⟨hyes, trivial⟩, by rintro _ ⟨⟩,
      by simp, fun _ => ⟨_, rfl⟩, ⟨trivial, trivial⟩, trivial⟩, trivial⟩,
    trivial⟩ ?_
  exact ⟨⟨⟨⟨⟨⟨⟨_, _, hjump⟩, trivial⟩, trivial⟩, trivial⟩,
    ⟨⟨_, _, hpass⟩, trivial⟩, trivial⟩, trivial⟩, trivial⟩

end NovelScript
