/-
Round trips made once more. Neither the point in time nor the identities that a
run gives out have a say in what is read and written, so a source is read and
written alike on every occasion.

# The steps of a round trip

A round trip reads a source, writes what was read, reads that text, writes it
again, and compares. It is made if each of these five steps can be taken
(`run_eq_ok`), and nothing speaks against it if the second reading is quiet, no
difference is found and the text comes back (`problems_eq_nil`). Both are
equivalences, so that later proofs go through a round trip without opening it.

# The text of a round trip that holds

If a round trip holds then the text that it wrote is read without a complaint,
written back as it is, and equivalent to itself: the round trip of that text
holds, too, and comes to the same text (`run_text`). Such a text has no carriage
return in it (`return_not_mem_text`), and no byte order mark in front
(`head_text`), so that a file which is written with it and read again holds the
text itself. These two are where the modules on lines and on the mark come in.
-/
import NovelScript.Proofs.Draft.Equivalence
import NovelScript.Proofs.Draft.Outlines
import NovelScript.Proofs.RoundTrip.Mark

namespace NovelScript

-- ================================================================ reading

namespace Settings

variable {s : Settings} {now : Timestamp} {numbering : Numbering}
  {file source : String}

/-- A source is read if its tabs can be measured and it keeps within the
bounds; what is read of it is then what reading without bounds gives. -/
theorem parse_eq_ok {p : Parsed} :
    (s.parse now numbering file source).1 = .ok p
      ↔ ∃ tabSize, tabStops s.tabSize source = .ok tabSize
        ∧ Reading.linesStop? (Source.scan tabSize source).1 = none
        ∧ p = ⟨⟨(Reading.read tabSize numbering source).1,
            ⟨file, now, s.version⟩⟩,
            (Reading.read tabSize numbering source).2.1⟩ := by
  unfold parse
  cases htab : tabStops s.tabSize source with
  | error e => simp
  | ok tabSize =>
      cases hstop : Reading.linesStop? (Source.scan tabSize source).1 with
      | some stop => simp [Reading.readWithin, hstop, Except.mapError, Except.map]
      | none =>
          simp only [Reading.readWithin, hstop, Except.mapError, Except.map,
            Except.ok.injEq, exists_eq_left', true_and]
          exact eq_comm

/-- A source is read alike on every occasion. -/
theorem parse_again {p : Parsed}
    (h : (s.parse now numbering file source).1 = .ok p) (now' : Timestamp)
    (numbering' : Numbering) (file' : String) :
    ∃ p', (s.parse now' numbering' file' source).1 = .ok p'
      ∧ Stmt.anonymousAll p'.script.statements
        = Stmt.anonymousAll p.script.statements
      ∧ p'.diagnostics = p.diagnostics := by
  obtain ⟨tabSize, htab, hstop, rfl⟩ := parse_eq_ok.mp h
  refine ⟨_, parse_eq_ok.mpr ⟨tabSize, htab, hstop, rfl⟩, ?_, ?_⟩
  · rw [Reading.anonymousAll_read, Reading.anonymousAll_read]
  · rw [Reading.found_read, Reading.found_read]

/-- The name of a file is kept with a script, and nothing else is. -/
theorem parse_file {p : Parsed}
    (h : (s.parse now numbering file source).1 = .ok p) (file' : String) :
    ∃ p', (s.parse now numbering file' source).1 = .ok p'
      ∧ p'.script.statements = p.script.statements
      ∧ p'.diagnostics = p.diagnostics := by
  obtain ⟨tabSize, htab, hstop, rfl⟩ := parse_eq_ok.mp h
  exact ⟨_, parse_eq_ok.mpr ⟨tabSize, htab, hstop, rfl⟩, rfl, rfl⟩

-- ================================================================ writing

theorem write_eq_ok {ss : List Stmt} {text : String} :
    s.write ss = .ok text
      ↔ ∃ lines, s.lines ss = .ok lines ∧ Written.page lines = text := by
  unfold write
  cases s.lines ss <;> simp [Except.map]

/-- Statements that differ in their identities only are written alike. -/
theorem write_again {ss ts : List Stmt} {text : String}
    (h : s.write ss = .ok text)
    (hsame : Stmt.anonymousAll ts = Stmt.anonymousAll ss) :
    s.write ts = .ok text := by
  obtain ⟨lines, hlines, hpage⟩ := write_eq_ok.mp h
  refine write_eq_ok.mpr ⟨lines, ?_, hpage⟩
  rw [← lines_relabelAll s Tag.anonymous id] at hlines ⊢
  rwa [← Stmt.anonymousAll, hsame]

end Settings

-- ============================================================ round trips

namespace RoundTrip

variable {s : Settings} {now : Timestamp} {stem file source : String}
  {r : RoundTrip}

/-- A round trip is made if each of its five steps can be taken: reading,
writing, reading what was written, writing that again, and comparing. -/
theorem run_eq_ok :
    run s now stem file source = .ok r
      ↔ (s.parse now { stem } file source).1 = .ok r.first
        ∧ s.write r.first.script.statements = .ok r.text
        ∧ (s.parse now { stem } (file ++ " (regenerated)") r.text).1
          = .ok r.second
        ∧ s.write r.second.script.statements = .ok r.again
        ∧ r.first.script.difference r.second.script = .ok r.difference := by
  unfold run
  simp only [bind_eq_ok, pure_eq_ok]
  constructor
  · rintro ⟨first, hfirst, text, htext, second, hsecond, again, hagain,
      difference, hdifference, rfl⟩
    exact ⟨hfirst, htext, hsecond, hagain, hdifference⟩
  · rintro ⟨hfirst, htext, hsecond, hagain, hdifference⟩
    exact ⟨_, hfirst, _, htext, _, hsecond, _, hagain, _, hdifference, rfl⟩

/-- Nothing speaks against a round trip if the second reading is quiet, no
difference is found, and the text comes back. -/
theorem problems_eq_nil :
    r.problems = []
      ↔ r.second.diagnostics = [] ∧ r.difference = none ∧ r.again = r.text := by
  unfold problems
  cases r.difference <;> simp

/-- What a source was written as on one occasion it is written as on every
other one, and the same is said about it. -/
theorem write_of_run (h : run s now stem file source = .ok r)
    (now' : Timestamp) (numbering : Numbering) (file' : String) :
    ∃ p, (s.parse now' numbering file' source).1 = .ok p
      ∧ p.diagnostics = r.first.diagnostics
      ∧ s.write p.script.statements = .ok r.text := by
  obtain ⟨hfirst, htext, -⟩ := run_eq_ok.mp h
  obtain ⟨p, hp, hsame, hfound⟩ :=
    Settings.parse_again hfirst now' numbering file'
  exact ⟨p, hp, hfound, Settings.write_again htext hsame⟩

/-- If a round trip holds, the text that it wrote is a script in its normal
form: on every occasion the round trip of that text holds, and comes to the
text again. -/
theorem run_text (h : run s now stem file source = .ok r)
    (hsound : r.problems = []) (now' : Timestamp) (stem' file' : String) :
    ∃ r', run s now' stem' file' r.text = .ok r' ∧ r'.problems = []
      ∧ r'.first.diagnostics = [] ∧ r'.text = r.text := by
  obtain ⟨-, -, hsecond, hagain, hdifference⟩ := run_eq_ok.mp h
  obtain ⟨hquiet, hnone, hsame⟩ := problems_eq_nil.mp hsound
  rw [hsame] at hagain
  rw [hnone] at hdifference
  obtain ⟨p, hp, hstatements, hfound⟩ :=
    Settings.parse_again hsecond now' { stem := stem' } file'
  have hwritten := Settings.write_again hagain hstatements
  -- The second reading of the text only bears another name.
  obtain ⟨q, hq, hstatements', hfound'⟩ :=
    Settings.parse_file hp (file' ++ " (regenerated)")
  have hself : Stmt.Equivalent p.script.statements p.script.statements := by
    have hother : Stmt.Equivalent r.first.script.statements
        p.script.statements := by
      rw [← Stmt.equivalent_relabelAll Tag.anonymous id, ← Stmt.anonymousAll,
        hstatements, Stmt.anonymousAll, Stmt.equivalent_relabelAll]
      exact hdifference
    exact hother.self_right
  refine ⟨⟨p, r.text, q, none, r.text⟩, run_eq_ok.mpr ⟨hp, hwritten, hq, ?_, ?_⟩,
    problems_eq_nil.mpr ⟨?_, rfl, rfl⟩, hfound.trans hquiet, rfl⟩
  · rw [hstatements', hwritten]
  · rw [Script.difference, hstatements']
    exact hself
  · rw [hfound', hfound, hquiet]

/-- The text that is written of a source has no carriage return in it. -/
theorem return_not_mem_text (h : run s now stem file source = .ok r) :
    '\r' ∉ r.text.toList := by
  obtain ⟨hfirst, htext, -⟩ := run_eq_ok.mp h
  obtain ⟨tabSize, -, -, hparsed⟩ := Settings.parse_eq_ok.mp hfirst
  obtain ⟨lines, hlines, hpage⟩ := Settings.write_eq_ok.mp htext
  rw [hparsed, Settings.lines_eq_ok] at hlines
  rw [← hpage]
  exact return_not_mem_page
    (oneLine_topLines _ (Reading.formedAll_read tabSize _ _) hlines.1)

/-- If a round trip holds then there is no byte order mark in front of the
text. -/
theorem head_text (h : run s now stem file source = .ok r)
    (hsound : r.problems = []) : r.text.toList.head? ≠ some '\uFEFF' := by
  obtain ⟨-, -, hsecond, hagain, -⟩ := run_eq_ok.mp h
  obtain ⟨hquiet, -, hsame⟩ := problems_eq_nil.mp hsound
  obtain ⟨tabSize, -, -, hparsed⟩ := Settings.parse_eq_ok.mp hsecond
  obtain ⟨lines, hlines, hpage⟩ := Settings.write_eq_ok.mp hagain
  rw [hparsed] at hquiet
  rw [hparsed, Settings.lines_eq_ok] at hlines
  rw [hsame] at hpage
  rw [← hpage] at hquiet hlines ⊢
  have hunbroken := oneLine_topLines _ (Reading.formedAll_read tabSize _ _)
    hlines.1
  have hread : Reading.read tabSize { stem } (Written.page lines)
      = (_, [], _) := Prod.ext rfl (Prod.ext hquiet rfl)
  exact Written.head_page (Reading.unmarked_of_again hread hlines.1 hunbroken)

end RoundTrip

end NovelScript
