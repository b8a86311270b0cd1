/-
What the commands on a script do. The round trip reads a file and says what came
of it; formatting reads a file and writes the normal form back. Either goes by
settings that are loaded first, and either succeeds if and only if its steps do:
the statements here name the steps and say what is left when they are taken.

# Equivalences

There is one for each command (`does_runCheck` and the like). From left to right
it takes a run apart that is known to have succeeded, and from right to left it
puts one together. What is printed and logged is part of the answer, as texts
that follow one another; the files are left alone but where a command writes to
one.

A run of the program is the work of its command, unless the file is not there or
something is refused: then there is a message, and a code that is not that of
the command.
-/
import NovelScript.CommandLine.Run
import NovelScript.Proofs.CommandLine.Work
import NovelScript.Proofs.RoundTrip.Repeated

namespace NovelScript

open Work

-- ============================================================= settings

/-- What has been done once settings were loaded from a file, if one was
named. -/
def Console.configured (c : Console) (path : String) (s : Settings) : Console :=
  if path = "" then c else c.noted [.loaded (Path.ofString path).text s]

section

variable (c : Console) (path : String) (s : Settings)

@[simp] theorem Console.folder_configured :
    (c.configured path s).folder = c.folder := by
  unfold configured
  split <;> simp

@[simp] theorem Console.out_configured : (c.configured path s).out = c.out := by
  unfold configured
  split <;> simp

end

theorem GlobalOptions.does_settings {o : GlobalOptions} {c c' : Console}
    {s : Settings} :
    Does o.settings c s c'
      ↔ ∃ loaded, Settings.load c.folder (o.config.getD "") = .ok loaded
        ∧ s = loaded.overrideBy o
        ∧ c' = c.configured (o.config.getD "") loaded := by
  unfold GlobalOptions.settings Console.configured
  rw [does_get_bind, does_ofExcept_bind]
  refine exists_congr fun loaded => and_congr_right fun _ => ?_
  by_cases hpath : o.config.getD "" = ""
  · rw [if_neg (not_not.mpr hpath), if_pos hpath]
    exact does_pure
  · rw [if_pos hpath, if_neg hpath]
    exact does_note_bind.trans does_pure

namespace Command

variable {o : Occasion} {s : Settings} {file : String} {c c' : Console}
  {code : Nat}

-- ============================================================ round trip

/-- What is said about the diagnostics of a file. -/
def complaints (file : String) (ds : List Diagnostic) : String :=
  String.join ((ds.map (·.format file)).map (· ++ "\n"))

/-- What is said about a round trip besides the diagnostics. -/
def verdict (r : RoundTrip) : String :=
  if r.problems.isEmpty then "ROUND TRIP: OK\n"
  else "ROUND TRIP: FAILED\n"
    ++ String.join ((r.problems.map (" - " ++ ·)).map (· ++ "\n"))

/-- A check succeeds if the file is read and the round trip made. What it has
found is in its code and in what is printed; the files are left alone. -/
theorem does_runCheck :
    Does (runCheck o s file) c code c'
      ↔ ∃ source r, c.folder.readMarkedText (Path.ofString file) = .ok source
        ∧ RoundTrip.run s o.now o.stem (Path.ofString file).text source = .ok r
        ∧ code = (if r.problems.isEmpty then 0 else 1)
        ∧ c' = (((c.noted (roundTripEvents s source r)).printed
            (complaints (Path.ofString file).text r.first.diagnostics)).printed
            (digestLine r.text ++ "\n")).printed (verdict r) := by
  unfold runCheck
  simp only [printDiagnostics, does_readText_bind, does_ofExcept_bind, does_note_bind,
    does_printLines_bind, does_printLine_bind]
  refine exists_congr fun source => ?_
  rw [← exists_and_left]
  refine exists_congr fun r => and_congr_right fun _ => and_congr_right fun _ => ?_
  unfold verdict
  split
  · rw [does_printLine_bind, does_pure]
    rfl
  · rw [does_printLine_bind, does_printLines_bind, does_pure,
      Console.printed_printed _ ("ROUND TRIP: FAILED" ++ "\n")]
    rfl

-- ============================================================ formatting

theorem does_parse_bind {source : String} {k : Parsed → Work Nat} :
    Does (Work.parse o s file source >>= k) c code c'
      ↔ ∃ p, (s.parse o.now { stem := o.stem } file source).1 = .ok p
        ∧ Does (k p) (c.noted (Event.ofReading (s.tabSize.size?.getD 1) source p))
          code c' := by
  rw [Work.parse, bind_assoc, does_ofExcept_bind]
  rfl

theorem does_write_bind {ss : List Stmt} {k : String → Work Nat} :
    Does (Work.write s ss >>= k) c code c'
      ↔ ∃ lines, s.lines ss = .ok lines
        ∧ Does (k (Written.page lines))
          (c.noted [.written lines.length ss.length]) code c' := by
  rw [Work.write, bind_assoc, does_ofExcept_bind]
  rfl

/-- What has been done once a script was written back. -/
def formatted (c : Console) (s : Settings) (file source : String) (p : Parsed)
    (lines : List String) (folder : Folder) : Console :=
  { (((c.noted (Event.ofReading (s.tabSize.size?.getD 1) source p)).noted
      [.written lines.length p.script.statements.length]).printed
      (complaints file p.diagnostics)) with folder }.printed
    ("Formatted: " ++ file ++ "\n")

theorem does_runFormat :
    Does (runFormat o s file true) c code c'
      ↔ ∃ source p lines folder,
        c.folder.readMarkedText (Path.ofString file) = .ok source
        ∧ (s.parse o.now { stem := o.stem } (Path.ofString file).text source).1
          = .ok p
        ∧ s.lines p.script.statements = .ok lines
        ∧ c.folder.writeText (Path.ofString file) (Written.page lines)
          = .ok folder
        ∧ code = 0
        ∧ c' = formatted c s (Path.ofString file).text source p lines folder := by
  unfold runFormat
  simp only [does_readText_bind, does_parse_bind, does_write_bind, if_true,
    printDiagnostics, does_printLines_bind, does_writeText_bind,
    does_printLine_bind, does_pure, Console.folder_printed,
    Console.folder_noted, ← exists_and_left]
  rfl

end Command

namespace Invocation

variable {o : Occasion} {i : Invocation} {folder : Folder} {code : Nat}
  {c c' : Console}

-- ============================================================= program

theorem does_work :
    Does (i.work o) c code c'
      ↔ ∃ loaded, Settings.load c.folder (i.options.config.getD "") = .ok loaded
        ∧ Does (i.command.run o (loaded.overrideBy i.options))
          (c.configured (i.options.config.getD "") loaded) code c' := by
  unfold work
  rw [does_bind]
  simp only [GlobalOptions.does_settings]
  constructor
  · rintro ⟨s, between, ⟨loaded, hloaded, rfl, rfl⟩, h⟩
    exact ⟨loaded, hloaded, h⟩
  · rintro ⟨loaded, hloaded, h⟩
    exact ⟨_, _, ⟨loaded, hloaded, rfl, rfl⟩, h⟩

/-- The console that a run begins with. -/
def fresh (i : Invocation) (folder : Folder) : Console :=
  { folder := folder, verbose := i.options.verbose }

/-- What is done for a file that is there. -/
theorem perform_of_does {loaded : Settings}
    (hfile : folder.isFile (Path.ofString i.command.file) = .ok true)
    (hloaded : Settings.load folder (i.options.config.getD "") = .ok loaded)
    (h : Does (i.command.run o (loaded.overrideBy i.options))
      ((i.fresh folder).configured (i.options.config.getD "") loaded)
      code c') :
    i.perform o folder = .ok ⟨code, c'.out, c'.log, c'.folder⟩ := by
  have hrun : (i.work o).run { folder, verbose := i.options.verbose }
      = (.ok code, c') := does_work.mpr ⟨loaded, hloaded, h⟩
  simp only [perform, hfile, hrun]
  simp [Except.mapError, bind, Except.bind]

/-- Nothing is done if the settings are refused. -/
theorem perform_of_refused {t : Trouble} {m : String}
    (hfile : folder.isFile (Path.ofString i.command.file) = .ok true)
    (hloaded : Settings.load folder (i.options.config.getD "") = .error t)
    (hreport : t.report? = some m) :
    ∃ out, i.perform o folder = .ok out ∧ out.code = 1
      ∧ out.out = "error: " ++ m ++ "\n" := by
  have hload : outcome (ofExcept id (Settings.load (i.fresh folder).folder
      (i.options.config.getD ""))) (i.fresh folder)
      = (.error t, i.fresh folder) := by
    rw [outcome_ofExcept, fresh, hloaded]
    rfl
  have hwork : outcome (i.work o) (i.fresh folder)
      = (.error t, i.fresh folder) := by
    rw [work, GlobalOptions.settings, outcome_bind, outcome_bind, outcome_get]
    dsimp only
    rw [outcome_bind, hload]
  have hrun : (i.work o).run { folder, verbose := i.options.verbose }
      = (.error t, i.fresh folder) := hwork
  simp only [perform, hfile, hrun, hreport]
  simp [Except.mapError, bind, Except.bind, fresh]

/-- A run that ends with the code zero did its work. -/
theorem does_of_perform {out : Outcome} (h : i.perform o folder = .ok out)
    (hzero : out.code = 0) :
    ∃ c', Does (i.work o) (i.fresh folder) 0 c'
      ∧ out = ⟨0, c'.out, c'.log, c'.folder⟩ := by
  obtain ⟨isThere, -, h⟩ := bind_eq_ok.mp h
  split at h
  · obtain rfl := Except.ok.inj h
    cases hzero
  · split at h
    · next c' hrun =>
      obtain rfl := Except.ok.inj h
      obtain rfl : _ = 0 := hzero
      exact ⟨c', hrun, rfl⟩
    · next t c' hrun =>
      split at h
      · obtain rfl := Except.ok.inj h
        cases hzero
      · cases h

end Invocation

end NovelScript
