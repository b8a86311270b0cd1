/-
Checking a file, formatting it and checking it again. If the round trip of a
file holds, then formatting writes the text that was hashed, checking what was
written comes to the same digest without a complaint, and formatting it once
more changes nothing.

# Three runs

Each run is taken apart into its steps (`Proofs/CommandLine/Commands`): settings
are loaded, a source is read, something comes of it. The first check gives that
the text of the source is read as a script that means the same. From there it is
about texts and no longer about files: the text of what was read is a text that
reads back to itself, so the second check finds the text that the first one
hashed, and the digest is of the text alone.

# Settings

All runs have to go by the same settings. They do if the settings come from
another file than the one that is formatted (`Settings.load_put`); a file that
is its own settings file can be a script in order, and settings no longer.
-/
import NovelScript.Proofs.CommandLine.Commands
import NovelScript.Proofs.Files.Folder
import NovelScript.Proofs.Json.Written
import NovelScript.Proofs.Saving.Settings

namespace NovelScript

open Work

-- ============================================================= settings

/-- Settings are the same after a text was written to another file. Names are
compared by the places that they lead to, since two names may lead to one place.
-/
theorem Settings.load_put {f : Folder} {place : Path}
    {content old : ByteArray} (h : f.file? place = some old) {path : String}
    (hother : path = "" ∨ f.locate (Path.ofString path) ≠ .ok place) :
    Settings.load (f.put place content) path = Settings.load f path := by
  rcases hother with rfl | hother
  · rfl
  · simp only [load, Folder.readText, Folder.readBytes_put_ne h hother]

namespace Command

-- ============================================================ the check

/-- The text that is hashed when a file is checked. -/
def hashed (o : Occasion) (folder : Folder) (options : GlobalOptions)
    (file : String) : Except Trouble String := do
  let loaded ← Settings.load folder (options.config.getD "")
  let source ← (folder.readMarkedText (Path.ofString file)).mapError .access
  let r ← (RoundTrip.run (loaded.overrideBy options) o.now o.stem
    (Path.ofString file).text source).mapError .fault
  pure r.text

/-- The lines that a check ends with that found nothing wrong. -/
def approval (text : String) : String :=
  digestLine text ++ "\n" ++ "ROUND TRIP: OK\n"

variable {options : GlobalOptions} {file : String} {folder : Folder}

/-- A check that found nothing wrong: the settings, the source and the round
trip. -/
theorem exists_of_check {o : Occasion} {out : Outcome}
    (h : Invocation.perform o folder ⟨options, .check file⟩ = .ok out)
    (hzero : out.code = 0) :
    ∃ loaded source r,
      Settings.load folder (options.config.getD "") = .ok loaded
      ∧ folder.readMarkedText (Path.ofString file) = .ok source
      ∧ RoundTrip.run (loaded.overrideBy options) o.now o.stem
          (Path.ofString file).text source = .ok r
      ∧ r.problems = []
      ∧ out.out = complaints (Path.ofString file).text r.first.diagnostics
        ++ approval r.text
      ∧ out.folder = folder := by
  obtain ⟨c', hdoes, rfl⟩ := Invocation.does_of_perform h hzero
  obtain ⟨loaded, hloaded, hdoes⟩ := Invocation.does_work.mp hdoes
  obtain ⟨source, r, hsource, hrun, hcode, rfl⟩ := does_runCheck.mp hdoes
  rw [Console.folder_configured] at hsource
  have hproblems : r.problems = [] := by
    by_contra hne
    rw [if_neg (by simpa using hne)] at hcode
    cases hcode
  refine ⟨loaded, source, r, hloaded, hsource, hrun, hproblems, ?_, ?_⟩
  · simp [verdict, hproblems, approval, Invocation.fresh, String.append_assoc]
  · simp [Invocation.fresh]

/-- What can be read is a file in some place. -/
theorem exists_place {p : Path} {source : String}
    (h : folder.readMarkedText p = .ok source) :
    ∃ place old, folder.locate p = .ok place
      ∧ folder.file? place = some old := by
  obtain ⟨bytes, hbytes, -⟩ := bind_eq_ok.mp h
  obtain ⟨place, hplace, hfile⟩ := Folder.readBytes_eq_ok.mp hbytes
  exact ⟨place, bytes, hplace, hfile⟩

/-- A check is made, and finds nothing wrong, if a round trip holds. -/
theorem check_of_run (options : GlobalOptions) {o : Occasion}
    {loaded : Settings} {source : String} {r : RoundTrip}
    (hloaded : Settings.load folder (options.config.getD "") = .ok loaded)
    (hsource : folder.readMarkedText (Path.ofString file) = .ok source)
    (hrun : RoundTrip.run (loaded.overrideBy options) o.now o.stem
      (Path.ofString file).text source = .ok r)
    (hproblems : r.problems = []) :
    ∃ out, Invocation.perform o folder ⟨options, .check file⟩ = .ok out
      ∧ out.code = 0
      ∧ out.out = complaints (Path.ofString file).text r.first.diagnostics
        ++ approval r.text
      ∧ out.folder = folder := by
  obtain ⟨place, old, hplace, hold⟩ := exists_place hsource
  obtain ⟨c', hdoes, hout, hfolder⟩ : ∃ c',
      Does (runCheck o (loaded.overrideBy options) file)
        ((Invocation.fresh ⟨options, .check file⟩ folder).configured
          (options.config.getD "") loaded) 0 c'
      ∧ c'.out = complaints (Path.ofString file).text r.first.diagnostics
        ++ approval r.text
      ∧ c'.folder = folder := by
    refine ⟨_, does_runCheck.mpr ⟨source, r, ?_, hrun, ?_, rfl⟩, ?_, ?_⟩
    · rw [Console.folder_configured]
      exact hsource
    · rw [if_pos (List.isEmpty_iff.mpr hproblems)]
    · simp [verdict, hproblems, approval, Invocation.fresh,
        String.append_assoc]
    · simp [Invocation.fresh]
  exact ⟨_, Invocation.perform_of_does (Folder.isFile_of_file hplace hold)
    hloaded hdoes, rfl, hout, hfolder⟩

-- ========================================================= formatting

/-- Formatting a script puts its text in the place of the file. -/
theorem format_of_write (options : GlobalOptions) {o : Occasion}
    {loaded : Settings} {source : String} {p : Parsed} {text : String}
    {place : Path}
    (hloaded : Settings.load folder (options.config.getD "") = .ok loaded)
    (hsource : folder.readMarkedText (Path.ofString file) = .ok source)
    (hplace : folder.locate (Path.ofString file) = .ok place)
    (hparse : ((loaded.overrideBy options).parse o.now { stem := o.stem }
      (Path.ofString file).text source).1 = .ok p)
    (hwrite : (loaded.overrideBy options).write p.script.statements
      = .ok text) :
    ∃ out, Invocation.perform o folder ⟨options, .format file true⟩ = .ok out
      ∧ out.code = 0 ∧ out.folder = folder.put place text.toUTF8 := by
  obtain ⟨lines, hlines, rfl⟩ := Settings.write_eq_ok.mp hwrite
  obtain ⟨place', old, hplace', hold⟩ := exists_place hsource
  obtain rfl := Except.ok.inj (hplace.symm.trans hplace')
  have hput := Folder.writeText_of_file hplace hold (Written.page lines)
  obtain ⟨c', hdoes, hfolder⟩ : ∃ c',
      Does (runFormat o (loaded.overrideBy options) file true)
        ((Invocation.fresh ⟨options, .format file true⟩ folder).configured
          (options.config.getD "") loaded) 0 c'
      ∧ c'.folder = folder.put place (Written.page lines).toUTF8 := by
    refine ⟨_, does_runFormat.mpr
      ⟨source, p, lines, _, ?_, hparse, hlines, ?_, rfl, rfl⟩, rfl⟩
    · rw [Console.folder_configured]
      exact hsource
    · rw [Console.folder_configured]
      exact hput
  exact ⟨_, Invocation.perform_of_does (Folder.isFile_of_file hplace hold)
    hloaded hdoes, rfl, hfolder⟩

-- ============================================================== again

/-- If a check finds nothing wrong then formatting the file, by the same
settings, writes the text that was hashed. In that text all lines end by line
feeds, and no byte order mark is in front of it. Checking it comes to the same
digest, without a complaint, and formatting it once more leaves all files as
they are. -/
theorem check_format_check {o₁ : Occasion} (o₂ o₃ o₄ : Occasion)
    {out : Outcome}
    (hconfig : options.config.getD "" = ""
      ∨ folder.locate (Path.ofString (options.config.getD ""))
        ≠ folder.locate (Path.ofString file))
    (hcheck : Invocation.perform o₁ folder ⟨options, .check file⟩ = .ok out)
    (hzero : out.code = 0) :
    ∃ text formatted again rewritten,
      hashed o₁ folder options file = .ok text
      ∧ (∃ said, out.out = said ++ approval text)
      ∧ '\r' ∉ text.toList ∧ text.toList.head? ≠ some '\uFEFF'
      ∧ Invocation.perform o₂ folder ⟨options, .format file true⟩
        = .ok formatted ∧ formatted.code = 0
      ∧ formatted.folder.readBytes (Path.ofString file) = .ok text.toUTF8
      ∧ Invocation.perform o₃ formatted.folder ⟨options, .check file⟩
        = .ok again ∧ again.code = 0 ∧ again.out = approval text
      ∧ Invocation.perform o₄ again.folder ⟨options, .format file true⟩
        = .ok rewritten ∧ rewritten.code = 0
      ∧ rewritten.folder = formatted.folder := by
  obtain ⟨loaded, source, r, hloaded, hsource, hrun, hproblems, hout, -⟩ :=
    exists_of_check hcheck hzero
  have hreturn := RoundTrip.return_not_mem_text hrun
  have hmark := RoundTrip.head_text hrun hproblems
  obtain ⟨place, old, hplace, hold⟩ := exists_place hsource
  -- The file is formatted.
  obtain ⟨p, hparse, -, hwrite⟩ :=
    RoundTrip.write_of_run hrun o₂.now { stem := o₂.stem } _
  obtain ⟨formatted, hformat, hformatted, hfolder⟩ :=
    format_of_write options hloaded hsource hplace hparse hwrite
  -- The settings are as they were, and the text is read.
  rw [hplace] at hconfig
  have hloaded' : Settings.load formatted.folder (options.config.getD "")
      = .ok loaded := by
    rw [hfolder, Settings.load_put hold hconfig, hloaded]
  have hplace' : formatted.folder.locate (Path.ofString file) = .ok place := by
    rw [hfolder, Folder.locate_put hold, hplace]
  have hsource' : formatted.folder.readMarkedText (Path.ofString file)
      = .ok r.text := by
    rw [hfolder, Folder.readMarkedText_put hplace hold hreturn hmark]
  -- Its round trip holds, and comes to the same text.
  obtain ⟨r', hrun', hproblems', hquiet, hsame⟩ :=
    RoundTrip.run_text hrun hproblems o₃.now o₃.stem (Path.ofString file).text
  obtain ⟨again, hagain, hagain0, hsaid, hkept⟩ :=
    check_of_run options hloaded' hsource' hrun' hproblems'
  obtain ⟨q, hparse', -, hwrite'⟩ :=
    RoundTrip.write_of_run hrun' o₄.now { stem := o₄.stem } _
  obtain ⟨rewritten, hrewrite, hrewritten, hfolder'⟩ :=
    format_of_write options hloaded' hsource' hplace' hparse' hwrite'
  refine ⟨r.text, formatted, again, rewritten, ?_, ⟨_, hout⟩, hreturn, hmark,
    hformat, hformatted, ?_, hagain, hagain0, ?_, ?_, hrewritten, ?_⟩
  · rw [hashed, hloaded, hsource]
    simp only [Except.mapError, bind, Except.bind, hrun]
    rfl
  · rw [hfolder]
    exact Folder.readBytes_put hold hplace
  · rw [hsaid, hquiet, hsame]
    rfl
  · rw [hkept]
    exact hrewrite
  · rw [hfolder', hsame]
    refine Folder.put_eq_self ?_
    rw [hfolder, Folder.file?_put, if_pos rfl]

/-- A folder with a script that has a byte order mark in front, a line that is
indented by a tab, and lines that all end by two characters. -/
def markedScript : Folder :=
  ⟨[(⟨"", ["s.rpy"]⟩, "\uFEFFlabel s:\r\n\tjump s\r\n".toUTF8)], []⟩

/-- The mark, the tab and the ends of the lines are gone for good. -/
theorem check_format_check_marked :
    ∃ out formatted again rewritten,
      Invocation.perform ⟨default, "a"⟩ markedScript ⟨{}, .check "s.rpy"⟩
        = .ok out
      ∧ out.code = 0
      ∧ Invocation.perform ⟨default, "b"⟩ markedScript
          ⟨{}, .format "s.rpy" true⟩ = .ok formatted
      ∧ formatted.folder.readBytes (Path.ofString "s.rpy")
        = .ok "label s:\n    jump s\n".toUTF8
      ∧ Invocation.perform ⟨default, "c"⟩ formatted.folder
          ⟨{}, .check "s.rpy"⟩ = .ok again
      ∧ again.code = 0 ∧ again.out = approval "label s:\n    jump s\n"
      ∧ Invocation.perform ⟨default, "d"⟩ again.folder
          ⟨{}, .format "s.rpy" true⟩ = .ok rewritten
      ∧ rewritten.folder = formatted.folder := by
  have hchecked : ((Invocation.perform ⟨default, "a"⟩ markedScript
      ⟨{}, .check "s.rpy"⟩).toOption.map (·.code)) = some 0 := by
    decide +kernel
  obtain ⟨out, hout, hzero⟩ := Option.map_eq_some_iff.mp hchecked
  have hcheck := Written.toOption_eq_some.mp hout
  obtain ⟨text, formatted, again, rewritten, hhashed, -, -, -, hformat, -,
    hbytes, hagain, hagain0, hsaid, hrewrite, -, hkept⟩ :=
    check_format_check ⟨default, "b"⟩ ⟨default, "c"⟩ ⟨default, "d"⟩ (.inl rfl)
      hcheck hzero
  have htext : (hashed ⟨default, "a"⟩ markedScript {} "s.rpy").toOption
      = some "label s:\n    jump s\n" := by
    decide +kernel
  rw [hhashed] at htext
  obtain rfl := Option.some.inj htext
  exact ⟨out, formatted, again, rewritten, hcheck, hzero, hformat, hbytes,
    hagain, hagain0, hsaid, hrewrite, hkept⟩

-- ===================================================== its own settings

/-- A file that is read as JSON gives settings. -/
theorem load_of_json {path text : String} {v : Json} (hpath : path ≠ "")
    (htext : folder.readText (Path.ofString path) = .ok text)
    (hjson : Json.load text = .ok v) :
    Settings.load folder path = (Settings.ofJson v).mapError .settings := by
  rw [Settings.load, if_neg hpath]
  simp only [htext, hjson]

/-- A folder with a script that is used as settings, too. For JSON the second
line holds an escaped letter, for a script a backslash, which is written as
two; what is written is JSON with another key. -/
def ownSettings : Folder :=
  ⟨[(⟨"", ["s.rpy"]⟩, "\x7b\n\"tabSiz\\u0065\"\n:4\x7d\n".toUTF8)], []⟩

/-- The file is checked well and formatted, and then its settings are
refused. -/
theorem check_fails_after_format :
    ∃ out formatted again,
      Invocation.perform ⟨default, "a"⟩ ownSettings
          ⟨{ config := some "s.rpy" }, .check "s.rpy"⟩ = .ok out
      ∧ out.code = 0
      ∧ Invocation.perform ⟨default, "a"⟩ ownSettings
          ⟨{ config := some "s.rpy" }, .format "s.rpy" true⟩ = .ok formatted
      ∧ formatted.code = 0
      ∧ Invocation.perform ⟨default, "a"⟩ formatted.folder
          ⟨{ config := some "s.rpy" }, .check "s.rpy"⟩ = .ok again
      ∧ again.code = 1 := by
  have hplace : ownSettings.locate (Path.ofString "s.rpy")
      = .ok ⟨"", ["s.rpy"]⟩ := Written.toOption_eq_some.mp (by decide +kernel)
  have hfile : ownSettings.file? ⟨"", ["s.rpy"]⟩
      = some "\x7b\n\"tabSiz\\u0065\"\n:4\x7d\n".toUTF8 := rfl
  have hsource : ownSettings.readMarkedText (Path.ofString "s.rpy")
      = .ok "\x7b\n\"tabSiz\\u0065\"\n:4\x7d\n" :=
    Written.toOption_eq_some.mp (by decide +kernel)
  have hvalue : Json.Takes "4\x7d\n".toList (.int 4) "\x7d\n".toList :=
    .atom (by decide) rfl
  -- Read as JSON, it gives settings.
  have hloaded : Settings.load ownSettings "s.rpy"
      = .ok { tabSize := .int 4 } := by
    have htext : ownSettings.readText (Path.ofString "s.rpy")
        = .ok "\x7b\n\"tabSiz\\u0065\"\n:4\x7d\n" :=
      Written.toOption_eq_some.mp (by decide +kernel)
    have hjson : Json.load "\x7b\n\"tabSiz\\u0065\"\n:4\x7d\n"
        = .ok (.object [("tabSize", .int 4)]) := by
      have hname : Json.TakesText "tabSiz\\u0065\"\n:4\x7d\n".toList "tabSize"
          "\n:4\x7d\n".toList := .of_run (by decide +kernel)
      exact Json.load_of_takes (by decide +kernel) (by decide)
        (.object rfl (by decide) (.cons hname rfl hvalue (.inl ⟨rfl, rfl⟩))) rfl
    rw [load_of_json (by decide) htext hjson,
      Settings.ofJson_tabSize (by decide) (by decide)]
    rfl
  -- Its round trip holds.
  have hholds : ((RoundTrip.run (Settings.overrideBy { tabSize := .int 4 }
      { config := some "s.rpy" }) default "a" (Path.ofString "s.rpy").text
      "\x7b\n\"tabSiz\\u0065\"\n:4\x7d\n").toOption.map
        fun r => (r.problems, r.text))
      = some ([], "\x7b\n\"tabSiz\\\\u0065\"\n:4\x7d\n") := by decide +kernel
  obtain ⟨r, hr, hpair⟩ := Option.map_eq_some_iff.mp hholds
  obtain ⟨hproblems, htext⟩ := Prod.mk.inj hpair
  have hrun := Written.toOption_eq_some.mp hr
  obtain ⟨out, hcheck, hzero, -⟩ :=
    check_of_run { config := some "s.rpy" } (o := ⟨default, "a"⟩) hloaded
      hsource hrun hproblems
  obtain ⟨p, hparse, -, hwrite⟩ := RoundTrip.write_of_run hrun default
    { stem := "a" } (Path.ofString "s.rpy").text
  obtain ⟨formatted, hformat, hformatted, hfolder⟩ :=
    format_of_write { config := some "s.rpy" } (o := ⟨default, "a"⟩) hloaded
      hsource hplace hparse hwrite
  rw [htext] at hfolder
  -- What is written is JSON still, but gives no settings.
  obtain ⟨e, hrefused⟩ : ∃ e, Settings.load formatted.folder "s.rpy"
      = .error (.settings e) := by
    have hread : formatted.folder.readText (Path.ofString "s.rpy")
        = .ok "\x7b\n\"tabSiz\\\\u0065\"\n:4\x7d\n" := by
      rw [hfolder, Folder.readText_put hplace hfile (by decide)]
    have hjson : Json.load "\x7b\n\"tabSiz\\\\u0065\"\n:4\x7d\n"
        = .ok (.object [("tabSiz\\u0065", .int 4)]) := by
      have hname : Json.TakesText "tabSiz\\\\u0065\"\n:4\x7d\n".toList
          "tabSiz\\u0065" "\n:4\x7d\n".toList := .of_run (by decide +kernel)
      exact Json.load_of_takes (by decide +kernel) (by decide)
        (.object rfl (by decide) (.cons hname rfl hvalue (.inl ⟨rfl, rfl⟩))) rfl
    obtain ⟨e, he⟩ : ∃ e, Settings.ofJson
        (.object [("tabSiz\\u0065", .int 4)]) = .error e :=
      Settings.exists_error_of_other List.mem_cons_self (by decide)
    rw [load_of_json (by decide) hread hjson, he]
    exact ⟨e, rfl⟩
  have hthere : formatted.folder.isFile (Path.ofString "s.rpy") = .ok true := by
    rw [hfolder]
    exact Folder.isFile_of_file
      ((Folder.locate_put hfile _).trans hplace)
      ((Folder.file?_put _).trans (if_pos rfl))
  obtain ⟨again, hagain, hone, -⟩ := Invocation.perform_of_refused
    (i := ⟨{ config := some "s.rpy" }, .check "s.rpy"⟩)
    (o := ⟨default, "a"⟩) hthere hrefused rfl
  exact ⟨out, formatted, again, hcheck, hzero, hformat, hformatted, hagain,
    hone⟩

end Command

end NovelScript
