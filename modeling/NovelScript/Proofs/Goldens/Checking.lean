/-
What a check of goldens does to the files. A sample is read, written, read back
and compared with what was read first; all this depends on its source alone, and
the occasion has no say in it (`Turns.again`). What follows depends on the
files: an update writes the golden of a sample that comes back, and a check
without update compares it.

# Leaving out what is printed

`Checked` says of one script which code its check comes to and which files are
left, and `CheckedAll` of several in a row. They are what is needed of the work
of the command, which prints and logs besides. A work is taken apart by rules
about how it `Ends`, with an answer and some files.

# Codes

A check comes to zero, or to one if a sample does not come back or has no golden,
or to two if the golden is another text. The code of several checks is zero if
all of them come to zero, and else one.
-/
import NovelScript.Goldens
import NovelScript.Proofs.CommandLine.Commands
import NovelScript.Proofs.Draft.Untagged

namespace NovelScript.Goldens

open Work

-- =============================================================== samples

/-- A source of which a text is written, and whether the text, when it is
read, comes back as the source was read. -/
def Turns (o : Occasion) (file source text : String) (comesBack : Bool) : Prop :=
  ∃ p q found,
    (({} : Settings).parse o.now { stem := o.stem } file source).1 = .ok p
      ∧ ({} : Settings).write p.script.statements = .ok text
      ∧ (({} : Settings).parse o.now { stem := o.stem } "" text).1 = .ok q
      ∧ p.script.difference q.script = .ok found
      ∧ comesBack = found.isNone

section

variable {o : Occasion} {file source text : String} {comesBack : Bool}

/-- What comes of a source comes of it on every occasion: neither the time nor
the identities that are given out have a part in what is written or compared. -/
theorem Turns.again (h : Turns o file source text comesBack) (o' : Occasion)
    (file' : String) : Turns o' file' source text comesBack := by
  obtain ⟨p, q, found, hp, htext, hq, hfound, rfl⟩ := h
  obtain ⟨p', hp', hsame, -⟩ :=
    Settings.parse_again hp o'.now { stem := o'.stem } file'
  obtain ⟨q', hq', hsame', -⟩ :=
    Settings.parse_again hq o'.now { stem := o'.stem } ""
  obtain ⟨found', hfound', hsome⟩ := Script.difference_again hfound hsame hsame'
  refine ⟨p', q', found', hp', Settings.write_again htext hsame, hq', hfound',
    ?_⟩
  rw [← Option.not_isSome, ← Option.not_isSome, hsome]

/-- One text is written of a source, and it comes back or it does not. -/
theorem Turns.unique (h : Turns o file source text comesBack) {text' : String}
    {comesBack' : Bool} (h' : Turns o file source text' comesBack') :
    text' = text ∧ comesBack' = comesBack := by
  obtain ⟨p, q, found, hp, htext, hq, hfound, rfl⟩ := h
  obtain ⟨p', q', found', hp', htext', hq', hfound', rfl⟩ := h'
  obtain rfl := Except.ok.inj (hp.symm.trans hp')
  obtain rfl := Except.ok.inj (htext.symm.trans htext')
  obtain rfl := Except.ok.inj (hq.symm.trans hq')
  obtain rfl := Except.ok.inj (hfound.symm.trans hfound')
  exact ⟨rfl, rfl⟩

/-- What is written of a source has no carriage return in it. -/
theorem Turns.return_not_mem (h : Turns o file source text comesBack) :
    '\r' ∉ text.toList := by
  obtain ⟨p, q, found, hp, htext, -⟩ := h
  obtain ⟨tabSize, -, -, rfl⟩ := Settings.parse_eq_ok.mp hp
  obtain ⟨lines, hlines, rfl⟩ := Settings.write_eq_ok.mp htext
  exact return_not_mem_page (oneLine_topLines _
    (Reading.formedAll_read tabSize _ _) ((Settings.lines_eq_ok _ _).mp hlines).1)

end

-- =============================================================== one check

/-- What comes of comparing the golden of a script with a text. -/
def Compared (f : Folder) (script : Path) (text : String) (code : Nat) : Prop :=
  (f.isThere (goldenOf script) = .ok false ∧ code = 1)
    ∨ (f.isThere (goldenOf script) = .ok true
      ∧ ∃ old, f.readText (goldenOf script) = .ok old
        ∧ code = if old = text then 0 else 2)

/-- What comes of checking one script: a code, and the files afterwards. What is
printed is left out. -/
def Checked (o : Occasion) (update : Bool) (script : Path) (f : Folder)
    (code : Nat) (g : Folder) : Prop :=
  ∃ source text comesBack, f.readMarkedText script = .ok source
    ∧ Turns o script.text source text comesBack
    ∧ match comesBack, update with
      | false, _ => code = 1 ∧ g = f
      | true, true => code = 0 ∧ f.writeText (goldenOf script) text = .ok g
      | true, false => Compared f script text code ∧ g = f

-- ================================================================= rules

/-- A work that succeeds with an answer and leaves some files. -/
def Ends {α : Type} (w : Work α) (c : Console) (a : α) (g : Folder) : Prop :=
  ∃ c', Does w c a c' ∧ c'.folder = g

section

variable {o : Occasion} {s : Settings} {c : Console} {code : Nat} {g : Folder}

theorem ends_pure {n : Nat} : Ends (pure n) c code g ↔ code = n ∧ g = c.folder := by
  simp only [Ends, does_pure]
  constructor
  · rintro ⟨c', ⟨rfl, rfl⟩, rfl⟩
    exact ⟨rfl, rfl⟩
  · rintro ⟨rfl, rfl⟩
    exact ⟨c, ⟨rfl, rfl⟩, rfl⟩

theorem ends_ofExcept_bind {ε α : Type} {trouble : ε → Trouble}
    {e : Except ε α} {k : α → Work Nat} :
    Ends (ofExcept trouble e >>= k) c code g
      ↔ ∃ a, e = .ok a ∧ Ends (k a) c code g := by
  simp only [Ends, does_ofExcept_bind]
  constructor
  · rintro ⟨c', ⟨a, he, h⟩, hg⟩
    exact ⟨a, he, c', h, hg⟩
  · rintro ⟨a, he, c', h, hg⟩
    exact ⟨c', ⟨a, he, h⟩, hg⟩

theorem ends_get_bind {k : Console → Work Nat} :
    Ends (get >>= k) c code g ↔ Ends (k c) c code g :=
  Iff.rfl

theorem ends_print_bind {text : String} {k : Unit → Work Nat} :
    Ends (print text >>= k) c code g ↔ Ends (k ()) (c.printed text) code g :=
  Iff.rfl

theorem ends_printLine_bind {text : String} {k : Unit → Work Nat} :
    Ends (printLine text >>= k) c code g
      ↔ Ends (k ()) (c.printed (text ++ "\n")) code g :=
  Iff.rfl

theorem ends_printLines_bind {lines : List String} {k : Unit → Work Nat} :
    Ends (printLines lines >>= k) c code g
      ↔ Ends (k ()) (c.printed (String.join (lines.map (· ++ "\n")))) code g :=
  Iff.rfl

theorem ends_note_bind {events : List Event} {k : Unit → Work Nat} :
    Ends (note events >>= k) c code g ↔ Ends (k ()) (c.noted events) code g :=
  Iff.rfl

theorem ends_readText_bind {p : Path} {k : String → Work Nat} :
    Ends (readText p >>= k) c code g
      ↔ ∃ text, c.folder.readMarkedText p = .ok text ∧ Ends (k text) c code g := by
  rw [readText, bind_assoc, ends_get_bind, ends_ofExcept_bind]

theorem ends_writeText_bind {p : Path} {text : String} {k : Unit → Work Nat} :
    Ends (writeText p text >>= k) c code g
      ↔ ∃ folder, c.folder.writeText p text = .ok folder
        ∧ Ends (k ()) { c with folder } code g := by
  rw [writeText, bind_assoc, ends_get_bind, bind_assoc, ends_ofExcept_bind]
  rfl

theorem ends_parse_bind {file source : String} {k : Parsed → Work Nat} :
    Ends (Work.parse o s file source >>= k) c code g
      ↔ ∃ p, (s.parse o.now { stem := o.stem } file source).1 = .ok p
        ∧ Ends (k p) (c.noted (Event.ofReading (s.tabSize.size?.getD 1) source p))
          code g := by
  rw [Work.parse, bind_assoc, ends_ofExcept_bind]
  simp only [bind_assoc, ends_note_bind, pure_bind]

theorem ends_write_bind {ss : List Stmt} {k : String → Work Nat} :
    Ends (Work.write s ss >>= k) c code g
      ↔ ∃ lines, s.lines ss = .ok lines
        ∧ Ends (k (Written.page lines))
          (c.noted [.written lines.length ss.length]) code g := by
  rw [Work.write, bind_assoc, ends_ofExcept_bind]
  simp only [bind_assoc, ends_note_bind, pure_bind]

end

variable {o : Occasion} {update : Bool} {script : Path} {c : Console}
  {code : Nat} {g : Folder}

theorem ends_compare {text : String} :
    Ends (compare script text) c code g
      ↔ Compared c.folder script text code ∧ g = c.folder := by
  unfold compare Compared
  simp only [ends_get_bind, ends_ofExcept_bind]
  constructor
  · -- Three ends: no golden, the same text, another text. Each says which it is
    -- and has a code of its own, and none writes anything.
    rintro ⟨isThere, hthere, h⟩
    cases isThere with
    | false =>
        simp only [Bool.not_false, if_true, ends_printLine_bind, ends_pure] at h
        exact ⟨.inl ⟨hthere, h.1⟩, h.2⟩
    | true =>
        simp only [Bool.not_true, Bool.false_eq_true, if_false,
          ends_ofExcept_bind] at h
        obtain ⟨old, hold, h⟩ := h
        split at h
        · next hsame =>
          simp only [ends_printLine_bind, ends_pure] at h
          exact ⟨.inr ⟨hthere, old, hold, by rw [if_pos hsame, h.1]⟩, h.2⟩
        · next hother =>
          simp only [ends_printLine_bind, ends_print_bind, ends_pure] at h
          exact ⟨.inr ⟨hthere, old, hold, by rw [if_neg hother, h.1]⟩, h.2⟩
  · rintro ⟨⟨hthere, hcode⟩ | ⟨hthere, old, hold, hcode⟩, hg⟩
    · refine ⟨false, hthere, ?_⟩
      simp only [Bool.not_false, if_true, ends_printLine_bind, ends_pure]
      exact ⟨hcode, hg⟩
    · refine ⟨true, hthere, ?_⟩
      simp only [Bool.not_true, Bool.false_eq_true, if_false,
        ends_ofExcept_bind]
      refine ⟨old, hold, ?_⟩
      split at hcode
      · next hsame =>
        rw [if_pos hsame]
        exact ends_pure.mpr ⟨hcode, hg⟩
      · next hother =>
        rw [if_neg hother]
        exact ends_pure.mpr ⟨hcode, hg⟩

/-- What follows when a sample was compared with what comes back of it. -/
theorem ends_found {text : String} {found : Option String} :
    Ends (match found with
      | some difference => do
        printLine ("[FAIL] " ++ script.name ++ " does not round trip: "
          ++ difference)
        pure 1
      | none =>
        if update then do
          writeText (goldenOf script) text
          printLine ("[OK] wrote " ++ (goldenOf script).name)
          pure 0
        else compare script text) c code g
      ↔ match found.isNone, update with
        | false, _ => code = 1 ∧ g = c.folder
        | true, true => code = 0 ∧ c.folder.writeText (goldenOf script) text = .ok g
        | true, false => Compared c.folder script text code ∧ g = c.folder := by
  cases found with
  | some difference => exact ends_pure
  | none =>
      cases update with
      | false => exact ends_compare
      | true =>
          simp only [if_true, ends_writeText_bind, ends_printLine_bind,
            ends_pure, Option.isNone_none]
          constructor
          · rintro ⟨folder, hwrite, hcode, rfl⟩
            exact ⟨hcode, hwrite⟩
          · rintro ⟨hcode, hwrite⟩
            exact ⟨g, hwrite, hcode, rfl⟩

theorem ends_checkScript :
    Ends (checkScript o update script) c code g
      ↔ Checked o update script c.folder code g := by
  unfold checkScript canonical readScript Checked Turns
  simp only [bind_assoc, ends_readText_bind, ends_ofExcept_bind,
    ends_parse_bind, ends_printLines_bind, ends_write_bind]
  simp only [Console.folder_noted, Console.folder_printed]
  constructor
  · rintro ⟨source, hsource, p, hp, lines, hlines, q, hq, source', hsource',
      p', hp', found, hfound, h⟩
    obtain rfl := Except.ok.inj (hsource.symm.trans hsource')
    obtain rfl := Except.ok.inj (hp.symm.trans hp')
    have hends := ends_found.mp h
    simp only [Console.folder_noted, Console.folder_printed] at hends
    exact ⟨source, _, _, hsource, ⟨p, q, found, hp,
      Settings.write_eq_ok.mpr ⟨lines, hlines, rfl⟩, hq, hfound, rfl⟩, hends⟩
  · rintro ⟨source, text, comesBack, hsource,
      ⟨p, q, found, hp, htext, hq, hfound, rfl⟩, h⟩
    obtain ⟨lines, hlines, rfl⟩ := Settings.write_eq_ok.mp htext
    refine ⟨source, hsource, p, hp, lines, hlines, q, hq, source, hsource, p,
      hp, found, hfound, ends_found.mpr ?_⟩
    simpa only [Console.folder_noted, Console.folder_printed] using h

-- ============================================================ all checks

/-- What comes of checking scripts one after the other. -/
def CheckedAll (o : Occasion) (update : Bool) :
    List Path → Folder → Nat → Folder → Prop
  | [], f, code, g => code = 0 ∧ g = f
  | script :: more, f, code, g => ∃ first between rest,
    Checked o update script f first between
      ∧ CheckedAll o update more between rest g
      ∧ code = if first = 0 && rest = 0 then 0 else 1

theorem ends_checkAll {scripts : List Path} :
    Ends (checkAll o update scripts) c code g
      ↔ CheckedAll o update scripts c.folder code g := by
  induction scripts generalizing c code with
  | nil => exact ends_pure
  | cons script more ih =>
      have hbind : ∀ {w : Work Nat} {k : Nat → Work Nat} {c : Console} {n : Nat},
          Ends (w >>= k) c n g ↔ ∃ a between, Does w c a between
            ∧ Ends (k a) between n g := by
        intro w k c n
        simp only [Ends, does_bind]
        constructor
        · rintro ⟨c', ⟨a, between, hw, hk⟩, hg⟩
          exact ⟨a, between, hw, c', hk, hg⟩
        · rintro ⟨a, between, hw, c', hk, hg⟩
          exact ⟨c', ⟨a, between, hw, hk⟩, hg⟩
      rw [checkAll, hbind, CheckedAll]
      simp only [hbind, ends_pure]
      constructor
      · rintro ⟨first, between, hfirst, rest, after, hrest, hcode, rfl⟩
        exact ⟨first, between.folder, rest,
          ends_checkScript.mp ⟨between, hfirst, rfl⟩,
          ih.mp ⟨after, hrest, rfl⟩, hcode⟩
      · rintro ⟨first, _, rest, hfirst, hrest, hcode⟩
        obtain ⟨between, hdoes, rfl⟩ := ends_checkScript.mpr hfirst
        obtain ⟨after, hdoes', rfl⟩ := ih.mpr hrest
        exact ⟨first, between, hdoes, rest, after, hdoes', hcode, rfl⟩

/-- A check of a folder that is there checks the scripts in it. -/
theorem run_eq_ok {folder : Folder} {arguments : List String} {base : String}
    {options : Options} (hread : read arguments = .ok (base, options))
    (hbase : folder.isFolder (Path.ofString base) = .ok true) {code : Nat}
    {g : Folder} :
    (∃ out, run o folder arguments = .ok out ∧ out.code = code ∧ out.folder = g)
      ↔ CheckedAll o options.update (scriptsIn folder (Path.ofString base))
        folder code g := by
  have hwork : Ends (work o base options) { folder := folder } code g
      ↔ CheckedAll o options.update (scriptsIn folder (Path.ofString base))
        folder code g := by
    unfold work
    simp only [ends_get_bind, ends_ofExcept_bind, hbase, Except.ok.injEq,
      exists_eq_left', if_true, ends_checkAll]
  rw [← hwork]
  unfold run
  simp only [hread]
  constructor
  · rintro ⟨out, hrun, rfl, rfl⟩
    split at hrun
    · next c hc =>
      obtain rfl := Except.ok.inj hrun
      exact ⟨c, hc, rfl⟩
    · cases hrun
  · rintro ⟨c, hc, rfl⟩
    have hrun : (work o base options).run { folder := folder } = (.ok code, c) := hc
    rw [hrun]
    exact ⟨_, rfl, rfl, rfl⟩

end NovelScript.Goldens
