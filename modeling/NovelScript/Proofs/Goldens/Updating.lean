/-
Updated goldens pass. An update goes through the samples of a folder and writes
the golden of each sample that comes back from its text; the others keep the
golden that they have, if they have one.

# Names

A golden lies beside its sample and has a name that no sample has, so no sample
is written to, and each is read as it was read before. That takes some care with
names: a sample's name is a part of a path, its golden's name is one too, and
different samples have different goldens.

# The invariant

`Updated` says what has become of the files when some of the samples are done:
the golden of each of them that comes back is what was written of it, and all
else is as it was. A step of the update keeps it, one sample more being done,
and with all samples done a check finds what the update has found: it passes at
the samples that come back, and at the others it does not, as the update did
not.
-/
import NovelScript.Proofs.Files.Beside
import NovelScript.Proofs.Goldens.Checking

namespace NovelScript

namespace Folder

variable {f : Folder} {p : Path} {content : ByteArray}

/-- What the file of a name holds, if there is one. -/
def held? (f : Folder) (p : Path) : Option ByteArray :=
  (f.readBytes p).toOption

theorem held?_eq_some : f.held? p = some content ↔ f.readBytes p = .ok content := by
  unfold held?
  cases f.readBytes p with
  | error e => simp [Except.toOption]
  | ok bytes => simp [Except.toOption]

/-- What is held is there. -/
theorem isThere_of_held (h : f.held? p = some content) : f.isThere p = .ok true := by
  obtain ⟨place, hplace, hfile⟩ := readBytes_eq_ok.mp (held?_eq_some.mp h)
  rw [isThere, found, hplace]
  simp only [entry_eq_file.mpr hfile]
  rfl

/-- A text that is held is read. -/
theorem readText_of_held {text : String} (h : f.held? p = some text.toUTF8)
    (hreturn : '\r' ∉ text.toList) : f.readText p = .ok text := by
  rw [readText, held?_eq_some.mp h]
  exact textOf_toUTF8 hreturn

end Folder

namespace Goldens

open NovelScript.Path (Part)

-- ================================================================= names

/-- The name of a golden. -/
def goldenName (name : String) : String := name ++ ".golden"

/-- The name of a sample in a folder. -/
structure SampleName (name : String) : Prop where
  /-- It is the name of a script. -/
  script : isScriptName name = true
  /-- It is not divided. -/
  whole : '/' ∉ name.toList

/-- A name of one or two points, or none at all, ends like no script. -/
theorem SampleName.ne {name : String} (h : SampleName name) :
    name ≠ "" ∧ name ≠ "." ∧ name ≠ ".." := by
  have hscript := h.script
  refine ⟨?_, ?_, ?_⟩ <;> rintro rfl <;> exact absurd hscript (by decide)

theorem part_of_ne {name : String} (hempty : name ≠ "") (hpoint : name ≠ ".")
    (hwhole : '/' ∉ name.toList) : Part name := by
  refine ⟨?_, hwhole⟩
  rw [Path.saysNothing, decide_eq_false hempty, decide_eq_false hpoint]
  rfl

theorem SampleName.part {name : String} (h : SampleName name) : Part name :=
  part_of_ne h.ne.1 h.ne.2.1 h.whole

/-- A golden has a longer name than one or two points. -/
theorem goldenName_ne (name s : String) (hs : s.length < 7) :
    goldenName name ≠ s := by
  rintro rfl
  rw [goldenName, String.length_append] at hs
  have hlength : ".golden".length = 7 := by decide
  omega

theorem SampleName.part_golden {name : String} (h : SampleName name) :
    Part (goldenName name) := by
  refine part_of_ne (goldenName_ne name "" (by decide))
    (goldenName_ne name "." (by decide)) ?_
  rw [goldenName, String.toList_append, List.mem_append, not_or]
  exact ⟨h.whole, by decide⟩

theorem goldenName_injective {a b : String} (h : goldenName a = goldenName b) :
    a = b := by
  have hcs := congrArg String.toList h
  rw [goldenName, goldenName, String.toList_append, String.toList_append] at hcs
  exact String.toList_inj.mp (List.append_cancel_right hcs)

/-- No golden is a sample. -/
theorem isScriptName_goldenName (name : String) :
    isScriptName (goldenName name) = false := by
  rw [isScriptName, Bool.eq_false_iff]
  intro h
  have hsuffix := List.isSuffixOf_iff_suffix.mp h
  rw [goldenName, String.toList_append] at hsuffix
  have hshort := List.suffix_of_suffix_length_le hsuffix
    (List.suffix_append name.toList ".golden".toList) (by decide)
  exact absurd (List.isSuffixOf_iff_suffix.mpr hshort) (by decide)

theorem goldenName_ne_sample {name sample : String} (h : SampleName sample) :
    goldenName name ≠ sample := by
  rintro rfl
  have hscript := h.script
  rw [isScriptName_goldenName] at hscript
  cases hscript

/-- The golden of a sample lies beside it. -/
theorem goldenOf_child {base : Path} (hbase : base.Kept) {name : String}
    (h : SampleName name) :
    goldenOf (base.child name) = base.child (goldenName name) := by
  rw [goldenOf, Path.text_child_append, ← goldenName]
  exact (hbase.child h.part_golden).ofString_text (by simp [Path.child])

-- =============================================================== samples

/-- What is read of a sample, what is written of it, and whether that comes
back. -/
structure Sample (o : Occasion) (f : Folder) (script : Path)
    (source text : String) (comesBack : Bool) : Prop where
  /-- The file holds the source. -/
  reads : f.readMarkedText script = .ok source
  /-- The text is written of it. -/
  turns : Turns o script.text source text comesBack

theorem Sample.unique {o : Occasion} {f : Folder} {script : Path}
    {source text source' text' : String} {comesBack comesBack' : Bool}
    (h : Sample o f script source text comesBack)
    (h' : Sample o f script source' text' comesBack') :
    text' = text ∧ comesBack' = comesBack := by
  obtain rfl := Except.ok.inj (h.reads.symm.trans h'.reads)
  exact h.turns.unique h'.turns

section

variable {o : Occasion} {f g : Folder} {base place : Path} {name : String}

/-- A sample leads to its place. -/
theorem locate_sample (h : SampleName name) (hopen : f.Opens base place)
    {q : Path} (hq : f.locate (base.child name) = .ok q) :
    q = place.child name := by
  rw [hopen.locate_child] at hq
  rw [Folder.within_eq_ok hq, Folder.step_eq_child h.part h.ne.2.2]

/-- A golden leads to its place. -/
theorem locate_golden (hbase : base.Kept) (h : SampleName name)
    (hopen : f.Opens base place) {q : Path}
    (hq : f.locate (goldenOf (base.child name)) = .ok q) :
    q = place.child (goldenName name) := by
  rw [goldenOf_child hbase h, hopen.locate_child] at hq
  rw [Folder.within_eq_ok hq,
    Folder.step_eq_child h.part_golden (goldenName_ne name ".." (by decide))]

/-- A sample is read alike wherever its file is the same. -/
theorem read_sample (h : SampleName name) (hf : f.Opens base place)
    (hg : g.Opens base place)
    (hsame : g.file? (place.child name) = f.file? (place.child name))
    {source : String} (hsource : f.readMarkedText (base.child name) = .ok source) :
    g.readMarkedText (base.child name) = .ok source := by
  unfold Folder.readMarkedText at hsource ⊢
  obtain ⟨bytes, hbytes, htext⟩ := bind_eq_ok.mp hsource
  obtain ⟨q, hq, hfile⟩ := Folder.readBytes_eq_ok.mp hbytes
  obtain rfl := locate_sample h hf hq
  refine bind_eq_ok.mpr
    ⟨bytes, Folder.readBytes_eq_ok.mpr ⟨place.child name, ?_, ?_⟩, htext⟩
  · rwa [hg.locate_child, ← hf.locate_child]
  · rwa [hsame]

/-- A golden holds the same wherever its file is the same. -/
theorem held_golden (hbase : base.Kept) (h : SampleName name)
    (hf : f.Opens base place) (hg : g.Opens base place)
    (hsame : g.file? (place.child (goldenName name))
      = f.file? (place.child (goldenName name))) :
    g.held? (goldenOf (base.child name)) = f.held? (goldenOf (base.child name)) := by
  have hlocate : g.locate (goldenOf (base.child name))
      = f.locate (goldenOf (base.child name)) := by
    rw [goldenOf_child hbase h, hg.locate_child, hf.locate_child]
  refine Option.ext fun content => ?_
  rw [Folder.held?_eq_some, Folder.held?_eq_some, Folder.readBytes_eq_ok,
    Folder.readBytes_eq_ok, hlocate]
  refine exists_congr fun q => and_congr_right fun hq => ?_
  rw [locate_golden hbase h hf hq, hsame]

/-- A golden that is written holds what is written. -/
theorem held_written (hbase : base.Kept) (h : SampleName name)
    (hf : f.Opens base place) {text : String}
    (hwrite : f.writeText (goldenOf (base.child name)) text = .ok g) :
    f.entry (place.child (goldenName name)) ≠ .folder
      ∧ g = f.put (place.child (goldenName name)) text.toUTF8
      ∧ g.held? (goldenOf (base.child name)) = some text.toUTF8 := by
  obtain ⟨q, hq, hfree, rfl⟩ := Folder.writeText_eq_ok.mp hwrite
  obtain rfl := locate_golden hbase h hf hq
  refine ⟨hfree, rfl, Folder.held?_eq_some.mpr (Folder.readBytes_eq_ok.mpr
    ⟨place.child (goldenName name), ?_, ?_⟩)⟩
  · rw [goldenOf_child hbase h] at hq ⊢
    rw [(hf.put hfree).locate_child, ← hf.locate_child, hq]
  · rw [Folder.file?_put, if_pos rfl]

end

-- ================================================================ update

/-- A sample that comes back. -/
def ComesBack (o : Occasion) (f : Folder) (script : Path) : Prop :=
  ∃ source text, Sample o f script source text true

/-- A sample comes back if its text does. -/
theorem comesBack_iff {o : Occasion} {f : Folder} {script : Path}
    {source text : String} {comesBack : Bool}
    (h : Sample o f script source text comesBack) :
    comesBack = true ↔ ComesBack o f script := by
  constructor
  · rintro rfl
    exact ⟨source, text, h⟩
  · rintro ⟨source', text', h'⟩
    exact (h.unique h').2.symm

/-- What has become of the files of a folder when the samples of some names
are done. -/
structure Updated (o : Occasion) (before : Folder) (base place : Path)
    (done : List String) (after : Folder) : Prop where
  /-- The folder is still there. -/
  opens : after.Opens base place
  /-- It has the same scripts in it. -/
  scripts : (after.children base).filter isScriptName
    = (before.children base).filter isScriptName
  /-- Nothing but goldens has changed. -/
  others : ∀ q, (∀ name ∈ done, q ≠ place.child (goldenName name)) →
    after.file? q = before.file? q
  /-- The golden of a sample that comes back holds its text; other goldens are
  as they were. -/
  goldens : ∀ name ∈ done, ∃ source text comesBack,
    Sample o before (base.child name) source text comesBack
      ∧ after.held? (goldenOf (base.child name))
        = if comesBack then some text.toUTF8
          else before.held? (goldenOf (base.child name))

section

variable {o : Occasion} {before f g : Folder} {base place : Path}
  {done names : List String} {name : String} {code : Nat}

theorem updated_nil (h : before.Opens base place) :
    Updated o before base place [] before :=
  ⟨h, rfl, fun _ _ => rfl, fun _ hname => absurd hname List.not_mem_nil⟩

/-- The files of samples are as they were. -/
theorem Updated.file_sample (h : Updated o before base place done f)
    (hname : SampleName name) :
    f.file? (place.child name) = before.file? (place.child name) :=
  h.others _ fun _ _ heq =>
    goldenName_ne_sample hname (Folder.child_injective heq).symm

/-- What is read of a sample before it is done was there from the start. -/
theorem Updated.sample (h : Updated o before base place done f)
    (hopen : before.Opens base place) (hname : SampleName name)
    {source text : String} {comesBack : Bool} :
    Sample o f (base.child name) source text comesBack
      ↔ Sample o before (base.child name) source text comesBack := by
  constructor
  · rintro ⟨hreads, hturns⟩
    exact ⟨read_sample hname h.opens hopen (h.file_sample hname).symm hreads,
      hturns⟩
  · rintro ⟨hreads, hturns⟩
    exact ⟨read_sample hname hopen h.opens (h.file_sample hname) hreads, hturns⟩

/-- One more sample that does not come back is done, and its golden is left
alone. -/
theorem Updated.skip (hbase : base.Kept) (hopen : before.Opens base place)
    (h : Updated o before base place done f) (hname : SampleName name)
    {source text : String}
    (hsample : Sample o before (base.child name) source text false) :
    Updated o before base place (done ++ [name]) f := by
  refine ⟨h.opens, h.scripts, fun q hq => h.others q fun n hn =>
    hq n (List.mem_append_left _ hn), fun n hn => ?_⟩
  rcases List.mem_append.mp hn with hn | hn
  · exact h.goldens n hn
  · obtain rfl := List.mem_singleton.mp hn
    refine ⟨source, text, false, hsample, ?_⟩
    by_cases hdone : n ∈ done
    · -- the name was done before, with the same source
      obtain ⟨source', text', comesBack, hsample', hheld⟩ := h.goldens n hdone
      obtain ⟨-, rfl⟩ := hsample.unique hsample'
      exact hheld
    · refine held_golden hbase hname hopen h.opens (h.others _ fun m hm heq => ?_)
      obtain rfl := goldenName_injective (Folder.child_injective heq)
      exact hdone hm

/-- One more sample that comes back is done, and its golden is written. -/
theorem Updated.write (hbase : base.Kept)
    (h : Updated o before base place done f)
    (hdone : ∀ n ∈ done, SampleName n) (hname : SampleName name)
    {source text : String}
    (hsample : Sample o before (base.child name) source text true)
    (hwrite : f.writeText (goldenOf (base.child name)) text = .ok g) :
    Updated o before base place (done ++ [name]) g := by
  obtain ⟨hfree, rfl, hheld⟩ := held_written hbase hname h.opens hwrite
  refine ⟨h.opens.put hfree, ?_, fun q hq => ?_, fun n hn => ?_⟩
  · rw [h.opens.filter_children_put (isScriptName_goldenName name) hfree,
      h.scripts]
  · rw [Folder.file?_put, if_neg (hq name (by simp))]
    exact h.others q fun n hn => hq n (List.mem_append_left _ hn)
  · by_cases hsame : n = name
    · subst hsame
      exact ⟨source, text, true, hsample, hheld⟩
    · have hn : n ∈ done :=
        (List.mem_append.mp hn).resolve_right fun h =>
          hsame (List.mem_singleton.mp h)
      obtain ⟨source', text', comesBack, hsample', hheld'⟩ := h.goldens n hn
      refine ⟨source', text', comesBack, hsample', ?_⟩
      rw [← hheld']
      refine held_golden hbase (hdone n hn) h.opens (h.opens.put hfree) ?_
      rw [Folder.file?_put, if_neg fun heq =>
        hsame (goldenName_injective (Folder.child_injective heq))]

/-- One more sample is done, and the code says whether it comes back. -/
theorem Updated.step (hbase : base.Kept) (hopen : before.Opens base place)
    (h : Updated o before base place done f)
    (hdone : ∀ n ∈ done, SampleName n) (hname : SampleName name)
    (hstep : Checked o true (base.child name) f code g) :
    Updated o before base place (done ++ [name]) g
      ∧ (code = 0 ↔ ComesBack o before (base.child name)) := by
  obtain ⟨source, text, comesBack, hsource, hturns, hcase⟩ := hstep
  have hsample := (h.sample hopen hname).mp ⟨hsource, hturns⟩
  cases comesBack with
  | false =>
      obtain ⟨rfl, rfl⟩ := hcase
      refine ⟨h.skip hbase hopen hname hsample, ?_⟩
      rw [← comesBack_iff hsample]
      decide
  | true =>
      obtain ⟨rfl, hwrite⟩ := hcase
      exact ⟨h.write hbase hdone hname hsample hwrite,
        fun _ => ⟨source, text, hsample⟩, fun _ => rfl⟩

theorem code_checkedAll {update : Bool} {scripts : List Path}
    (h : CheckedAll o update scripts f code g) : code = 0 ∨ code = 1 := by
  cases scripts with
  | nil => exact .inl h.1
  | cons script more =>
      obtain ⟨first, between, rest, -, -, rfl⟩ := h
      split
      · exact .inl rfl
      · exact .inr rfl

/-- All samples are done, and the code says whether all of them come back. -/
theorem Updated.all (hbase : base.Kept) (hopen : before.Opens base place)
    (h : Updated o before base place done f)
    (hdone : ∀ n ∈ done, SampleName n) (hnames : ∀ n ∈ names, SampleName n)
    (hall : CheckedAll o true (names.map base.child) f code g) :
    Updated o before base place (done ++ names) g
      ∧ (code = 0 ↔ ∀ n ∈ names, ComesBack o before (base.child n)) := by
  induction names generalizing done f code with
  | nil =>
      obtain ⟨rfl, rfl⟩ := hall
      exact ⟨by rwa [List.append_nil], by simp⟩
  | cons name names ih =>
      obtain ⟨first, between, rest, hfirst, hrest, rfl⟩ := hall
      obtain ⟨hname, hnames⟩ := List.forall_mem_cons.mp hnames
      obtain ⟨hbetween, hback⟩ := h.step hbase hopen hdone hname hfirst
      have hdone' : ∀ n ∈ done ++ [name], SampleName n := by
        intro n hn
        rcases List.mem_append.mp hn with hn | hn
        · exact hdone n hn
        · exact List.mem_singleton.mp hn ▸ hname
      obtain ⟨hafter, hbacks⟩ := ih hbetween hdone' hnames hrest
      refine ⟨by rwa [List.append_assoc, List.singleton_append] at hafter, ?_⟩
      rw [List.forall_mem_cons, ← hback, ← hbacks]
      simp

-- ================================================================= check

/-- A check finds a sample whose golden holds its text. -/
theorem checked_of_held (o' : Occasion) {script : Path} {source text : String}
    {comesBack : Bool}
    (hsample : Sample o f script source text comesBack)
    (hheld : comesBack = true → f.held? (goldenOf script) = some text.toUTF8) :
    Checked o' false script f (if comesBack then 0 else 1) f := by
  refine ⟨source, text, comesBack, hsample.reads,
    hsample.turns.again o' script.text, ?_⟩
  cases comesBack with
  | false => exact ⟨rfl, rfl⟩
  | true =>
      have hheld := hheld rfl
      exact ⟨.inr ⟨Folder.isThere_of_held hheld, text,
        Folder.readText_of_held hheld hsample.turns.return_not_mem,
        (if_pos rfl).symm⟩, rfl⟩

/-- When samples are done a check says whether all of them come back. -/
theorem Updated.check (o' : Occasion) (hopen : before.Opens base place)
    (h : Updated o before base place done g)
    (hdone : ∀ n ∈ names, n ∈ done ∧ SampleName n) :
    ∃ code, CheckedAll o' false (names.map base.child) g code g
      ∧ (code = 0 ↔ ∀ n ∈ names, ComesBack o before (base.child n)) := by
  induction names with
  | nil => exact ⟨0, ⟨rfl, rfl⟩, by simp⟩
  | cons name names ih =>
      obtain ⟨⟨hname, hsampleName⟩, hdone⟩ := List.forall_mem_cons.mp hdone
      obtain ⟨rest, hrest, hbacks⟩ := ih hdone
      obtain ⟨source, text, comesBack, hsample, hheld⟩ := h.goldens name hname
      have hfirst := checked_of_held o'
        ((h.sample hopen hsampleName).mpr hsample)
        fun hback => by rw [hheld, if_pos hback]
      refine ⟨_, ⟨_, g, rest, hfirst, hrest, rfl⟩, ?_⟩
      rw [List.forall_mem_cons, ← hbacks, ← comesBack_iff hsample]
      cases comesBack <;> simp

end

-- ============================================================ two runs

/-- The names of the samples in a folder. -/
theorem sampleName_of_mem {f : Folder} (hwhole : f.Whole) {base : Path}
    {name : String} (hname : name ∈ (f.children base).filter isScriptName) :
    SampleName name := by
  obtain ⟨hchild, hscript⟩ := List.mem_filter.mp hname
  exact ⟨hscript, hwhole.slash_not_mem_child hchild⟩

/-- Goldens that were updated pass. An update changes no script. It writes what
a sample is written as into the golden of each sample that comes back, and
leaves the other goldens as they are; its code is zero if all samples come back,
and one if not. A check of what it leaves has the same code, on whatever
occasion, and changes nothing. -/
theorem updated_goldens_pass {o o' : Occasion} {folder : Folder}
    (hwhole : folder.Whole) {arguments arguments' : List String} {base : String}
    (hread : read arguments = .ok (base, ⟨true⟩))
    (hread' : read arguments' = .ok (base, ⟨false⟩))
    (hbase : folder.isFolder (Path.ofString base) = .ok true) {out : Outcome}
    (hrun : run o folder arguments = .ok out) :
    (∀ place, isScriptName place.name = true →
        out.folder.file? place = folder.file? place)
      ∧ (∀ script ∈ scriptsIn folder (Path.ofString base),
        ∃ source text comesBack, Sample o folder script source text comesBack
          ∧ out.folder.held? (goldenOf script)
            = if comesBack then some text.toUTF8
              else folder.held? (goldenOf script))
      ∧ (out.code = 0 ∨ out.code = 1)
      ∧ (out.code = 0 ↔ ∀ script ∈ scriptsIn folder (Path.ofString base),
        ComesBack o folder script)
      ∧ ∃ out', run o' out.folder arguments' = .ok out'
        ∧ out'.code = out.code ∧ out'.folder = out.folder := by
  have hkept := Path.kept_ofString base
  obtain ⟨place, hopen⟩ := Folder.opens_of_isFolder hbase
  have hnames : ∀ n ∈ (folder.children (Path.ofString base)).filter isScriptName,
      SampleName n := fun n hn => sampleName_of_mem hwhole hn
  have hall : ∃ out', run o folder arguments = .ok out' ∧ out'.code = out.code
      ∧ out'.folder = out.folder := ⟨out, hrun, rfl, rfl⟩
  rw [run_eq_ok hread hbase] at hall
  simp only [scriptsIn] at hall ⊢
  -- The names stay closed: nothing here depends on how they are sorted.
  generalize hscripts :
    (folder.children (Path.ofString base)).filter isScriptName = names at *
  obtain ⟨hupdated, hcode⟩ := (updated_nil hopen).all hkept hopen
    (fun _ hn => absurd hn List.not_mem_nil) hnames hall
  rw [List.nil_append] at hupdated
  obtain ⟨code', hcheck, hcode'⟩ := hupdated.check o' hopen
    fun n hn => ⟨hn, hnames n hn⟩
  have hsame : code' = out.code := by
    have hiff := hcode'.trans hcode.symm
    rcases code_checkedAll hall with h | h <;>
      rcases code_checkedAll hcheck with h' | h' <;> rw [h, h'] at hiff ⊢ <;>
      simp at hiff
  refine ⟨fun q hq => hupdated.others q fun n _ heq => ?_, ?_,
    code_checkedAll hall, ?_, ?_⟩
  · rw [heq, Path.name_child, isScriptName_goldenName] at hq
    cases hq
  · rw [List.forall_mem_map]
    exact hupdated.goldens
  · rw [List.forall_mem_map]
    exact hcode
  · rw [run_eq_ok hread' hupdated.opens.isFolder, scriptsIn, hupdated.scripts,
      hscripts]
    exact hsame ▸ hcheck

/-- A folder with a sample that comes back, and one that does not. -/
def twoSamples : Folder where
  files := [(⟨"", ["samples", "a.rpy"]⟩, "return\n".toUTF8),
    (⟨"", ["samples", "b.rpy"]⟩, "call expression() from here\n".toUTF8)]

theorem opens_twoSamples :
    twoSamples.Opens (Path.ofString "samples") ⟨"", ["samples"]⟩ :=
  ⟨Written.toOption_eq_some.mp (by decide +kernel),
    Folder.entry_eq_folder.mpr (by decide +kernel)⟩

theorem scriptsIn_twoSamples :
    scriptsIn twoSamples (Path.ofString "samples")
      = [⟨"", ["samples", "a.rpy"]⟩, ⟨"", ["samples", "b.rpy"]⟩] := by
  have hnames : (twoSamples.namesBelow ⟨"", ["samples"]⟩).eraseDups
      = ["a.rpy", "b.rpy"] := by decide +kernel
  rw [scriptsIn, opens_twoSamples.children_eq, hnames,
    List.mergeSort_of_pairwise (by decide)]
  decide +kernel

/-- Two samples, of which one comes back and one does not: a check after the
update finds again that it does not. -/
theorem updated_goldens_pass_two :
    ∃ out out', run ⟨default, "a"⟩ twoSamples ["--update", "samples"] = .ok out
      ∧ run ⟨default, "b"⟩ out.folder ["samples"] = .ok out'
      ∧ out.code = 1 ∧ out'.code = 1 := by
  have hread : read ["--update", "samples"] = .ok ("samples", ⟨true⟩) :=
    Written.toOption_eq_some.mp (by decide +kernel)
  have hread' : read ["samples"] = .ok ("samples", ⟨false⟩) :=
    Written.toOption_eq_some.mp (by decide +kernel)
  have hwhole : twoSamples.Whole := by
    unfold Folder.Whole
    decide +kernel
  have hcode : ((checkAll ⟨default, "a"⟩ true
      [⟨"", ["samples", "a.rpy"]⟩, ⟨"", ["samples", "b.rpy"]⟩]).run
        { folder := twoSamples }).1.toOption = some 1 := by decide +kernel
  have hall := ends_checkAll.mp
    ⟨_, Prod.ext (Written.toOption_eq_some.mp hcode) rfl, rfl⟩
  rw [← scriptsIn_twoSamples] at hall
  obtain ⟨out, hrun, hone, -⟩ :=
    (run_eq_ok hread opens_twoSamples.isFolder).mpr hall
  obtain ⟨-, -, -, -, out', hrun', hsame, -⟩ := @updated_goldens_pass
    ⟨default, "a"⟩ ⟨default, "b"⟩ twoSamples hwhole _ _ _ hread hread'
    opens_twoSamples.isFolder out hrun
  exact ⟨out, out', hrun, hrun', hone, hsame.trans hone⟩

end Goldens

end NovelScript
