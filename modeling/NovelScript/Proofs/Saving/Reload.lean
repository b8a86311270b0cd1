/-
Saving a script that was read, and loading it again. What is read is in order:
its statements can be saved, its point in time can be written and read, and its
version has the form of one, because settings that are accepted have such a
version. So the value that the script is saved as keeps the format and is loaded
as the script itself.

# The value and its text

`Reloads d v` has all of it: the value is what the draft is saved as, it keeps
the format, and the draft is loaded from it. With the text in between, loading
takes that the text of the value is read as this value. That is an assumption
about the tool that writes and reads texts of values, and it is made in `reread`
and nowhere else; the value itself is loaded unconditionally. Of the writer and
the reader of JSON here it holds for plain values (`Json.Plain.load_written`),
and what a script is saved as is plain if its statements are
(`plain_scriptJson`).

# Which scripts are read

Under accepted settings a source is read, unless it goes beyond the bounds of
reading: an integer has too many digits, or blocks are nested too deep. Accepted
settings may give the width of tabs as a double. Then a source is read only if
there is no line in it to measure, and such a source is read like any other
(`read_of_scan_nil`).
-/
import NovelScript.Draft.Loaded
import NovelScript.Proofs.Json.Written
import NovelScript.Proofs.Reading.Faultless
import NovelScript.Proofs.Reading.Savable
import NovelScript.Proofs.Saving.Sizes
import NovelScript.Proofs.Saving.Time
import NovelScript.Proofs.Source.Shift
import NovelScript.Reading.Bound

namespace NovelScript

open Draft (ofScript)

-- =================================================================== scripts

/-- A script whose parts can all be saved. -/
structure Script.Savable (s : Script) : Prop where
  /-- The statements can be saved. -/
  statements : Stmt.SavableAll s.statements
  /-- It was read at a point of universal time. -/
  time : s.metadata.parseTime.isValid = true
  /-- The clock shows universal time. -/
  utc : s.metadata.parseTime.offset = some 0
  /-- The version has the form of one. -/
  version : Schema.isVersion s.metadata.version = true

/-- A draft that is saved as a value which keeps the format and from which,
and from whose text, it is loaded as it was. -/
structure Reloads (d : Draft) (v : Json) : Prop where
  /-- It is saved as the value. -/
  saved : d.savedJson = .ok v
  /-- The value keeps the format. -/
  valid : Schema.scriptViolations v = []
  /-- It is loaded again at any time. -/
  loaded : ∀ later, Draft.loadedScript later v = .ok d
  /-- Its text without indentation is that of the value. -/
  line : d.savedText .null = .ok (v.written .line)
  /-- So is its text with any indentation that can be made (`Draft.padRoom`): what
  is indented by more than a text may be long has no text at all. -/
  block : ∀ n : Nat, Draft.padRoom n = .ok () →
    d.savedText (.int n) = .ok (v.written (.block n))
  /-- A text that is read as the value is loaded and checked as the draft, as
  long as the value can be followed (`Schema.excess?`): what is nested more
  deeply than a check goes down is refused for that before it is loaded. -/
  reread : ∀ later layout, Json.load (v.written layout) = .ok v →
    Schema.excess? v = none →
      Draft.loadText later true (v.written layout) = .ok d

/-- The value that the origin of a script is saved as. -/
def Metadata.json (m : Metadata) : Json :=
  .object [("filePath", .text m.filePath), ("parseTime", .text m.parseTime.text),
    ("version", .text m.version)]

/-- The value that a script is saved as, given those of its statements. -/
def scriptJson (m : Metadata) (vs : List Json) : Json :=
  .object [("type", .text "script"), ("metadata", m.json),
    ("statements", .list vs)]

/-- A script is saved as a plain value if its statements are. -/
theorem plain_scriptJson (m : Metadata) {vs : List Json}
    (h : ∀ v ∈ vs, v.Plain) : (scriptJson m vs).Plain := by
  have hmetadata : m.json.Plain := by
    refine .object
      (by decide : ["filePath", "parseTime", "version"].Nodup) ?_
    simp only [List.forall_mem_cons, List.not_mem_nil, false_implies,
      implies_true, and_true]
    exact ⟨.text _, .text _, .text _⟩
  refine .object (by decide : ["type", "metadata", "statements"].Nodup) ?_
  simp only [List.forall_mem_cons, List.not_mem_nil, false_implies,
    implies_true, and_true]
  exact ⟨.text _, hmetadata, .list h⟩

section

variable {s : Script} {vs : List Json}

theorem savedJson_script (h : Draft.StoredAll (Draft.ofStmts s.statements) vs) :
    (ofScript s).savedJson = .ok (scriptJson s.metadata vs) := by
  have hsaved : (ofScript s).savedScript
      = .ok (Draft.ofJson (scriptJson s.metadata vs)) := by
    have hstatements : Draft.field? "statements"
        [("statements", .list (Draft.ofStmts s.statements)),
          ("metadata", Draft.ofMetadata s.metadata)]
          = some (.list (Draft.ofStmts s.statements)) := rfl
    rw [ofScript, Draft.savedScript, hstatements]
    simp only [h.saved]
    rfl
  have hjson : (ofScript s).savedJson = (ofScript s).savedScript.bind
      Draft.toJson := rfl
  rw [hjson, hsaved]
  exact Draft.toJson_ofJson (scriptJson s.metadata vs)

theorem accepts_script (h : Draft.StoredAll (Draft.ofStmts s.statements) vs)
    (hversion : Schema.isVersion s.metadata.version = true) :
    Schema.Accepts Schema.script (scriptJson s.metadata vs) := by
  have hmetadata : Schema.Accepts [.also (Schema.closedObject []
      [("filePath", Schema.text), ("parseTime", Schema.text),
        ("version", Schema.versionText)])] s.metadata.json := by
    refine Schema.accepts_single (Schema.passes_also
      (Schema.accepts_closedObject (by simp) ?_ (by simp)))
    simp only [List.forall_mem_cons, Json.member?]
    refine ⟨?_, ?_, ?_, by simp⟩
    · rintro v ⟨⟩
      exact Schema.accepts_text _
    · rintro v ⟨⟩
      exact Schema.accepts_text _
    · rintro v ⟨⟩
      exact Schema.accepts_pair (Schema.passes_type rfl)
        (Schema.passes_version hversion)
  refine Schema.accepts_closedObject (by simp [Json.member?]) ?_ (by simp)
  simp only [List.forall_mem_cons, Json.member?]
  refine ⟨?_, ?_, ?_, by simp⟩
  · rintro v ⟨⟩
    exact Schema.accepts_single (Schema.passes_constant _)
  · rintro v ⟨⟩
    exact hmetadata
  · rintro v ⟨⟩
    exact Schema.accepts_block h.accepted

theorem loadedScript_scriptJson
    (h : Draft.StoredAll (Draft.ofStmts s.statements) vs) (hs : s.Savable)
    (later : Timestamp) :
    Draft.loadedScript later (scriptJson s.metadata vs) = .ok (ofScript s) := by
  have hread := Timestamp.read?_text hs.time hs.utc
  have htime : s.metadata.parseTime.text ≠ "" := by
    intro heq
    rw [heq] at hread
    exact absurd hread (by simp [Timestamp.read?, Timestamp.date?,
      Timestamp.digits?])
  have hversion : s.metadata.version ≠ "" := by
    intro heq
    have := heq ▸ hs.version
    exact absurd this (by decide)
  have hmetadata : Draft.loadedMetadata later (some s.metadata.json)
      = .ok (Draft.ofMetadata s.metadata) := by
    simp [Draft.loadedMetadata, Metadata.json, Json.member?, Draft.loadedTime,
      Draft.isTruthyJson, Draft.ofJson, Draft.isTruthy, htime, hversion, hread,
      Draft.ofMetadata, Bind.bind, Except.bind, pure, Except.pure]
  have hblock : Draft.loadedBlock (.list vs)
      = .ok (Draft.ofStmts s.statements) := by
    rw [Draft.loadedBlock, h.loaded]
  simp [Draft.loadedScript, scriptJson, Json.member?, hmetadata, hblock,
    ofScript, Bind.bind, Except.bind, pure, Except.pure]

end

/-- A script that can be saved is loaded again as it was. -/
theorem Script.Savable.reloads {s : Script} (h : s.Savable) :
    ∃ v, Reloads (ofScript s) v := by
  obtain ⟨vs, hvs⟩ := Draft.stored_stmts _ h.statements
  have hsaved := savedJson_script hvs
  have hvalid : Schema.scriptViolations (scriptJson s.metadata vs) = [] :=
    accepts_script hvs h.version []
  refine ⟨_, hsaved, hvalid, loadedScript_scriptJson hvs h, ?_, ?_, ?_⟩
  · simp only [Draft.savedText, hsaved, Draft.jsonLayout, Bind.bind,
      Except.bind, pure, Except.pure]
  · intro n hroom
    simp only [Draft.savedText, hsaved, Draft.jsonLayout, Json.int, Json.size?,
      hroom, Except.map, Int.toNat_natCast, Bind.bind, Except.bind, pure,
      Except.pure]
  · intro later layout hload hroom
    have hcheck : Draft.check (scriptJson s.metadata vs) = .ok () := by
      rw [Draft.check, Draft.violations, hroom, hvalid]
      rfl
    simp only [Draft.loadText, hload, Except.mapError, Draft.loadScript,
      hcheck, Bind.bind, Except.bind, if_true]
    exact loadedScript_scriptJson hvs h later

-- =================================================================== sources

namespace Reading

/-- A source without any line with something on it is read the same whatever
the tab stops are. -/
theorem read_of_scan_nil {source : String} {tabStop : Int}
    (h : (Source.scan tabStop source).1 = []) (tabSize : Int)
    (numbering : Numbering) :
    read tabStop numbering source = read tabSize numbering source := by
  have hscan : ∀ t, Source.scan t source = Source.scanNumbered t [0]
      (Source.numbered 1 (Source.physicalLines
        (Source.withoutMark source.toList))) :=
    fun t => Source.scanFrom_numbered t _ _ _
  rw [hscan] at h
  rw [read, read, hscan tabStop, hscan tabSize]
  cases hrows : Source.numbered 1 (Source.physicalLines
      (Source.withoutMark source.toList)) with
  | nil => rfl
  | cons r more => rw [hrows] at h; cases h

/-- Under accepted settings with an integer for the tab stops, a script is
read, unless it goes beyond the bounds of reading. -/
theorem parse_of_ofJson {j : Json} {settings : Settings}
    (hsettings : Settings.ofJson j = .ok settings) {tabSize : Int}
    (htab : settings.tabSize = .int tabSize) (now : Timestamp)
    (numbering : Numbering) (file source : String) :
    (∃ found, (settings.parse now numbering file source).1
        = .ok ⟨readScript now tabSize numbering file settings.version source,
            found⟩)
      ∨ ∃ e, (settings.parse now numbering file source).1
        = .error (.excess e) := by
  obtain ⟨hleast, hmost⟩ := Settings.tabSize_le_of_ofJson hsettings htab
  have hversion : settings.version ≠ "" := by
    intro heq
    have := heq ▸ Settings.isVersion_of_ofJson hsettings
    exact absurd this (by decide)
  -- With nothing to measure, the tab stops are not looked at.
  obtain ⟨stop, hstops, hread⟩ : ∃ stop,
      tabStops settings.tabSize source = .ok stop
        ∧ read stop numbering source = read tabSize numbering source := by
    unfold tabStops
    by_cases hnone : (Source.scan 1 source).1.isEmpty = true
    · rw [if_pos hnone]
      exact ⟨1, rfl, read_of_scan_nil (List.isEmpty_iff.mp hnone) _ _⟩
    · have hbound : -widestTab - 1 ≤ tabSize ∧ tabSize ≤ widestTab := by
        have : widestTab = 2147483647 := by decide
        omega
      rw [if_neg hnone, htab]
      exact ⟨tabSize, if_pos hbound, rfl⟩
  rw [Settings.parse, hstops]
  simp only [readWithin, hread]
  cases linesStop? (Source.scan stop source).1 with
  | some e => exact .inr ⟨_, rfl⟩
  | none =>
      refine .inl ⟨(read tabSize numbering source).2.1, ?_⟩
      rw [readScript, if_neg hversion]
      rfl

/-- A script that is read under accepted settings, at a point of universal
time, is saved as a value that keeps the format, and is loaded again as it
was. -/
theorem reloads_read {j : Json} {settings : Settings}
    (hsettings : Settings.ofJson j = .ok settings) {tabSize : Int}
    (htab : settings.tabSize = .int tabSize) {now : Timestamp}
    (hnow : now.isValid = true) (hutc : now.offset = some 0)
    (numbering : Numbering) (file source : String) :
    (∃ v, Reloads (ofScript
        (readScript now tabSize numbering file settings.version source)) v)
      ∧ ((∃ found, (settings.parse now numbering file source).1
          = .ok ⟨readScript now tabSize numbering file settings.version source,
              found⟩)
        ∨ ∃ e, (settings.parse now numbering file source).1
          = .error (.excess e)) := by
  refine ⟨Script.Savable.reloads ⟨savableAll_read tabSize numbering source,
    hnow, hutc, ?_⟩, parse_of_ofJson hsettings htab now numbering file source⟩
  have hversion := Settings.isVersion_of_ofJson hsettings
  rw [readScript]
  split
  · exact (by decide : Schema.isVersion NovelScript.formatVersion = true)
  · exact hversion

/-- A return of a value, read under tab stops of two columns. -/
theorem reloads_return :
    ∃ v : Json, Draft.savedText .null (ofScript (readScript
          ⟨2024, 2, 29, 23, 59, 7, 0, some 0⟩ 2 ⟨"s", 0⟩ "" "1.0.0"
            "return x")) = .ok (v.written .line)
      ∧ Draft.loadText default true (v.written .line) = .ok (ofScript (readScript
          ⟨2024, 2, 29, 23, 59, 7, 0, some 0⟩ 2 ⟨"s", 0⟩ "" "1.0.0"
            "return x")) := by
  have hsettings : Settings.ofJson (.object [("tabSize", .int 2)])
      = .ok { tabSize := .int 2 } :=
    Settings.ofJson_tabSize (by decide) (by decide)
  have hnow : Timestamp.isValid ⟨2024, 2, 29, 23, 59, 7, 0, some 0⟩ = true := by
    decide
  obtain ⟨⟨v, hv⟩, -⟩ := reloads_read hsettings rfl hnow rfl ⟨"s", 0⟩ ""
    "return x"
  have hread : (read 2 ⟨"s", 0⟩ "return x").1
      = [.simple ⟨"s_1", some 1⟩ (.giveBack (some "x"))] := by
    have hscan : Source.scan 2 "return x"
        = ([⟨"return x", 0, 0, 1⟩], []) := by decide
    have hopens : Grammar.opensConditional ⟨"return x", 0, 0, 1⟩ = false := by
      decide
    rw [read, hscan]
    simp [readLines, strayBlock, Item.ofLines, Item.attach, hopens, readItems,
      readItem, simpleItem]
    rfl
  have hvalue : v = scriptJson ⟨"", ⟨2024, 2, 29, 23, 59, 7, 0, some 0⟩,
      "1.0.0"⟩ [.object [("type", .text "return"), ("id", .text "s_1"),
        ("value", .text "x"), ("line", .int 1)]] := by
    refine Except.ok.inj (hv.saved.symm.trans ?_)
    rw [readScript, hread]
    rfl
  have hplain : v.Plain := by
    rw [hvalue]
    refine plain_scriptJson _ (List.forall_mem_singleton.mpr
      (.object (by decide) ?_))
    simp only [List.forall_mem_cons, List.not_mem_nil, false_implies,
      implies_true, and_true]
    exact ⟨.text _, .text _, .text _, .int 1⟩
  have hexcess : Json.excess? 0 (v.written .line).toList = none := by
    rw [hvalue]
    decide +kernel
  refine ⟨v, hv.line, hv.reread default .line (hplain.load_written _ hexcess) ?_⟩
  rw [hvalue]
  decide

end Reading

end NovelScript
