/-
What is refused when the draft of a script is written, and what is not refused
when a source is read and written.

# Writing

Where a script keeps within the limits of the writer and of its layout
(`Script.Within`), its draft comes to what the script itself comes to
(`Draft.topLines_eq`), and a script is refused for its lines adrift
(`Written.topLines_refused`): for the first one that a walk meets, and for
nothing else. `Draft.RefusesAdrift` says so of the whole result, the text
included. The size of an indentation may be any whole number, and a layout may
be none at all; what counts is whether each indentation of the script can be
made under it.

# Reading and writing

The other half is about every source. The look for stops decides: where it finds
one, the reading ends with what there is too much of, and the source has a cause
for it (`Reading.Stop.CausedBy`); where it finds none, the source is read, no
line of what is read is adrift (`Reading.exists_topLines_read`), and all of it
keeps within the limits of a writer who has as much room as the reader had
(`Reading.keeps_read`). Then all indentations are of moderate size, too, for a
margin is hardly deeper than twice what a walk counts (`Stmt.marginsAll_le`).

# Beyond the bounds

None of the bounds can be left out. A label without a line adrift is not written
where its indentation is longer than any text, nor inside too many other labels;
a pause is not written if its integer is too long; and a source is not read if a
line of it has such an integer, nor if it is nested like the tower of labels.
-/
import NovelScript.Proofs.Reading.Bounds
import NovelScript.Proofs.RoundTrip.Repeated
import NovelScript.Proofs.Written.Refusal

namespace NovelScript

namespace Draft

-- =============================================================== scripts

/-- Writing a script as a draft is refused for a line adrift, and for nothing
else. -/
structure RefusesAdrift (limits : Limits) (layout : Layout) (s : Script) :
    Prop where
  /-- It is refused if and only if a walk meets a line adrift. -/
  refused : (∃ e, writtenWithin limits layout (ofScript s) = .error e)
    ↔ ∃ m ∈ Walk.ofStmts 0 s.statements, m.2.Adrift
  /-- The first one that the walk meets is named. -/
  named : ∀ e, writtenWithin limits layout (ofScript s) = .error e →
    ∃ t, Walk.Foremost Stmt.Adrift (Walk.ofStmts 0 s.statements) t
      ∧ e = .unwritable (.narration t.tag.id)
  /-- A text is empty or ends its last line. -/
  ended : ∀ text, writtenWithin limits layout (ofScript s) = .ok text →
    text = "" ∨ ∃ lines, text = lines ++ "\n"

variable {limits : Limits} {layout : Layout} {s : Script}

theorem writtenWithin_ofScript (limits : Limits) (layout : Layout)
    (s : Script) :
    writtenWithin limits layout (ofScript s)
      = (topLines limits layout (ofStmts s.statements)).map Written.page := by
  have hstatements : statementsOf (ofScript s) = .ok (ofStmts s.statements) := rfl
  rw [writtenWithin, hstatements, bind_ok]
  cases topLines limits layout (ofStmts s.statements) <;> rfl

/-- Within its bounds, a script is written as the page of its lines. -/
theorem writtenWithin_eq (h : s.Within limits layout) :
    writtenWithin limits layout (ofScript s)
      = (lifted (Written.topLines ⟨layout.width, layout.blankLines⟩
          s.statements)).map Written.page := by
  rw [writtenWithin_ofScript, topLines_eq limits layout _ h.padded h.allowed]

/-- Within its bounds, a script is refused for the first line adrift. -/
theorem writtenWithin_eq_error {e : Fault} (h : s.Within limits layout) :
    writtenWithin limits layout (ofScript s) = .error e
      ↔ ∃ t, Walk.Foremost Stmt.Adrift (Walk.ofStmts 0 s.statements) t
        ∧ e = .unwritable (.narration t.tag.id) := by
  have hlifted : ∀ r : Except WriteError (List String),
      (lifted r).map Written.page = .error e
        ↔ ∃ why, r = .error why ∧ .unwritable why = e := by
    rintro (why | lines) <;> simp [lifted, Except.mapError, Except.map]
  rw [writtenWithin_eq h, hlifted]
  simp only [Written.topLines_refused]
  constructor
  · rintro ⟨_, ⟨t, ht, rfl⟩, rfl⟩
    exact ⟨t, ht, rfl⟩
  · rintro ⟨t, ht, rfl⟩
    exact ⟨_, ⟨t, ht, rfl⟩, rfl⟩

theorem page_ended (lines : List String) :
    Written.page lines = "" ∨ ∃ text, Written.page lines = text ++ "\n" := by
  unfold Written.page
  split
  · exact .inl rfl
  · exact .inr ⟨_, rfl⟩

theorem refusesAdrift (h : s.Within limits layout) :
    RefusesAdrift limits layout s := by
  constructor
  case refused =>
    simp only [writtenWithin_eq_error h, ← Walk.exists_foremost]
    exact ⟨fun ⟨_, t, ht, _⟩ => ⟨t, ht⟩, fun ⟨t, ht⟩ => ⟨_, t, ht, rfl⟩⟩
  case named => exact fun e he => (writtenWithin_eq_error h).mp he
  case ended =>
    intro text htext
    rw [writtenWithin_ofScript] at htext
    obtain ⟨lines, -, rfl⟩ := map_eq_ok.mp htext
    exact page_ended lines

end Draft

-- =============================================================== sources

/-- Four spaces a level are room enough down to the deepest margin of what can be
read, and deeper. -/
theorem Draft.room_small {depth : Int} (hlow : 0 ≤ depth)
    (hhigh : depth ≤ 2000) : ({} : Draft.Layout).room depth = .ok () := by
  show Draft.padRoom (4 * depth) = .ok ()
  have hlength : Draft.lengthBound = 9223372036854775808 := by decide
  have hwidest : Draft.widestPad = 8589934592 := by decide
  rw [Draft.padRoom, hlength, hwidest, if_neg (by omega), if_neg (by omega)]

/-- The indentations of what was read can be made four spaces a level. -/
theorem Reading.padded_of_keeps {ss : List Stmt}
    (h : Reading.Keeps Reading.wholeRoom ss) :
    ∀ depth ∈ Stmt.marginsAll 0 ss,
      ({} : Draft.Layout).room depth = .ok () := by
  intro depth hdepth
  have hwalk : ∀ m ∈ Walk.ofStmts 0 ss, m.1 ≤ Reading.wholeRoom := by
    intro m hm
    have hnested : 3 * m.1 ≤ Reading.wholeRoom + 3 * 0 :=
      (h 0).nested m hm Reading.wholeRoom rfl
    omega
  have hmargin := Stmt.marginsAll_le ss hwalk (Nat.zero_le _) depth hdepth
  have htop : Reading.wholeRoom = 987 := rfl
  rw [htop] at hmargin
  exact Draft.room_small (by omega) (by omega)

namespace Settings

/-- What becomes of a source that is read with the settings as they begin and
written with so many calls left, laid out as usual. -/
def Becomes (calls : Nat) (now : Timestamp) (numbering : Numbering)
    (file source : String) : Prop :=
  ∃ tabSize, tabStops ({} : Settings).tabSize source = .ok tabSize
    ∧ match Reading.linesStop? (Source.scan tabSize source).1 with
      | some stop =>
        -- The reading stops, and the source has a cause for it.
        stop.CausedBy (Source.scan tabSize source).1
          ∧ (({} : Settings).parse now numbering file source).1
            = .error (.excess stop.excess)
      | none =>
        -- The source is read, and what is read is written.
        ∃ p text, (({} : Settings).parse now numbering file source).1 = .ok p
          ∧ Draft.writtenWithin (.ofCalls calls) {} (Draft.ofScript p.script)
            = .ok text

/-- A reading that stops is refused for what there is too much of. -/
theorem parse_stopped {s : Settings} {now : Timestamp} {numbering : Numbering}
    {file source : String} {tabSize : Int} {stop : Reading.Stop}
    (htab : tabStops s.tabSize source = .ok tabSize)
    (hstop : Reading.linesStop? (Source.scan tabSize source).1 = some stop) :
    (s.parse now numbering file source).1 = .error (.excess stop.excess) := by
  unfold parse
  simp [htab, Reading.readWithin, hstop, Except.mapError, Except.map]

/-- Every source is read and written, or stops the reading for a cause. -/
theorem becomes {calls : Nat} (hcalls : Reading.wholeRoom ≤ calls)
    (now : Timestamp) (numbering : Numbering) (file source : String) :
    Becomes calls now numbering file source := by
  obtain ⟨tabSize, htab⟩ : ∃ tabSize,
      tabStops ({} : Settings).tabSize source = .ok tabSize := by
    unfold tabStops
    split
    · exact ⟨1, rfl⟩
    · exact ⟨4, rfl⟩
  refine ⟨tabSize, htab, ?_⟩
  cases hstop : Reading.linesStop? (Source.scan tabSize source).1 with
  | some stop =>
      exact ⟨Reading.causedBy_linesStop? hstop, parse_stopped htab hstop⟩
  | none =>
      obtain ⟨lines, hlines⟩ := Reading.exists_topLines_read {} tabSize
        numbering source
      have hwithin : Script.Within
          ⟨(Reading.read tabSize numbering source).1,
            ⟨file, now, ({} : Settings).version⟩⟩ (.ofCalls calls) {} :=
        ⟨Reading.padded_of_keeps (Reading.keeps_read hstop le_rfl numbering),
          Reading.keeps_read hstop hcalls numbering 0⟩
      refine ⟨_, Written.page lines,
        parse_eq_ok.mpr ⟨tabSize, htab, hstop, rfl⟩, ?_⟩
      have hwidth : ({} : Draft.Layout).width = 4 := by decide
      rw [Draft.writtenWithin_eq hwithin, hwidth, hlines]
      rfl

end Settings

/-- Writing is refused for lines adrift and for nothing else, as long as the
script keeps within the limits and the layout, and the first line adrift is
named. Every source is read and written by whoever has no fewer calls left for
writing than there is room for reading, unless the source has a cause for the
reading to stop. -/
theorem refused_only_adrift (limits : Draft.Limits) (layout : Draft.Layout)
    (s : Script) (hwithin : s.Within limits layout) (calls : Nat)
    (hcalls : Reading.wholeRoom ≤ calls) :
    Draft.RefusesAdrift limits layout s
      ∧ ∀ now numbering file source,
        Settings.Becomes calls now numbering file source :=
  ⟨Draft.refusesAdrift hwithin, Settings.becomes hcalls⟩

/-- A label below which something is told in a mood that nobody is in. -/
def moodyAside : Script where
  statements := [.label ⟨"n_2", some 1⟩ "start" none
    [.simple ⟨"n_1", some 2⟩
      (.say { text := "Hm.", attributes := some ["happy"] })]]
  metadata := { parseTime := default }

/-- A label with a pause below it. -/
def pausedLabel : String := "label a:\n    pause 2\n"

open Reading Item Grammar in
theorem linesStop?_pausedLabel (tabSize : Int)
    (htab : tabStops ({} : Settings).tabSize pausedLabel = .ok tabSize) :
    linesStop? (Source.scan tabSize pausedLabel).1 = none := by
  obtain rfl : tabSize = 4 := by
    have hfour : tabStops ({} : Settings).tabSize pausedLabel = .ok 4 := by
      decide +kernel
    exact Except.ok.inj (htab.symm.trans hfour)
  have hscan : (Source.scan 4 pausedLabel).1
      = [⟨"label a:", 0, 0, 1⟩, ⟨"pause 2", 4, 1, 2⟩] := by
    decide +kernel
  have hopens : opensConditional ⟨"label a:", 0, 0, 1⟩ = false
      ∧ opensConditional ⟨"pause 2", 4, 1, 2⟩ = false := by
    decide +kernel
  have hitems : ofLines opensConditional continuesConditional
      [⟨"label a:", 0, 0, 1⟩, ⟨"pause 2", 4, 1, 2⟩]
      = [.plain ⟨"label a:", 0, 0, 1⟩ [.plain ⟨"pause 2", 4, 1, 2⟩ []]] := by
    simp [ofLines, attach, hopens]
  have hmargin : [(⟨"label a:", 0, 0, 1⟩ : Line), ⟨"pause 2", 4, 1, 2⟩].dropWhile
      (0 < ·.depth) = [⟨"label a:", 0, 0, 1⟩, ⟨"pause 2", 4, 1, 2⟩] := rfl
  rw [hscan, linesStop?, hmargin, hitems]
  decide +kernel

/-- The first half at a script that is refused, and the second at a source that
is read and written. -/
theorem refused_only_adrift_aside :
    (moodyAside.Within .usual {}
        ∧ Draft.writtenWithin .usual {} (Draft.ofScript moodyAside)
          = .error (.unwritable (.narration "n_1"))
        ∧ Draft.RefusesAdrift .usual {} moodyAside)
      ∧ ∃ p text, (({} : Settings).parse default { stem := "n" } ""
          pausedLabel).1 = .ok p
        ∧ Draft.writtenWithin .usual {} (Draft.ofScript p.script)
          = .ok text := by
  have hwithin : moodyAside.Within .usual {} := ⟨by decide, by decide, by decide⟩
  have hboth := refused_only_adrift .usual {} moodyAside hwithin 987 le_rfl
  refine ⟨⟨hwithin, rfl, hboth.1⟩, ?_⟩
  obtain ⟨tabSize, htab, hbecomes⟩ :=
    hboth.2 default { stem := "n" } "" pausedLabel
  rw [linesStop?_pausedLabel tabSize htab] at hbecomes
  exact hbecomes

-- ================================================================= bounds

/-- A label with nothing below it. -/
def emptyLabel : Script where
  statements := [.label ⟨"a", none⟩ "a" none []]
  metadata := { parseTime := default }

/-- Labels nested so deeply that writing them takes too many calls. -/
def highTower : Script where
  statements := [Draft.tower 400]
  metadata := { parseTime := default }

/-- A pause for an integer that is too long to be written out. -/
def endlessPause : Script where
  statements := [.simple ⟨"a", none⟩
    (.pause (some (.int (10 ^ Excess.mostDigits : Nat))))]
  metadata := { parseTime := default }

/-- Nobody speaks in a tower. -/
theorem not_adrift_tower : ∀ (n depth : Nat),
    ∀ m ∈ Walk.ofStmt depth (Draft.tower n), ¬ m.2.Adrift
  | 0, depth, m, hm => by
      obtain rfl := List.mem_singleton.mp hm
      rintro ⟨tag, d, h, -⟩
      cases h
  | n + 1, depth, m, hm => by
      rcases List.mem_cons.mp hm with rfl | hm
      · rintro ⟨tag, d, h, -⟩
        cases h
      · refine not_adrift_tower n (depth + 1) m ?_
        simpa [Walk.ofStmts] using hm

/-- A pause of more digits than an integer is read with. -/
def longPause : List Char := "pause ".toList ++ List.replicate 4301 '1'

/-- The one line of that text. -/
def longPauseLine : Line := ⟨String.ofList longPause, 0, 0, 1⟩

open Source Text Grammar Reading in
theorem scan_longPause (tabSize : Int) :
    Source.scan tabSize (String.ofList longPause) = ([longPauseLine], []) := by
  have hunbroken : Unbroken longPause := by
    refine unbroken_append.mpr ⟨?_, fun c hc => ?_⟩
    · unfold Unbroken
      decide
    · obtain ⟨-, rfl⟩ := List.mem_replicate.mp hc
      decide
  have hmark : withoutMark longPause = longPause := rfl
  have htrivia : isTrivia longPause = false := by decide +kernel
  have hdrop : longPause.dropWhile isIndent = longPause := rfl
  have htake : longPause.takeWhile isIndent = [] := rfl
  rw [Source.scan, String.toList_ofList, hmark, physicalLines_line hunbroken,
    scanFrom]
  simp only [hdrop, htake, htrivia]
  rfl

open Source Text Grammar Reading in
theorem linesStop?_longPause :
    linesStop? [longPauseLine] = some ⟨.digits 4301, 1, 0⟩ := by
  have hcontent : longPauseLine.content.toList = longPause :=
    String.toList_ofList
  have hexcess : lineExcess? longPause = some (.digits 4301) := by
    decide +kernel
  have hword : firstWord? longPause = some "pause" := by decide +kernel
  have hopens : opensConditional longPauseLine = false := by
    rw [opensConditional, headOf, hcontent]
    decide +kernel
  have hitems : Item.ofLines opensConditional continuesConditional
      [longPauseLine] = [.plain longPauseLine []] := by
    rw [Item.ofLines, Item.attach, if_neg (by rw [hopens]; decide)]
    simp [Item.ofLines]
  have hmargin : [longPauseLine].dropWhile (0 < ·.depth) = [longPauseLine] :=
    rfl
  rw [linesStop?, hmargin, hitems, itemsStop?, itemStop?, hcontent, hword]
  simp only [hexcess]
  rfl

/-- Ways of failing that have nothing to do with lines adrift: an indentation
beyond all bounds, more blocks than there are calls for, an integer that is too
long to be written out, and sources with an integer that is too long to be read
or with more blocks than there is room for. -/
theorem fails_beyond_bounds :
    ((∀ m ∈ Walk.ofStmts 0 emptyLabel.statements, ¬ m.2.Adrift)
      ∧ Draft.writtenWithin .usual { indentSize := .int (-100000000000000000000) }
        (Draft.ofScript emptyLabel) = .error .tooLarge)
      ∧ ((∀ m ∈ Walk.ofStmts 0 highTower.statements, ¬ m.2.Adrift)
        ∧ Draft.writtenWithin .usual {} (Draft.ofScript highTower)
          = .error (.excess .depth))
      ∧ ((∀ m ∈ Walk.ofStmts 0 endlessPause.statements, ¬ m.2.Adrift)
        ∧ Draft.writtenWithin .usual {} (Draft.ofScript endlessPause)
          = .error (.unwritable .overlong))
      ∧ (({} : Settings).parse default { stem := "n" } ""
          (String.ofList longPause)).1 = .error (.excess (.digits 4301))
      ∧ (({} : Settings).parse default { stem := "n" } ""
          (Reading.stairText 300)).1 = .error (.excess .depth) := by
  -- None of the three scripts has a line adrift. Each way of failing comes from
  -- the general lemma about it; no tower is gone through.
  refine ⟨⟨?_, rfl⟩, ⟨?_, ?_⟩, ⟨?_, ?_⟩, ?_, ?_⟩
  · rintro m hm ⟨tag, d, h, -⟩
    obtain rfl := List.mem_singleton.mp hm
    cases h
  · intro m hm
    refine not_adrift_tower 400 0 m ?_
    simpa [highTower, Walk.ofStmts] using hm
  · have htower := @Draft.outline_tower 400 ⟨.usual, ({} : Draft.Layout).room⟩
      0 987 rfl (by decide) fun d hlow hhigh =>
        Draft.room_small hlow (by omega)
    rw [Draft.writtenWithin_ofScript, highTower, Draft.ofStmts, Draft.topLines,
      htower]
    rfl
  · rintro m hm ⟨tag, d, h, -⟩
    obtain rfl := List.mem_singleton.mp hm
    cases h
  · have hlong := @Draft.outline_pause ⟨.usual, ({} : Draft.Layout).room⟩ 0
      Excess.mostDigits _ rfl (Int.natAbs_natCast _).ge ⟨"a", none⟩
    rw [Draft.writtenWithin_ofScript, endlessPause, Draft.ofStmts,
      Draft.topLines, hlong]
    rfl
  · have htab : tabStops ({} : Settings).tabSize (String.ofList longPause)
        = .ok 4 := by
      rw [tabStops, scan_longPause]
      rfl
    have hstop : Reading.linesStop?
        (Source.scan 4 (String.ofList longPause)).1
        = some ⟨.digits 4301, 1, 0⟩ := by
      rw [scan_longPause, linesStop?_longPause]
    exact Settings.parse_stopped htab hstop
  · have htab : tabStops ({} : Settings).tabSize (Reading.stairText 300)
        = .ok 4 := by
      rw [tabStops, Reading.scan_stairText]
      rfl
    have hdeep : Reading.wholeRoom < Reading.blockRoom * 299 := by decide
    obtain ⟨stop, hstop, hdepth⟩ := Reading.exists_stop_stairText 4 hdeep
    rw [Settings.parse_stopped htab hstop, hdepth]

end NovelScript
