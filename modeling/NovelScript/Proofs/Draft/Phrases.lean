/-
Writing the draft of a simple statement. Every field of it is looked at before
it is put into a line, and every indentation before it is made. The fields of a
statement's own draft pass each of these looks, so the draft comes to the
outline of the statement, and is refused only where an indentation that the
outline needs cannot be made.

# Results

The functions that write a draft are runs that may be refused. The first section
has what is needed of such runs, as equivalences with `.ok`, so that a long run
is taken apart from the front, step by step, and never unfolded as a whole.

# Room

`Fits` says of an outline at a depth that the indentation of every line in it
can be made. A header asks for its own depth, and for that of its body only if
it has statements below it or none at all, since then it needs a `pass` there
(`fits_headed`).

# Fields

Looking up a field by name is evaluated by two rules for `simp`: the field is
the first one, or the first has another name. With these the lemma for each kind
of statement is one rewriting, and what remains is the text of its line.
-/
import Mathlib.Algebra.Group.Nat.Defs
import NovelScript.Proofs.Draft.Difference
import NovelScript.Proofs.Text.Lines
import NovelScript.Draft.Written

namespace NovelScript

open Written (present items argumentRow isSet)

-- ================================================================ results

section Results

variable {ε α β : Type}

theorem bind_ok (a : α) (k : α → Except ε β) : (Except.ok a >>= k) = k a := rfl

theorem bind_eq_ok {r : Except ε α} {k : α → Except ε β} {b : β} :
    (r >>= k) = .ok b ↔ ∃ a, r = .ok a ∧ k a = .ok b := by
  cases r <;> simp [bind, Except.bind]

theorem map_eq_ok {r : Except ε α} {k : α → β} {b : β} :
    k <$> r = .ok b ↔ ∃ a, r = .ok a ∧ k a = b := by
  cases r <;> simp [Functor.map, Except.map]

theorem pure_eq_ok {a b : α} : (pure a : Except ε α) = .ok b ↔ a = b :=
  (Except.ok.injEq _ _).to_iff

/-- A check gives nothing but its success. -/
theorem exists_checked {p : Unit → Prop} : (∃ u, p u) ↔ p () :=
  ⟨fun ⟨(), h⟩ => h, fun h => ⟨(), h⟩⟩

end Results

namespace Outline

-- ================================================================== room

variable (room : Int → Except Fault Unit)

mutual

/-- An outline at a depth whose indentations can all be made: at its own depth,
and for a header at the depth of its body and of what stands in it. -/
def Fits (depth : Int) : Outline → Prop
  | .line _ => room depth = .ok ()
  | .block _ body =>
    room depth = .ok () ∧ room (depth + 1) = .ok () ∧ FitsAll (depth + 1) body

/-- Outlines at a depth whose indentations can all be made. -/
def FitsAll (depth : Int) : List Outline → Prop
  | [] => True
  | o :: more => Fits depth o ∧ FitsAll depth more

end

variable {room}

theorem Fits.here {depth : Int} {o : Outline} (h : Fits room depth o) :
    room depth = .ok () := by
  cases o with
  | line text => exact h
  | block head body => exact h.1

theorem fitsAll_append {depth : Int} {as bs : List Outline} :
    FitsAll room depth (as ++ bs)
      ↔ FitsAll room depth as ∧ FitsAll room depth bs := by
  induction as with
  | nil => simp [FitsAll]
  | cons a as ih => simp [FitsAll, ih, and_assoc]

theorem fitsAll_line {depth : Int} {ts : List String} (h : ts ≠ []) :
    FitsAll room depth (ts.map .line) ↔ room depth = .ok () := by
  induction ts with
  | nil => exact absurd rfl h
  | cons t ts ih =>
      cases ts with
      | nil => simp [FitsAll, Fits]
      | cons u ts =>
          have hmore := ih (List.cons_ne_nil u ts)
          rw [List.map_cons, FitsAll, Fits, hmore, and_self]

/-- The lines of a body fit as soon as its header does. -/
theorem fitsAll_block {depth : Int} {head : String} {ts : List String} :
    FitsAll room depth [.block head (ts.map .line)]
      ↔ room depth = .ok () ∧ room (depth + 1) = .ok () := by
  cases ts with
  | nil => simp [FitsAll, Fits]
  | cons t ts =>
      have hts := @fitsAll_line room (depth + 1) _ (List.cons_ne_nil t ts)
      rw [FitsAll, Fits, hts]
      simp [FitsAll]

/-- A header fits where it stands and where its body stands: a bare header
only needs the one, and only no statements at all ask for the other. -/
theorem fits_headed {depth : Int} {head : String} {body : List Stmt}
    {inner : List Outline} :
    Fits room depth (Written.headed head (!body.isEmpty) inner)
      ↔ room depth = .ok () ∧ (body = [] → room (depth + 1) = .ok ())
        ∧ FitsAll room (depth + 1) inner := by
  cases inner with
  | nil => cases body <;> simp [Written.headed, Fits, FitsAll]
  | cons o more =>
      have hroom : FitsAll room (depth + 1) (o :: more) →
          room (depth + 1) = .ok () := fun h => h.1.here
      simp only [Written.headed, List.isEmpty_cons, Bool.and_false, Fits,
        Bool.false_eq_true, if_false]
      tauto

end Outline

-- ============================================================== integers

/-- The integers among numbers that may be absent. -/
def Number.integersOf (ns : List (Option Number)) : List Int :=
  ns.filterMap fun
    | some (.int i) => some i
    | _ => none

/-- The integers that a simple statement writes. -/
def Simple.integers : Simple → List Int
  | .display _ _ o => o.zorder.toList
  | .play _ _ o => Number.integersOf [o.fadeIn, o.fadeOut, o.volume]
  | .stop _ fadeOut => Number.integersOf [fadeOut]
  | .pause duration => Number.integersOf [duration]
  | _ => []

namespace Draft

open Outline (Fits FitsAll fitsAll_append fitsAll_line fitsAll_block
  fits_headed)

-- ================================================================ fields

@[simp] theorem get_cons (k : RecordKind) (name : String) (d : Draft)
    (more : List (String × Draft)) :
    get name (.record k ((name, d) :: more)) = .ok d := by
  simp [get, field?]

@[simp] theorem get_cons_of_ne (k : RecordKind) {name other : String}
    (h : name ≠ other) (d : Draft) (more : List (String × Draft)) :
    get other (.record k ((name, d) :: more)) = get other (.record k more) := by
  simp [get, field?, h]

theorem mapM_needText (ts : List String) :
    (ts.map Draft.text).mapM needText = .ok ts := by
  induction ts with
  | nil => rfl
  | cons t ts ih =>
      rw [List.map_cons, List.mapM_cons, ih]
      rfl

@[simp] theorem mapM_needText_text (ts : List String) :
    ts.mapM (needText ∘ text) = .ok ts := by
  rw [← List.mapM_map, mapM_needText]

theorem isPresent_optTexts (o : Option (List String)) :
    (optTexts o).isPresent = !(items o).isEmpty := by
  rcases o with _ | _ | ⟨t, ts⟩ <;> rfl

theorem partsOf_optTexts {o : Option (List String)}
    (h : (optTexts o).isPresent = true) :
    partsOf (optTexts o) = .ok ((items o).map .text) := by
  cases o with
  | none => cases h
  | some ts => rfl

@[simp] theorem argumentsOf_optTexts (o : Option (List String)) :
    argumentsOf (optTexts o) = .ok (argumentRow o) := by
  by_cases h : (optTexts o).isPresent = true
  · have hempty : (items o).isEmpty = false := by
      simpa [isPresent_optTexts] using h
    rw [argumentsOf, if_pos h, textsOf, partsOf_optTexts h, bind_ok,
      mapM_needText, argumentRow, hempty]
    rfl
  · have hempty : (items o).isEmpty = true := by
      simpa [isPresent_optTexts] using h
    rw [argumentsOf, if_neg h, argumentRow, hempty]
    rfl

@[simp] theorem isPresent_optText (o : Option String) :
    (optText o).isPresent = (present o).isSome := by
  cases o with
  | none => rfl
  | some s =>
      by_cases hs : s = ""
      · subst hs
        rfl
      · rw [present_of_ne hs]
        simp [isPresent, optText, optional, isAbsent, hs]

theorem eq_some_of_present {o : Option String} {s : String}
    (h : present o = some s) : o = some s := by
  cases o with
  | none => cases h
  | some t =>
      by_cases ht : t = ""
      · subst ht
        cases h
      · rw [← h, present_of_ne ht]

@[simp] theorem inLine?_optText (o : Option String) :
    (optText o).inLine? = present o := by
  rw [inLine?, isPresent_optText]
  cases h : present o with
  | none => rfl
  | some s =>
      rw [eq_some_of_present h]
      rfl

@[simp] theorem needText?_optText (o : Option String) :
    (optText o).needText? = .ok (present o) := by
  rw [needText?, isPresent_optText]
  cases h : present o with
  | none => rfl
  | some s =>
      rw [eq_some_of_present h]
      rfl

@[simp] theorem numberOf?_optNumber (o : Option Number) :
    numberOf? (optNumber o) = .ok (o.map Number.text) := by
  cases o <;> rfl

@[simp] theorem flagOf?_optFlag (o : Option Bool) : flagOf? (optFlag o) = o := by
  cases o <;> rfl

@[simp] theorem textOrEmpty_text (s : String) :
    textOrEmpty (.text s) = .ok s := by
  by_cases hs : s = ""
  · rw [hs]
    rfl
  · simp [textOrEmpty, isTruthy, hs]

/-- What is done to the characters of a text one by one. -/
theorem join_singletons {f : Char → List Char} {g : String → String}
    (h : ∀ c, g (String.singleton c) = String.ofList (f c)) (cs : List Char) :
    String.join ((cs.map String.singleton).map g)
      = String.ofList (cs.flatMap f) := by
  induction cs with
  | nil => rfl
  | cons c cs ih =>
      rw [List.map_cons, List.map_cons, String.join_cons, ih, h,
        List.flatMap_cons, String.ofList_append]

@[simp] theorem literalOf_text (s : String) :
    literalOf (.text s) = .ok (Text.quoted s) := by
  have htexts : textsOf (.text s) = .ok (s.toList.map String.singleton) := by
    have := mapM_needText (s.toList.map String.singleton)
    rwa [List.map_map] at this
  have hescaped : escapedOf (.text s)
      = .ok (String.ofList (Text.escape s.toList)) := by
    rw [escapedOf, htexts]
    refine congrArg Except.ok (join_singletons (fun c => ?_) s.toList)
    rw [escapedPart, String.toList_singleton]
  rw [literalOf, hescaped]
  refine congrArg Except.ok (String.toList_inj.mp ?_)
  simp [Text.quoted, Text.quote]

/-- A text that is there, as a literal. -/
theorem literalOf_optText {o : Option String} (h : (present o).isSome = true) :
    literalOf (optText o) = .ok (Text.quoted ((present o).getD "")) := by
  obtain ⟨s, hs⟩ := Option.isSome_iff_exists.mp h
  rw [hs, eq_some_of_present hs]
  exact literalOf_text s

/-- A text that is there, in a line. -/
theorem inLine_optText {o : Option String} (h : (present o).isSome = true) :
    (optText o).inLine = (present o).getD "" := by
  obtain ⟨s, hs⟩ := Option.isSome_iff_exists.mp h
  rw [hs, eq_some_of_present hs]
  rfl

-- ================================================================ digits

namespace Room

variable {r : Room}

/-- Whether the digits of an integer can be written out. -/
def Spells (r : Room) (i : Int) : Prop := ∀ most ∈ r.digits, i.natAbs < 10 ^ most

@[simp] theorem pad_free (pad : Int → Except Fault Unit) :
    (free pad).pad = pad := rfl

@[simp] theorem inside_free (pad : Int → Except Fault Unit) :
    (free pad).inside = .ok (free pad) := rfl

theorem spells_free (pad : Int → Except Fault Unit) (i : Int) :
    (free pad).Spells i := nofun

theorem spell_int {i : Int} (h : r.Spells i) : r.spell (int i) = .ok () := by
  rw [int, spell]
  split
  · next most hmost => exact if_neg (Nat.not_le.mpr (h most hmost))
  · rfl

theorem spell_optional_int {o : Option Int} (h : ∀ i ∈ o.toList, r.Spells i) :
    r.spell (optional int o) = .ok () := by
  cases o with
  | none => rfl
  | some i => exact spell_int (h i (by simp))

/-- Only the digits of integers are counted. -/
theorem spell_optNumber {ns : List (Option Number)}
    (h : ∀ i ∈ Number.integersOf ns, r.Spells i) {o : Option Number} (ho : o ∈ ns) :
    r.spell (optNumber o) = .ok () := by
  rcases o with _ | ⟨i | d⟩
  · rfl
  · exact spell_int (h i (List.mem_filterMap.mpr ⟨_, ho, rfl⟩))
  · rfl

theorem number?_optNumber (o : Option Number) :
    r.number? (optNumber o) = (do
      r.spell (optNumber o)
      pure (o.map Number.text)) := by
  rw [number?, numberOf?_optNumber]
  rfl

end Room

-- ===================================================== simple statements

variable {room : Room} {depth : Int}

/-- Who speaks, as the draft of a line has it. -/
theorem who_eq (d : Dialogue) :
    (if isSet d.extend = true then [text "extend"]
      else if (present d.speaker).isSome = true then [optText d.speaker]
      else [])
      = (if isSet d.extend = true then ["extend"]
          else (present d.speaker).toList).map text := by
  split
  · rfl
  · cases h : present d.speaker with
    | none => rfl
    | some s =>
        rw [eq_some_of_present h]
        rfl

/-- A line is said as the script says it; narration with attributes is
refused by both. -/
theorem sayLine_eq_ok {tag : Tag} {d : Dialogue} {pad : Except Fault Unit}
    {t : String} :
    sayLine pad (ofTagged .dialogue tag (ofSimple (.say d)).2) = .ok t
      ↔ (∃ who, Written.speaking tag.id d = .ok who
          ∧ Phrase.say who (Text.quoted d.text) (argumentRow d.arguments)
            (present d.transition) = t)
        ∧ pad = .ok () := by
  have hwho := who_eq d
  generalize hnames : (if isSet d.extend = true then ["extend"]
    else (present d.speaker).toList) = names at hwho
  by_cases h : (optTexts d.attributes).isPresent = true
  · have hsome : (items d.attributes).isEmpty = false := by
      simpa [isPresent_optTexts] using h
    cases names with
    | nil =>
        simp [-bind_pure_comp, sayLine, ofTagged, ofSimple, bind_ok, hwho, h,
          Written.speaking, hnames, hsome, bind_eq_ok]
    | cons name names =>
        simp [-bind_pure_comp, sayLine, ofTagged, ofSimple, bind_ok, hwho, h,
          Written.speaking, hnames, partsOf_optTexts h, bind_eq_ok, pure_eq_ok,
          exists_checked, and_comm, needText]
  · have hnone : items d.attributes = [] := by
      simpa [isPresent_optTexts] using h
    simp [-bind_pure_comp, sayLine, ofTagged, ofSimple, bind_ok, hwho, h,
      Written.speaking, hnames, hnone, bind_eq_ok, pure_eq_ok, exists_checked,
      and_comm]

theorem displayLine_eq (k : StmtKind) (tag : Tag) (image : String)
    (o : DisplayOptions) (pad : Except Fault Unit) :
    displayLine room k pad (ofTagged k tag
        [("image", .text image), ("options", ofDisplayOptions o)]) = (do
      room.spell (optional int o.zorder)
      pad
      pure (Phrase.display k.word image (items o.attributes) (present o.asTag)
        (present o.atPosition) (present o.behind) (present o.layer)
        (o.zorder.map toString) (present o.transition))) := by
  have hzorder : (if (optional int o.zorder).isNull = true then none
      else some (optional int o.zorder).inLine) = o.zorder.map toString := by
    cases o.zorder <;> rfl
  by_cases h : (optTexts o.attributes).isPresent = true
  · simp [-bind_pure_comp, displayLine, ofTagged, ofDisplayOptions, bind_ok,
      needText, h,
      partsOf_optTexts h, hzorder]
  · have hnone : items o.attributes = [] := by
      simpa [isPresent_optTexts] using h
    simp [-bind_pure_comp, displayLine, ofTagged, ofDisplayOptions, bind_ok,
      needText, h,
      hnone, hzorder]

theorem callLine_eq (tag : Tag) (c : Call) (pad : Except Fault Unit) :
    callLine pad (ofTagged .call tag (ofSimple (.call c)).2) = (do
      pad
      pure ((if isSet c.expression then Phrase.callExpression else Phrase.call)
        c.target (argumentRow c.arguments) (present c.fromLabel))) := by
  by_cases h : isSet c.expression = true
  · simp [-bind_pure_comp, callLine, ofTagged, ofSimple, bind_ok, inLine,
      needText, h]
  · simp [-bind_pure_comp, callLine, ofTagged, ofSimple, bind_ok, inLine,
      needText, h]

theorem playLine_eq (tag : Tag) (channel file : String) (o : AudioOptions)
    (pad : Except Fault Unit) :
    playLine room pad (ofTagged .play tag (ofSimple (.play channel file o)).2)
      = (do
      room.spell (optNumber o.fadeIn)
      room.spell (optNumber o.fadeOut)
      room.spell (optNumber o.volume)
      pad
      pure (Phrase.play (isSet o.queue) channel (Text.quoted file)
        (Phrase.audioOptions (o.fadeIn.map Number.text)
          (o.fadeOut.map Number.text) (o.volume.map Number.text) o.loop
          (isSet o.ifChanged)))) := by
  simp [-bind_pure_comp, playLine, ofTagged, ofSimple, ofAudioOptions, bind_ok,
    needText, Room.number?_optNumber]

/-- A line needs the indentation of its depth only. -/
theorem line_eq_ok {r : Except Fault (List Outline)}
    {w : Except WriteError (List Outline)} {t : String}
    (hr : r = do room.pad depth; pure [.line t]) (hw : w = .ok [.line t])
    {os : List Outline} :
    r = .ok os ↔ w = .ok os ∧ FitsAll room.pad depth os := by
  rw [hr, hw, bind_eq_ok, exists_checked, pure_eq_ok, Except.ok.injEq,
    and_comm]
  refine and_congr_right ?_
  rintro rfl
  exact (fitsAll_line (List.cons_ne_nil t [])).symm

/-- Code is one line, or a header with lines below it. -/
theorem code_cases (code : String) (early hide init : Bool) :
    (∃ t, Phrase.code code early hide init = [.line t])
      ∨ ∃ head, ∃ ts : List String, Phrase.code code early hide init
          = [.block head (ts.map .line)] := by
  unfold Phrase.code
  simp only
  split
  · exact .inl ⟨_, rfl⟩
  · exact .inr ⟨_, _, congrArg (fun body => [Outline.block _ body])
      (List.map_map).symm⟩

theorem codeOutline_eq_ok (tag : Tag) (c : Code) {os : List Outline} :
    codeOutline room.pad depth (ofTagged .code tag (ofSimple (.code c)).2) = .ok os
      ↔ Phrase.code c.code (isSet c.early) (isSet c.hide) (isSet c.init) = os
        ∧ FitsAll room.pad depth os := by
  simp only [codeOutline, ofTagged, ofSimple, List.cons_append, get_cons,
    get_cons_of_ne, bind_ok, textOrEmpty_text, isTruthy_optFlag, ne_eq,
    String.reduceEq, not_false_eq_true]
  rcases code_cases c.code (isSet c.early) (isSet c.hide) (isSet c.init) with
    ⟨t, h⟩ | ⟨head, ts, h⟩
  · rw [h]
    exact (line_eq_ok rfl rfl).trans
      (and_congr_left fun _ => (Except.ok.injEq _ _).to_iff)
  · rw [h]
    simp only [bind_eq_ok, exists_checked, pure_eq_ok]
    rw [← and_assoc, ← @fitsAll_block room.pad depth head ts, and_comm]
    refine and_congr_right ?_
    rintro rfl
    rfl

/-- The draft of a simple statement whose integers can be written out comes to
the outline of the statement. -/
theorem simpleOutline_eq_ok (tag : Tag) (s : Simple) {os : List Outline}
    (hspells : ∀ i ∈ s.integers, room.Spells i) :
    simpleOutline room depth (ofSimple s).1
        (ofTagged (ofSimple s).1 tag (ofSimple s).2) = .ok os
      ↔ Written.simple tag.id s = .ok os ∧ FitsAll room.pad depth os := by
  -- All kinds but two come to one line, for which it is enough to know the run
  -- that writes it. Code may come to a block, and raw text to several lines.
  cases s with
  | say d =>
    show (sayLine (room.pad depth) (ofTagged .dialogue tag (ofSimple (.say d)).2)
      >>= fun t => pure [Outline.line t]) = _ ↔ _
    simp only [bind_eq_ok, sayLine_eq_ok, pure_eq_ok, Written.simple]
    constructor
    · rintro ⟨t, ⟨⟨who, hwho, rfl⟩, hroom⟩, rfl⟩
      exact ⟨⟨who, hwho, rfl⟩,
        (fitsAll_line (List.cons_ne_nil _ [])).mpr hroom⟩
    · rintro ⟨⟨who, hwho, rfl⟩, hfits⟩
      exact ⟨_, ⟨⟨who, hwho, rfl⟩, hfits.1⟩, rfl⟩
  | display verb image o =>
    refine line_eq_ok ?_ rfl
    have hspell := Room.spell_optional_int hspells
    cases verb <;>
      simp [-bind_pure_comp, simpleOutline, ofSimple, displayLine_eq, hspell,
        bind_ok] <;> rfl
  | transition name =>
    refine line_eq_ok ?_ rfl
    simp [-bind_pure_comp, simpleOutline, ofSimple, ofTagged, bind_ok, inLine]
  | jump target expression =>
    refine line_eq_ok ?_ rfl
    simp [-bind_pure_comp, simpleOutline, ofSimple, ofTagged, bind_ok, inLine]
  | call c =>
    refine line_eq_ok ?_ rfl
    show (callLine (room.pad depth) (ofTagged .call tag (ofSimple (.call c)).2)
      >>= fun t => pure [Outline.line t]) = _
    simp [-bind_pure_comp, callLine_eq]
  | giveBack value =>
    refine line_eq_ok ?_ rfl
    simp [-bind_pure_comp, simpleOutline, ofSimple, ofTagged, bind_ok]
  | assign target value operator =>
    refine line_eq_ok ?_ rfl
    simp [-bind_pure_comp, simpleOutline, ofSimple, ofTagged, bind_ok, inLine,
      isTruthy]
  | code c =>
    exact (codeOutline_eq_ok tag c).trans
      (and_congr_left fun _ => (Except.ok.injEq _ _).symm.to_iff)
  | define name value store =>
    refine line_eq_ok ?_ rfl
    simp [-bind_pure_comp, simpleOutline, ofSimple, ofTagged, bind_ok, inLine]
  | default name value =>
    refine line_eq_ok ?_ rfl
    simp [-bind_pure_comp, simpleOutline, ofSimple, ofTagged, bind_ok, inLine]
  | play channel file o =>
    refine line_eq_ok ?_ rfl
    have hspell : ∀ n ∈ [o.fadeIn, o.fadeOut, o.volume], _ := fun n hn =>
      Room.spell_optNumber hspells hn
    simp only [List.forall_mem_cons] at hspell
    show (playLine room (room.pad depth)
      (ofTagged .play tag (ofSimple (.play channel file o)).2)
      >>= fun t => pure [Outline.line t]) = _
    simp [-bind_pure_comp, playLine_eq, hspell, bind_ok]
  | stop channel fadeOut =>
    refine line_eq_ok ?_ rfl
    have hspell := Room.spell_optNumber hspells (List.mem_singleton.mpr rfl)
    simp [-bind_pure_comp, simpleOutline, ofSimple, ofTagged, bind_ok, inLine,
      Room.number?_optNumber, hspell]
  | pause duration =>
    refine line_eq_ok ?_ rfl
    have hspell := Room.spell_optNumber hspells (List.mem_singleton.mpr rfl)
    simp [-bind_pure_comp, simpleOutline, ofSimple, ofTagged, bind_ok,
      Room.number?_optNumber, hspell]
  | nvl action =>
    refine line_eq_ok ?_ rfl
    simp [-bind_pure_comp, simpleOutline, ofSimple, ofTagged, bind_ok, inLine]
  | raw content =>
    have hraw : simpleOutline room depth .raw
        (ofTagged .raw tag (ofSimple (.raw content)).2)
        = (do room.pad depth; pure (Phrase.raw content)) := by
      simp [-bind_pure_comp, simpleOutline, ofTagged, ofSimple, bind_ok]
    have hfits := @fitsAll_line room.pad depth _ (Text.splitLines_ne_nil content)
    refine Iff.trans (Eq.to_iff (congrArg (· = Except.ok os) hraw)) ?_
    rw [bind_eq_ok, exists_checked, pure_eq_ok, Written.simple, pure_eq_ok,
      and_comm]
    refine and_congr_right ?_
    rintro rfl
    exact hfits.symm

end Draft

end NovelScript
