/-
Simple statements that can be saved. Saving leaves out what is empty, and the
rules refuse names that are, so a statement is `Savable` if none of the texts
and lists that may be absent is empty, and no name is. The rest is a walk along
the fields of each kind, with the form in which each is saved and the rule that
it keeps.

# Fields

There are few sorts of fields: a text that is always there, a text, a list of
texts, a flag or a number that may be absent, and the options, which are a
record of their own. For each sort there is one lemma that says when such a
field is kept in a statement of some kind (`kept_text`, `kept_texts`,
`kept_flag`, `kept_number`). Its conditions are facts about the tables of fields
and rules: the field may be missing, and the rule for it is the one for its
sort. At a given kind and name both are decided.

# Kinds

So the proof for a kind lists its fields, in order, with the lemma for each.
-/
import NovelScript.Proofs.Saving.Values

namespace NovelScript

/-- A text that is absent or says something. -/
def Told (o : Option String) : Prop := o ≠ some ""

/-- A list of texts that is absent or has some. -/
def Listed (o : Option (List String)) : Prop := o ≠ some []

/-- Clauses of a display statement of which none is empty. -/
structure DisplayOptions.Savable (o : DisplayOptions) : Prop where
  /-- The attributes. -/
  attributes : Listed o.attributes
  /-- The tag. -/
  asTag : Told o.asTag
  /-- The place. -/
  atPosition : Told o.atPosition
  /-- The images in front. -/
  behind : Told o.behind
  /-- The layer. -/
  layer : Told o.layer
  /-- The transition. -/
  transition : Told o.transition

/-- A simple statement that saving loses nothing of. -/
def Simple.Savable : Simple → Prop
  | .say d =>
    Told d.speaker ∧ Listed d.attributes ∧ Told d.transition
      ∧ Listed d.arguments
  | .display _ image o => image ≠ "" ∧ o.Savable
  | .transition name => name ≠ ""
  | .jump target _ => target ≠ ""
  | .call c => c.target ≠ "" ∧ Listed c.arguments ∧ Told c.fromLabel
  | .giveBack value => Told value
  | .assign target _ operator => target ≠ "" ∧ operator ∈ assignOperators
  | .code _ => True
  | .define name _ store => name ≠ "" ∧ Told store
  | .default name _ => name ≠ ""
  | .play channel _ _ => channel ∈ channels
  | .stop channel _ => channel ∈ channels
  | .pause _ => True
  | .nvl action => action ∈ nvlActions
  | .raw _ => True

namespace Draft

open Schema (Accepts needed ownRule partRule ruleFor)
open Text (camelCase)

namespace Cell

variable {k : StmtKind} {name : String}

-- ============================================================= single fields

/-- A field that may be missing wherever it is. -/
abbrev Free (k : StmtKind) (name : String) : Prop :=
  name ∉ structured ∧ camelCase name ∉ needed (ownRule k)
    ∧ ¬(k = .dialogue ∧ name = "speaker")

theorem Plain.kept_free {c : Cell} {rule : Schema} (h : c.Plain)
    (hfree : Free k c.name) (hrule : partRule k (camelCase c.name) = rule)
    (haccepted : ∀ v, c.saved = some v → Accepts rule v) :
    Kept k c (c.name, .absent) :=
  h.kept_as hfree.1
    (fun _ => ⟨rfl, ⟨fun h => (by cases h), fun h => absurd h hfree.2.2⟩,
      hfree.2.1⟩)
    (hrule ▸ haccepted)

theorem accepted_text {o : Option String} :
    ∀ v, (text name o).saved = some v → Accepts Schema.text v := by
  intro v hv
  obtain ⟨s, -, rfl⟩ := Option.map_eq_some_iff.mp hv
  exact Schema.accepts_text s

theorem accepted_texts {o : Option (List String)} :
    ∀ v, (texts name o).saved = some v → Accepts Schema.texts v := by
  intro v hv
  obtain ⟨ss, -, rfl⟩ := Option.map_eq_some_iff.mp hv
  exact Schema.accepts_texts ss

theorem accepted_flag {o : Option Bool} :
    ∀ v, (flag name o).saved = some v → Accepts Schema.flag v := by
  intro v hv
  obtain ⟨b, -, rfl⟩ := Option.map_eq_some_iff.mp hv
  exact Schema.accepts_flag b

theorem accepted_number {o : Option Number} :
    ∀ v, (number name o).saved = some v → Accepts Schema.number v := by
  intro v hv
  obtain ⟨n, -, rfl⟩ := Option.map_eq_some_iff.mp hv
  exact Schema.accepts_number n

theorem kept_text {o : Option String} (hfree : Free k name)
    (hrule : partRule k (camelCase name) = Schema.text) (h : Told o) :
    Kept k (text name o) (name, .absent) :=
  (plain_text h).kept_free hfree hrule accepted_text

theorem kept_texts {o : Option (List String)} (hfree : Free k name)
    (hrule : partRule k (camelCase name) = Schema.texts) (h : Listed o) :
    Kept k (texts name o) (name, .absent) :=
  (plain_texts h).kept_free hfree hrule accepted_texts

theorem kept_flag (o : Option Bool) (hfree : Free k name)
    (hrule : partRule k (camelCase name) = Schema.flag) :
    Kept k (flag name o) (name, .absent) :=
  (plain_flag name o).kept_free hfree hrule accepted_flag

theorem kept_number (o : Option Number) (hfree : Free k name)
    (hrule : partRule k (camelCase name) = Schema.number) :
    Kept k (number name o) (name, .absent) :=
  (plain_number name o).kept_free hfree hrule accepted_number

/-- A text that is always there. -/
theorem kept_said {s : String} {start : FieldStart} {rule : Schema}
    (hname : name ∉ structured) (hkept : s ≠ "" ∨ name ∈ keptWhenEmpty)
    (hrule : partRule k (camelCase name) = rule)
    (haccepted : Accepts rule (.text s)) :
    Kept k (said name s) (name, start) :=
  (plain_said hkept).kept_as hname (fun h => by cases h) fun v hv => by
    obtain rfl := Option.some.inj hv
    exact hrule ▸ haccepted

/-- A name, which is never empty. -/
theorem kept_name {s : String} (hname : name ∉ structured)
    (hrule : partRule k (camelCase name) = Schema.name) (h : s ≠ "") :
    Kept k (said name s) (name, .required) :=
  kept_said hname (.inl h) hrule (Schema.accepts_name h)

/-- A text that is kept even if it is empty. -/
theorem kept_always (s : String) (hname : name ∉ structured)
    (hkept : name ∈ keptWhenEmpty)
    (hrule : partRule k (camelCase name) = Schema.text) :
    Kept k (said name s) (name, .required) :=
  kept_said hname (.inr hkept) hrule (Schema.accepts_text s)

/-- The one who speaks, if anybody does. -/
theorem kept_speaker {o : Option String} (h : Told o) :
    Kept .dialogue (text "speaker" o) ("speaker", .required) := by
  have hname : "speaker" ∉ structured := by decide
  have hneeded : camelCase "speaker" ∉ needed (ownRule .dialogue) := by decide
  have hrule : partRule .dialogue (camelCase "speaker") = Schema.text := rfl
  exact (plain_text h).kept_as hname
    (fun _ => ⟨rfl, ⟨fun _ => ⟨rfl, rfl⟩, fun _ => rfl⟩, hneeded⟩)
    (hrule ▸ accepted_text)

-- =================================================================== options

/-- The clauses of a display statement. -/
def display (o : DisplayOptions) : List Cell :=
  [texts "attributes" o.attributes, text "as_tag" o.asTag,
    text "at_position" o.atPosition, text "behind" o.behind,
    text "layer" o.layer, ⟨"zorder", optional int o.zorder, o.zorder.map .int⟩,
    text "transition" o.transition]

/-- The clauses of a sound statement. -/
def audio (o : AudioOptions) : List Cell :=
  [number "fade_in" o.fadeIn, number "fade_out" o.fadeOut,
    number "volume" o.volume, flag "loop" o.loop, flag "queue" o.queue,
    flag "if_changed" o.ifChanged]

/-- The rules for the clauses of a display statement. -/
def displayRules : List (String × Schema) :=
  [("attributes", Schema.texts), ("asTag", Schema.text),
    ("atPosition", Schema.text), ("behind", Schema.text),
    ("layer", Schema.text), ("zorder", [.type .integer]),
    ("transition", Schema.text)]

/-- The rules for the clauses of a sound statement. -/
def audioRules : List (String × Schema) :=
  [("fadeIn", Schema.number), ("fadeOut", Schema.number),
    ("volume", Schema.number), ("loop", Schema.flag), ("queue", Schema.flag),
    ("ifChanged", Schema.flag)]

theorem optionKind_display : OptionKind .displayOptions displayRules := by
  constructor <;> decide

theorem optionKind_audio : OptionKind .audioOptions audioRules := by
  constructor <;> decide

theorem plain_int (name : String) (o : Option Int) :
    Plain ⟨name, optional int o, o.map .int⟩ where
  holds := by cases o <;> rfl
  kept v hv := by
    obtain ⟨i, rfl, rfl⟩ := Option.map_eq_some_iff.mp hv
    exact ⟨rfl, .inl rfl⟩

theorem accepted_int {o : Option Int} :
    ∀ v, o.map Json.int = some v → Accepts [.type .integer] v := by
  intro v hv
  obtain ⟨i, -, rfl⟩ := Option.map_eq_some_iff.mp hv
  exact Schema.accepts_single (Schema.passes_type rfl)

theorem accepted_as (name : String) {ps : List (String × Schema)} {o : Option Json}
    {rule : Schema} (h : ∀ v, o = some v → Accepts rule v)
    (hrule : ruleFor ps (camelCase name) = rule) :
    ∀ v, o = some v → Accepts (ruleFor ps (camelCase name)) v := hrule ▸ h

theorem clauses_display {o : DisplayOptions} (h : o.Savable) :
    Clauses .displayOptions displayRules (display o) where
  named := rfl
  plain := by
    simp only [display, List.forall_mem_cons]
    exact ⟨plain_texts h.attributes, plain_text h.asTag,
      plain_text h.atPosition, plain_text h.behind, plain_text h.layer,
      plain_int _ _, plain_text h.transition, by simp⟩
  accepted := by
    simp only [display, List.forall_mem_cons]
    exact ⟨accepted_as "attributes" accepted_texts rfl,
      accepted_as "as_tag" accepted_text rfl,
      accepted_as "at_position" accepted_text rfl,
      accepted_as "behind" accepted_text rfl,
      accepted_as "layer" accepted_text rfl,
      accepted_as "zorder" accepted_int rfl,
      accepted_as "transition" accepted_text rfl, by simp⟩

theorem clauses_audio (o : AudioOptions) :
    Clauses .audioOptions audioRules (audio o) where
  named := rfl
  plain := by
    simp only [audio, List.forall_mem_cons]
    exact ⟨plain_number _ _, plain_number _ _, plain_number _ _,
      plain_flag _ _, plain_flag _ _, plain_flag _ _, by simp⟩
  accepted := by
    simp only [audio, List.forall_mem_cons]
    exact ⟨accepted_as "fade_in" accepted_number rfl,
      accepted_as "fade_out" accepted_number rfl,
      accepted_as "volume" accepted_number rfl,
      accepted_as "loop" accepted_flag rfl,
      accepted_as "queue" accepted_flag rfl,
      accepted_as "if_changed" accepted_flag rfl, by simp⟩

-- ================================================================ statements

/-- The own fields of a simple statement. -/
def simple : Simple → List Cell
  | .say d =>
    [text "speaker" d.speaker, said "text" d.text,
      texts "attributes" d.attributes, text "transition" d.transition,
      flag "extend" d.extend, texts "arguments" d.arguments]
  | .display _ image o =>
    [said "image" image, options .displayOptions (display o)]
  | .transition name => [said "transition" name]
  | .jump target expression =>
    [said "target" target, flag "expression" expression]
  | .call c =>
    [said "target" c.target, texts "arguments" c.arguments,
      flag "expression" c.expression, text "from_label" c.fromLabel]
  | .giveBack value => [text "value" value]
  | .assign target value operator =>
    [said "variable" target, said "value" value, said "operator" operator]
  | .code c =>
    [said "code" c.code, flag "early" c.early, flag "hide" c.hide,
      flag "init" c.init]
  | .define name value store =>
    [said "name" name, said "value" value, text "store" store]
  | .default name value => [said "name" name, said "value" value]
  | .play channel file o =>
    [said "channel" channel, said "file" file,
      options .audioOptions (audio o)]
  | .stop channel fadeOut =>
    [said "channel" channel, number "fade_out" fadeOut]
  | .pause duration => [number "duration" duration]
  | .nvl action => [said "action" action]
  | .raw content => [said "content" content]

theorem fields_simple (s : Simple) : fields (simple s) = (ofSimple s).2 := by
  cases s <;> rfl

theorem kept_channel {channel : String} {k : StmtKind}
    (hrule : partRule k (camelCase "channel") = Schema.channel)
    (h : channel ∈ channels) :
    Kept k (said "channel" channel) ("channel", .required) := by
  refine kept_said (by decide) (.inl ?_) hrule (Schema.accepts_single
    (Schema.passes_also (Schema.accepts_single (Schema.passes_oneOf h))))
  exact ne_of_mem_of_not_mem h (by decide)

/-- The fields of a simple statement that can be saved are kept. -/
theorem kept_simple {s : Simple} (h : s.Savable) :
    List.Forall₂ (Kept (ofSimple s).1) (simple s)
      (RecordKind.ownFields (ofSimple s).1) := by
  -- The fields of each kind in order. That a field may be missing, and which
  -- rule it has, is looked up in the tables.
  cases s with
  | say d =>
      show List.Forall₂ (Kept .dialogue) _ _
      obtain ⟨hspeaker, hattributes, htransition, harguments⟩ := h
      exact .cons (kept_speaker hspeaker) <|
        .cons (kept_always _ (by decide) (by decide) rfl) <|
        .cons (kept_texts (by decide) rfl hattributes) <|
        .cons (kept_text (by decide) rfl htransition) <|
        .cons (kept_flag _ (by decide) rfl) <|
        .cons (kept_texts (by decide) rfl harguments) .nil
  | display verb image o =>
      obtain ⟨himage, ho⟩ := h
      have hoptions := clauses_display ho
      cases verb with
      | scene =>
          exact .cons (kept_name (by decide) rfl himage) <|
            .cons (@kept_options _ _ _ .scene optionKind_display hoptions rfl
              rfl (by decide)) .nil
      | reveal =>
          exact .cons (kept_name (by decide) rfl himage) <|
            .cons (@kept_options _ _ _ .reveal optionKind_display hoptions rfl
              rfl (by decide)) .nil
      | hide =>
          exact .cons (kept_name (by decide) rfl himage) <|
            .cons (@kept_options _ _ _ .hide optionKind_display hoptions rfl
              rfl (by decide)) .nil
  | transition name =>
      show List.Forall₂ (Kept .transition) _ _
      exact .cons (kept_name (by decide) rfl h) .nil
  | jump target expression =>
      show List.Forall₂ (Kept .jump) _ _
      exact .cons (kept_name (by decide) rfl h) <|
        .cons (kept_flag _ (by decide) rfl) .nil
  | call c =>
      show List.Forall₂ (Kept .call) _ _
      obtain ⟨htarget, harguments, hlabel⟩ := h
      exact .cons (kept_name (by decide) rfl htarget) <|
        .cons (kept_texts (by decide) rfl harguments) <|
        .cons (kept_flag _ (by decide) rfl) <|
        .cons (kept_text (by decide) rfl hlabel) .nil
  | giveBack value =>
      show List.Forall₂ (Kept .giveBack) _ _
      exact .cons (kept_text (by decide) rfl h) .nil
  | assign target value operator =>
      show List.Forall₂ (Kept .assign) _ _
      obtain ⟨htarget, hoperator⟩ := h
      refine .cons (kept_name (by decide) rfl htarget) <|
        .cons (kept_always _ (by decide) (by decide) rfl) <|
        .cons (kept_said (by decide) (.inl ?_) rfl (Schema.accepts_single
          (Schema.passes_oneOf hoperator))) .nil
      exact ne_of_mem_of_not_mem hoperator (by decide)
  | code c =>
      show List.Forall₂ (Kept .code) _ _
      exact .cons (kept_always _ (by decide) (by decide) rfl) <|
        .cons (kept_flag _ (by decide) rfl) <|
        .cons (kept_flag _ (by decide) rfl) <|
        .cons (kept_flag _ (by decide) rfl) .nil
  | define name value store =>
      show List.Forall₂ (Kept .define) _ _
      obtain ⟨hname, hstore⟩ := h
      exact .cons (kept_name (by decide) rfl hname) <|
        .cons (kept_always _ (by decide) (by decide) rfl) <|
        .cons (kept_text (by decide) rfl hstore) .nil
  | default name value =>
      show List.Forall₂ (Kept .default) _ _
      exact .cons (kept_name (by decide) rfl h) <|
        .cons (kept_always _ (by decide) (by decide) rfl) .nil
  | play channel file o =>
      show List.Forall₂ (Kept .play) _ _
      exact .cons (kept_channel rfl h) <|
        .cons (kept_always _ (by decide) (by decide) rfl) <|
        .cons (kept_options optionKind_audio (clauses_audio o) rfl rfl
          (by decide)) .nil
  | stop channel fadeOut =>
      show List.Forall₂ (Kept .stop) _ _
      exact .cons (kept_channel rfl h) <|
        .cons (kept_number _ (by decide) rfl) .nil
  | pause duration =>
      show List.Forall₂ (Kept .pause) _ _
      exact .cons (kept_number _ (by decide) rfl) .nil
  | nvl action =>
      show List.Forall₂ (Kept .nvl) _ _
      refine .cons (kept_said (by decide) (.inl ?_) rfl (Schema.accepts_single
        (Schema.passes_oneOf h))) .nil
      exact ne_of_mem_of_not_mem h (by decide)
  | raw content =>
      show List.Forall₂ (Kept .raw) _ _
      exact .cons (kept_always _ (by decide) (by decide) rfl) .nil

end Cell

end Draft

end NovelScript
