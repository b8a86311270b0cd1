/-
Fields that hold values. Texts, lists of texts, flags and numbers are saved as
they are, and what is absent is left out; that is sound as long as nothing that
is left out was there, so texts and lists that may be absent must not be empty.

# Plain cells

A cell is `Plain` if what it holds is the value that is saved for it, or
nothing. That is true of all fields but four, which hold statements or options
and have functions of their own to save and load them (`structured`). One lemma
says that a plain cell is saved, one that it is loaded, and one that it is kept
by the rules; the last two ask where it may be missing. One field is required
and may hold nothing all the same: the speaker of a line.

# Options

The options of a statement are a record of such fields, which is left out as a
whole if nothing is said. So there is one step more: the record of options is a
row of plain cells, and as a field of the statement it is loaded from the
members of that row, or begins with options that say nothing.
-/
import NovelScript.Proofs.Saving.Kinds

namespace NovelScript.Draft

open Schema (Accepts closedObject needed ownRule partRule ruleFor)
open Text (camelCase)

namespace Cell

-- ============================================================ plain cells

/-- A cell that holds the value that is saved, or nothing. A value that is left
out of saved statements is never among them. -/
structure Plain (c : Cell) : Prop where
  /-- The value that is saved is held. -/
  holds : c.held = optional ofJson c.saved
  /-- It would not be left out. -/
  kept : ∀ v, c.saved = some v → (ofJson v).isNull = false
    ∧ ((ofJson v).isAbsent = false ∨ c.name ∈ keptWhenEmpty)

/-- The fields that are not saved as they are. -/
def structured : List String :=
  ["id", "line", "body", "choices", "branches", "options"]

/-- A field that is saved as it is. -/
theorem saves_of_savedField {c : Cell} (hname : c.name ∉ structured)
    (h : savedField c.name c.held = ofJsonMembers c.member) : c.Saves := by
  intro more
  simp only [structured, List.mem_cons, List.not_mem_nil, or_false, not_or]
    at hname
  rw [savedFields]
  · rw [h]
    cases savedFields more <;> rfl
  all_goals simp [hname]

theorem Plain.saves {c : Cell} (h : c.Plain) (hname : c.name ∉ structured) :
    c.Saves := by
  refine saves_of_savedField hname ?_
  rw [savedField, h.holds, member]
  cases hv : c.saved with
  | none => rfl
  | some v =>
      obtain ⟨hnull, habsent⟩ := h.kept v hv
      rw [if_neg]
      · rfl
      · rcases habsent with habsent | hkept
        · simp [optional, hnull, habsent]
        · simp [optional, hnull, hkept]

/-- A plain field is loaded again if it may be missing where it is. -/
theorem Plain.loads {k : StmtKind} {c : Cell} {start : FieldStart}
    (h : c.Plain) (hname : c.name ∉ structured)
    (hstart : c.saved = none → starting start = .null
      ∧ (start = .required ↔ k = .dialogue ∧ c.name = "speaker")) :
    Loads k start c where
  present v hv := by
    rw [loadedField_plain fun hmem => hname (by simp_all [structured]),
      h.holds, hv]
    rfl
  absent hv := by
    obtain ⟨hnull, hrequired⟩ := hstart hv
    rw [h.holds, hv, hnull]
    exact ⟨rfl, hrequired⟩

/-- A plain field is kept if it may be missing where it is, and keeps its rule
where it is not. -/
theorem Plain.kept_as {k : StmtKind} {c : Cell} {start : FieldStart}
    (h : c.Plain) (hname : c.name ∉ structured)
    (hstart : c.saved = none → starting start = .null
      ∧ (start = .required ↔ k = .dialogue ∧ c.name = "speaker")
      ∧ camelCase c.name ∉ needed (ownRule k))
    (haccepted : ∀ v, c.saved = some v →
      Accepts (partRule k (camelCase c.name)) v) :
    Kept k c (c.name, start) where
  named := rfl
  saves := h.saves hname
  loads := h.loads hname fun hv =>
    ⟨(hstart hv).1, (hstart hv).2.1⟩
  keeps := by
    refine ⟨haccepted, fun hneeded => ?_⟩
    cases hv : c.saved with
    | some v => rfl
    | none => exact absurd hneeded (hstart hv).2.2

/-- A text. -/
def said (name s : String) : Cell := ⟨name, .text s, some (.text s)⟩

/-- A text that may be absent. -/
def text (name : String) (o : Option String) : Cell :=
  ⟨name, optText o, o.map .text⟩

/-- Texts that may be absent. -/
def texts (name : String) (o : Option (List String)) : Cell :=
  ⟨name, optTexts o, o.map fun ss => .list (ss.map .text)⟩

/-- A flag that may be unsaid. -/
def flag (name : String) (o : Option Bool) : Cell :=
  ⟨name, optFlag o, o.map .bool⟩

/-- A number that may be absent. -/
def number (name : String) (o : Option Number) : Cell :=
  ⟨name, optNumber o, o.map .number⟩

theorem plain_said {name s : String} (h : s ≠ "" ∨ name ∈ keptWhenEmpty) :
    (said name s).Plain where
  holds := rfl
  kept v hv := by
    obtain rfl := Option.some.inj hv
    refine ⟨rfl, h.imp (fun hs => ?_) id⟩
    simp [ofJson, isAbsent, hs]

theorem plain_text {name : String} {o : Option String} (h : o ≠ some "") :
    (text name o).Plain where
  holds := by cases o <;> rfl
  kept v hv := by
    obtain ⟨s, rfl, rfl⟩ := Option.map_eq_some_iff.mp hv
    exact ⟨rfl, .inl (by simpa [ofJson, isAbsent] using h)⟩

theorem plain_texts {name : String} {o : Option (List String)}
    (h : o ≠ some []) : (texts name o).Plain where
  holds := by
    cases o with
    | none => rfl
    | some ss => simp [texts, optTexts, optional, ofJson, ofJsonItems_eq_map]
  kept v hv := by
    obtain ⟨ss, rfl, rfl⟩ := Option.map_eq_some_iff.mp hv
    refine ⟨rfl, .inl ?_⟩
    simpa [ofJson, isAbsent, ofJsonItems_eq_map] using h

theorem plain_flag (name : String) (o : Option Bool) : (flag name o).Plain where
  holds := by cases o <;> rfl
  kept v hv := by
    obtain ⟨b, rfl, rfl⟩ := Option.map_eq_some_iff.mp hv
    exact ⟨rfl, .inl rfl⟩

theorem plain_number (name : String) (o : Option Number) :
    (number name o).Plain where
  holds := by cases o <;> rfl
  kept v hv := by
    obtain ⟨n, rfl, rfl⟩ := Option.map_eq_some_iff.mp hv
    exact ⟨rfl, .inl rfl⟩

-- ================================================================ options

/-- A row of plain cells for the fields of a record of options, with rules for
what is saved. -/
structure Clauses (k : RecordKind) (rules : List (String × Schema))
    (cs : List Cell) : Prop where
  /-- They are the fields. -/
  named : cs.map name = k.fields.map (·.1)
  /-- They hold what is saved. -/
  plain : ∀ c ∈ cs, c.Plain
  /-- What is saved keeps the rule for it. -/
  accepted : ∀ c ∈ cs, ∀ v, c.saved = some v →
    Accepts (ruleFor rules (camelCase c.name)) v

/-- A kind of options, none of which has to be given, with rules for them. -/
structure OptionKind (k : RecordKind) (rules : List (String × Schema)) :
    Prop where
  /-- The options are told apart. -/
  distinct : (k.fields.map (·.1)).Nodup
  /-- None has to be given, and none is kept when it is empty. -/
  free : ∀ f ∈ k.fields, f.2 = .absent ∧ f.1 ∉ keptWhenEmpty
  /-- A member tells the option that it was saved from. -/
  found : ∀ f ∈ k.fields, optionField? k (camelCase f.1) = some f.1
  /-- There is a rule for each of them. -/
  ruled : rules.map (·.1) = k.fields.map fun f => camelCase f.1
  /-- The rules are told apart. -/
  ruledOnce : (rules.map (·.1)).Nodup

/-- The options of a statement; they are left out if nothing is said. -/
def options (k : RecordKind) (cs : List Cell) : Cell :=
  ⟨"options", .record k (fields cs),
    if (members cs).isEmpty then none else some (.object (members cs))⟩

section

variable {k : RecordKind} {rules : List (String × Schema)} {cs : List Cell}

theorem Clauses.field (h : Clauses k rules cs) {c : Cell} (hc : c ∈ cs) :
    ∃ f ∈ k.fields, f.1 = c.name := by
  have := List.mem_map_of_mem (f := name) hc
  rw [h.named] at this
  exact List.mem_map.mp this

theorem Plain.held_isAbsent {c : Cell} (h : c.Plain)
    (hname : c.name ∉ keptWhenEmpty) :
    c.held.isAbsent = c.saved.isNone := by
  rw [h.holds]
  cases hv : c.saved with
  | none => rfl
  | some v => exact (h.kept v hv).2.resolve_right hname

theorem savedOptions_fields (h : ∀ c ∈ cs, c.Plain ∧ c.name ∉ keptWhenEmpty) :
    savedOptions (fields cs) = ofJsonMembers (members cs) := by
  induction cs with
  | nil => rfl
  | cons c cs ih =>
      obtain ⟨⟨hplain, hname⟩, hrest⟩ := List.forall_mem_cons.mp h
      have hmore := ih hrest
      have habsent := hplain.held_isAbsent hname
      rw [members_cons, ofJsonMembers_append, ← hmore]
      cases hv : c.saved with
      | none =>
          rw [hv] at habsent
          simp [savedOptions, fields, habsent, member, hv, ofJsonMembers]
      | some v =>
          have hheld : c.held = ofJson v := by rw [hplain.holds, hv]; rfl
          rw [hv, hheld] at habsent
          simp [savedOptions, fields, habsent, member, hv, ofJsonMembers, hheld]

theorem optionFields_members
    (h : ∀ c ∈ cs, c.Plain ∧ optionField? k (camelCase c.name) = some c.name) :
    optionFields k (members cs) = .ok (present cs) := by
  induction cs with
  | nil => rfl
  | cons c cs ih =>
      obtain ⟨⟨hplain, hfound⟩, hrest⟩ := List.forall_mem_cons.mp h
      rw [members_cons]
      cases hv : c.saved with
      | none => simpa [member, hv, present, fields] using ih hrest
      | some v =>
          have hheld : c.held = ofJson v := by rw [hplain.holds, hv]; rfl
          simp only [member, hv, Option.toList_some, List.map_cons, List.map_nil,
            List.cons_append, List.nil_append, optionFields, hfound, ih hrest]
          simp [present, fields, hv, hheld, pure, Except.pure, bind, Except.bind]

/-- A record of options is made from what was saved of it. -/
theorem make_options (hk : OptionKind k rules) (h : Clauses k rules cs) :
    make k (present cs) = .record k (fields cs) := by
  have hnames : (cs.map name).Nodup := h.named ▸ hk.distinct
  have hlook : ∀ c ∈ cs, (field? c.name (present cs)).getD .null = c.held := by
    intro c hc
    rw [field?_present hnames hc, (h.plain c hc).holds]
    cases c.saved <;> rfl
  have hstart : ∀ f ∈ k.fields, starting f.2 = .null := fun f hf => by
    rw [(hk.free f hf).1, starting]
  rw [make, Draft.record.injEq]
  refine ⟨rfl, ?_⟩
  calc k.fields.map (fun f => (f.1, (field? f.1 (present cs)).getD (starting f.2)))
      = k.fields.map (fun f => (f.1, (field? f.1 (present cs)).getD .null)) :=
        List.map_congr_left fun f hf => by rw [hstart f hf]
    _ = (k.fields.map (·.1)).map
          (fun n => (n, (field? n (present cs)).getD .null)) := by
        rw [List.map_map]; rfl
    _ = cs.map (fun c => (c.name, (field? c.name (present cs)).getD .null)) := by
        rw [← h.named, List.map_map]; rfl
    _ = fields cs := List.map_congr_left fun c hc => by rw [hlook c hc]

theorem saved_options {v : Json} (h : (options k cs).saved = some v) :
    v = .object (members cs) := by
  unfold options at h
  by_cases hnone : (members cs).isEmpty = true
  · rw [if_pos hnone] at h
    cases h
  · rw [if_neg hnone] at h
    exact (Option.some.inj h).symm

theorem saved_of_members_eq_nil (h : members cs = []) :
    ∀ c ∈ cs, c.saved = none := by
  intro c hc
  cases hv : c.saved with
  | none => rfl
  | some v =>
      have : (camelCase c.name, v) ∈ members cs :=
        List.mem_flatMap.mpr ⟨c, hc, mem_member.mpr ⟨v, hv, rfl⟩⟩
      rw [h] at this
      cases this

/-- The options of a statement are saved, loaded and in keeping with the
rules. -/
theorem kept_options {s : StmtKind} (hk : OptionKind k rules)
    (h : Clauses k rules cs) (hs : optionsKind s = k)
    (hrule : partRule s (camelCase "options") = closedObject [] rules)
    (hneeded : camelCase "options" ∉ needed (ownRule s)) :
    Kept s (options k cs) ("options", .options k) where
  named := rfl
  saves := by
    intro more
    have hsaved := @savedOptions_fields cs fun c hc =>
      (h.field hc).elim fun f hf => ⟨h.plain c hc, hf.2 ▸ (hk.free f hf.1).2⟩
    have hname : camelCase "options" = "options" := by decide
    have hown : (if (savedOptions (fields cs)).isEmpty then []
        else [("options", Draft.object (savedOptions (fields cs)))])
          = ofJsonMembers (member (options k cs)) := by
      rw [hsaved, options, member]
      cases hm : members cs with
      | nil => rfl
      | cons m ms => simp [hname, ofJsonMembers, ofJson]
    rw [options, savedFields, hown, options]
    cases savedFields more <;> rfl
  loads := by
    constructor
    · intro v hv
      have hfields := @optionFields_members k cs fun c hc =>
        (h.field hc).elim fun f hf => ⟨h.plain c hc, hf.2 ▸ hk.found f hf.1⟩
      rw [saved_options hv, options, loadedField, hs, optionsOf, hfields]
      exact congrArg Except.ok (make_options hk h)
    · intro hv
      -- No options are saved exactly if there is no member among their cells.
      have hnone : members cs = [] := by
        by_contra hsome
        rw [options, if_neg (by simpa using hsome)] at hv
        cases hv
      refine ⟨?_, by simp [options]⟩
      rw [options, starting, noOptions, Draft.record.injEq]
      refine ⟨rfl, ?_⟩
      calc fields cs
          = cs.map (fun c => (c.name, Draft.null)) :=
            List.map_congr_left fun c hc => by
              rw [(h.plain c hc).holds, saved_of_members_eq_nil hnone c hc]
              rfl
        _ = (cs.map name).map (fun n => (n, .null)) := by
            rw [List.map_map]; rfl
        _ = k.fields.map (fun f => (f.1, .null)) := by
            rw [h.named, List.map_map]; rfl
  keeps := by
    refine ⟨fun v hv => ?_, fun hmem => absurd hmem hneeded⟩
    rw [saved_options hv]
    change Accepts (partRule s (camelCase "options")) _
    rw [hrule]
    have hcell : ∀ c ∈ cs, camelCase c.name ∈ rules.map (·.1) := by
      intro c hc
      obtain ⟨f, hf, hname⟩ := h.field hc
      rw [hk.ruled, ← hname]
      exact List.mem_map.mpr ⟨f, hf, rfl⟩
    refine Schema.accepts_closedObject (by simp) (fun p hp v hv => ?_)
      fun m hm => ?_
    · obtain ⟨c, hc, w, hw, hm⟩ :=
        exists_cell_of_mem_members (mem_of_member? hv)
      obtain ⟨hname, rfl⟩ := Prod.mk.inj hm
      have := h.accepted c hc v hw
      rwa [← hname, Schema.ruleFor_of_mem hk.ruledOnce hp] at this
    · obtain ⟨c, hc, v, -, rfl⟩ := exists_cell_of_mem_members hm
      exact hcell c hc

end

end Cell

end NovelScript.Draft
