/-
What makings leave of values. Making trims texts, drops what is empty and
refuses what is no number, so whatever the value was, a field that may be left
out holds nothing or something that is not left out. Texts that a statement
cannot do without are taken as they are, and kept when they are empty; only
names may end up empty and be left out all the same. So each field that a making
fills is saved and loaded as it is, or its name is empty.

# Checks

The first sections have one lemma for each check of a maker. It says what is
left of any value that passes: of a text that may be absent, nothing or a text
that is not empty (`exists_presentText`); of a list of texts, nothing or some
(`exists_presentTexts`); of a number, nothing or a number. The types of the
values do not matter to these, since a value of another type is refused or
counts as absent.

# Fields

`Holds` says of a field and of what it begins with that a cell for it exists
that is saved and loaded. A row of fields that do is a row of cells
(`exists_cells`), which is what the statement needs.
-/
import NovelScript.Draft.Built
import NovelScript.Proofs.Saving.Codec

namespace NovelScript

-- =================================================================== words

/-- The words of a text are not empty. -/
theorem Text.ne_nil_of_mem_fieldsFrom {word cs w : List Char}
    (h : w ∈ fieldsFrom word cs) : w ≠ [] := by
  induction cs generalizing word with
  | nil =>
      rw [fieldsFrom] at h
      split at h
      · cases h
      · next hword =>
        rw [List.mem_singleton.mp h]
        simpa using hword
  | cons c cs ih =>
      rw [fieldsFrom] at h
      split at h
      · split at h
        · exact ih h
        · next hword =>
          rcases List.mem_cons.mp h with rfl | h
          · simpa using hword
          · exact ih h
      · exact ih h

namespace Draft

open Cell
open Text (camelCase)

-- ================================================================= values

theorem exists_presentText (d : Draft) :
    ∃ o, Told o ∧ presentText d = optText o := by
  unfold presentText
  split
  · exact ⟨none, by simp [Told], rfl⟩
  · dsimp only
    split
    · exact ⟨none, by simp [Told], rfl⟩
    · next hsome => exact ⟨some _, by simpa [Told] using hsome, rfl⟩

theorem exists_presentTexts {d left : Draft} (h : presentTexts d = .ok left) :
    ∃ o, Listed o ∧ left = optTexts o := by
  unfold presentTexts at h
  split at h
  · exact ⟨none, by simp [Listed], (Except.ok.inj h).symm⟩
  · obtain ⟨parts, -, h⟩ := bind_eq_ok.mp h
    obtain rfl := Except.ok.inj h
    split
    · exact ⟨none, by simp [Listed], rfl⟩
    · next hsome =>
      exact ⟨some _, by simpa [Listed] using hsome, rfl⟩

theorem exists_flag (d : Draft) : ∃ o, flag d = optFlag o := by
  unfold flag
  split
  · exact ⟨none, rfl⟩
  · exact ⟨some _, rfl⟩

theorem exists_number {name : String} {d left : Draft}
    (h : needNumber name d = .ok left) : ∃ o, left = optNumber o := by
  unfold needNumber at h
  split at h
  · exact ⟨none, (Except.ok.inj h).symm⟩
  · exact ⟨some _, (Except.ok.inj h).symm⟩
  · cases h

theorem exists_oneOf {options : List String} {d : Draft}
    (h : isOneOf options d = true) : ∃ s ∈ options, d = .text s := by
  unfold isOneOf at h
  split at h
  · exact ⟨_, by simpa using h, rfl⟩
  · cases h

-- ================================================================== parts

section

variable {get : String → Draft}

theorem exists_displayParts {image options : Draft}
    (h : displayParts get = .ok (image, options)) :
    ∃ s o, s ≠ "" ∧ DisplayOptions.Savable o ∧ image = .text s
      ∧ options = ofDisplayOptions o := by
  unfold displayParts at h
  obtain ⟨⟨first, attributes⟩, hsplit, h⟩ := bind_eq_ok.mp h
  -- What stands behind the name in the first field counts as attributes.
  obtain ⟨s, a, hs, ha, rfl, rfl⟩ : ∃ s a, s ≠ "" ∧ Listed a
      ∧ first = .text s ∧ attributes = optTexts a := by
    unfold splitImage at hsplit
    dsimp only at hsplit
    generalize (if (get "image").isTruthy then (get "image").inLine else "")
      = whole at hsplit
    split at hsplit
    · cases hsplit
    · next word more hfields =>
      obtain ⟨extra, -, hsplit⟩ := bind_eq_ok.mp hsplit
      obtain ⟨all, hall, hsplit⟩ := bind_eq_ok.mp hsplit
      obtain ⟨a, ha, rfl⟩ := exists_presentTexts hall
      obtain ⟨rfl, rfl⟩ := Prod.mk.inj (Except.ok.inj hsplit)
      refine ⟨_, a, fun hnil => ?_, ha, rfl, rfl⟩
      have hword : word ≠ [] :=
        Text.ne_nil_of_mem_fieldsFrom (hfields ▸ List.mem_cons_self)
      exact hword (String.ofList_eq_empty_iff.mp hnil)
  dsimp only at h
  -- The order is the one field that is no text: a number, if it is given.
  obtain ⟨z, hz⟩ : ∃ z, get "zorder" = optional int z := by
    split at h
    · next hz => exact ⟨none, hz⟩
    · next i hz => exact ⟨some i, hz⟩
    · cases h
  obtain ⟨tag, htag, hgettag⟩ := exists_presentText (get "as_tag")
  obtain ⟨at_, hat, hgetat⟩ := exists_presentText (get "at_position")
  obtain ⟨behind, hbehind, hgetbehind⟩ := exists_presentText (get "behind")
  obtain ⟨layer, hlayer, hgetlayer⟩ := exists_presentText (get "layer")
  obtain ⟨via, hvia, hgetvia⟩ := exists_presentText (get "transition")
  rw [hgettag, hgetat, hgetbehind, hgetlayer, hgetvia, hz] at h
  refine ⟨s, ⟨a, tag, at_, behind, layer, z, via⟩, hs,
    ⟨ha, htag, hat, hbehind, hlayer, hvia⟩, ?_⟩
  have hparts : (Draft.text s, ofDisplayOptions
      ⟨a, tag, at_, behind, layer, z, via⟩) = (image, options) := by
    cases z <;> exact Except.ok.inj h
  exact ⟨(congrArg Prod.fst hparts).symm, (congrArg Prod.snd hparts).symm⟩

theorem exists_audioParts {options : Draft} (h : audioParts get = .ok options) :
    ∃ o, options = ofAudioOptions o := by
  unfold audioParts at h
  obtain ⟨fadeIn, hin, h⟩ := bind_eq_ok.mp h
  obtain ⟨fadeOut, hout, h⟩ := bind_eq_ok.mp h
  obtain ⟨volume, hvolume, h⟩ := bind_eq_ok.mp h
  obtain ⟨i, rfl⟩ := exists_number hin
  obtain ⟨o, rfl⟩ := exists_number hout
  obtain ⟨v, rfl⟩ := exists_number hvolume
  obtain ⟨loop, hloop⟩ := exists_flag (get "loop")
  obtain ⟨queue, hqueue⟩ := exists_flag (get "queue")
  obtain ⟨changed, hchanged⟩ := exists_flag (get "if_changed")
  rw [hloop, hqueue, hchanged] at h
  exact ⟨⟨i, o, v, loop, queue, changed⟩, (Except.ok.inj h).symm⟩

theorem exists_speakingParts {speaker attributes : Draft}
    (h : speakingParts get = .ok (speaker, attributes)) :
    ∃ s a, Told s ∧ Listed a ∧ speaker = optText s ∧ attributes = optTexts a := by
  unfold speakingParts at h
  obtain ⟨s, hs, hspeaker⟩ := exists_presentText (get "speaker")
  dsimp only at h
  rw [hspeaker] at h
  split at h
  · cases h
  · obtain ⟨left, hleft, h⟩ := bind_eq_ok.mp h
    obtain ⟨a, ha, rfl⟩ := exists_presentTexts hleft
    split at h
    · cases h
    · obtain ⟨rfl, rfl⟩ := Prod.mk.inj (Except.ok.inj h)
      exact ⟨s, a, hs, ha, rfl, rfl⟩

end

-- ================================================================= fields

/-- What a field of a statement holds is saved and loaded as it is, unless it
is an empty name or one is in it. -/
def Holds (k : StmtKind) (p : String × Draft) (f : String × FieldStart) : Prop :=
  ∃ o, Encoded k ⟨p.1, p.2, o⟩ f

theorem exists_cells {k : StmtKind} {own : List (String × Draft)}
    {fs : List (String × FieldStart)} (h : List.Forall₂ (Holds k) own fs) :
    ∃ cs, fields cs = own ∧ List.Forall₂ (Encoded k) cs fs := by
  induction h with
  | nil => exact ⟨[], rfl, .nil⟩
  | @cons p f _ _ hp _ ih =>
      obtain ⟨o, ho⟩ := hp
      obtain ⟨cs, hfields, hcs⟩ := ih
      exact ⟨⟨p.1, p.2, o⟩ :: cs, by rw [← hfields]; rfl, .cons ho hcs⟩

section

variable {k : StmtKind} {name : String} {start : FieldStart}

/-- A cell in which no name can be is encoded if it is loaded. -/
theorem encoded_of_loads {c : Cell} (hname : nameField? k ≠ some c.name)
    (hnames : c.held.hasNames = true) (hsaves : c.Saves)
    (hloads : Loads k start c) : Encoded k c (c.name, start) where
  toRestored := hloads.restored rfl ⟨isSaid_of_ne hname _, hnames⟩
  saves := hsaves

/-- A field that names nothing and may be missing wherever it is. -/
abbrev Spare (k : StmtKind) (name : String) : Prop :=
  name ∉ structured ∧ ¬(k = .dialogue ∧ name = "speaker")
    ∧ nameField? k ≠ some name

theorem hasNames_of_plain {c : Cell} (h : c.Plain) : c.held.hasNames = true := by
  rw [h.holds]
  cases c.saved with
  | none => rfl
  | some v => exact hasNames_ofJson v

theorem encoded_plain {c : Cell} (h : c.Plain) (hspare : Spare k c.name) :
    Encoded k c (c.name, .absent) :=
  encoded_of_loads hspare.2.2 (hasNames_of_plain h) (h.saves hspare.1)
    (h.loads hspare.1 fun _ =>
      ⟨rfl, fun heq => (by cases heq), fun heq => absurd heq hspare.2.1⟩)

theorem holds_text (hspare : Spare k name) {o : Option String} (h : Told o) :
    Holds k (name, optText o) (name, .absent) :=
  ⟨_, encoded_plain (plain_text h) hspare⟩

theorem holds_presentText (hspare : Spare k name) (d : Draft) :
    Holds k (name, presentText d) (name, .absent) := by
  obtain ⟨o, htold, ho⟩ := exists_presentText d
  rw [ho]
  exact holds_text hspare htold

theorem holds_presentTexts (hspare : Spare k name) {d left : Draft}
    (h : presentTexts d = .ok left) : Holds k (name, left) (name, .absent) := by
  obtain ⟨o, hlisted, rfl⟩ := exists_presentTexts h
  exact ⟨_, encoded_plain (plain_texts hlisted) hspare⟩

theorem holds_flag (hspare : Spare k name) (d : Draft) :
    Holds k (name, flag d) (name, .absent) := by
  obtain ⟨o, ho⟩ := exists_flag d
  rw [ho]
  exact ⟨_, encoded_plain (plain_flag name o) hspare⟩

/-- A text that a statement cannot do without. -/
theorem holds_said (hname : name ∉ structured ∧ nameField? k ≠ some name)
    {s : String} (hkept : s ≠ "" ∨ name ∈ keptWhenEmpty) :
    Holds k (name, .text s) (name, start) :=
  ⟨_, encoded_of_loads hname.2 rfl ((plain_said hkept).saves hname.1)
    ((plain_said hkept).loads hname.1 fun h => by cases h)⟩

-- ================================================================== names

/-- A name, which is left out when it is empty. -/
def Cell.title (name s : String) : Cell :=
  ⟨name, .text s, if s = "" then none else some (.text s)⟩

theorem nameField?_spec (h : nameField? k = some name) :
    name ∉ structured ∧ name ∉ keptWhenEmpty
      ∧ ¬(k = .dialogue ∧ name = "speaker") := by
  cases k <;> cases h <;> decide

theorem saves_title {s : String}
    (hname : name ∉ structured ∧ name ∉ keptWhenEmpty) :
    (title name s).Saves := by
  refine saves_of_savedField hname.1 ?_
  by_cases hs : s = ""
  · simp [savedField, title, member, hs, isAbsent, isNull, hname.2, ofJsonMembers]
  · simp [savedField, title, member, hs, isAbsent, isNull, ofJsonMembers, ofJson]

theorem hasName_title {s : String} (h : nameField? k = some name) :
    (title name s).HasName (.stmt k) ↔ s ≠ "" := by
  simp [HasName, title, isSaid, h, hasNames]

/-- A name is loaded again unless it is empty. -/
theorem encoded_title (h : nameField? k = some name) (s : String) :
    Encoded k (title name s) (name, .required) := by
  obtain ⟨hname, hkept, hspeaker⟩ := nameField?_spec h
  by_cases hs : s = ""
  · refine ⟨⟨rfl, fun v hv => ?_, fun _ hsaid => ?_, fun _ _ => ⟨rfl, hspeaker⟩⟩,
      saves_title ⟨hname, hkept⟩⟩
    · rw [title, if_pos hs] at hv
      cases hv
    · exact absurd hs ((hasName_title h).mp hsaid)
  · refine ⟨⟨rfl, fun v hv => ?_, fun hv => ?_, fun hv => ?_⟩,
      saves_title ⟨hname, hkept⟩⟩
    · rw [title, if_neg hs] at hv
      obtain rfl := Option.some.inj hv
      show Restores (loadedField k name (.text s)) _ (.text s)
      rw [loadedField_plain fun hmem => hname (by simp_all [structured])]
      exact restores_ok _ ((hasName_title h).mpr hs)
    · rw [title, if_neg hs] at hv
      cases hv
    · rw [title, if_neg hs] at hv
      cases hv

theorem holds_name (h : nameField? k = some name) (d : Draft) :
    Holds k (name, trimmedText d) (name, .required) :=
  ⟨_, encoded_title h _⟩

end

-- ====================================================== without a name

theorem hasNames_optional {α : Type} {f : α → Draft}
    (hf : ∀ a, (f a).hasNames = true) (o : Option α) :
    (optional f o).hasNames = true := by
  cases o with
  | none => rfl
  | some a => exact hf a

theorem hasNames_optTexts (o : Option (List String)) :
    (optTexts o).hasNames = true := by
  refine hasNames_optional (fun ss => ?_) o
  rw [hasNames]
  induction ss with
  | nil => rfl
  | cons s ss ih =>
      rw [List.map_cons, haveNames, ih]
      rfl

/-- In a simple statement there is nothing but its own name. -/
theorem hasNames_ofSimple (s : Simple) :
    ∀ p ∈ (ofSimple s).2, p.2.hasNames = true := by
  have htext : ∀ o, (optText o).hasNames = true := hasNames_optional fun _ => rfl
  have hflag : ∀ o, (optFlag o).hasNames = true := hasNames_optional fun _ => rfl
  have hnumber : ∀ o, (optNumber o).hasNames = true :=
    hasNames_optional fun _ => rfl
  have hint : ∀ o, (optional int o).hasNames = true :=
    hasNames_optional fun _ => rfl
  cases s <;> simp [ofSimple, hasNames, fieldsHaveNames, isSaid, htext, hflag,
    hnumber, hint, hasNames_optTexts, ofDisplayOptions, ofAudioOptions]

/-- A simple statement that has no name is saved and loaded as it is. -/
theorem holds_simple {s : Simple} (hs : s.Savable)
    (hname : nameField? (ofSimple s).1 = none) :
    List.Forall₂ (Holds (ofSimple s).1) (ofSimple s).2
      (RecordKind.ownFields (ofSimple s).1) := by
  have hkept := kept_simple hs
  have hnames : ∀ c ∈ simple s, c.held.hasNames = true := by
    intro c hc
    refine hasNames_ofSimple s (c.name, c.held) ?_
    rw [← fields_simple]
    exact List.mem_map.mpr ⟨c, hc, rfl⟩
  rw [← fields_simple]
  generalize simple s = cs at hkept hnames
  generalize RecordKind.ownFields (ofSimple s).1 = fs at hkept
  induction hkept with
  | nil => exact .nil
  | @cons c f cs fs hc _ ih =>
      obtain ⟨hhere, hmore⟩ := List.forall_mem_cons.mp hnames
      refine .cons ⟨c.saved, ?_⟩ (ih hmore)
      have hencoded := encoded_of_loads (by rw [hname]; simp) hhere hc.saves
        hc.loads
      rwa [hc.named] at hencoded

-- ================================================================= nested

section

variable {k : StmtKind} {name : String} {ds : List Draft} {vs : List Json}

/-- A field that holds records is loaded again unless a name in them is
empty. -/
theorem encoded_nested (hname : nameField? k ≠ some name)
    (hsaves : (nested name ds vs).Saves)
    (hloads : Restores (loadedField k name (.list vs)) (haveNames ds = true)
      (.list ds)) : Encoded k (nested name ds vs) (name, .emptyList) := by
  refine ⟨⟨rfl, fun v hv => ?_, fun hv => ?_, fun hv => ?_⟩, hsaves⟩
  · obtain rfl := Option.some.inj hv
    refine hloads.of_iff ?_
    rw [HasName, nested, isSaid_of_ne hname, hasNames]
    simp
  · cases hv
  · cases hv

theorem holds_body (h : CodedAll ds vs) :
    Holds .label ("body", .list ds) ("body", .emptyList) := by
  have hfield : nameField? .label ≠ some "body" := by decide
  refine ⟨_, encoded_nested hfield (saves_body h.saved) ?_⟩
  rw [loadedField_body]
  exact h.restores.map Draft.list

theorem holds_choices (h : CodedChoices ds vs) :
    Holds .menu ("choices", .list ds) ("choices", .emptyList) := by
  have hfield : nameField? .menu ≠ some "choices" := by decide
  refine ⟨_, encoded_nested hfield (saves_choices h.saved) ?_⟩
  rw [loadedField_choices]
  exact h.restores.map Draft.list

theorem holds_branches (h : CodedBranches ds vs) :
    Holds .conditional ("branches", .list ds) ("branches", .emptyList) := by
  have hfield : nameField? .conditional ≠ some "branches" := by decide
  refine ⟨_, encoded_nested hfield (saves_branches h.saved) ?_⟩
  rw [loadedField_branches]
  exact h.restores.map Draft.list

end

end Draft

end NovelScript
