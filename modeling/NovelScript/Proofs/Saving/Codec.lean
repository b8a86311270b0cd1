/-
Statements without a name. Saving leaves out an empty name like any other empty
text, and a statement that lacks its name cannot be loaded. Everything else
comes back as it was: what is left out is what the field begins with. So what is
saved of a tree of statements is loaded as the same tree if all names in it are
there (`hasNames`), and is malformed if one is not.

# Both ends in one

A statement about a tree has to know of each part whether a name is missing
there, since loading stops at the first one. So what is carried through the
recursion is an alternative: `Restores r well a` says of a result that it is `a`
if all is well, and that something is malformed if not. Results of two parts in
a row are well if both are (`Restores.bind`), whichever of them is looked at
first.

* `Restored` is this for a cell of a statement, with the names in what the cell
  holds for the condition,
* `Coded` for a statement, and `CodedAll`, `CodedChoices` and `CodedBranches`
  for several in a row.

Here nothing is asked of the rules of the format. Loading looks at a statement
field by field and knows nothing of them; they are checked elsewhere.
-/
import NovelScript.Proofs.Draft.Phrases
import NovelScript.Proofs.Saving.Nested

namespace NovelScript.Draft

open Cell
open Text (camelCase)

-- ================================================================== names

/-- The field in which a statement of a kind says what it is about. It is left
out when it is empty, but the statement cannot be without it. -/
def nameField? : StmtKind → Option String
  | .label | .define | .default => some "name"
  | .jump | .call => some "target"
  | .transition => some "transition"
  | .assign => some "variable"
  | _ => none

/-- Whether a field is something else than an empty name. -/
def isSaid (k : RecordKind) (name : String) (d : Draft) : Bool :=
  match k, d with
  | .stmt k, .text s => nameField? k ≠ some name || s ≠ ""
  | _, _ => true

theorem isSaid_of_ne {k : StmtKind} {name : String}
    (hname : nameField? k ≠ some name) (d : Draft) :
    isSaid (.stmt k) name d = true := by
  unfold isSaid
  split
  · next hk =>
    obtain rfl := RecordKind.stmt.inj hk
    simp [hname]
  · rfl

mutual

/-- Whether no name in a tree is empty: neither in the statement itself nor in
what is nested in it. -/
def hasNames : Draft → Bool
  | .list items => haveNames items
  | .record k fields => fieldsHaveNames k fields
  | _ => true

/-- Whether no name in trees is empty. -/
def haveNames : List Draft → Bool
  | [] => true
  | d :: more => d.hasNames && haveNames more

/-- Whether no name in the fields of a record is empty. -/
def fieldsHaveNames (k : RecordKind) : List (String × Draft) → Bool
  | [] => true
  | (name, d) :: more => isSaid k name d && d.hasNames && fieldsHaveNames k more

end

mutual

/-- In a value that was taken over there are no names. -/
theorem hasNames_ofJson : ∀ v : Json, (ofJson v).hasNames = true
  | .null | .bool _ | .number _ | .text _ | .object _ => rfl
  | .list items => haveNames_ofJsonItems items

theorem haveNames_ofJsonItems :
    ∀ vs : List Json, haveNames (ofJsonItems vs) = true
  | [] => rfl
  | v :: more => by
      rw [ofJsonItems, haveNames, hasNames_ofJson v, haveNames_ofJsonItems more]
      rfl

end

/-- A cell in which no name is empty. -/
def Cell.HasName (k : RecordKind) (c : Cell) : Prop :=
  isSaid k c.name c.held = true ∧ c.held.hasNames = true

theorem fieldsHaveNames_fields {k : RecordKind} {cs : List Cell} :
    fieldsHaveNames k (fields cs) = true ↔ ∀ c ∈ cs, c.HasName k := by
  induction cs with
  | nil => simp [fields, fieldsHaveNames]
  | cons c cs ih =>
      rw [fields, List.map_cons, fieldsHaveNames, Bool.and_eq_true,
        Bool.and_eq_true, ← fields, ih, List.forall_mem_cons, HasName]

-- ================================================================ results

/-- A result that is a value if all is well, and else tells what is
malformed. -/
structure Restores {α : Type} (r : Except Fault α) (well : Prop) (a : α) :
    Prop where
  /-- If all is well it is the value. -/
  value : well → r = .ok a
  /-- If not, something is malformed. -/
  malformed : ¬well → ∃ e, r = .error (.malformed e)

section

variable {α β : Type} {r : Except Fault α} {well well' : Prop} {a : α}

theorem restores_ok (a : α) (h : well) : Restores (.ok a) well a :=
  ⟨fun _ => rfl, fun hnot => absurd h hnot⟩

/-- Results in a row are well if both are. The second one is only looked at if
the first one is a value. -/
theorem Restores.bind (h : Restores r well a) {k : α → Except Fault β} {b : β}
    (hk : Restores (k a) well' b) : Restores (r >>= k) (well ∧ well') b := by
  constructor
  case value =>
    rintro ⟨hwell, hwell'⟩
    rw [h.value hwell]
    exact hk.value hwell'
  case malformed =>
    intro hnot
    by_cases hwell : well
    · rw [h.value hwell]
      exact hk.malformed fun hwell' => hnot ⟨hwell, hwell'⟩
    · obtain ⟨e, he⟩ := h.malformed hwell
      exact ⟨e, by rw [he]; rfl⟩

theorem Restores.map (h : Restores r well a) (f : α → β) :
    Restores (r.map f) well (f a) := by
  constructor
  case value =>
    intro hwell
    rw [h.value hwell]
    rfl
  case malformed =>
    intro hnot
    obtain ⟨e, he⟩ := h.malformed hnot
    exact ⟨e, by rw [he]; rfl⟩

theorem Restores.bind_pure (h : Restores r well a) (f : α → β) :
    Restores (do let a ← r; pure (f a)) well (f a) := by
  have hmap : (do let a ← r; pure (f a)) = r.map f := by cases r <;> rfl
  rw [hmap]
  exact h.map f

theorem Restores.of_iff (h : Restores r well a) (hiff : well ↔ well') :
    Restores r well' a :=
  ⟨fun hwell => h.value (hiff.mpr hwell),
    fun hnot => h.malformed fun hwell => hnot (hiff.mp hwell)⟩

end

-- ================================================================== cells

/-- A cell of a statement that is loaded as what it holds, unless a name in it
is empty. -/
structure Cell.Restored (k : StmtKind) (c : Cell) (f : String × FieldStart) :
    Prop where
  /-- It is the field. -/
  named : c.name = f.1
  /-- What was saved is loaded as what is held. -/
  given : ∀ v, c.saved = some v →
    Restores (loadedField k c.name v) (c.HasName (.stmt k)) c.held
  /-- If nothing was saved, what is held is what the field begins with. -/
  absent : c.saved = none → c.HasName (.stmt k) → c.held = starting f.2
    ∧ (f.2 = .required ↔ k = .dialogue ∧ c.name = "speaker")
  /-- If the name itself was empty, the field is one that has to be given. -/
  lacking : c.saved = none → ¬c.HasName (.stmt k) → f.2 = .required
    ∧ ¬(k = .dialogue ∧ c.name = "speaker")

/-- A cell of a statement that is saved as well. -/
structure Cell.Encoded (k : StmtKind) (c : Cell) (f : String × FieldStart) :
    Prop extends Cell.Restored k c f where
  /-- It is saved as its member. -/
  saves : c.Saves

section

variable {k : StmtKind} {c : Cell} {f : String × FieldStart} {cs own : List Cell}
  {fs : List (String × FieldStart)} {ms : List (String × Json)}

theorem Cell.Restored.loads (h : Restored k c f) (hname : c.HasName (.stmt k)) :
    Loads k f.2 c where
  present v hv := (h.given v hv).value hname
  absent hv := h.absent hv hname

/-- A cell in which no name can be empty. -/
theorem Cell.Loads.restored (h : Loads k f.2 c) (hnamed : c.name = f.1)
    (hname : c.HasName (.stmt k)) : Restored k c f where
  named := hnamed
  given v hv := ⟨fun _ => h.present v hv, fun hnot => absurd hname hnot⟩
  absent hv _ := h.absent hv
  lacking _ hnot := absurd hname hnot

theorem restored_names (h : List.Forall₂ (Restored k) cs fs) :
    cs.map name = fs.map (·.1) := by
  induction h with
  | nil => rfl
  | cons hc _ ih => rw [List.map_cons, List.map_cons, hc.named, ih]

/-- Where no name is empty the cells are loaded. -/
theorem row_of_restored (h : List.Forall₂ (Restored k) cs fs)
    (hnames : ∀ c ∈ cs, c.HasName (.stmt k)) : Row k cs fs := by
  induction h with
  | nil => exact .nil
  | cons hc _ ih =>
      obtain ⟨hname, hnames⟩ := List.forall_mem_cons.mp hnames
      exact .cons ⟨hc.named, hc.loads hname⟩ (ih hnames)

/-- Of the cells those are loaded for which something was saved. -/
theorem restores_fields (h : List.Forall₂ (Restored k) cs fs)
    (hlook : ∀ c ∈ cs, Json.member? (camelCase c.name) ms = c.saved) :
    Restores (loadedFields k ms fs)
      (∀ c ∈ cs, c.saved.isSome = true → c.HasName (.stmt k)) (present cs) := by
  -- The induction is on the fields of the kind. A cell that was saved is looked
  -- up and loaded; one that was not is left to the default.
  induction h with
  | nil =>
      rw [loadedFields]
      exact restores_ok [] (by simp)
  | @cons c f cs fs hc _ ih =>
      obtain ⟨hhere, hmore⟩ := List.forall_mem_cons.mp hlook
      obtain ⟨name, start⟩ := f
      obtain rfl : c.name = name := hc.named
      rw [loadedFields]
      cases hv : c.saved with
      | none =>
          rw [hv] at hhere
          have hpresent : present (c :: cs) = present cs := by
            simp [present, hv]
          rw [hpresent]
          split
          · refine (ih hmore).of_iff ?_
            rw [List.forall_mem_cons, hv]
            simp
          · next w hw => rw [hhere] at hw; cases hw
      | some v =>
          rw [hv] at hhere
          have hpresent : present (c :: cs) = (c.name, c.held) :: present cs := by
            simp [present, fields, hv]
          rw [hpresent]
          split
          · next hw => rw [hhere] at hw; cases hw
          · next w hw =>
            obtain rfl := Option.some.inj (hhere.symm.trans hw)
            refine ((hc.given v hv).bind
              ((ih hmore).bind_pure ((c.name, c.held) :: ·))).of_iff ?_
            rw [List.forall_mem_cons, hv]
            simp

/-- A field that has to be given is lacking if nothing was saved for it. -/
theorem lacking_ne_nil (hnames : (cs.map name).Nodup) (hc : c ∈ cs)
    (hf : (c.name, .required) ∈ (RecordKind.stmt k).fields)
    (hnone : c.saved = none) (hspeaker : ¬(k = .dialogue ∧ c.name = "speaker")) :
    lacking (.stmt k) (withSpeaker k (present cs)) ≠ [] := by
  have hmissing : field? c.name (withSpeaker k (present cs)) = none := by
    rw [field?_withSpeaker hnames hc, hnone, if_neg (by simp), if_neg hspeaker]
  refine List.ne_nil_of_mem (a := c.name)
    (List.mem_map.mpr ⟨_, List.mem_filter.mpr ⟨hf, ?_⟩, rfl⟩)
  simp [hmissing]

end

-- ============================================================= statements

/-- A statement that is saved as a value, and loaded from it again unless a
name in it is empty. -/
structure Coded (d : Draft) (v : Json) : Prop where
  /-- It is saved as the value. -/
  saved : Draft.saved d = .ok (ofJson v)
  /-- It is loaded again. -/
  restores : Restores (Draft.loaded v) (d.hasNames = true) d

section

variable {k : StmtKind} {id : String} {o : Option Json} {own : List Cell}

/-- The cells of a statement are restored if its own are. -/
theorem restored_whole
    (h : List.Forall₂ (Encoded k) own (RecordKind.ownFields k)) :
    List.Forall₂ (Restored k) (whole id o own) (RecordKind.stmt k).fields := by
  have hfield : ∀ name ∈ ["id", "line"], nameField? k ≠ some name := by
    cases k <;> decide
  have hidentity : (identity id).HasName (.stmt k) :=
    ⟨isSaid_of_ne (hfield "id" (by simp)) _, rfl⟩
  have hplace : (Cell.line o).HasName (.stmt k) := by
    refine ⟨isSaid_of_ne (hfield "line" (by simp)) _, ?_⟩
    cases o with
    | none => rfl
    | some v => exact hasNames_ofJson v
  refine .cons ((loads_identity id).restored rfl hidentity) ?_
  refine List.rel_append (h.imp fun _ _ hc => hc.toRestored) ?_
  exact .cons ((loads_line o).restored rfl hplace) .nil

/-- A statement of which all cells are coded is coded as their members. -/
theorem coded_whole (h : List.Forall₂ (Encoded k) own (RecordKind.ownFields k))
    (hid : id ≠ "") (hline : ∀ v ∈ o, (ofJson v).isNull = false) :
    Coded (.record (.stmt k) (fields (whole id o own)))
      (.object (objectMembers k (whole id o own))) := by
  have hrestored := @restored_whole k id o own h
  have hordered : Ordered k (whole id o own) := restored_names hrestored
  have hfields := restores_fields hrestored fun c hc => hordered.member? hc
  refine ⟨saved_whole hordered (fun c hc => ?_) hline, ?_⟩
  · obtain ⟨f, -, hcoded⟩ := exists_related h hc
    exact hcoded.saves
  rw [hasNames, fieldsHaveNames_fields]
  constructor
  case value =>
    intro hnames
    refine loaded_whole (row_of_restored (h.imp fun _ _ hc => hc.toRestored)
      fun c hc => hnames c ?_) hid
    simp [whole, hc]
  case malformed =>
    intro hnot
    rw [loaded_object hordered hid]
    by_cases hgiven : ∀ c ∈ whole id o own,
        c.saved.isSome = true → c.HasName (.stmt k)
    · -- All that was saved is loaded, so it is the name itself that is lacking.
      rw [hfields.value hgiven, bind_ok]
      simp only [not_forall] at hnot
      obtain ⟨c, hc, hname⟩ := hnot
      obtain ⟨f, hf, hcell⟩ := exists_related hrestored hc
      have hnone : c.saved = none := by
        rw [← Option.not_isSome_iff_eq_none]
        exact fun hsome => hname (hgiven c hc hsome)
      obtain ⟨hrequired, hspeaker⟩ := hcell.lacking hnone hname
      rw [← Prod.eta f, ← hcell.named, hrequired] at hf
      obtain ⟨n, ns, hlacking⟩ := List.exists_cons_of_ne_nil
        (lacking_ne_nil hordered.nodup_names hc hf hnone hspeaker)
      rw [hlacking]
      exact ⟨_, rfl⟩
    · obtain ⟨e, he⟩ := hfields.malformed hgiven
      exact ⟨e, by rw [he]; rfl⟩

end

-- ================================================================== blocks

/-- Drafts that are saved as values, item by item, and loaded from them again
unless a name in them is empty. -/
structure CodedAs (save : List Draft → Except Fault (List Draft))
    (load : List Json → Except Fault (List Draft)) (ds : List Draft)
    (vs : List Json) : Prop where
  /-- They are saved as the values. -/
  saved : save ds = .ok (ofJsonItems vs)
  /-- They are loaded again. -/
  restores : Restores (load vs) (haveNames ds = true) ds

/-- Statements. -/
abbrev CodedAll : List Draft → List Json → Prop := CodedAs savedAll loadedAll

/-- Choices. -/
abbrev CodedChoices : List Draft → List Json → Prop :=
  CodedAs (savedSections ["text", "condition", "line"]) loadedChoiceItems

/-- Branches. -/
abbrev CodedBranches : List Draft → List Json → Prop :=
  CodedAs (savedSections ["condition", "line"]) loadedBranchItems

/-- A draft that can be put before others that are saved and loaded. -/
def Leads (R : List Draft → List Json → Prop) (d : Draft) : Prop :=
  ∃ v, ∀ ds vs, R ds vs → R (d :: ds) (v :: vs)

theorem exists_values {R : List Draft → List Json → Prop} (hnil : R [] [])
    {ds : List Draft} (h : ∀ d ∈ ds, Leads R d) : ∃ vs, R ds vs := by
  induction ds with
  | nil => exact ⟨[], hnil⟩
  | cons d ds ih =>
      obtain ⟨⟨v, hv⟩, hmore⟩ := List.forall_mem_cons.mp h
      obtain ⟨vs, hvs⟩ := ih hmore
      exact ⟨v :: vs, hv ds vs hvs⟩

theorem codedAll_nil : CodedAll [] [] where
  saved := rfl
  restores := by
    rw [loadedAll]
    exact restores_ok [] rfl

theorem codedChoices_nil : CodedChoices [] [] where
  saved := rfl
  restores := by
    rw [loadedChoiceItems]
    exact restores_ok [] rfl

theorem codedBranches_nil : CodedBranches [] [] where
  saved := rfl
  restores := by
    rw [loadedBranchItems]
    exact restores_ok [] rfl

section

variable {said : String} {condition : Option String} {place : Option Json}
  {body ds : List Draft} {vs ws : List Json}

theorem Coded.leads {d : Draft} {v : Json} (h : Coded d v) :
    Leads CodedAll d := by
  refine ⟨v, fun ds vs hs => ⟨?_, ?_⟩⟩
  · rw [savedAll, h.saved, hs.saved]
    rfl
  · rw [loadedAll]
    refine (h.restores.bind (hs.restores.bind_pure (d :: ·))).of_iff ?_
    rw [haveNames, Bool.and_eq_true]

theorem hasNames_branchRecord :
    (branchRecord condition place body).hasNames = haveNames body := by
  have hplace : (optional ofJson place).hasNames = true := by
    cases place with
    | none => rfl
    | some v => exact hasNames_ofJson v
  have hcondition : (optText condition).hasNames = true := by
    cases condition <;> rfl
  simp [branchRecord, hasNames, fieldsHaveNames, isSaid, hplace, hcondition]

theorem hasNames_choiceRecord :
    (choiceRecord said condition place body).hasNames = haveNames body := by
  have hplace : (optional ofJson place).hasNames = true := by
    cases place with
    | none => rfl
    | some v => exact hasNames_ofJson v
  have hcondition : (optText condition).hasNames = true := by
    cases condition <;> rfl
  simp [choiceRecord, hasNames, fieldsHaveNames, isSaid, hplace, hcondition]

theorem CodedAs.leads_branch (h : CodedAll body vs) (hcondition : Told condition)
    (hplace : ∀ v ∈ place, (ofJson v).isAbsent = false) :
    Leads CodedBranches (branchRecord condition place body) := by
  refine ⟨_, fun ds ws hs =>
    ⟨savedSections_branch hcondition hplace h.saved hs.saved, ?_⟩⟩
  rw [loadedBranchItems_branch]
  refine (h.restores.bind (hs.restores.bind_pure _)).of_iff ?_
  rw [haveNames, hasNames_branchRecord, Bool.and_eq_true]

theorem CodedAs.leads_choice (h : CodedAll body vs) (hcondition : Told condition)
    (hplace : ∀ v ∈ place, (ofJson v).isAbsent = false) :
    Leads CodedChoices (choiceRecord said condition place body) := by
  refine ⟨_, fun ds ws hs =>
    ⟨savedSections_choice hcondition hplace h.saved hs.saved, ?_⟩⟩
  rw [loadedChoiceItems_choice]
  refine (h.restores.bind (hs.restores.bind_pure _)).of_iff ?_
  rw [haveNames, hasNames_choiceRecord, Bool.and_eq_true]

end

end NovelScript.Draft
