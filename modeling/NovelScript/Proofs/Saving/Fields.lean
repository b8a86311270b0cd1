/-
The fields of a record beside the members of the object it is saved as. A `Cell`
is one field with what it holds and the value that is saved for it, if any. The
file says what one cell has to bring along for the record to be saved as its
members, and for these members to be loaded as the record again; both are then
inductions over the row of cells.

# Why cells

Saving goes through the fields of a record and leaves out what says nothing;
loading goes through the fields of a kind and looks up a member for each, by
another spelling of its name. The two do not follow one another, so neither can
be the recursion for both. A row of cells is what both have in common: from it
the fields are read off (`fields`), and the members (`members`).

# What a cell brings along

* `Saves`: the field is saved as the member of the cell, or left out where there
  is none.
* `Loads`: what is saved is loaded as what is held, and where nothing is saved
  the field begins with what is held.

That the members are found again needs one thing of the row as a whole: no two
cells have one name, in either spelling.
-/
import Mathlib.Data.List.Forall2
import Mathlib.Data.List.Nodup
import NovelScript.Draft.Loaded
import NovelScript.Draft.Saved

namespace NovelScript.Draft

open Text (camelCase)

-- ======================================================== values and drafts

theorem ofJsonItems_eq_map (vs : List Json) :
    ofJsonItems vs = vs.map ofJson := by
  induction vs with
  | nil => rfl
  | cons v vs ih => rw [ofJsonItems, ih, List.map_cons]

theorem ofJsonMembers_append (as bs : List (String × Json)) :
    ofJsonMembers (as ++ bs) = ofJsonMembers as ++ ofJsonMembers bs := by
  induction as with
  | nil => rfl
  | cons a as ih =>
      obtain ⟨n, v⟩ := a
      rw [List.cons_append, ofJsonMembers, ih, ofJsonMembers, List.cons_append]

mutual

/-- A value that was taken over can be written as JSON. -/
theorem toJson_ofJson : ∀ v : Json, (ofJson v).toJson = .ok v
  | .null | .bool _ | .number _ | .text _ => rfl
  | .list items => by
      rw [ofJson, toJson, toJsonItems_ofJsonItems items]
      rfl
  | .object members => by
      rw [ofJson, toJson, toJsonMembers_ofJsonMembers members]
      rfl

theorem toJsonItems_ofJsonItems :
    ∀ vs : List Json, toJsonItems (ofJsonItems vs) = .ok vs
  | [] => rfl
  | v :: more => by
      rw [ofJsonItems, toJsonItems, toJson_ofJson v,
        toJsonItems_ofJsonItems more]
      rfl

theorem toJsonMembers_ofJsonMembers :
    ∀ ms : List (String × Json), toJsonMembers (ofJsonMembers ms) = .ok ms
  | [] => rfl
  | (n, v) :: more => by
      rw [ofJsonMembers, toJsonMembers, toJson_ofJson v,
        toJsonMembers_ofJsonMembers more]
      rfl

end

theorem exists_related {α β : Type} {R : α → β → Prop} {as : List α}
    {bs : List β} (h : List.Forall₂ R as bs) {a : α} (ha : a ∈ as) :
    ∃ b ∈ bs, R a b := by
  induction h with
  | nil => cases ha
  | cons hhere _ ih =>
      rcases List.mem_cons.mp ha with rfl | ha
      · exact ⟨_, List.mem_cons_self, hhere⟩
      · obtain ⟨b, hb, hab⟩ := ih ha
        exact ⟨b, List.mem_cons_of_mem _ hb, hab⟩

-- =================================================================== cells

/-- A field of a record with what it holds and what is saved for it, if anything
is. -/
structure Cell where
  /-- The name of the field. -/
  name : String
  /-- What it holds. -/
  held : Draft
  /-- What is saved, if anything. -/
  saved : Option Json

namespace Cell

/-- The members that a cell becomes: one or none. -/
def member (c : Cell) : List (String × Json) :=
  c.saved.toList.map fun v => (camelCase c.name, v)

/-- The members that a row of cells becomes. -/
def members (cs : List Cell) : List (String × Json) := cs.flatMap member

/-- The fields of a row of cells. -/
def fields (cs : List Cell) : List (String × Draft) :=
  cs.map fun c => (c.name, c.held)

/-- The fields of the cells for which something is saved. -/
def present (cs : List Cell) : List (String × Draft) :=
  fields (cs.filter (·.saved.isSome))

theorem members_cons (c : Cell) (cs : List Cell) :
    members (c :: cs) = member c ++ members cs := List.flatMap_cons

theorem mem_member {c : Cell} {m : String × Json} :
    m ∈ member c ↔ ∃ v, c.saved = some v ∧ m = (camelCase c.name, v) := by
  simp [member, eq_comm]

theorem exists_cell_of_mem_members {cs : List Cell} {m : String × Json}
    (h : m ∈ members cs) :
    ∃ c ∈ cs, ∃ v, c.saved = some v ∧ m = (camelCase c.name, v) := by
  obtain ⟨c, hc, hm⟩ := List.mem_flatMap.mp h
  exact ⟨c, hc, mem_member.mp hm⟩

-- ================================================================= look-ups

theorem member?_of_forall_ne {name : String} {ms : List (String × Json)}
    (h : ∀ m ∈ ms, m.1 ≠ name) : Json.member? name ms = none := by
  induction ms with
  | nil => rfl
  | cons m ms ih =>
      obtain ⟨hm, hms⟩ := List.forall_mem_cons.mp h
      obtain ⟨n, v⟩ := m
      rw [Json.member?, if_neg hm, ih hms]

theorem mem_of_member? {name : String} {ms : List (String × Json)} {v : Json}
    (h : Json.member? name ms = some v) : (name, v) ∈ ms := by
  induction ms with
  | nil => cases h
  | cons m ms ih =>
      obtain ⟨n, w⟩ := m
      rw [Json.member?] at h
      by_cases hn : n = name
      · rw [if_pos hn, Option.some.injEq] at h
        rw [hn, h]
        exact List.mem_cons_self
      · rw [if_neg hn] at h
        exact List.mem_cons_of_mem _ (ih h)

/-- A member of an object, looked up by the name of its cell. -/
theorem member?_members {cs : List Cell}
    (hnames : (cs.map fun c => camelCase c.name).Nodup) {c : Cell}
    (hc : c ∈ cs) : Json.member? (camelCase c.name) (members cs) = c.saved := by
  induction cs with
  | nil => cases hc
  | cons d cs ih =>
      obtain ⟨hd, hrest⟩ := List.nodup_cons.mp hnames
      have hapart : ∀ c ∈ cs, camelCase d.name ≠ camelCase c.name :=
        fun c hc heq => hd (List.mem_map.mpr ⟨c, hc, heq.symm⟩)
      have hothers : ∀ m ∈ members cs, m.1 ≠ camelCase d.name := by
        intro m hm
        obtain ⟨c, hc, v, -, rfl⟩ := exists_cell_of_mem_members hm
        exact (hapart c hc).symm
      rw [members_cons]
      rcases List.mem_cons.mp hc with rfl | hc
      · cases hv : c.saved with
        | none => simpa [member, hv] using member?_of_forall_ne hothers
        | some v => simp [member, hv, Json.member?]
      · cases hv : d.saved with
        | none => simpa [member, hv] using ih hrest hc
        | some v =>
            simpa [member, hv, Json.member?, hapart c hc] using ih hrest hc

theorem field?_fields {cs : List Cell} (hnames : (cs.map name).Nodup)
    {c : Cell} (hc : c ∈ cs) : field? c.name (fields cs) = some c.held := by
  induction cs with
  | nil => cases hc
  | cons d cs ih =>
      obtain ⟨hd, hrest⟩ := List.nodup_cons.mp hnames
      rw [fields, List.map_cons, field?]
      rcases List.mem_cons.mp hc with rfl | hc
      · rw [if_pos rfl]
      · rw [if_neg fun heq => hd (List.mem_map.mpr ⟨c, hc, heq.symm⟩)]
        exact ih hrest hc

theorem field?_fields_of_forall_ne {cs : List Cell} {name : String}
    (h : ∀ c ∈ cs, c.name ≠ name) : field? name (fields cs) = none := by
  induction cs with
  | nil => rfl
  | cons c cs ih =>
      obtain ⟨hc, hcs⟩ := List.forall_mem_cons.mp h
      rw [fields, List.map_cons, field?, if_neg hc]
      exact ih hcs

/-- A field, looked up among those for which something is saved. -/
theorem field?_present {cs : List Cell} (hnames : (cs.map name).Nodup)
    {c : Cell} (hc : c ∈ cs) :
    field? c.name (present cs) = if c.saved.isSome then some c.held else none := by
  by_cases hv : c.saved.isSome = true
  · rw [if_pos hv]
    exact field?_fields (hnames.sublist (List.filter_sublist.map _))
      (List.mem_filter.mpr ⟨hc, hv⟩)
  · rw [if_neg hv]
    refine field?_fields_of_forall_ne fun d hd heq => hv ?_
    obtain ⟨hmem, hsome⟩ := List.mem_filter.mp hd
    rw [← List.inj_on_of_nodup_map hnames hmem hc heq]
    exact hsome

-- ================================================================== saving

/-- A cell is saved as its member, and as nothing if it has none. -/
def Saves (c : Cell) : Prop :=
  ∀ more, savedFields ((c.name, c.held) :: more)
    = (savedFields more).map (ofJsonMembers c.member ++ ·)

theorem savedFields_fields {cs : List Cell} (h : ∀ c ∈ cs, c.Saves)
    {rest : List (String × Draft)} (hrest : savedFields rest = .ok []) :
    savedFields (fields cs ++ rest) = .ok (ofJsonMembers (members cs)) := by
  induction cs with
  | nil => exact hrest
  | cons c cs ih =>
      obtain ⟨hc, hcs⟩ := List.forall_mem_cons.mp h
      rw [fields, List.map_cons, List.cons_append, hc, ← fields, ih hcs,
        members_cons, ofJsonMembers_append]
      rfl

-- ================================================================= loading

/-- What a cell of a statement needs to be loaded again. Among the fields that
have to be given, only a speaker may be missing. -/
structure Loads (k : StmtKind) (start : FieldStart) (c : Cell) : Prop where
  /-- What was saved is loaded as what is held. -/
  present : ∀ v, c.saved = some v → loadedField k c.name v = .ok c.held
  /-- If nothing was saved, what is held is what the field begins with. -/
  absent : c.saved = none → c.held = starting start
    ∧ (start = .required ↔ k = .dialogue ∧ c.name = "speaker")

/-- A row of cells for the fields of a kind of statements. -/
def Row (k : StmtKind) (cs : List Cell) (fs : List (String × FieldStart)) :
    Prop :=
  List.Forall₂ (fun c f => c.name = f.1 ∧ Loads k f.2 c) cs fs

theorem Row.names {k : StmtKind} {cs : List Cell}
    {fs : List (String × FieldStart)} (h : Row k cs fs) :
    cs.map name = fs.map (·.1) := by
  induction h with
  | nil => rfl
  | cons hc _ ih => rw [List.map_cons, List.map_cons, hc.1, ih]

theorem Row.memberNames {k : StmtKind} {cs : List Cell}
    {fs : List (String × FieldStart)} (h : Row k cs fs) :
    (cs.map fun c => camelCase c.name) = fs.map fun f => camelCase f.1 := by
  have := congrArg (List.map camelCase) h.names
  rwa [List.map_map, List.map_map] at this

theorem loadedFields_row {k : StmtKind} {ms : List (String × Json)}
    {cs : List Cell} {fs : List (String × FieldStart)} (h : Row k cs fs)
    (hlook : ∀ c ∈ cs, Json.member? (camelCase c.name) ms = c.saved) :
    loadedFields k ms fs = .ok (present cs) := by
  induction h with
  | nil => rw [loadedFields]; rfl
  | @cons c f cs fs hc _ ih =>
      obtain ⟨hhere, hmore⟩ := List.forall_mem_cons.mp hlook
      obtain ⟨name, start⟩ := f
      obtain ⟨rfl, hloads⟩ := hc
      rw [loadedFields, ih hmore]
      cases hv : c.saved with
      | none =>
          rw [hv] at hhere
          split
          · simp [present, fields, hv]
          · next w hw => rw [hhere] at hw; cases hw
      | some v =>
          rw [hv] at hhere
          split
          · next hw => rw [hhere] at hw; cases hw
          · next w hw =>
            rw [hhere, Option.some.injEq] at hw
            subst hw
            rw [hloads.present v hv]
            simp only [present, fields, List.filter_cons, hv, Option.isSome_some,
              if_true, List.map_cons]
            rfl

/-- What was loaded, with nobody as the speaker of a line that has none. -/
def withSpeaker (k : StmtKind) (given : List (String × Draft)) :
    List (String × Draft) :=
  if k = .dialogue && (field? "speaker" given).isNone
    then ("speaker", .null) :: given else given

/-- A field among what was loaded: it is there if something was saved for it,
or if it is a speaker. -/
theorem field?_withSpeaker {cs : List Cell} (hnames : (cs.map name).Nodup)
    {c : Cell} (hc : c ∈ cs) (k : StmtKind) :
    field? c.name (withSpeaker k (present cs))
      = if c.saved.isSome then some c.held
        else if k = .dialogue ∧ c.name = "speaker" then some .null
        else none := by
  have hfield := field?_present hnames hc
  unfold withSpeaker
  by_cases hspeaker : c.name = "speaker"
  · rw [← hspeaker, hfield]
    by_cases hk : k = .dialogue <;> cases hv : c.saved <;>
      simp [hk, field?, hfield, hv]
  · have hother : ∀ given, field? c.name (("speaker", .null) :: given)
        = field? c.name given := fun given => if_neg (Ne.symm hspeaker)
    split <;> simp [hother, hfield, hspeaker]

/-- Nothing is lacking in what was loaded, and it makes the record. -/
theorem Row.make {k : StmtKind} {cs : List Cell}
    (h : Row k cs (RecordKind.stmt k).fields) (hnames : (cs.map name).Nodup) :
    lacking (.stmt k) (withSpeaker k (present cs)) = [] ∧
      Draft.make (.stmt k) (withSpeaker k (present cs))
        = .record (.stmt k) (fields cs) := by
  have hlook := fun c hc => @field?_withSpeaker cs hnames c hc k
  generalize withSpeaker k (present cs) = given at hlook ⊢
  rw [lacking, Draft.make]
  generalize (RecordKind.stmt k).fields = fs at h ⊢
  clear hnames
  induction h with
  | nil => exact ⟨rfl, rfl⟩
  | @cons c f cs fs hc _ ih =>
      obtain ⟨hhere, hmore⟩ := List.forall_mem_cons.mp hlook
      obtain ⟨name, start⟩ := f
      obtain ⟨rfl, hloads⟩ := hc
      obtain ⟨hlacking, hmake⟩ := ih hmore
      simp only [Draft.record.injEq, true_and] at hmake
      -- A field that was not saved is absent where it is not required, and has
      -- its default there.
      have hgiven : (start = .required → (field? c.name given).isSome = true)
          ∧ (field? c.name given).getD (starting start) = c.held := by
        rw [hhere]
        cases hv : c.saved with
        | some v => exact ⟨fun _ => rfl, rfl⟩
        | none =>
            obtain ⟨hheld, hrequired⟩ := hloads.absent hv
            by_cases hstart : start = .required
            · rw [if_neg (by simp), if_pos (hrequired.mp hstart), hheld, hstart]
              exact ⟨fun _ => rfl, rfl⟩
            · rw [if_neg (by simp), if_neg (hstart ∘ hrequired.mpr), hheld]
              exact ⟨fun h => absurd h hstart, rfl⟩
      refine ⟨?_, ?_⟩
      · rw [List.filter_cons_of_neg, hlacking]
        simpa [Option.isSome_iff_ne_none] using hgiven.1
      · simp only [List.map_cons, hgiven.2, hmake]
        rfl

end Cell

end NovelScript.Draft
