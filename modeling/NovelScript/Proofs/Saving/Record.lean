/-
Statements as rows of cells. A statement is saved as an object with its kind,
its identity, the members of its own cells and its line; loading looks its
members up again by the names of the cells. What is said here of a row of cells
holds whatever stands in them, as long as they are the fields of the kind
(`Ordered`).

The identity and the line are cells like the others (`whole`), at the two ends
of the row. The kind is none: it stands in front of the members, no field holds
it, and it tells which fields to look for. From `Ordered` it follows that no two
members of the object have one name, by a look at the table of the fields; so
the member of a cell is found wherever it stands (`Cell.Ordered.member?`), and
the order of the members plays no part in loading.
-/
import NovelScript.Proofs.Saving.Fields

namespace NovelScript.Draft

open Text (camelCase)

namespace Cell

/-- The identity of a statement. -/
def identity (id : String) : Cell := ⟨"id", .text id, some (.text id)⟩

/-- The line of a statement. -/
def line (o : Option Json) : Cell := ⟨"line", optional ofJson o, o⟩

/-- All cells of a statement. -/
def whole (id : String) (o : Option Json) (own : List Cell) : List Cell :=
  identity id :: own ++ [line o]

/-- The members of a statement. -/
def objectMembers (k : StmtKind) (cs : List Cell) : List (String × Json) :=
  ("type", .text k.word) :: members cs

/-- The cells of a statement stand for the fields of its kind. -/
def Ordered (k : StmtKind) (cs : List Cell) : Prop :=
  cs.map name = (RecordKind.stmt k).fields.map (·.1)

end Cell

open Cell

section

variable {k : StmtKind} {id : String} {o : Option Json} {own cs : List Cell}

theorem fields_whole : fields (whole id o own)
    = ("id", .text id) :: fields own ++ [("line", optional ofJson o)] := by
  simp [whole, fields, identity, Cell.line]

theorem members_whole : members (whole id o own)
    = member (identity id) ++ members own ++ member (Cell.line o) := by
  simp [whole, members]

theorem ordered_whole (h : own.map name = (RecordKind.ownFields k).map (·.1)) :
    Ordered k (whole id o own) := by
  simp [Ordered, whole, RecordKind.fields, h, identity, Cell.line]

theorem loadedField_plain {name : String}
    (h : name ∉ ["body", "choices", "branches", "options"]) (v : Json) :
    loadedField k name v = .ok (ofJson v) := by
  simp only [List.mem_cons, List.not_mem_nil, or_false, not_or] at h
  rw [loadedField]
  all_goals simp [h]

theorem loads_identity (id : String) : Loads k .required (identity id) where
  present v hv := by
    obtain rfl := Option.some.inj hv
    exact @loadedField_plain k "id" (by decide) _
  absent h := by cases h

theorem loads_line (o : Option Json) : Loads k .absent (Cell.line o) where
  present v hv := by
    obtain rfl : o = some v := hv
    exact @loadedField_plain k "line" (by decide) _
  absent h := by
    obtain rfl : o = none := h
    simp [optional, starting, Cell.line]

/-- The cells of a statement are a row for its fields. -/
theorem row_whole (h : Row k own (RecordKind.ownFields k)) :
    Row k (whole id o own) (RecordKind.stmt k).fields := by
  refine .cons ⟨rfl, loads_identity id⟩ ?_
  refine List.rel_append h ?_
  exact .cons ⟨rfl, loads_line o⟩ .nil

-- ================================================================ look-ups

theorem Cell.Ordered.nodup_names (h : Ordered k cs) : (cs.map name).Nodup := by
  rw [h]
  cases k <;> decide

theorem Cell.Ordered.nodup_members (h : Ordered k cs) :
    (cs.map fun c => camelCase c.name).Nodup := by
  have hmap : (cs.map fun c => camelCase c.name)
      = ((RecordKind.stmt k).fields.map (·.1)).map camelCase := by
    rw [← h, List.map_map]
    rfl
  rw [hmap]
  cases k <;> decide

/-- A member of a statement, looked up by the name of its cell. -/
theorem Cell.Ordered.member? (h : Ordered k cs) {c : Cell} (hc : c ∈ cs) :
    Json.member? (camelCase c.name) (objectMembers k cs) = c.saved := by
  have hkind : "type" ≠ camelCase c.name := by
    have hall : ∀ f ∈ (RecordKind.stmt k).fields, "type" ≠ camelCase f.1 := by
      cases k <;> decide
    have hname : c.name ∈ (RecordKind.stmt k).fields.map (·.1) := by
      rw [← h]
      exact List.mem_map_of_mem hc
    obtain ⟨f, hf, hfc⟩ := List.mem_map.mp hname
    rw [← hfc]
    exact hall f hf
  rw [objectMembers, Json.member?, if_neg hkind,
    member?_members h.nodup_members hc]

theorem member?_id (h : Ordered k (whole id o own)) :
    Json.member? "id" (objectMembers k (whole id o own)) = some (.text id) := by
  have hname : camelCase "id" = "id" := by decide
  have hfound := h.member? (c := identity id) List.mem_cons_self
  rwa [identity, hname] at hfound

theorem member?_line (h : Ordered k (whole id o own)) :
    Json.member? "line" (objectMembers k (whole id o own)) = o := by
  have hname : camelCase "line" = "line" := by decide
  have hfound := h.member? (c := Cell.line o) (by simp [whole])
  rwa [Cell.line, hname] at hfound

theorem kindOf_object : kindOf (objectMembers k cs) = .ok k := by
  have hword : StmtKind.ofWord? k.word = some k := by cases k <;> decide
  simp [kindOf, objectMembers, Json.member?, hword]

-- ======================================================= saving and loading

/-- A statement is saved as its members. -/
theorem saved_whole (h : Ordered k (whole id o own))
    (hsaves : ∀ c ∈ own, c.Saves) (hline : ∀ v ∈ o, (ofJson v).isNull = false) :
    saved (.record (.stmt k) (fields (whole id o own)))
      = .ok (ofJson (.object (objectMembers k (whole id o own)))) := by
  have hfield := fun c hc => field?_fields h.nodup_names (c := c) hc
  rw [fields_whole] at hfield ⊢
  have hid : field? "id" _ = some (.text id) :=
    hfield (identity id) List.mem_cons_self
  have hplace : field? "line" _ = some (optional ofJson o) :=
    hfield (Cell.line o) (by simp [whole])
  have hown : savedFields (("id", .text id) :: fields own
      ++ [("line", optional ofJson o)]) = .ok (ofJsonMembers (members own)) := by
    rw [List.cons_append, savedFields, savedFields_fields hsaves]
    · rfl
    · rfl
  have hend : (if (optional ofJson o).isNull then []
      else [("line", optional ofJson o)])
        = ofJsonMembers (member (Cell.line o)) := by
    have hname : camelCase "line" = "line" := by decide
    cases o with
    | none => rfl
    | some v => simp [member, Cell.line, hname, ofJsonMembers, optional, hline v rfl]
  have hstart : ofJsonMembers (member (identity id)) = [("id", .text id)] := by
    have hname : camelCase "id" = "id" := by decide
    simp [member, identity, hname, ofJsonMembers, ofJson]
  rw [saved, get, hid, get, hplace, hown]
  show Except.ok (Draft.object (("type", .text k.word) :: ("id", .text id)
    :: ofJsonMembers (members own) ++ _)) = _
  rw [hend, ofJson, objectMembers, ofJsonMembers, members_whole,
    ofJsonMembers_append, ofJsonMembers_append, hstart]
  rfl

/-- What is loaded of a statement that has an identity: its fields, unless one
that it cannot do without is lacking. -/
theorem loaded_object (h : Ordered k (whole id o own)) (hid : id ≠ "") :
    loaded (.object (objectMembers k (whole id o own))) = (do
      let given ← loadedFields k (objectMembers k (whole id o own))
        (RecordKind.stmt k).fields
      match lacking (.stmt k) (withSpeaker k given) with
      | [] => pure (make (.stmt k) (withSpeaker k given))
      | names => .error (.malformed (.missing k names))) := by
  have htruthy : isTruthyJson (.text id) = true := by
    simpa [isTruthyJson, ofJson, isTruthy] using hid
  rw [loaded, kindOf_object]
  simp only [Bind.bind, Except.bind, member?_id h, htruthy, Bool.not_true,
    Bool.false_eq_true, if_false]
  rfl

/-- A statement of which every cell is loaded is loaded. -/
theorem loaded_whole (h : Row k own (RecordKind.ownFields k)) (hid : id ≠ "") :
    loaded (.object (objectMembers k (whole id o own)))
      = .ok (.record (.stmt k) (fields (whole id o own))) := by
  have hordered : Ordered k (whole id o own) := ordered_whole h.names
  have hrow := @row_whole k id o own h
  obtain ⟨hlacking, hmake⟩ := hrow.make hordered.nodup_names
  rw [loaded_object hordered hid,
    loadedFields_row hrow fun c hc => hordered.member? hc]
  show (match lacking (.stmt k) (withSpeaker k (present (whole id o own))) with
    | [] => pure (make (.stmt k) (withSpeaker k (present (whole id o own))))
    | names => .error (.malformed (.missing k names)) : Except Fault Draft) = _
  rw [hlacking, hmake]
  rfl

end

end NovelScript.Draft
