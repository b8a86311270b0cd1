/-
The rules for statements of one kind beside the fields of this kind. The rules
speak of members by the names under which the fields are saved, so a row of
cells that keep them one by one makes an object that keeps them all.

# From all kinds to one

The format has its rules for statements in one list, in which each applies to
some kinds. Of an object that tells its kind those that name other kinds say
nothing, and those that name this one are its own (`ownRule`, `eq_ownRule`). A
kind's own rules are of two sorts: which members there have to be, and what each
of them has to keep (`needed`, `parts`). So they come down to one question for
each cell, and `Kept` is the answer to it.

# Tables

That the rules of a kind speak of fields of the kind only (`field_of_ownRule`),
and have one rule for each, is a fact about two tables. It is decided by going
through the kinds, once, here; later proofs ask for a field by its name.
-/
import NovelScript.Draft.OfScript
import NovelScript.Proofs.Saving.Record
import NovelScript.Proofs.Saving.Rules
import NovelScript.Proofs.Text.Run

namespace NovelScript.Schema

open Text (camelCase)

/-- The rules that hold for statements of a kind alone, looked up by the word of
the kind. -/
def ownRule (k : StmtKind) : Schema :=
  ((kindRules.find? fun r => r.1.contains k.word).map (·.2)).getD []

/-- The members that a schema asks for. -/
def needed : Schema → List String
  | [] => []
  | .required names :: more => names ++ needed more
  | _ :: more => needed more

/-- The rules that a schema has for members. -/
def parts : Schema → List (String × Schema)
  | [] => []
  | .properties ps :: more => ps ++ parts more
  | _ :: more => parts more

/-- The rules of a kind ask for members and say how these have to be. -/
theorem passes_ownRule {k : StmtKind} {v : Json}
    (hneeded : Passes (.required (needed (ownRule k))) v)
    (hparts : Passes (.properties (parts (ownRule k))) v) :
    Accepts (ownRule k) v := by
  have hshape : ownRule k = [.required (needed (ownRule k)),
        .properties (parts (ownRule k))]
      ∨ ownRule k = [.properties (parts (ownRule k))] := by
    cases k <;> first | exact .inl rfl | exact .inr rfl
  rcases hshape with h | h
  · rw [h]
    exact accepts_pair hneeded hparts
  · rw [h]
    exact accepts_single hparts

/-- The rules that name a kind are its own. -/
theorem eq_ownRule {k : StmtKind} {r : List String × Schema}
    (hr : r ∈ kindRules) (hk : k.word ∈ r.1) : r.2 = ownRule k := by
  have honly : (kindRules.filter fun r => r.1.contains k.word).map (·.2)
      = [ownRule k] := by
    cases k <;> rfl
  have hmem : r.2 ∈ (kindRules.filter fun r => r.1.contains k.word).map (·.2) :=
    List.mem_map.mpr ⟨r, List.mem_filter.mpr ⟨hr, by simpa using hk⟩, rfl⟩
  rw [honly] at hmem
  exact List.mem_singleton.mp hmem

/-- The rule that a row of rules has for a member. -/
def ruleFor (ps : List (String × Schema)) (name : String) : Schema :=
  (ps.lookup name).getD []

theorem ruleFor_of_mem {ps : List (String × Schema)}
    (hnames : (ps.map (·.1)).Nodup) {p : String × Schema} (hp : p ∈ ps) :
    ruleFor ps p.1 = p.2 := by
  unfold ruleFor
  induction ps with
  | nil => cases hp
  | cons q ps ih =>
      obtain ⟨hq, hrest⟩ := List.nodup_cons.mp hnames
      rcases List.mem_cons.mp hp with rfl | hp
      · rw [List.lookup_cons_self]
        rfl
      · have hne : (p.1 == q.1) = false :=
          beq_eq_false_iff_ne.mpr fun heq =>
            hq (List.mem_map.mpr ⟨p, hp, heq⟩)
        rw [List.lookup_cons, hne]
        exact ih hrest hp

/-- The rule for a member of statements of a kind. -/
def partRule (k : StmtKind) : String → Schema := ruleFor (parts (ownRule k))

theorem partRule_of_mem {k : StmtKind} {p : String × Schema}
    (hp : p ∈ parts (ownRule k)) : partRule k p.1 = p.2 :=
  ruleFor_of_mem (by cases k <;> decide) hp

/-- All members that the rules of a kind speak of are fields of the kind. -/
theorem field_of_ownRule {k : StmtKind} {name : String}
    (h : name ∈ needed (ownRule k) ++ (parts (ownRule k)).map (·.1)) :
    name ∈ (RecordKind.ownFields k).map fun f => camelCase f.1 := by
  have hall : ∀ n ∈ needed (ownRule k) ++ (parts (ownRule k)).map (·.1),
      n ∈ (RecordKind.ownFields k).map fun f => camelCase f.1 := by
    cases k <;> decide
  exact hall name h

/-- An object that tells one kind is of the kinds among which this one is. -/
theorem mem_of_isOfKind {ks : List String} {w : String}
    {ms : List (String × Json)} (hw : Json.member? "type" ms = some (.text w))
    {path : List PathPart}
    (h : violations definitions path (isOfKind ks) (.object ms) = []) :
    w ∈ ks := by
  unfold isOfKind at h
  split at h
  · next k =>
    have hpart := violations_part_eq_nil h List.mem_cons_self
      List.mem_cons_self hw
    have hplain := plainMessages_eq_nil hpart List.mem_cons_self rfl
    by_cases hk : k = w
    · exact List.mem_singleton.mpr hk.symm
    · rw [plainMessages, if_neg hk] at hplain
      cases hplain
  · have hpart := violations_part_eq_nil h List.mem_cons_self
      List.mem_cons_self hw
    have hplain := plainMessages_eq_nil hpart List.mem_cons_self rfl
    by_contra hnot
    simp [plainMessages, hnot] at hplain

end NovelScript.Schema

-- ============================================================ statements

namespace NovelScript.Draft

open Schema (Accepts ownRule partRule needed parts)
open Text (camelCase)

/-- What a cell needs for the rules of a kind: what is saved keeps the rule for
it, and what is asked for is there. -/
structure Cell.Keeps (k : StmtKind) (c : Cell) : Prop where
  /-- What is saved keeps the rule for it. -/
  accepted : ∀ v, c.saved = some v → Accepts (partRule k (camelCase c.name)) v
  /-- What is asked for is saved. -/
  given : camelCase c.name ∈ needed (ownRule k) → c.saved.isSome = true

/-- A cell of a statement that is saved, loaded again and in keeping with the
rules. -/
structure Cell.Kept (k : StmtKind) (c : Cell) (f : String × FieldStart) :
    Prop where
  /-- It is the field. -/
  named : c.name = f.1
  /-- It is saved as its member. -/
  saves : c.Saves
  /-- It is loaded again. -/
  loads : c.Loads k f.2
  /-- It keeps the rules. -/
  keeps : c.Keeps k

/-- A statement that is saved as a value, loaded from it again, and in keeping
with the rules. -/
structure Stored (d : Draft) (v : Json) : Prop where
  /-- It is saved as the value. -/
  saved : Draft.saved d = .ok (ofJson v)
  /-- It is loaded again. -/
  loaded : Draft.loaded v = .ok d
  /-- The value keeps the rules. -/
  accepted : Accepts Schema.node v

namespace Cell

/-- The number of a line as a value. -/
def lineNumber (n : Option Nat) : Option Json :=
  n.map fun (i : Nat) => Json.int i

/-- All cells of a statement with a tag. -/
def tagged (tag : Tag) (own : List Cell) : List Cell :=
  whole tag.id (lineNumber tag.line) own

/-- The members of a statement with a tag. -/
def stmtMembers (k : StmtKind) (tag : Tag) (own : List Cell) :
    List (String × Json) :=
  objectMembers k (tagged tag own)

end Cell

section

variable {k : StmtKind} {tag : Tag} {own : List Cell}

open Cell

theorem optional_lineNumber (n : Option Nat) :
    optional ofJson (lineNumber n) = optLine n := by
  cases n <;> rfl

theorem ofTagged_fields :
    ofTagged k tag (fields own) = .record (.stmt k) (fields (tagged tag own)) := by
  rw [ofTagged, tagged, fields_whole, optional_lineNumber]

theorem row_own {fs : List (String × FieldStart)}
    (h : List.Forall₂ (Kept k) own fs) : Row k own fs :=
  h.imp fun _ _ hc => ⟨hc.named, hc.loads⟩

theorem ordered_tagged
    (h : List.Forall₂ (Kept k) own (RecordKind.ownFields k)) :
    Ordered k (tagged tag own) :=
  ordered_whole (row_own h).names

theorem saved_tagged (h : List.Forall₂ (Kept k) own (RecordKind.ownFields k)) :
    saved (ofTagged k tag (fields own))
      = .ok (ofJson (.object (stmtMembers k tag own))) := by
  rw [ofTagged_fields]
  refine saved_whole (ordered_tagged h) (fun c hc =>
    (exists_related h hc).elim fun _ hkept => hkept.2.saves) fun v hv => ?_
  obtain ⟨i, -, rfl⟩ := Option.map_eq_some_iff.mp hv
  rfl

theorem loaded_tagged (h : List.Forall₂ (Kept k) own (RecordKind.ownFields k))
    (hid : tag.id ≠ "") :
    loaded (.object (stmtMembers k tag own)) = .ok (ofTagged k tag (fields own)) := by
  rw [ofTagged_fields]
  exact loaded_whole (row_own h) hid

/-- What a kind asks for is there, and what is there keeps its rules. -/
theorem accepts_ownRule
    (h : List.Forall₂ (Kept k) own (RecordKind.ownFields k)) :
    Accepts (ownRule k) (.object (stmtMembers k tag own)) := by
  have hordered := @ordered_tagged k tag own h
  have hkeeps : ∀ c ∈ own, c.Keeps k := fun c hc =>
    (exists_related h hc).elim fun _ hkept => hkept.2.keeps
  have hcell : ∀ name ∈ needed (ownRule k) ++ (parts (ownRule k)).map (·.1),
      ∃ c ∈ own, camelCase c.name = name
        ∧ Json.member? name (stmtMembers k tag own) = c.saved := by
    intro name hname
    have hmem := Schema.field_of_ownRule hname
    rw [← (row_own h).memberNames] at hmem
    obtain ⟨c, hc, rfl⟩ := List.mem_map.mp hmem
    exact ⟨c, hc, rfl, hordered.member? (by simp [tagged, whole, hc])⟩
  apply Schema.passes_ownRule
  · refine Schema.passes_required fun name hname => ?_
    obtain ⟨c, hc, rfl, hlook⟩ := hcell name (List.mem_append_left _ hname)
    rw [hlook]
    exact (hkeeps c hc).given hname
  · refine Schema.passes_properties fun p hp v hv => ?_
    obtain ⟨c, hc, hname, hlook⟩ := hcell p.1
      (List.mem_append_right _ (List.mem_map_of_mem hp))
    rw [hlook] at hv
    have := (hkeeps c hc).accepted v hv
    rwa [hname, Schema.partRule_of_mem hp] at this

theorem accepts_node (h : List.Forall₂ (Kept k) own (RecordKind.ownFields k))
    (hid : tag.id ≠ "") (hline : ∀ n ∈ tag.line, 1 ≤ n) :
    Accepts Schema.node (.object (stmtMembers k tag own)) := by
  have hordered := @ordered_tagged k tag own h
  have htype : Json.member? "type" (stmtMembers k tag own)
      = some (.text k.word) := rfl
  have hidentity : Json.member? "id" (stmtMembers k tag own)
      = some (.text tag.id) := member?_id hordered
  have hnumber : Json.member? "line" (stmtMembers k tag own)
      = lineNumber tag.line := member?_line hordered
  have hword : k.word ∈ StmtKind.all.map StmtKind.word := by
    cases k <;> decide
  -- The rule of a node has four parts: that it is an object, which members it
  -- must have, what these may be, and the rule of its own kind.
  refine Schema.accepts_of_passes (List.forall_mem_cons.mpr
    ⟨Schema.passes_type rfl, List.forall_mem_cons.mpr ⟨?_,
      List.forall_mem_cons.mpr ⟨?_, ?_⟩⟩⟩)
  · refine Schema.passes_required fun name hname => ?_
    rcases List.mem_cons.mp hname with rfl | hname
    · rw [htype]
      rfl
    · obtain rfl := List.mem_singleton.mp hname
      rw [hidentity]
      rfl
  · refine Schema.passes_properties ?_
    simp only [List.forall_mem_cons, htype, hidentity, hnumber]
    refine ⟨?_, ?_, ?_, by simp⟩
    · rintro v ⟨⟩
      exact Schema.accepts_single (Schema.passes_oneOf hword)
    · rintro v ⟨⟩
      exact Schema.accepts_name hid
    · intro v hv
      obtain ⟨n, hn, rfl⟩ := Option.map_eq_some_iff.mp hv
      exact Schema.accepts_line (hline n hn)
  · refine List.forall_mem_singleton.mpr (Schema.passes_all fun s hs => ?_)
    obtain ⟨r, hr, rfl⟩ := List.mem_map.mp hs
    refine Schema.accepts_single (Schema.passes_implies fun path hkind =>
      Schema.accepts_single (Schema.passes_also ?_))
    rw [Schema.eq_ownRule hr (Schema.mem_of_isOfKind htype hkind)]
    exact accepts_ownRule h

/-- A statement of which all cells are kept is stored as their members. -/
theorem stored_tagged (h : List.Forall₂ (Kept k) own (RecordKind.ownFields k))
    (hid : tag.id ≠ "") (hline : ∀ n ∈ tag.line, 1 ≤ n) :
    Stored (ofTagged k tag (fields own)) (.object (stmtMembers k tag own)) :=
  ⟨saved_tagged h, loaded_tagged h hid, accepts_node h hid hline⟩

end

end NovelScript.Draft
