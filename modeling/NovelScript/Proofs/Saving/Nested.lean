/-
Statements that can be saved, with all that is nested in them. A block is saved
and loaded statement by statement, and a choice or a branch is an object of its
own, with its body behind its other fields. The induction over a statement gives
the value as which it is stored.

# What can be saved

`Stmt.Savable` says of a statement that saving loses nothing of it: its identity
is one, its line counts from one on, none of the texts that may be absent is
empty, and so for all that is nested in it. Of a conditional it is asked besides
that it has a branch, and that the first one has a condition, which the rules
need.

# Stored

`Stored d v` says three things of a draft and a value: that the draft is saved
as the value, that it is loaded from it again, and that the value keeps the
rules. `StoredAs` is the same for drafts in a row, with the functions that save
and load them and the rule for each as parameters, so that statements, choices
and branches share what is shown about rows.
-/
import NovelScript.Proofs.Saving.Simple

namespace NovelScript

-- ======================================================= what can be saved

/-- An identity that is one, and a line that counts from one on. -/
structure Tag.Savable (t : Tag) : Prop where
  /-- The identity is not empty. -/
  id : t.id ≠ ""
  /-- The line counts from one on. -/
  line : ∀ n ∈ t.line, 1 ≤ n

/-- The head of a menu in which nothing is empty. -/
structure MenuHead.Savable (h : MenuHead) : Prop where
  /-- The question. -/
  prompt : Told h.prompt
  /-- Who asks it. -/
  promptSpeaker : Told h.promptSpeaker
  /-- The set of choices already taken. -/
  setVar : Told h.setVar
  /-- The screen. -/
  screen : Told h.screen
  /-- The name. -/
  name : Told h.name

mutual

/-- A statement that saving loses nothing of. -/
def Stmt.Savable : Stmt → Prop
  | .simple tag s => tag.Savable ∧ s.Savable
  | .label tag name parameters body =>
    tag.Savable ∧ name ≠ "" ∧ Listed parameters ∧ Stmt.SavableAll body
  | .menu tag head choices =>
    tag.Savable ∧ head.Savable ∧ Choice.SavableAll choices
  | .conditional tag branches =>
    tag.Savable ∧ (∃ condition line body more,
        branches = .mk (some condition) line body :: more)
      ∧ Branch.SavableAll branches

/-- Statements that saving loses nothing of. -/
def Stmt.SavableAll : List Stmt → Prop
  | [] => True
  | s :: more => s.Savable ∧ Stmt.SavableAll more

/-- Choices that saving loses nothing of. -/
def Choice.SavableAll : List Choice → Prop
  | [] => True
  | .mk _ condition line body :: more =>
    Told condition ∧ (∀ n ∈ line, 1 ≤ n) ∧ Stmt.SavableAll body
      ∧ Choice.SavableAll more

/-- Branches that saving loses nothing of. -/
def Branch.SavableAll : List Branch → Prop
  | [] => True
  | .mk condition line body :: more =>
    Told condition ∧ (∀ n ∈ line, 1 ≤ n) ∧ Stmt.SavableAll body
      ∧ Branch.SavableAll more

end

namespace Draft

open Cell
open Schema (Accepts needed ownRule partRule ruleFor)
open Text (camelCase)

-- ===================================================================== blocks

/-- Drafts that are saved as values, item by item, loaded from them again, and
in keeping with a rule. -/
structure StoredAs (save : List Draft → Except Fault (List Draft))
    (load : List Json → Except Fault (List Draft)) (rule : Schema)
    (ds : List Draft) (vs : List Json) : Prop where
  /-- They are saved as the values. -/
  saved : save ds = .ok (ofJsonItems vs)
  /-- They are loaded again. -/
  loaded : load vs = .ok ds
  /-- The values keep the rule. -/
  accepted : ∀ v ∈ vs, Accepts rule v

/-- Statements. -/
abbrev StoredAll : List Draft → List Json → Prop :=
  StoredAs savedAll loadedAll Schema.node

/-- Choices. -/
abbrev StoredChoices : List Draft → List Json → Prop :=
  StoredAs (savedSections ["text", "condition", "line"]) loadedChoiceItems
    Schema.choice

/-- Branches. -/
abbrev StoredBranches : List Draft → List Json → Prop :=
  StoredAs (savedSections ["condition", "line"]) loadedBranchItems Schema.branch

theorem storedAll_nil : StoredAll [] [] where
  saved := rfl
  loaded := by rw [loadedAll]
  accepted := by simp

theorem Stored.cons {d : Draft} {ds : List Draft} {v : Json} {vs : List Json}
    (h : Stored d v) (hs : StoredAll ds vs) : StoredAll (d :: ds) (v :: vs) where
  saved := by
    rw [savedAll, h.saved, hs.saved]
    rfl
  loaded := by
    rw [loadedAll, h.loaded, hs.loaded]
    rfl
  accepted := List.forall_mem_cons.mpr ⟨h.accepted, hs.accepted⟩

-- ==================================================================== sections

section

variable {said : String} {condition : Option String} {place : Option Json}
  {body ds : List Draft} {vs ws : List Json} {fields : List (String × Draft)}

/-- The members for the condition and the line of a choice or branch. -/
def placeMembers (condition : Option String) (place : Option Json) :
    List (String × Json) :=
  condition.toList.map (fun c => ("condition", .text c))
    ++ place.toList.map fun v => ("line", v)

/-- What is saved for a branch. -/
def branchMembers (condition : Option String) (place : Option Json)
    (vs : List Json) : List (String × Json) :=
  placeMembers condition place ++ [("body", .list vs)]

/-- What is saved for a choice. -/
def choiceMembers (said : String) (condition : Option String)
    (place : Option Json) (vs : List Json) : List (String × Json) :=
  ("text", .text said) :: branchMembers condition place vs

/-- A branch. -/
def branchRecord (condition : Option String) (place : Option Json)
    (body : List Draft) : Draft :=
  .record .branch [("condition", optText condition), ("body", .list body),
    ("line", optional ofJson place)]

/-- A choice. -/
def choiceRecord (said : String) (condition : Option String)
    (place : Option Json) (body : List Draft) : Draft :=
  .record .choice [("text", .text said), ("body", .list body),
    ("condition", optText condition), ("line", optional ofJson place)]

theorem savedParts_place (hcondition : field? "condition" fields
      = some (optText condition))
    (hline : field? "line" fields = some (optional ofJson place))
    (h : Told condition) (hplace : ∀ v ∈ place, (ofJson v).isAbsent = false) :
    savedParts fields ["condition", "line"]
      = .ok (ofJsonMembers (placeMembers condition place)) := by
  have hlast : savedParts fields ["line"]
      = .ok (ofJsonMembers (place.toList.map fun v => ("line", v))) := by
    simp only [savedParts, hline]
    cases place with
    | none => rfl
    | some v => simp [optional, hplace v rfl, ofJsonMembers, Bind.bind,
        Except.bind, pure, Except.pure]
  rw [savedParts, hcondition, hlast]
  cases condition with
  | none => rfl
  | some c =>
      have hc : c ≠ "" := fun hc => h (congrArg some hc)
      simp [optText, optional, isAbsent, hc, placeMembers, ofJsonMembers, ofJson,
        Bind.bind, Except.bind, pure, Except.pure]

theorem member?_condition : Json.member? "condition"
    (branchMembers condition place vs) = condition.map .text := by
  cases condition <;> cases place <;>
    simp [branchMembers, placeMembers, Json.member?]

theorem member?_place : Json.member? "line" (branchMembers condition place vs)
    = place := by
  cases condition <;> cases place <;>
    simp [branchMembers, placeMembers, Json.member?]

theorem member?_body : Json.member? "body" (branchMembers condition place vs)
    = some (.list vs) := by
  cases condition <;> cases place <;>
    simp [branchMembers, placeMembers, Json.member?]

theorem ofJson_condition :
    ofJson ((condition.map Json.text).getD .null) = optText condition := by
  cases condition <;> rfl

theorem ofJson_place : ofJson (place.getD .null) = optional ofJson place := by
  cases place <;> rfl

theorem member?_choiceMembers {name : String} (hname : "text" ≠ name) :
    Json.member? name (choiceMembers said condition place vs)
      = Json.member? name (branchMembers condition place vs) := if_neg hname

-- ------------------------------------------------------- saved and loaded

theorem loadedBody_list {ms : List (String × Json)}
    (hbody : Json.member? "body" ms = some (.list vs)) :
    loadedBody ms = loadedAll vs := by
  rw [loadedBody]
  split
  · next hnone => rw [hbody] at hnone; cases hnone
  · next v hv =>
    obtain rfl := Option.some.inj (hbody.symm.trans hv)
    rw [loadedBlock]

/-- A branch is saved before the others. -/
theorem savedSections_branch (hcondition : Told condition)
    (hplace : ∀ v ∈ place, (ofJson v).isAbsent = false)
    (hbody : savedAll body = .ok (ofJsonItems vs))
    (hmore : savedSections ["condition", "line"] ds = .ok (ofJsonItems ws)) :
    savedSections ["condition", "line"] (branchRecord condition place body :: ds)
      = .ok (ofJsonItems (.object (branchMembers condition place vs) :: ws)) := by
  have hown : savedBody [("condition", optText condition),
      ("body", .list body), ("line", optional ofJson place)]
        = .ok (ofJsonItems vs) := by
    simp [savedBody, hbody]
  rw [branchRecord, savedSections, savedParts_place rfl rfl hcondition hplace,
    hown, hmore, ofJsonItems, ofJson, branchMembers, ofJsonMembers_append]
  rfl

/-- A choice is saved before the others. -/
theorem savedSections_choice (hcondition : Told condition)
    (hplace : ∀ v ∈ place, (ofJson v).isAbsent = false)
    (hbody : savedAll body = .ok (ofJsonItems vs))
    (hmore : savedSections ["text", "condition", "line"] ds
      = .ok (ofJsonItems ws)) :
    savedSections ["text", "condition", "line"]
        (choiceRecord said condition place body :: ds)
      = .ok (ofJsonItems
          (.object (choiceMembers said condition place vs) :: ws)) := by
  have hown : savedBody [("text", .text said), ("body", .list body),
      ("condition", optText condition), ("line", optional ofJson place)]
        = .ok (ofJsonItems vs) := by
    simp [savedBody, hbody]
  have hparts : savedParts [("text", .text said), ("body", .list body),
      ("condition", optText condition), ("line", optional ofJson place)]
        ["text", "condition", "line"]
        = .ok (("text", .text said)
            :: ofJsonMembers (placeMembers condition place)) := by
    have htext : field? "text" [("text", .text said), ("body", .list body),
        ("condition", optText condition), ("line", optional ofJson place)]
          = some (.text said) := rfl
    rw [savedParts, htext, savedParts_place rfl rfl hcondition hplace]
    simp [Bind.bind, Except.bind, pure, Except.pure]
  rw [choiceRecord, savedSections, hparts, hown, hmore, ofJsonItems, ofJson,
    choiceMembers, ofJsonMembers, branchMembers, ofJsonMembers_append]
  rfl

/-- A branch is loaded before the others. -/
theorem loadedBranchItems_branch :
    loadedBranchItems (.object (branchMembers condition place vs) :: ws) = (do
      let body ← loadedAll vs
      let ds ← loadedBranchItems ws
      pure (branchRecord condition place body :: ds)) := by
  rw [loadedBranchItems, loadedBody_list member?_body, member?_condition,
    member?_place, ofJson_condition, ofJson_place]
  rfl

/-- A choice is loaded before the others. -/
theorem loadedChoiceItems_choice :
    loadedChoiceItems (.object (choiceMembers said condition place vs) :: ws)
      = (do
        let body ← loadedAll vs
        let ds ← loadedChoiceItems ws
        pure (choiceRecord said condition place body :: ds)) := by
  have htext : Json.member? "text" (choiceMembers said condition place vs)
      = some (.text said) := rfl
  have hbody : Json.member? "body" (choiceMembers said condition place vs)
      = some (.list vs) :=
    (member?_choiceMembers (by decide)).trans member?_body
  rw [loadedChoiceItems]
  simp only [htext]
  rw [loadedBody_list hbody,
    @member?_choiceMembers said condition place vs "condition" (by decide),
    @member?_choiceMembers said condition place vs "line" (by decide),
    member?_condition, member?_place, ofJson_condition, ofJson_place]
  rfl

end

section

variable {said : String} {condition : Option String} {line : Option Nat}
  {body ds : List Draft} {vs ws : List Json}

theorem isAbsent_lineNumber :
    ∀ v ∈ lineNumber line, (ofJson v).isAbsent = false := by
  intro v hv
  obtain ⟨n, -, rfl⟩ := Option.map_eq_some_iff.mp hv
  rfl

/-- The rules for the members that choices and branches have in common. -/
theorem accepts_parts (hline : ∀ n ∈ line, 1 ≤ n) (h : StoredAll body vs) :
    ∀ p ∈ [("condition", Schema.text), ("body", Schema.block),
        ("line", Schema.line)], ∀ v,
      Json.member? p.1 (branchMembers condition (lineNumber line) vs) = some v →
        Accepts p.2 v := by
  simp only [List.forall_mem_cons, member?_condition, member?_place, member?_body]
  refine ⟨fun v hv => ?_, fun v hv => ?_, fun v hv => ?_, by simp⟩
  · obtain ⟨c, -, rfl⟩ := Option.map_eq_some_iff.mp hv
    exact Schema.accepts_text c
  · obtain rfl := Option.some.inj hv
    exact Schema.accepts_block h.accepted
  · obtain ⟨n, hn, rfl⟩ := Option.map_eq_some_iff.mp hv
    exact Schema.accepts_line (hline n hn)

theorem name_of_mem_branchMembers {place : Option Json} :
    ∀ m ∈ branchMembers condition place vs,
      m.1 ∈ ["condition", "body", "line"] := by
  cases condition <;> cases place <;> simp [branchMembers, placeMembers]

theorem accepts_branch (hline : ∀ n ∈ line, 1 ≤ n) (h : StoredAll body vs) :
    Accepts Schema.branch
      (.object (branchMembers condition (lineNumber line) vs)) :=
  Schema.accepts_closedObject (by simp [member?_body]) (accepts_parts hline h)
    name_of_mem_branchMembers

theorem accepts_choice (hline : ∀ n ∈ line, 1 ≤ n) (h : StoredAll body vs) :
    Accepts Schema.choice
      (.object (choiceMembers said condition (lineNumber line) vs)) := by
  refine Schema.accepts_closedObject ?_ ?_ ?_
  · simp [member?_body, choiceMembers, Json.member?]
  · refine List.forall_mem_cons.mpr ⟨fun v hv => ?_, fun p hp v hv => ?_⟩
    · obtain rfl := Option.some.inj hv
      exact Schema.accepts_text said
    · have hne : ∀ q ∈ [("condition", Schema.text), ("body", Schema.block),
          ("line", Schema.line)], "text" ≠ q.1 := by simp
      exact accepts_parts hline h p hp v (member?_choiceMembers (hne p hp) ▸ hv)
  · refine List.forall_mem_cons.mpr ⟨by simp, fun m hm => ?_⟩
    exact List.mem_cons_of_mem _ (name_of_mem_branchMembers m hm)

theorem StoredAs.branch (hcondition : Told condition)
    (hline : ∀ n ∈ line, 1 ≤ n) (h : StoredAll body vs)
    (hmore : StoredBranches ds ws) :
    StoredBranches (branchRecord condition (lineNumber line) body :: ds)
      (.object (branchMembers condition (lineNumber line) vs) :: ws) where
  saved := savedSections_branch hcondition isAbsent_lineNumber h.saved hmore.saved
  loaded := by
    rw [loadedBranchItems_branch, h.loaded, hmore.loaded]
    rfl
  accepted := List.forall_mem_cons.mpr ⟨accepts_branch hline h, hmore.accepted⟩

theorem StoredAs.choice (hcondition : Told condition)
    (hline : ∀ n ∈ line, 1 ≤ n) (h : StoredAll body vs)
    (hmore : StoredChoices ds ws) :
    StoredChoices (choiceRecord said condition (lineNumber line) body :: ds)
      (.object (choiceMembers said condition (lineNumber line) vs) :: ws) where
  saved := savedSections_choice hcondition isAbsent_lineNumber h.saved hmore.saved
  loaded := by
    rw [loadedChoiceItems_choice, h.loaded, hmore.loaded]
    rfl
  accepted := List.forall_mem_cons.mpr ⟨accepts_choice hline h, hmore.accepted⟩

end

theorem ofBranches_cons (condition : Option String) (line : Option Nat)
    (body : List Stmt) (more : List Branch) :
    ofBranches (.mk condition line body :: more)
      = branchRecord condition (lineNumber line) (ofStmts body)
        :: ofBranches more := by
  rw [ofBranches, branchRecord, optional_lineNumber]

theorem ofChoices_cons (said : String) (condition : Option String)
    (line : Option Nat) (body : List Stmt) (more : List Choice) :
    ofChoices (.mk said condition line body :: more)
      = choiceRecord said condition (lineNumber line) (ofStmts body)
        :: ofChoices more := by
  rw [ofChoices, choiceRecord, optional_lineNumber]

-- ================================================================= statements

/-- A field that holds records of its own. -/
def Cell.nested (name : String) (ds : List Draft) (vs : List Json) : Cell :=
  ⟨name, .list ds, some (.list vs)⟩

section

variable {k : StmtKind} {ds : List Draft} {vs : List Json}

theorem saves_nested {name : String} (hname : camelCase name = name)
    (hsaves : ∀ more, savedFields ((name, .list ds) :: more)
      = (savedFields more).map ((name, .list (ofJsonItems vs)) :: ·)) :
    (nested name ds vs).Saves := by
  intro more
  have hmember : ofJsonMembers (nested name ds vs).member
      = [(name, .list (ofJsonItems vs))] := by
    simp [nested, member, hname, ofJsonMembers, ofJson]
  rw [hmember]
  exact hsaves more

theorem saves_body (h : savedAll ds = .ok (ofJsonItems vs)) :
    (nested "body" ds vs).Saves := by
  refine saves_nested (by decide) fun more => ?_
  rw [savedFields, h]
  cases savedFields more <;> rfl

theorem saves_choices (h : savedSections ["text", "condition", "line"] ds
    = .ok (ofJsonItems vs)) : (nested "choices" ds vs).Saves := by
  refine saves_nested (by decide) fun more => ?_
  rw [savedFields, h]
  cases savedFields more <;> rfl

theorem saves_branches (h : savedSections ["condition", "line"] ds
    = .ok (ofJsonItems vs)) : (nested "branches" ds vs).Saves := by
  refine saves_nested (by decide) fun more => ?_
  rw [savedFields, h]
  cases savedFields more <;> rfl

theorem loadedField_body :
    loadedField k "body" (.list vs) = (loadedAll vs).map .list := by
  rw [loadedField, loadedBlock]

theorem loadedField_choices :
    loadedField k "choices" (.list vs) = (loadedChoiceItems vs).map .list := by
  rw [loadedField, loadedChoices]

theorem loadedField_branches :
    loadedField k "branches" (.list vs) = (loadedBranchItems vs).map .list := by
  rw [loadedField, loadedBranches]

/-- A field that holds records is kept if it is saved and loaded so. -/
theorem kept_nested {name : String} {rule : Schema}
    (hname : camelCase name = name) (hsaves : (nested name ds vs).Saves)
    (hloads : loadedField k name (.list vs) = .ok (.list ds))
    (hrule : partRule k name = rule) (haccepted : Accepts rule (.list vs)) :
    Kept k (nested name ds vs) (name, .emptyList) where
  named := rfl
  saves := hsaves
  loads := by
    refine ⟨fun v hv => ?_, fun h => by cases h⟩
    obtain rfl := Option.some.inj hv
    exact hloads
  keeps := by
    refine ⟨fun v hv => ?_, fun _ => rfl⟩
    obtain rfl := Option.some.inj hv
    rw [nested, hname, hrule]
    exact haccepted

theorem kept_body (h : StoredAll ds vs) :
    Kept .label (nested "body" ds vs) ("body", .emptyList) := by
  refine kept_nested (by decide) (saves_body h.saved) ?_ rfl
    (Schema.accepts_block h.accepted)
  rw [loadedField_body, h.loaded]
  rfl

theorem kept_choices (h : StoredChoices ds vs) :
    Kept .menu (nested "choices" ds vs) ("choices", .emptyList) := by
  refine kept_nested (by decide) (saves_choices h.saved) ?_ rfl
    (Schema.accepts_pair (Schema.passes_type rfl) (Schema.passes_items
      fun v hv => h.accepted v (List.mem_of_mem_drop hv)))
  rw [loadedField_choices, h.loaded]
  rfl

/-- The branches of a conditional, of which the first has a condition. -/
theorem kept_branches {condition : String} {place : Option Json}
    {body rest : List Json}
    (h : StoredBranches ds
      (.object (branchMembers (some condition) place body) :: rest)) :
    Kept .conditional (nested "branches" ds
        (.object (branchMembers (some condition) place body) :: rest))
      ("branches", .emptyList) := by
  have hfirst : Accepts [.required ["condition"]]
      (.object (branchMembers (some condition) place body)) := by
    refine Schema.accepts_single (Schema.passes_required fun name hname => ?_)
    obtain rfl := List.mem_singleton.mp hname
    rw [member?_condition]
    rfl
  have hrule : partRule .conditional "branches" = [.type .array, .nonEmpty,
      .firstItems [[.required ["condition"]]], .items 1 Schema.branch] := rfl
  refine kept_nested (by decide) (saves_branches h.saved) ?_ hrule
    (Schema.accepts_of_passes ?_)
  · rw [loadedField_branches, h.loaded]
    rfl
  · simp only [List.forall_mem_cons]
    exact ⟨Schema.passes_type rfl, Schema.passes_nonEmpty_list (by simp),
      Schema.passes_firstItem _ hfirst, Schema.passes_items
        fun v hv => h.accepted v (List.mem_of_mem_drop hv), by simp⟩

theorem exists_stored {k : StmtKind} {tag : Tag} {own : List Cell}
    (htag : tag.Savable)
    (h : List.Forall₂ (Kept k) own (RecordKind.ownFields k)) :
    ∃ v, Stored (ofTagged k tag (fields own)) v :=
  ⟨_, stored_tagged h htag.id htag.line⟩

end

mutual

/-- A statement that can be saved is stored as some value. -/
theorem stored_stmt : ∀ s : Stmt, s.Savable → ∃ v, Stored (ofStmt s) v
  | .simple tag s => by
      rintro ⟨htag, hs⟩
      have := exists_stored htag (kept_simple hs)
      rwa [fields_simple] at this
  | .label tag name parameters body => by
      rintro ⟨htag, hname, hparameters, hbody⟩
      obtain ⟨vs, hvs⟩ := stored_stmts body hbody
      exact exists_stored htag <|
        .cons (kept_name (by decide) rfl hname) <|
        .cons (kept_body hvs) <|
        .cons (kept_texts (by decide) rfl hparameters) .nil
  | .menu tag head choices => by
      rintro ⟨htag, hhead, hchoices⟩
      obtain ⟨vs, hvs⟩ := stored_choices choices hchoices
      exact exists_stored htag <|
        .cons (kept_choices hvs) <|
        .cons (kept_text (by decide) rfl hhead.prompt) <|
        .cons (kept_text (by decide) rfl hhead.promptSpeaker) <|
        .cons (kept_text (by decide) rfl hhead.setVar) <|
        .cons (kept_text (by decide) rfl hhead.screen) <|
        .cons (kept_text (by decide) rfl hhead.name) .nil
  -- A conditional without branches is not savable.
  | .conditional tag [] => by
      rintro ⟨-, ⟨_, _, _, _, hfirst⟩, -⟩
      cases hfirst
  | .conditional tag (.mk condition line body :: more) => by
      rintro ⟨htag, ⟨c, l, b, m, hfirst⟩, hcondition, hline, hbody, hmore⟩
      obtain ⟨hhead, -⟩ := List.cons.inj hfirst
      obtain ⟨rfl, -, -⟩ := Branch.mk.inj hhead
      obtain ⟨vs, hvs⟩ := stored_stmts body hbody
      obtain ⟨ws, hws⟩ := stored_branches more hmore
      have hbranches := hvs.branch hcondition hline hws
      rw [← ofBranches_cons] at hbranches
      exact exists_stored htag (.cons (kept_branches hbranches) .nil)

theorem stored_stmts :
    ∀ ss : List Stmt, Stmt.SavableAll ss → ∃ vs, StoredAll (ofStmts ss) vs
  | [], _ => ⟨[], storedAll_nil⟩
  | s :: more, h => by
      obtain ⟨v, hv⟩ := stored_stmt s h.1
      obtain ⟨vs, hvs⟩ := stored_stmts more h.2
      exact ⟨v :: vs, hv.cons hvs⟩

theorem stored_choices :
    ∀ cs : List Choice, Choice.SavableAll cs →
      ∃ vs, StoredChoices (ofChoices cs) vs
  | [], _ => ⟨[], rfl, by rw [loadedChoiceItems, ofChoices], by simp⟩
  | .mk said condition line body :: more, h => by
      obtain ⟨hcondition, hline, hbody, hmore⟩ := h
      obtain ⟨vs, hvs⟩ := stored_stmts body hbody
      obtain ⟨ws, hws⟩ := stored_choices more hmore
      rw [ofChoices_cons]
      exact ⟨_, hvs.choice hcondition hline hws⟩

theorem stored_branches :
    ∀ bs : List Branch, Branch.SavableAll bs →
      ∃ vs, StoredBranches (ofBranches bs) vs
  | [], _ => ⟨[], rfl, by rw [loadedBranchItems, ofBranches], by simp⟩
  | .mk condition line body :: more, h => by
      obtain ⟨hcondition, hline, hbody, hmore⟩ := h
      obtain ⟨vs, hvs⟩ := stored_stmts body hbody
      obtain ⟨ws, hws⟩ := stored_branches more hmore
      rw [ofBranches_cons]
      exact ⟨_, hvs.branch hcondition hline hws⟩

end

end Draft

end NovelScript
