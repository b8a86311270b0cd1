/-
A walk through the draft of a statement meets what a walk through the statement
itself meets, and never fails.

A walk through a draft looks at each field by its name, and could fail at a
field that should hold statements and holds something else. Three names lead
further (`nesting`): a body, choices, branches. The fields of simple statements
have none of these (`nesting_simple`), and in the draft of a compound statement
there is one field that does, with statements in it. So the recursion over
statements has two lemmas to use, `walkFields_plain` in front of the field and
behind it, and `walkFields_body` or `walkFields_sections` at the field itself.

Depth counts the bodies around a statement. A choice or a branch is no statement
and does not count; its body does.
-/
import NovelScript.Draft.Difference
import NovelScript.Draft.OfScript
import NovelScript.Script

namespace NovelScript.Draft

/-- A statement that is met on a walk, as a step. -/
def stepOf (met : Nat × Stmt) : Step :=
  ⟨met.1, met.2.kind, .text met.2.tag.id⟩

/-- The names of the fields that lead to nested statements. No other field has
one of these names, in any kind of record. -/
def nesting : List String := ["body", "choices", "branches"]

variable {depth : Nat}

-- ================================================================= fields

theorem walkFields_cons {name : String} (h : name ∉ nesting) (d : Draft)
    (more : List (String × Draft)) :
    walkFields depth ((name, d) :: more) = walkFields depth more := by
  simp only [nesting, List.mem_cons, List.not_mem_nil, or_false, not_or] at h
  obtain ⟨hbody, hchoices, hbranches⟩ := h
  cases d <;> simp [walkFields, hbody, hchoices, hbranches]

/-- Fields that hold no statements lead nowhere. -/
theorem walkFields_plain {fields : List (String × Draft)}
    (h : ∀ f ∈ fields, f.1 ∉ nesting) : walkFields depth fields = .ok [] := by
  induction fields with
  | nil => rfl
  | cons f fields ih =>
      rw [walkFields_cons (h f List.mem_cons_self) f.2]
      exact ih fun g hg => h g (List.mem_cons_of_mem f hg)

/-- A body among fields that hold no other statements. -/
theorem walkFields_body {items : List Draft} {nested : List Step}
    {more : List (String × Draft)} (h : walkAll depth items = .ok nested)
    (hmore : ∀ f ∈ more, f.1 ∉ nesting) :
    walkFields depth (("body", .list items) :: more) = .ok nested := by
  simp only [walkFields, ↓reduceIte, h, walkFields_plain hmore]
  exact congrArg Except.ok (List.append_nil nested)

/-- Choices or branches among fields that hold no other statements. -/
theorem walkFields_sections {name : String} {items : List Draft}
    {nested : List Step} {more : List (String × Draft)}
    (hname : name = "choices" ∨ name = "branches")
    (h : walkSections depth items = .ok nested)
    (hmore : ∀ f ∈ more, f.1 ∉ nesting) :
    walkFields depth ((name, .list items) :: more) = .ok nested := by
  have hbody : name ≠ "body" := by
    rintro rfl
    exact absurd hname (by decide)
  have hsections : (name = "choices" || name = "branches") = true := by
    simpa using hname
  simp only [walkFields, hbody, ↓reduceIte, hsections, h,
    walkFields_plain hmore]
  exact congrArg Except.ok (List.append_nil nested)

theorem nesting_line (line : Option Nat) :
    ∀ f ∈ [("line", optLine line)], f.1 ∉ nesting := by
  simp [nesting]

-- ============================================================= statements

/-- A statement is met before what its own fields and its line lead to. -/
theorem walk_ofTagged {k : StmtKind} {own : List (String × Draft)}
    {nested : List Step} (tag : Tag)
    (h : walkFields (depth + 1) (own ++ [("line", optLine tag.line)])
      = .ok nested) :
    walk depth (ofTagged k tag own)
      = .ok (⟨depth, k, .text tag.id⟩ :: nested) := by
  rw [ofTagged, walk, List.cons_append, walkFields_cons (by decide), h]
  rfl

/-- Simple statements have no field that leads further. -/
theorem nesting_simple (s : Simple) : ∀ f ∈ (ofSimple s).2, f.1 ∉ nesting := by
  cases s <;> simp [ofSimple, nesting]

mutual

theorem walk_ofStmt (depth : Nat) : ∀ s : Stmt,
    walk depth (ofStmt s) = .ok ((Walk.ofStmt depth s).map stepOf)
  | .simple tag s => walk_ofTagged tag <| walkFields_plain fun f hf =>
      (List.mem_append.mp hf).elim (nesting_simple s f) (nesting_line _ f)
  | .label tag name parameters body => by
      refine walk_ofTagged tag ?_
      rw [List.cons_append, walkFields_cons (by decide)]
      exact walkFields_body (walkAll_ofStmts (depth + 1) body)
        (by simp [nesting])
  | .menu tag head choices => walk_ofTagged tag <|
      walkFields_sections (.inl rfl)
        (walkSections_ofChoices (depth + 1) choices) (by simp [nesting])
  | .conditional tag branches => walk_ofTagged tag <|
      walkFields_sections (.inr rfl)
        (walkSections_ofBranches (depth + 1) branches) (nesting_line _)

theorem walkAll_ofStmts (depth : Nat) : ∀ ss : List Stmt,
    walkAll depth (ofStmts ss) = .ok ((Walk.ofStmts depth ss).map stepOf)
  | [] => rfl
  | s :: more => by
      rw [ofStmts, walkAll, walk_ofStmt depth s, walkAll_ofStmts depth more,
        Walk.ofStmts, List.map_append]
      rfl

theorem walkSections_ofChoices (depth : Nat) : ∀ cs : List Choice,
    walkSections depth (ofChoices cs)
      = .ok ((Walk.ofChoices depth cs).map stepOf)
  | [] => rfl
  | .mk said condition line body :: more => by
      simp only [ofChoices, walkSections, walkBody]
      rw [walkAll_ofStmts depth body, walkSections_ofChoices depth more,
        Walk.ofChoices, List.map_append]
      rfl

theorem walkSections_ofBranches (depth : Nat) : ∀ bs : List Branch,
    walkSections depth (ofBranches bs)
      = .ok ((Walk.ofBranches depth bs).map stepOf)
  | [] => rfl
  | .mk condition line body :: more => by
      simp only [ofBranches, walkSections, walkBody]
      rw [walkAll_ofStmts depth body, walkSections_ofBranches depth more,
        Walk.ofBranches, List.map_append]
      rfl

end

end NovelScript.Draft
