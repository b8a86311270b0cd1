/-
What is refused by the writer of statements. A line with attributes that nobody
says, and that continues no other line, leaves the attributes without an image
that they could change (`Adrift`). Nothing else stops the writer: it is stopped
by the first such line that a walk meets, and names it. No line of a source says
one, so whatever is read can be written.

# The first one

The writer goes through bodies, choices and branches in the order of a walk, and
of two results the first that is refused counts (`refusal?_bind₂`). So its
refusal is told along the row of statements that the walk meets: it is that of
the first adrift one in the row (`Walk.Foremost`). A row that is put together of
two has its first in the first part, or else in the second.

# Sizes

This is about statements and outlines. What putting an outline on the page may
run into, indentations that cannot be made and numbers of too many digits, is
looked at where drafts are written.
-/
import NovelScript.Proofs.Reading.Formed
import NovelScript.Script

namespace NovelScript

open Written (present items isSet)

-- ================================================================ refusals

/-- A line whose attributes have no image to change: nobody says it, and it
continues no other line. -/
def Dialogue.Adrift (d : Dialogue) : Prop :=
  (∃ a as, d.attributes = some (a :: as))
    ∧ (d.speaker = none ∨ d.speaker = some "") ∧ d.extend ≠ some true

/-- A statement that is such a line. -/
def Stmt.Adrift (s : Stmt) : Prop :=
  ∃ tag d, s = .simple tag (.say d) ∧ d.Adrift

/-- A statement that a walk meets before all others that have a property. -/
def Walk.Foremost (P : Stmt → Prop) (met : List (Nat × Stmt)) (s : Stmt) :
    Prop :=
  ∃ before depth after, met = before ++ (depth, s) :: after ∧ P s
    ∧ ∀ m ∈ before, ¬ P m.2

/-- A walk meets a first statement that has a property, or none at all. -/
theorem Walk.exists_foremost {P : Stmt → Prop} {met : List (Nat × Stmt)} :
    (∃ s, Walk.Foremost P met s) ↔ ∃ m ∈ met, P m.2 := by
  constructor
  · rintro ⟨s, before, depth, after, rfl, hs, -⟩
    exact ⟨(depth, s), by simp, hs⟩
  · rintro ⟨m, hm, hP⟩
    induction met with
    | nil => cases hm
    | cons first more ih =>
        by_cases hfirst : P first.2
        · exact ⟨first.2, [], first.1, more, rfl, hfirst, by simp⟩
        · have hmore : m ∈ more := by
            rcases List.mem_cons.mp hm with rfl | hmore
            · exact absurd hP hfirst
            · exact hmore
          obtain ⟨s, before, depth, after, rfl, hs, hbefore⟩ := ih hmore
          exact ⟨s, first :: before, depth, after, rfl, hs,
            List.forall_mem_cons.mpr ⟨hfirst, hbefore⟩⟩

namespace Written

section Refusals

variable {α β γ : Type}

/-- Why something was refused. -/
def refusal? : Except WriteError α → Option WriteError
  | .error e => some e
  | .ok _ => none

theorem refusal?_eq_some {r : Except WriteError α} {e : WriteError} :
    refusal? r = some e ↔ r = .error e := by
  cases r <;> simp [refusal?]

/-- What is made of a result is refused with it. -/
theorem refusal?_bind (r : Except WriteError α) (f : α → β) :
    refusal? (do let a ← r; pure (f a)) = refusal? r := by
  cases r <;> rfl

/-- Of two results the first that is refused counts. -/
theorem refusal?_bind₂ (r : Except WriteError α) (q : Except WriteError β)
    (f : α → β → γ) :
    refusal? (do let a ← r; let b ← q; pure (f a b))
      = (refusal? r).or (refusal? q) := by
  cases r with
  | error e => rfl
  | ok a => exact refusal?_bind q (f a)

end Refusals

-- =============================================================== the walk

/-- Why a statement itself is refused, whatever is nested in it. -/
def ownRefusal? : Stmt → Option WriteError
  | .simple tag (.say d) => refusal? (speaking tag.id d)
  | _ => none

theorem present_eq_none {t : Option String} :
    present t = none ↔ t = none ∨ t = some "" := by
  unfold present
  split <;> simp_all

theorem isSet_eq_true {flag : Option Bool} :
    isSet flag = true ↔ flag = some true := by
  rcases flag with _ | _ | _ <;> decide

/-- Only a line is refused, and only for attributes that are adrift. -/
theorem refusal?_speaking {id : String} {d : Dialogue} {e : WriteError} :
    refusal? (speaking id d) = some e ↔ d.Adrift ∧ e = .narration id := by
  have hattributes : (items d.attributes).isEmpty = false
      ↔ ∃ a as, d.attributes = some (a :: as) := by
    rcases d.attributes with _ | _ | ⟨a, as⟩ <;> simp [items]
  have hwho : (if isSet d.extend = true then ["extend"]
      else (present d.speaker).toList).isEmpty = true
      ↔ (d.speaker = none ∨ d.speaker = some "") ∧ d.extend ≠ some true := by
    rw [← present_eq_none, ne_eq, ← isSet_eq_true]
    cases isSet d.extend <;> cases present d.speaker <;> simp
  rw [speaking, Dialogue.Adrift, ← hattributes, ← hwho]
  generalize (if isSet d.extend = true then ["extend"]
    else (present d.speaker).toList) = who
  cases who.isEmpty <;> cases (items d.attributes).isEmpty <;>
    simp [refusal?, eq_comm]

theorem ownRefusal?_eq_some {s : Stmt} {e : WriteError} :
    ownRefusal? s = some e ↔ s.Adrift ∧ e = .narration s.tag.id := by
  constructor
  · intro h
    rcases s with ⟨tag, s⟩ | _ | _ | _
    · rcases s with d | _ <;> try cases h
      obtain ⟨hd, he⟩ := refusal?_speaking.mp h
      exact ⟨⟨tag, d, rfl, hd⟩, he⟩
    all_goals cases h
  · rintro ⟨⟨tag, d, rfl, hd⟩, he⟩
    exact refusal?_speaking.mpr ⟨hd, he⟩

theorem refusal?_simple (tag : Tag) (s : Simple) :
    refusal? (simple tag.id s) = ownRefusal? (.simple tag s) := by
  cases s with
  | say d => exact refusal?_bind (speaking tag.id d) _
  | _ => rfl

/-- The first refusal on a walk. -/
def firstRefusal? (met : List (Nat × Stmt)) : Option WriteError :=
  met.findSome? fun m => ownRefusal? m.2

mutual

/-- A statement is refused where a walk through it meets the first that is
refused itself. -/
theorem refusal?_stmt (depth : Nat) : ∀ s : Stmt,
    refusal? (stmt s) = firstRefusal? (Walk.ofStmt depth s)
  | .simple tag s => by
      rw [stmt, refusal?_simple, Walk.ofStmt, firstRefusal?,
        List.findSome?_singleton]
  | .label tag name parameters body => by
      rw [stmt, refusal?_bind, refusal?_stmts (depth + 1) body]
      rfl
  | .menu tag head choices => by
      rw [stmt, refusal?_bind, refusal?_choiceBlocks (depth + 1) choices]
      rfl
  | .conditional tag branches => by
      rw [stmt, refusal?_branchBlocks (depth + 1) true branches]
      rfl

theorem refusal?_stmts (depth : Nat) : ∀ ss : List Stmt,
    refusal? (stmts ss) = firstRefusal? (Walk.ofStmts depth ss)
  | [] => rfl
  | s :: more => by
      rw [stmts, refusal?_bind₂, refusal?_stmt depth s,
        refusal?_stmts depth more, Walk.ofStmts, firstRefusal?, firstRefusal?,
        firstRefusal?, List.findSome?_append]

theorem refusal?_choiceBlocks (depth : Nat) : ∀ cs : List Choice,
    refusal? (choiceBlocks cs) = firstRefusal? (Walk.ofChoices depth cs)
  | [] => rfl
  | .mk said condition line body :: more => by
      rw [choiceBlocks, refusal?_bind₂, refusal?_stmts depth body,
        refusal?_choiceBlocks depth more, Walk.ofChoices, firstRefusal?,
        firstRefusal?, firstRefusal?, List.findSome?_append]

theorem refusal?_branchBlocks (depth : Nat) (first : Bool) :
    ∀ bs : List Branch,
      refusal? (branchBlocks first bs) = firstRefusal? (Walk.ofBranches depth bs)
  | [] => rfl
  | .mk condition line body :: more => by
      rw [branchBlocks, refusal?_bind₂, refusal?_stmts depth body,
        refusal?_branchBlocks depth false more, Walk.ofBranches, firstRefusal?,
        firstRefusal?, firstRefusal?, List.findSome?_append]

end

/-- A walk meets the first refusal where it meets the first line adrift. -/
theorem firstRefusal?_eq_some {met : List (Nat × Stmt)} {e : WriteError} :
    firstRefusal? met = some e
      ↔ ∃ s, Walk.Foremost Stmt.Adrift met s ∧ e = .narration s.tag.id := by
  have hnone : ∀ s, ownRefusal? s = none ↔ ¬ s.Adrift := fun s => by
    rw [Option.eq_none_iff_forall_ne_some]
    simp only [ne_eq, ownRefusal?_eq_some, not_and]
    exact ⟨fun h hs => h _ hs rfl, fun h _ hs => absurd hs h⟩
  rw [firstRefusal?, List.findSome?_eq_some_iff]
  simp only [ownRefusal?_eq_some, hnone, Walk.Foremost, Prod.exists]
  constructor
  · rintro ⟨before, depth, s, after, rfl, ⟨hs, he⟩, hbefore⟩
    exact ⟨s, ⟨before, depth, after, rfl, hs, hbefore⟩, he⟩
  · rintro ⟨s, ⟨before, depth, after, rfl, hs, hbefore⟩, he⟩
    exact ⟨before, depth, s, after, rfl, ⟨hs, he⟩, hbefore⟩

/-- The lines at the margin are refused where their statements are. -/
theorem refusal?_topLines (layout : PageLayout) : ∀ ss : List Stmt,
    refusal? (topLines layout ss) = refusal? (stmts ss)
  | [] => rfl
  | s :: more => by
      rw [topLines, refusal?_bind₂, refusal?_topLines layout more, stmts,
        refusal?_bind₂]

/-- The lines of statements are refused for the first line adrift that a walk
through the statements meets, and for nothing else. -/
theorem topLines_refused {layout : PageLayout} {ss : List Stmt}
    {e : WriteError} :
    topLines layout ss = .error e
      ↔ ∃ s, Walk.Foremost Stmt.Adrift (Walk.ofStmts 0 ss) s
        ∧ e = .narration s.tag.id := by
  rw [← refusal?_eq_some, refusal?_topLines, refusal?_stmts 0,
    firstRefusal?_eq_some]

end Written

-- ================================================================ readings

mutual

/-- Whatever a walk meets in a statement that was read was read, too. -/
theorem Stmt.Formed.walk {depth : Nat} : ∀ {s : Stmt}, s.Formed →
    ∀ m ∈ Walk.ofStmt depth s, m.2.Formed
  | .simple tag s, h, m, hm => by
      obtain rfl := List.mem_singleton.mp hm
      exact h
  | .label tag name parameters body, h, m, hm => by
      rcases List.mem_cons.mp hm with rfl | hm
      · exact h
      · exact Stmt.FormedAll.walk h.2.2.2 m hm
  | .menu tag head choices, h, m, hm => by
      rcases List.mem_cons.mp hm with rfl | hm
      · exact h
      · exact Choice.FormedAll.walk h.2.2 m hm
  | .conditional tag branches, h, m, hm => by
      rcases List.mem_cons.mp hm with rfl | hm
      · exact h
      · exact Branch.FormedAll.walk h.2.2 m hm

theorem Stmt.FormedAll.walk {depth : Nat} : ∀ {ss : List Stmt},
    Stmt.FormedAll ss → ∀ m ∈ Walk.ofStmts depth ss, m.2.Formed
  | s :: more, h, m, hm => by
      rcases List.mem_append.mp hm with hm | hm
      · exact Stmt.Formed.walk h.1 m hm
      · exact Stmt.FormedAll.walk h.2 m hm

theorem Choice.FormedAll.walk {depth : Nat} : ∀ {cs : List Choice},
    Choice.FormedAll cs → ∀ m ∈ Walk.ofChoices depth cs, m.2.Formed
  | .mk _ _ _ _ :: more, h, m, hm => by
      rcases List.mem_append.mp hm with hm | hm
      · exact Stmt.FormedAll.walk h.2.2.1 m hm
      · exact Choice.FormedAll.walk h.2.2.2 m hm

theorem Branch.FormedAll.walk {depth : Nat} : ∀ {bs : List Branch},
    Branch.FormedAll bs → ∀ m ∈ Walk.ofBranches depth bs, m.2.Formed
  | .mk _ _ _ :: more, h, m, hm => by
      rcases List.mem_append.mp hm with hm | hm
      · exact Stmt.FormedAll.walk h.2.2.1 m hm
      · exact Branch.FormedAll.walk h.2.2.2 m hm

end

/-- What a line says has somebody for its attributes. -/
theorem Dialogue.Spoken.not_adrift {d : Dialogue} (h : d.Spoken) :
    ¬ d.Adrift := by
  rintro ⟨⟨a, as, hattributes⟩, hspeaker, hextend⟩
  rcases h.somebody (by rw [hattributes]; exact Option.some_ne_none _) with
    hs | hs
  · rcases hspeaker with hnone | hempty
    · exact hs hnone
    · obtain ⟨c, ws, hname, -⟩ := (h.speaker "" hempty).1
      cases hname
  · exact hextend hs

/-- A statement that was read is not adrift. -/
theorem Stmt.Formed.not_adrift {s : Stmt} (h : s.Formed) : ¬ s.Adrift := by
  rintro ⟨tag, d, rfl, hd⟩
  obtain ⟨-, l, block, -, hsingle⟩ := h
  cases hsingle with
  | spoken hs hblock => exact Dialogue.Spoken.not_adrift hs hd

/-- Whatever was read can be written, however it is laid out. -/
theorem Reading.exists_topLines_read (layout : PageLayout) (tabSize : Int)
    (numbering : Numbering) (source : String) :
    ∃ lines, Written.topLines layout (read tabSize numbering source).1
      = .ok lines := by
  cases h : Written.topLines layout (read tabSize numbering source).1 with
  | ok lines => exact ⟨lines, rfl⟩
  | error e =>
      obtain ⟨s, ⟨before, depth, after, hwalk, hs, -⟩, -⟩ :=
        Written.topLines_refused.mp h
      refine absurd hs (Stmt.Formed.not_adrift ?_)
      exact (formedAll_read tabSize numbering source).walk (depth, s)
        (by rw [hwalk]; simp)

end NovelScript
