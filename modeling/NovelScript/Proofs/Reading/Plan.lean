/-
Plans of making things by hand. Whoever makes the statements of a script by
hand takes three kinds of steps: something is made, the list of what was
complained about is changed, or a look is taken at that list. A plan says which
step comes next and how the rest depends on what was made or seen, and no plan
can take a step of another kind.

# Following a plan

A plan is followed from how far a reading has come (`Plan.run`). It ends with
what it comes to, or with the fault of the first making that is refused. What
was made on the way is noted beside it, in the order of the makings, whether it
becomes a part of the result or is given up later (`Plan.log`).

# What was made and what was given out

Only makings take identities, and a making takes one identity or none. So a
plan that is followed to its end takes exactly the identities of what was made
on the way, in that order (`Plan.identities_log`). The proof is an induction
over the plan with one case for each kind of step; what the plan is for does not
come into it.
-/
import NovelScript.Proofs.Identity.Supply
import NovelScript.Reading

namespace NovelScript.Reading

/-- A plan: what it comes to, or its next step and what is done after it. -/
inductive Plan (α : Type) : Type where
  /-- Nothing is left to be done. -/
  | done (a : α)
  /-- Something is made by hand. -/
  | make (maker : String) (row : List Draft) (named : List (String × Draft))
    (next : Draft → Plan α)
  /-- What was complained about is changed. -/
  | tell (change : List Diagnostic → List Diagnostic) (next : Plan α)
  /-- What was complained about is looked at. -/
  | look (next : List Diagnostic → Plan α)

namespace Plan

variable {α β : Type}

/-- A plan and the plan for what it comes to. -/
def andThen : Plan α → (α → Plan β) → Plan β
  | .done a, k => k a
  | .make maker row named next, k =>
    .make maker row named fun d => (next d).andThen k
  | .tell change next, k => .tell change (next.andThen k)
  | .look next, k => .look fun found => (next found).andThen k

instance : Monad Plan where
  pure := .done
  bind := andThen

variable (now : Timestamp)

/-- What a plan comes to, and how far the reading has come with it. It ends at
the first making that is refused. -/
def run : Plan α → Progress → Except Fault (α × Progress)
  | .done a, p => .ok (a, p)
  | .make maker row named next, p =>
    match Draft.build now p.numbering maker row named with
    | (.ok d, numbering) => (next d).run { p with numbering }
    | (.error e, _) => .error e
  | .tell change next, p => next.run { p with found := change p.found }
  | .look next, p => (next p.found).run p

/-- What is made on the way, up to the end or to what is refused, in the order
of the makings. It does not depend on what becomes of it. -/
def log : Plan α → Progress → List Draft
  | .done _, _ => []
  | .make maker row named next, p =>
    match Draft.build now p.numbering maker row named with
    | (.ok d, numbering) => d :: (next d).log { p with numbering }
    | (.error _, _) => []
  | .tell change next, p => next.log { p with found := change p.found }
  | .look next, p => (next p.found).log p

variable {now}

/-- A plan that goes on after another is followed from where that one ends. -/
theorem run_bind {m : Plan α} {k : α → Plan β} {p p' : Progress} {a : α}
    (h : m.run now p = .ok (a, p')) :
    (m >>= k).run now p = (k a).run now p' := by
  show (m.andThen k).run now p = _
  induction m generalizing p with
  | done b =>
      obtain ⟨rfl, rfl⟩ := Prod.mk.inj (Except.ok.inj h)
      rfl
  | make maker row named next ih =>
      rw [run] at h
      rw [andThen, run]
      split at h
      · exact ih _ h
      · cases h
  | tell change next ih => exact ih h
  | look next ih => exact ih _ h

/-- Following a plan to its end takes the identities of what is made on the
way, and no others. -/
theorem identities_log {m : Plan α} {p p' : Progress} {a : α}
    (h : m.run now p = .ok (a, p')) :
    p.numbering.Precedes p'.numbering
      ∧ (m.log now p).flatMap Draft.identityOf
        = p.numbering.given p'.numbering := by
  induction m generalizing p with
  | done b =>
      obtain ⟨-, rfl⟩ := Prod.mk.inj (Except.ok.inj h)
      exact ⟨.refl _, (Numbering.given_self _).symm⟩
  | make maker row named next ih =>
      have htaking := Draft.taking_build now p.numbering maker row named
      rw [run] at h
      rw [log]
      split at h
      · next d numbering hmade =>
        rw [hmade] at htaking
        obtain ⟨hlater, hrest⟩ := ih d h
        have hfirst := htaking.precedes
        refine ⟨hfirst.trans hlater, ?_⟩
        rw [List.flatMap_cons, hrest, ← htaking.given d rfl]
        exact (Numbering.given_append hfirst hlater).symm
      · cases h
  | tell change next ih => exact ih h
  | look next ih => exact ih _ h

end Plan

end NovelScript.Reading
