/-
Identities over a whole session. Whatever is made, read or refused in it, and
under whatever settings, no identity is given out a second time unless the
numbering is restarted, so no two statements that are made or read share one.

# Turns and entries

A turn is one step of a session under settings and at a time of its own: both
may change from turn to turn, and so may the words that a fault is told in. The
entry of a turn keeps what it answered, the identities that the numbering gave
out in it and those of the statements it made or read. A reading may give out
more than the script shows, since a menu that falls back drops statements that
were made.

# One turn, many turns

One turn takes the identities of what it makes from what is given out in it
(`supplies_turn`): a making at most one, a reading those of a walk through the
script. What the turns of a session give out one after the other is what is
given out between its two ends (`given_history`), and that row has no identity
twice, for it is one identity for each number. So the induction over the turns
is about the numbering alone; what the turns answer plays no part in it.
-/
import NovelScript.Proofs.Draft.Walks
import NovelScript.Proofs.Identity.Reading
import NovelScript.Session

namespace NovelScript.Session

-- ================================================================= turns

/-- A step that is done in a session under settings and at a time of its
own. -/
structure Turn where
  /-- The settings. -/
  settings : Settings := {}
  /-- The point in time. -/
  now : Timestamp := default
  /-- What is done. -/
  act : Act

/-- A turn after it was taken. -/
structure Entry where
  /-- What was done. -/
  act : Act
  /-- The answer. -/
  answer : Except Fault Answer
  /-- The identities that were given out. -/
  given : List String

/-- The identities of the statements that a turn made or read, or the one that
it took. -/
def Entry.created (e : Entry) : List String :=
  match e.act, e.answer with
  | .make .., .ok (.draft d) => d.identityOf
  | .parse .., .ok (.parsed p) =>
    Walk.identities (Walk.ofStmts 0 p.script.statements)
  | .identity, .ok (.text id) => [id]
  | _, _ => []

variable (s : Session) (t : Turn)

/-- The session in which a turn is taken. -/
def before : Session := { s with settings := t.settings, now := t.now }

/-- The session behind a turn. -/
def behind : Session := ((s.before t).step t.act).2

/-- The record of a turn that is taken now. -/
def entry : Entry :=
  ⟨t.act, ((s.before t).step t.act).1, s.numbering.given (s.behind t).numbering⟩

/-- The session behind several turns. -/
def after (s : Session) : List Turn → Session
  | [] => s
  | t :: more => (s.behind t).after more

/-- The records of several turns. -/
def history (s : Session) : List Turn → List Entry
  | [] => []
  | t :: more => s.entry t :: (s.behind t).history more

-- ================================================================ one turn

theorem numbering_step (a : Act) :
    (s.step a).2.numbering = (s.perform a).2 := by
  rw [step]
  generalize s.perform a = performed
  obtain ⟨result, n⟩ := performed
  cases result <;> rfl

theorem answer_step (a : Act) :
    (s.step a).1 = (s.perform a).1.map Prod.fst := by
  rw [step]
  generalize s.perform a = performed
  obtain ⟨result, n⟩ := performed
  cases result <;> rfl

/-- Only a reading answers with a script that was read. -/
theorem exists_parse {a : Act} {p : Parsed}
    (h : (s.step a).1 = .ok (.parsed p)) :
    ∃ file source, a = .parse file source := by
  rw [answer_step] at h
  obtain ⟨⟨answer, d⟩, hperform, rfl⟩ := map_eq_ok.mp h
  cases a with
  | parse file source => exact ⟨file, source, rfl⟩
  | compare a b =>
      obtain ⟨found, -, hfound⟩ := map_eq_ok.mp hperform
      cases found <;> cases hfound
  | identity => cases hperform
  | restart => cases hperform
  | _ =>
      obtain ⟨d, -, hd⟩ := map_eq_ok.mp hperform
      cases hd

/-- Whatever a turn does, short of a restart, it takes the identities of what
it makes or reads from the numbering. -/
theorem supplies_turn (h : t.act ≠ .restart) :
    s.numbering.Supplies (s.behind t).numbering (s.entry t).created := by
  obtain ⟨settings, now, act⟩ := t
  have hkept : s.numbering.Supplies s.numbering [] := s.numbering.supplies_nil
  rw [behind, numbering_step]
  simp only [entry, Entry.created, answer_step]
  cases act with
  | make maker row byName =>
      have hmade := (Draft.taking_build now s.numbering maker row
        byName).supplied
      simp only [perform, before]
      generalize Draft.build now s.numbering maker row byName = made at hmade ⊢
      obtain ⟨result, n⟩ := made
      cases result <;> exact hmade
  | parse file source =>
      have hread := settings.supplies_parse now s.numbering file source
      simp only [perform, before]
      generalize settings.parse now s.numbering file source = read at hread ⊢
      obtain ⟨result, n⟩ := read
      cases result <;> exact hread
  | identity => exact s.numbering.supplies_next
  | restart => exact absurd rfl h
  | _ => exact hkept

-- ============================================================ many turns

variable {s : Session} {turns : List Turn}

/-- Short of a restart, a session takes the identities of all that it makes and
reads from the numbering. -/
theorem supplies_history (h : ∀ t ∈ turns, t.act ≠ .restart) :
    s.numbering.Supplies (s.after turns).numbering
      ((s.history turns).flatMap Entry.created) := by
  induction turns generalizing s with
  | nil => exact s.numbering.supplies_nil
  | cons t more ih =>
      exact (s.supplies_turn t (h t List.mem_cons_self)).append
        (ih fun t' ht' => h t' (List.mem_cons_of_mem t ht'))

/-- What the turns give out one by one is what is given out on the way of the
session. -/
theorem given_history (h : ∀ t ∈ turns, t.act ≠ .restart) :
    (s.history turns).flatMap Entry.given
      = s.numbering.given (s.after turns).numbering := by
  induction turns generalizing s with
  | nil => exact s.numbering.given_self.symm
  | cons t more ih =>
      have hmore : ∀ t' ∈ more, t'.act ≠ .restart :=
        fun t' ht' => h t' (List.mem_cons_of_mem t ht')
      have hturn := (s.supplies_turn t (h t List.mem_cons_self)).precedes
      have hrest : (s.behind t).numbering.Precedes _ :=
        (supplies_history hmore).precedes
      rw [history, List.flatMap_cons, ih hmore]
      exact (Numbering.given_append hturn hrest).symm

/-- Every record is one of a turn that was taken at some point. -/
theorem exists_entry {e : Entry} (h : e ∈ s.history turns) :
    ∃ s' : Session, ∃ t ∈ turns, e = s'.entry t := by
  induction turns generalizing s with
  | nil => cases h
  | cons t more ih =>
      rcases List.mem_cons.mp h with rfl | h
      · exact ⟨s, t, List.mem_cons_self, rfl⟩
      · obtain ⟨s', t', ht', he⟩ := ih h
        exact ⟨s', t', List.mem_cons_of_mem t ht', he⟩

/-- A history in which no identity comes a second time. -/
structure Unrepeated (history : List Entry) : Prop where
  /-- None is given out twice. -/
  given : (history.flatMap Entry.given).Nodup
  /-- No two statements that were made or read share one. -/
  created : (history.flatMap Entry.created).Nodup
  /-- What a turn made or read has identities that were given out in it. -/
  taken : ∀ e ∈ history, e.created ⊆ e.given
  /-- A walk through a script that was read ends and meets none twice. -/
  walks : ∀ e ∈ history, ∀ p, e.answer = .ok (.parsed p) →
    ∃ steps, Draft.walkAll 0 (walkStart (Draft.ofScript p.script)) = .ok steps ∧
      (steps.map Draft.Step.id).Nodup

/-- The identities that a walk through a script meets. -/
theorem ids_stepOf (met : List (Nat × Stmt)) :
    (met.map Draft.stepOf).map Draft.Step.id
      = (Walk.identities met).map Draft.text := by
  simp only [Walk.identities, List.map_map]
  rfl

/-- Identities are never used again: as long as the numbering is not restarted,
none comes a second time, whatever is made, read or taken and under whatever
settings, and whether it succeeds or is refused. -/
theorem unrepeated_history (s : Session) (turns : List Turn)
    (h : ∀ t ∈ turns, t.act ≠ .restart) : Unrepeated (s.history turns) where
  given := by
    rw [given_history h]
    exact Numbering.nodup_given _ _
  created := (supplies_history h).nodup
  taken := by
    intro e he
    obtain ⟨s', t, ht, rfl⟩ := exists_entry he
    exact (s'.supplies_turn t (h t ht)).subset
  walks := by
    intro e he p hp
    obtain ⟨s', t, ht, rfl⟩ := exists_entry he
    obtain ⟨file, source, hact⟩ := exists_parse _ hp
    have hact : (s'.entry t).act = .parse file source := hact
    have hcreated : (s'.entry t).created
        = Walk.identities (Walk.ofStmts 0 p.script.statements) := by
      rw [Entry.created, hact, hp]
    refine ⟨_, Draft.walkAll_ofStmts 0 p.script.statements, ?_⟩
    rw [ids_stepOf, ← hcreated]
    exact (s'.supplies_turn t (h t ht)).nodup.map fun _ _ => Draft.text.inj

/-- A menu that falls back to raw text after its choice was read, a pause that
is refused, a jump, and an identity that is taken alone. -/
def mixedTurns : List Turn :=
  [{ act := .parse "a.rpy" "menu:\n    \"Go\":\n        jump a\n    what\n" },
   { act := .make "pause" [.text "long"] [] },
   { act := .make "jump" [.text "a"] [] },
   { act := .identity }]

theorem unrepeated_history_mixed :
    let session : Session := { now := default, numbering := ⟨"n", 0⟩ }
    (∀ t ∈ mixedTurns, t.act ≠ .restart) ∧
      (session.history mixedTurns).map Entry.given
        = [["n_1", "n_2"], ["n_3"], ["n_4"], ["n_5"]] ∧
      (session.history mixedTurns).map Entry.created
        = [["n_2"], [], ["n_4"], ["n_5"]] ∧
      Unrepeated (session.history mixedTurns) := by
  have hturns : ∀ t ∈ mixedTurns, t.act ≠ .restart := by simp [mixedTurns]
  exact ⟨hturns, by decide +kernel, by decide +kernel,
    unrepeated_history _ _ hturns⟩

end NovelScript.Session
