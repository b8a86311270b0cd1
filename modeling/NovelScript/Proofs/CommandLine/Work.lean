/-
What a work does. A work that succeeds leads from what was done before to what
is done afterwards: `Does w c a c'` says that it does so with an answer. Each of
the few steps that commands are made of has one rule here: with other work
behind it, it succeeds if and only if the rest does from where the step leads. A
command that succeeds is taken apart by these rules, and one that has to succeed
is put together by them.

What was done is a console: the files, what was printed and what was logged. Two
ways of changing it are enough, logging events and printing a text (`noted`,
`printed`), and neither changes the files.
-/
import NovelScript.CommandLine.Work

namespace NovelScript

namespace Console

/-- What has been done once events are logged. -/
def noted (c : Console) (events : List Event) : Console :=
  if c.verbose then
    { c with log := c.log ++ String.join (events.map Event.text) }
  else c

/-- What has been done once a text is printed. -/
def printed (c : Console) (s : String) : Console := { c with out := c.out ++ s }

section

variable (c : Console) (events : List Event) (s t : String)

@[simp] theorem folder_noted : (c.noted events).folder = c.folder := by
  unfold noted
  split <;> rfl

@[simp] theorem out_noted : (c.noted events).out = c.out := by
  unfold noted
  split <;> rfl

@[simp] theorem folder_printed : (c.printed s).folder = c.folder := rfl

@[simp] theorem out_printed : (c.printed s).out = c.out ++ s := rfl

/-- Two texts in a row are one. -/
theorem printed_printed : (c.printed s).printed t = c.printed (s ++ t) := by
  simp only [printed, String.append_assoc]

end

end Console

namespace Work

/-- A work and what comes of it. -/
def outcome {α : Type} (w : Work α) (c : Console) :
    Except Trouble α × Console :=
  w.run c

/-- A work succeeds with an answer, and leads from what was done before to what
is done afterwards. -/
def Does {α : Type} (w : Work α) (c : Console) (a : α) (c' : Console) : Prop :=
  outcome w c = (.ok a, c')

variable {α β : Type} {c c' : Console} {a : α} {b : β}

theorem outcome_bind (w : Work α) (k : α → Work β) (c : Console) :
    outcome (w >>= k) c = match outcome w c with
      | (.ok a, between) => outcome (k a) between
      | (.error t, between) => (.error t, between) := by
  unfold outcome ExceptT.run
  simp only [bind, ExceptT.bind, ExceptT.mk, StateT.bind, ExceptT.bindCont]
  cases w c with
  | mk result between => cases result <;> rfl

theorem outcome_get (c : Console) : outcome get c = (.ok c, c) :=
  rfl

theorem outcome_ofExcept {ε : Type} (trouble : ε → Trouble) (e : Except ε α)
    (c : Console) : outcome (ofExcept trouble e) c = (e.mapError trouble, c) := by
  cases e <;> rfl

theorem does_pure {b : α} : Does (pure a) c b c' ↔ b = a ∧ c' = c := by
  have hpure : outcome (pure a) c = (.ok a, c) := rfl
  rw [Does, hpure, Prod.mk.injEq, Except.ok.injEq, eq_comm, eq_comm (a := c)]

section

variable {k : α → Work β}

/-- Work of which each part succeeds. -/
theorem does_bind {w : Work α} :
    Does (w >>= k) c b c'
      ↔ ∃ a between, Does w c a between ∧ Does (k a) between b c' := by
  unfold Does
  rw [outcome_bind]
  cases outcome w c with
  | mk result between => cases result <;> simp [and_assoc]

theorem does_ofExcept_bind {ε : Type} {trouble : ε → Trouble}
    {e : Except ε α} :
    Does (ofExcept trouble e >>= k) c b c'
      ↔ ∃ a, e = .ok a ∧ Does (k a) c b c' := by
  unfold Does
  rw [outcome_bind, outcome_ofExcept]
  cases e with
  | error e => exact ⟨fun h => (nomatch h), fun ⟨_, he, _⟩ => (nomatch he)⟩
  | ok a =>
      exact ⟨fun h => ⟨a, rfl, h⟩, fun ⟨_, ha, h⟩ => Except.ok.inj ha ▸ h⟩

end

theorem does_get_bind {k : Console → Work β} :
    Does (get >>= k) c b c' ↔ Does (k c) c b c' :=
  Iff.rfl

section

variable {k : Unit → Work β}

theorem does_note_bind {events : List Event} :
    Does (note events >>= k) c b c' ↔ Does (k ()) (c.noted events) b c' :=
  Iff.rfl

theorem does_printLine_bind {s : String} :
    Does (printLine s >>= k) c b c' ↔ Does (k ()) (c.printed (s ++ "\n")) b c' :=
  Iff.rfl

theorem does_printLines_bind {lines : List String} :
    Does (printLines lines >>= k) c b c'
      ↔ Does (k ()) (c.printed (String.join (lines.map (· ++ "\n")))) b c' :=
  Iff.rfl

theorem does_writeText_bind {p : Path} {text : String} :
    Does (writeText p text >>= k) c b c'
      ↔ ∃ folder, c.folder.writeText p text = .ok folder
        ∧ Does (k ()) { c with folder } b c' := by
  rw [writeText, bind_assoc, does_get_bind, bind_assoc, does_ofExcept_bind]
  rfl

end

theorem does_readText_bind {p : Path} {k : String → Work β} :
    Does (readText p >>= k) c b c'
      ↔ ∃ text, c.folder.readMarkedText p = .ok text
        ∧ Does (k text) c b c' := by
  rw [readText, bind_assoc, does_get_bind, does_ofExcept_bind]

end Work

end NovelScript
