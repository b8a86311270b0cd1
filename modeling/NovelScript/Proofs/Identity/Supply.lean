/-
What a numbering gives out. Between two states of a numbering lies a row of
identities, one for each number that was used up, and no two of them are the
same (`nodup_given`): a number is used once, and different numbers have
different identities.

# Supplying

Whatever takes identities and does not take one twice `Supplies` itself from
that row. The identities that were taken need not be all of the row, nor be in
its order, so what is kept of them is that they are a part of it up to order
(`Supplies.mono`). Supplies from two stretches of the numbering in a row are one
from the whole (`Supplies.append`).

# Taking

A making takes at most one identity, whether it succeeds or is refused, and the
statement that it makes has that one. This is `Taking`, with three parts: the
numbering goes on, it gives out one identity or none, and what is made has what
was given out. There is one lemma for each way of putting makings together, and
every maker of the library is shown to be a taking by following how it is put
together; no maker is evaluated.
-/
import Mathlib.Data.List.Nodup
import Mathlib.Data.List.Perm.Subperm
import NovelScript.Draft.Built
import NovelScript.Proofs.Draft.Phrases

namespace NovelScript

namespace Numbering

variable {n n' n'' : Numbering} {ids ids' : List String}

-- ======================================================== the given row

/-- Different numbers have different identities. -/
theorem identity_injective (n : Numbering) : Function.Injective n.identity := by
  intro j k h
  have htext : toString j = toString k := by
    have hlist := congrArg String.toList h
    simp only [identity, String.toList_append] at hlist
    exact String.toList_inj.mp (List.append_cancel_left hlist)
  have hdigits : Nat.toDigits 10 j = Nat.toDigits 10 k := by
    have hlist := congrArg String.toList htext
    simpa only [Nat.toString_eq_repr, Nat.toList_repr] using hlist
  have hread := congrArg (fun ds => Nat.ofDigitChars 10 ds 0) hdigits
  simpa using hread

/-- What a numbering answers when it is asked so many times. -/
def row : Numbering → Nat → List String
  | _, 0 => []
  | n, k + 1 => n.next.1 :: row n.next.2 k

/-- The identities that a numbering has given out on its way to another
state. -/
def given (n n' : Numbering) : List String := n.row (n'.used - n.used)

theorem row_eq (n : Numbering) (k : Nat) :
    n.row k = (List.range' (n.used + 1) k).map n.identity := by
  induction k generalizing n with
  | zero => rfl
  | succ k ih =>
      rw [row, ih, List.range'_succ, List.map_cons]
      rfl

/-- A later state of a numbering. -/
structure Precedes (n n' : Numbering) : Prop where
  /-- It has the same stem. -/
  stem : n'.stem = n.stem
  /-- It has used up no fewer numbers. -/
  used : n.used ≤ n'.used

theorem Precedes.refl (n : Numbering) : n.Precedes n := ⟨rfl, Nat.le_refl _⟩

theorem Precedes.trans (h : n.Precedes n') (h' : n'.Precedes n'') :
    n.Precedes n'' :=
  ⟨h'.stem.trans h.stem, Nat.le_trans h.used h'.used⟩

theorem precedes_next (n : Numbering) : n.Precedes n.next.2 :=
  ⟨rfl, Nat.le_succ _⟩

theorem given_self (n : Numbering) : n.given n = [] := by
  rw [given, Nat.sub_self, row]

/-- What is taken is what was given out. -/
theorem given_next (n : Numbering) : n.given n.next.2 = [n.next.1] := by
  have hone : n.next.2.used - n.used = 1 := by simp [next]
  rw [given, hone, row, row]

/-- What is given out on a way is given out on its two parts. -/
theorem given_append (h : n.Precedes n') (h' : n'.Precedes n'') :
    n.given n'' = n.given n' ++ n'.given n'' := by
  have hid : n'.identity = n.identity := by
    funext k
    rw [identity, identity, h.stem]
  have hle := h.used
  have hle' := h'.used
  have hmid : n'.used + 1 = n.used + 1 + 1 * (n'.used - n.used) := by omega
  have hall : n''.used - n.used
      = (n'.used - n.used) + (n''.used - n'.used) := by omega
  simp only [given, row_eq]
  rw [hid, hmid, hall, ← List.map_append, List.range'_append]

/-- No identity is given out twice: the numbers of a row are different, and so
are their identities. -/
theorem nodup_given (n n' : Numbering) : (n.given n').Nodup := by
  rw [given, row_eq]
  exact (List.nodup_range').map n.identity_injective

-- =========================================================== supplying

/-- Identities that were given out between two states of a numbering, each of
them taken at most once. -/
structure Supplies (n n' : Numbering) (ids : List String) : Prop where
  /-- The second state is a later one. -/
  precedes : n.Precedes n'
  /-- The identities are some of those given out. -/
  taken : ids.Subperm (n.given n')

theorem supplies_nil (n : Numbering) : n.Supplies n [] :=
  ⟨.refl n, List.nil_subperm⟩

theorem Supplies.nodup (h : n.Supplies n' ids) : ids.Nodup := by
  obtain ⟨row, hperm, hsub⟩ := h.taken
  exact hperm.nodup_iff.mp ((n.nodup_given n').sublist hsub)

theorem Supplies.subset (h : n.Supplies n' ids) : ids ⊆ n.given n' :=
  h.taken.subset

/-- Identities may be left unused, and their order does not count. -/
theorem Supplies.mono (h : n.Supplies n' ids) (hids : ids'.Subperm ids) :
    n.Supplies n' ids' :=
  ⟨h.precedes, hids.trans h.taken⟩

/-- What is taken from one stretch of the numbering and from the next is taken
from both together. -/
theorem Supplies.append (h : n.Supplies n' ids) (h' : n'.Supplies n'' ids') :
    n.Supplies n'' (ids ++ ids') := by
  refine ⟨h.precedes.trans h'.precedes, ?_⟩
  rw [given_append h.precedes h'.precedes]
  exact h.taken.append h'.taken

/-- Numbers may be used up for nothing. -/
theorem Supplies.later (h : n.Supplies n' ids) (h' : n'.Precedes n'') :
    n.Supplies n'' ids := by
  have hmore := h.append ⟨h', List.nil_subperm⟩
  rwa [List.append_nil] at hmore

theorem supplies_next (n : Numbering) : n.Supplies n.next.2 [n.next.1] :=
  ⟨n.precedes_next, by rw [given_next]⟩

/-- One more identity is taken. -/
theorem Supplies.next (h : n.Supplies n' ids) :
    n.Supplies n'.next.2 (n'.next.1 :: ids) :=
  (h.append n'.supplies_next).mono
    (List.perm_append_singleton _ _).symm.subperm

end Numbering

-- =============================================================== makings

namespace Draft

/-- The identity of a statement; other drafts have none. -/
def identityOf (d : Draft) : List String :=
  match d.stmtKind?, d.get "id" with
  | some _, .ok (.text id) => [id]
  | _, _ => []

/-- What is made without an identity of its own. -/
theorem identityOf_make {k : RecordKind} (hk : k.isStmt = false)
    (given : List (String × Draft)) : (make k given).identityOf = [] := by
  cases k with
  | stmt k => cases hk
  | _ => rfl

/-- A statement has the identity that it was made with. -/
theorem identityOf_stmt (k : StmtKind) (id : String) (line : Draft)
    (own : List (String × Draft)) :
    (stmt k (.text id) line own).identityOf = [id] := by
  have hget : (stmt k (.text id) line own).get "id" = .ok (.text id) := by
    simp [stmt, make, RecordKind.fields, get, field?]
  have hkind : (stmt k (.text id) line own).stmtKind? = some k := rfl
  rw [identityOf, hkind, hget]

/-- What the result of a making has for an identity. -/
def identityMade : Except Fault Draft → List String
  | .ok d => d.identityOf
  | .error _ => []

/-- What a making does with the numbering: it takes one identity at most, and
what it makes has the one that it took. -/
structure Taking (n : Numbering) (made : Except Fault Draft × Numbering) :
    Prop where
  /-- Behind a making the numbering is in a later state. -/
  precedes : n.Precedes made.2
  /-- No more than one identity is taken. -/
  single : (n.given made.2).length ≤ 1
  /-- What is made has what was taken, and nothing else does. -/
  given : ∀ d, made.1 = .ok d → n.given made.2 = d.identityOf

/-- The identity of what is made was taken for it. -/
theorem Taking.supplied {n : Numbering} {made : Except Fault Draft × Numbering}
    (h : Taking n made) : n.Supplies made.2 (identityMade made.1) := by
  refine ⟨h.precedes, ?_⟩
  cases hmade : made.1 with
  | ok d =>
      rw [h.given d hmade]
      exact .refl _
  | error e => exact List.nil_subperm

/-- A making that is refused and has left the numbering alone. -/
theorem taking_error (n : Numbering) (e : Fault) :
    Taking n (.error e, n) where
  precedes := .refl n
  single := by rw [n.given_self]; exact Nat.zero_le _
  given := nofun

/-- What is made without taking an identity. -/
theorem taking_bare {n : Numbering} {r : Except Fault Draft}
    (h : ∀ d, r = .ok d → d.identityOf = []) : Taking n (r, n) where
  precedes := .refl n
  single := by rw [n.given_self]; exact Nat.zero_le _
  given := fun d hd => (n.given_self).trans (h d hd).symm

/-- A making that takes an identity once it has looked at its arguments. What
is refused before that uses up none, and what is refused later uses up one. -/
theorem taking_withIdentity {α : Type} (n : Numbering) (before : Except Fault α)
    {rest : α → Draft → Except Fault Draft}
    (h : ∀ a id d, rest a (.text id) = .ok d → d.identityOf = [id]) :
    Taking n (withIdentity n before rest) := by
  cases before with
  | error e => exact taking_error n e
  | ok a =>
      exact ⟨n.precedes_next, by rw [withIdentity, n.given_next]; exact Nat.le_refl _,
        fun d hd => n.given_next.trans (h a _ d hd).symm⟩

section

variable {α : Type} (n : Numbering)

/-- A statement whose own fields are looked for behind the identity. -/
theorem taking_tagged (k : StmtKind) (line : Draft)
    (own : Except Fault (List (String × Draft))) :
    Taking n
      (withIdentity n (.ok ()) fun _ id => own.map (stmt k id line)) := by
  refine taking_withIdentity n _ fun _ id d h => ?_
  obtain ⟨fields, -, rfl⟩ := map_eq_ok.mp h
  exact identityOf_stmt k id line fields

/-- A statement that nothing refuses once it has its identity. -/
theorem taking_sure (before : Except Fault α) (k : StmtKind) (line : Draft)
    (own : α → List (String × Draft)) :
    Taking n
      (withIdentity n before fun a id => .ok (stmt k id line (own a))) := by
  refine taking_withIdentity n before fun a id d h => ?_
  obtain rfl := Except.ok.inj h
  exact identityOf_stmt k id line (own a)

/-- A statement that a last look behind the identity may refuse. -/
theorem taking_look {β : Type} (before : Except Fault α) (look : Except Fault β)
    (k : StmtKind) (line : Draft) (own : α → β → List (String × Draft)) :
    Taking n (withIdentity n before fun a id => do
      let b ← look
      pure (stmt k id line (own a b))) := by
  refine taking_withIdentity n before fun a id d h => ?_
  obtain ⟨b, -, hb⟩ := bind_eq_ok.mp h
  obtain rfl := Except.ok.inj hb
  exact identityOf_stmt k id line (own a b)

/-- A record that is no statement. -/
theorem taking_record {k : RecordKind} (hk : k.isStmt = false)
    (look : Except Fault α) (own : α → List (String × Draft)) :
    Taking n (do
      let a ← look
      pure (make k (own a)), n) := by
  refine taking_bare fun d h => ?_
  obtain ⟨a, -, ha⟩ := bind_eq_ok.mp h
  obtain rfl := Except.ok.inj ha
  exact identityOf_make hk (own a)

end

/-- Whatever is made takes one identity at most, and a statement that is made
has it. -/
theorem taking_construct (now : Timestamp) (n : Numbering) (maker : String)
    (get : String → Draft) : Taking n (construct now n maker get) := by
  unfold construct
  split
  -- a word that is no way of making anything
  case h_24 => exact taking_error n _
  all_goals first
    | exact taking_tagged n _ _ _
    | exact taking_sure n _ _ _ _
    | exact taking_look n _ _ _ _ _
    | exact taking_record n rfl _ _

/-- Every way of making something takes one identity at most. -/
theorem taking_build (now : Timestamp) (n : Numbering) (maker : String)
    (row : List Draft) (byName : List (String × Draft)) :
    Taking n (build now n maker row byName) := by
  unfold build
  cases makers.lookup maker with
  | none => exact taking_error n _
  | some ps =>
      dsimp only
      cases bind ps row byName with
      | error e => exact taking_error n e
      | ok given => exact taking_construct now n maker _

end Draft

end NovelScript
