/-
Brackets as a grammar. A balanced run is a row of plain characters, literals and
groups, and a group is a bracket, a balanced run and the closer of the bracket.
The search for a closing bracket knows nothing of this: it keeps a stack of
closers, the quote of the literal it is in, and steps over whatever stands
behind a backslash.

# From the grammar to the search

A balanced run takes the walk of `Bracket` back to where it began, whatever is
awaited there. This is an induction over the run, one case for each constructor.

# From the search to the grammar

A walk that ends where nothing is awaited any more has passed, for each closer
that was awaited when it set out, one balanced run and this closer (`Closing`).
Here the induction is on the text, and the stack at its beginning is the number
of runs that are still to come; that is why the statement is about any stack.

So the text up to the place that the search finds is a group, and it is the only
group that begins there; where the search gives up, at a closer that is not the
one awaited or at the end of the text, none begins (`finds_group`).
-/
import NovelScript.Proofs.Text.Bracket
import NovelScript.Proofs.Text.Literal

namespace NovelScript.Text

open Mode

-- ========================================================== the grammar

/-- What stands between the quotes of a literal: a backslash hides whatever
comes next. -/
inductive Enclosed (q : Char) : List Char → Prop where
  /-- Nothing. -/
  | nil : Enclosed q []
  /-- A character that stands for itself. -/
  | plain {c : Char} {cs : List Char} (hq : c ≠ q) (hc : c ≠ '\\')
      (h : Enclosed q cs) : Enclosed q (c :: cs)
  /-- A backslash and what it hides. -/
  | hidden {c : Char} {cs : List Char} (h : Enclosed q cs) :
      Enclosed q ('\\' :: c :: cs)

/-- A balanced run. -/
inductive BalancedRun : List Char → Prop where
  /-- Nothing. -/
  | nil : BalancedRun []
  /-- A character that is neither a quote nor a bracket. -/
  | plain {c : Char} {cs : List Char} (hc : isPlain c = true)
      (h : BalancedRun cs) : BalancedRun (c :: cs)
  /-- A literal in quotes of either kind. -/
  | literal {q : Char} {inside cs : List Char} (hq : isQuote q = true)
      (hi : Enclosed q inside) (h : BalancedRun cs) :
      BalancedRun (q :: inside ++ q :: cs)
  /-- A bracket, a balanced run, and its closer. -/
  | group {o k : Char} {inner cs : List Char} (ho : closerOf? o = some k)
      (hi : BalancedRun inner) (h : BalancedRun cs) :
      BalancedRun (o :: inner ++ k :: cs)

/-- A group: a bracket, a balanced run, and its closer. -/
inductive Group : List Char → Prop where
  /-- The brackets with what stands between them. -/
  | mk {o k : Char} {inner : List Char} (ho : closerOf? o = some k)
      (hi : BalancedRun inner) : Group (o :: inner ++ [k])

theorem BalancedRun.append {as bs : List Char} (ha : BalancedRun as)
    (hb : BalancedRun bs) : BalancedRun (as ++ bs) := by
  induction ha with
  | nil => exact hb
  | plain hc _ ih => exact .plain hc ih
  | literal hq hi _ ih =>
      rw [List.append_assoc, List.cons_append]
      exact .literal hq hi ih
  | group ho hi _ _ ih =>
      rw [List.append_assoc, List.cons_append]
      exact .group ho hi ih

/-- A group is a balanced run. -/
theorem Group.balancedRun {g : List Char} (h : Group g) : BalancedRun g := by
  obtain ⟨ho, hi⟩ := h
  exact .group ho hi .nil

-- ==================================================== a run takes it back

theorem step_quote {q : Char} (aw : List Char) (hq : isQuote q = true) :
    (out aw).step q = some (inside aw q) := by
  simp [step, hq]

theorem step_opener {o k : Char} (aw : List Char)
    (ho : closerOf? o = some k) :
    (out aw).step o = some (out (k :: aw)) := by
  simp [step, (closerOf?_eq_some ho).1, ho]

theorem step_closer {o k : Char} (aw : List Char)
    (ho : closerOf? o = some k) :
    (out (k :: aw)).step k = some (out aw) := by
  obtain ⟨-, hq, hopen, hclose⟩ := closerOf?_eq_some ho
  simp [step, hq, hopen, hclose]

theorem step_plain {c : Char} (aw : List Char) (hc : isPlain c = true) :
    (out aw).step c = some (out aw) := by
  obtain ⟨hq, hopen, hclose⟩ := isPlain_iff.mp hc
  simp [step, hq, hopen, hclose]

/-- A walk leaves a literal at its end. -/
theorem Enclosed.run {q : Char} {inside : List Char} (h : Enclosed q inside)
    (hq : q ≠ '\\') (aw rest : List Char) :
    run (.inside aw q) (inside ++ q :: rest) = run (out aw) rest := by
  induction h with
  | nil =>
      rw [List.nil_append, Mode.run, step, if_neg hq, if_pos rfl]
      rfl
  | plain hne hc _ ih =>
      rw [List.cons_append, Mode.run, step, if_neg hc, if_neg hne]
      exact ih
  | hidden _ ih =>
      rw [List.cons_append, List.cons_append, Mode.run, step, if_pos rfl]
      exact ih

/-- Behind a balanced run, a walk awaits what it awaited before. -/
theorem BalancedRun.run {cs : List Char} (h : BalancedRun cs)
    (aw rest : List Char) : run (out aw) (cs ++ rest) = run (out aw) rest := by
  induction h generalizing aw rest with
  | nil => rfl
  | plain hc _ ih =>
      rw [List.cons_append, Mode.run, step_plain aw hc]
      exact ih aw rest
  | literal hq hi _ ih =>
      rw [List.append_assoc, List.cons_append, List.cons_append, Mode.run,
        step_quote aw hq, Option.bind_some,
        hi.run (ne_backslash_of_isQuote hq)]
      exact ih aw rest
  | @group o k inner cs ho _ _ ihi ih =>
      rw [List.append_assoc, List.cons_append, List.cons_append, Mode.run,
        step_opener aw ho, Option.bind_some, ihi, Mode.run,
        step_closer aw ho]
      exact ih aw rest

-- ================================================= a walk that is done

/-- A text that closes what is awaited: a balanced run, and behind it, for
each closer in turn, this closer and another balanced run. -/
def Closing : List Char → List Char → Prop
  | [], cs => BalancedRun cs
  | k :: aw, cs =>
    ∃ inner rest, cs = inner ++ k :: rest ∧ BalancedRun inner
      ∧ Closing aw rest

/-- A text that is left to a walk which has come to its end: in a literal,
the rest of the literal comes first. -/
def Mode.Completes : Mode → List Char → Prop
  | out aw, cs => Closing aw cs
  | inside aw q, cs =>
    ∃ i rest, cs = i ++ q :: rest ∧ Enclosed q i ∧ Closing aw rest
  | hidden aw q, cs =>
    ∃ i rest, cs = i ++ q :: rest ∧ Enclosed q ('\\' :: i)
      ∧ Closing aw rest

/-- A balanced run may stand in front of what closes the rest. -/
theorem Closing.behind {as aw cs : List Char} (ha : BalancedRun as)
    (h : Closing aw cs) : Closing aw (as ++ cs) := by
  cases aw with
  | nil => exact ha.append h
  | cons k aw =>
      obtain ⟨inner, rest, rfl, hi, hrest⟩ := h
      exact ⟨as ++ inner, rest, by rw [List.append_assoc], ha.append hi,
        hrest⟩

/-- What is left to a walk that comes to its end closes what it awaits. -/
theorem completes_of_run {m : Mode} {cs : List Char} (hm : m.Quoted)
    (h : run m cs = some (out [])) : m.Completes cs := by
  induction cs generalizing m with
  | nil =>
      obtain rfl := Option.some.inj h
      exact BalancedRun.nil
  | cons c cs ih =>
      obtain ⟨m', hstep, hrest⟩ := Option.bind_eq_some_iff.mp h
      have hc := ih (hm.step hstep) hrest
      cases m with
      | out aw =>
          rcases step_out hstep with ⟨hq, rfl⟩ | ⟨k, ho, rfl⟩
            | ⟨more, -, rfl, rfl⟩ | ⟨hplain, rfl⟩
          · -- The literal that begins here stands in front of what follows.
            obtain ⟨i, rest, rfl, hi, hclosing⟩ := hc
            have hliteral : BalancedRun (c :: i ++ [c]) :=
              .literal hq hi .nil
            show Closing aw (c :: (i ++ c :: rest))
            simpa using hclosing.behind hliteral
          · -- The group that begins here ends with the first closer.
            obtain ⟨inner, rest, rfl, hi, hclosing⟩ := hc
            show Closing aw (c :: (inner ++ k :: rest))
            simpa using hclosing.behind (Group.mk ho hi).balancedRun
          · exact ⟨[], cs, rfl, .nil, hc⟩
          · have hone : BalancedRun [c] := .plain hplain .nil
            exact hc.behind hone
      | inside aw q =>
          rcases step_inside hstep with ⟨rfl, rfl⟩ | ⟨-, rfl, rfl⟩
            | ⟨hslash, hq, rfl⟩
          · obtain ⟨i, rest, rfl, hi, hclosing⟩ := hc
            exact ⟨'\\' :: i, rest, rfl, hi, hclosing⟩
          · exact ⟨[], cs, rfl, .nil, hc⟩
          · obtain ⟨i, rest, rfl, hi, hclosing⟩ := hc
            exact ⟨c :: i, rest, rfl, .plain hq hslash hi, hclosing⟩
      | hidden aw q =>
          obtain rfl := Option.some.inj hstep
          obtain ⟨i, rest, rfl, hi, hclosing⟩ := hc
          exact ⟨c :: i, rest, rfl, .hidden hi, hclosing⟩

/-- What the walk finds balanced are the balanced runs. -/
theorem balanced_iff {cs : List Char} : Balanced cs ↔ BalancedRun cs := by
  constructor
  · intro h
    exact completes_of_run (m := out []) trivial h
  · intro h
    have hrun := h.run [] []
    rwa [List.append_nil] at hrun

-- =========================================================== the search

/-- The search finds the end of the group that a text begins with. -/
theorem closing?_eq_some {cs : List Char} {n : Nat}
    (hopen : ∃ o ∈ cs.head?, (closerOf? o).isSome = true) :
    closing? cs = some n ↔ n < cs.length ∧ Group (cs.take (n + 1)) := by
  obtain ⟨o, ho, hk⟩ := hopen
  obtain ⟨k, hk⟩ := Option.isSome_iff_exists.mp hk
  cases cs with
  | nil => cases ho
  | cons c cs =>
      obtain rfl : c = o := by simpa using ho
      rw [closing?_opened hk]
      constructor
      · rintro ⟨inner, rest, rfl, rfl, hi⟩
        have htake : (c :: (inner ++ k :: rest)).take (inner.length + 1 + 1)
            = c :: inner ++ [k] := by
          rw [List.take_succ_cons, List.take_length_add_append]
          rfl
        rw [htake]
        exact ⟨by simp, .mk hk (balanced_iff.mp hi)⟩
      · rintro ⟨hn, hgroup⟩
        generalize htake : (c :: cs).take (n + 1) = g at hgroup
        obtain @⟨o, k', inner, ho', hi⟩ := hgroup
        rw [List.take_succ_cons, List.cons_append] at htake
        obtain ⟨rfl, hfront⟩ := List.cons.inj htake
        obtain rfl := Option.some.inj (hk.symm.trans ho')
        refine ⟨inner, cs.drop n, ?_, ?_, balanced_iff.mpr hi⟩
        · rw [← List.singleton_append, ← List.append_assoc, ← hfront,
            List.take_append_drop]
        · have hlength := congrArg List.length hfront
          simp only [List.length_take, List.length_append, List.length_cons,
            List.length_nil] at hlength hn
          omega

/-- The text that is read from a place on. A negative place counts from the
end, and behind the end the text comes once more. -/
def readFrom (cs : List Char) (start : Int) : List Char :=
  if start < 0 then cs.drop (cs.length - start.natAbs) ++ cs
  else cs.drop start.toNat

/-- The characters from one place up to another one, both included. -/
def between (cs : List Char) (start stop : Int) : List Char :=
  (readFrom cs start).take (stop + 1 - start).toNat

theorem matchingBracket?_eq (cs : List Char) (start : Int) :
    matchingBracket? cs start
      = (closing? (readFrom cs start)).map fun n : Nat => start + (n : Int) := by
  have hmap : ∀ found : Option Nat,
      Option.map (fun n => start + n) (do let n ← found; pure (n : Int))
        = found.map fun n : Nat => start + (n : Int) := by
    intro found
    cases found <;> rfl
  exact hmap (closing? (readFrom cs start))

theorem length_readFrom {cs : List Char} {start : Int}
    (hlow : -(cs.length : Int) ≤ start) (hhigh : start ≤ cs.length) :
    ((readFrom cs start).length : Int) = cs.length - start := by
  unfold readFrom
  split
  · rw [List.length_append, List.length_drop]
    omega
  · rw [List.length_drop]
    omega

theorem lt_length_of_readFrom {cs : List Char} {start : Int} {c : Char}
    (h : c ∈ (readFrom cs start).head?) : start < cs.length := by
  by_contra hle
  have hnil : readFrom cs start = [] := by
    rw [readFrom, if_neg (by omega), List.drop_eq_nil_iff]
    omega
  rw [hnil] at h
  cases h

/-- From a bracket on, the search for its closer finds the one place up to
which the text is a group, and finds nothing if there is no such place. -/
theorem finds_group {cs : List Char} {start : Int}
    (hlow : -(cs.length : Int) ≤ start)
    (hopen : ∃ o ∈ (readFrom cs start).head?,
      (closerOf? o).isSome = true) :
    (∀ stop : Int, matchingBracket? cs start = some stop
        ↔ start ≤ stop ∧ stop < cs.length ∧ Group (between cs start stop))
      ∧ (matchingBracket? cs start = none
        ↔ ¬ ∃ stop : Int, start ≤ stop ∧ stop < cs.length
            ∧ Group (between cs start stop)) := by
  have hlength := length_readFrom hlow
    (hopen.elim fun o ho => Int.le_of_lt (lt_length_of_readFrom ho.1))
  have hfound : ∀ stop : Int, matchingBracket? cs start = some stop
      ↔ start ≤ stop ∧ stop < cs.length
          ∧ Group (between cs start stop) := by
    intro stop
    rw [matchingBracket?_eq, Option.map_eq_some_iff]
    constructor
    · rintro ⟨n, hn, rfl⟩
      obtain ⟨hlt, hgroup⟩ := (closing?_eq_some hopen).mp hn
      refine ⟨by omega, by omega, ?_⟩
      rw [between, show (start + n + 1 - start).toNat = n + 1 by omega]
      exact hgroup
    · rintro ⟨hstart, hstop, hgroup⟩
      refine ⟨(stop - start).toNat, ?_, by omega⟩
      refine (closing?_eq_some hopen).mpr ⟨by omega, ?_⟩
      rw [between, show (stop + 1 - start).toNat
        = (stop - start).toNat + 1 by omega] at hgroup
      exact hgroup
  refine ⟨hfound, ?_⟩
  rw [Option.eq_none_iff_forall_ne_some, not_exists]
  exact forall_congr' fun stop => not_congr (hfound stop)

/-- A closer in a literal and two kinds of brackets; and two brackets that
are closed in the wrong order. -/
theorem finds_group_nested :
    (-11 ≤ (1 : Int)
        ∧ matchingBracket?
            ['f', '(', '[', '\'', ')', '\'', ']', ',', 'a', ')', ')'] 1 = some 9
        ∧ Group (between
            ['f', '(', '[', '\'', ')', '\'', ']', ',', 'a', ')', ')'] 1 9))
      ∧ (-4 ≤ (0 : Int) ∧ matchingBracket? ['(', '[', ')', ']'] 0 = none
        ∧ ¬ ∃ stop : Int, 0 ≤ stop ∧ stop < 4
            ∧ Group (between ['(', '[', ')', ']'] 0 stop)) := by
  have hfound : matchingBracket?
      ['f', '(', '[', '\'', ')', '\'', ']', ',', 'a', ')', ')'] 1 = some 9 := by
    decide
  have hnone : matchingBracket? ['(', '[', ')', ']'] 0 = none := by decide
  have hgroup := @finds_group
    ['f', '(', '[', '\'', ')', '\'', ']', ',', 'a', ')', ')'] 1
    (by decide) ⟨'(', rfl, by decide⟩
  have hcross := @finds_group ['(', '[', ')', ']'] 0
    (by decide) ⟨'(', rfl, by decide⟩
  exact ⟨⟨by decide, hfound, ((hgroup.1 9).mp hfound).2.2⟩,
    by decide, hnone, hcross.2.mp hnone⟩

end NovelScript.Text
