/-
What kind of relation the comparison of scripts is. Everything is read off the
normal forms (`Proofs/Draft/Normal`): two scripts are compared as the same if
their normal forms are the same tree up to a relation `R` between simple
statements.

# What a tree inherits

* Being the same is symmetric if `R` is (`Stmt.sameAll_symm`).
* A script is the same as itself if each of its simple statements is in relation
  to itself (`Stmt.sameAll_self`), which is asked at the leaves only.
* It is equality where `R` is equality at the leaves on the left
  (`Stmt.eq_of_sameAll`).

Each is an induction over two trees at a time, and none of them looks into a
simple statement.

# What numbers spoil

The relation between simple statements is equality up to near numbers. Nearness
is symmetric, and a number is near itself unless it is none; but it is not
transitive. So the comparison is reflexive on scripts without such numbers, and
transitive where the numbers are away: a simple statement without numbers is
only near itself (`Near.eq`).
-/
import Mathlib.Algebra.Group.Nat.Defs
import NovelScript.Proofs.Draft.Normal

namespace NovelScript

-- ======================================================== simple statements

theorem OptNear.symm {o o' : Option Number} (h : OptNear o o') :
    OptNear o' o := by
  cases h with
  | some h => exact .some h.symm
  | none => exact .none

theorem optNear_self {o : Option Number}
    (h : ∀ n ∈ o.toList, Number.Near n n) : OptNear o o := by
  cases o with
  | none => exact .none
  | some n => exact .some (h n (List.mem_singleton_self n))

/-- What a number that may be absent is near to is near itself. -/
theorem OptNear.self_right {o o' : Option Number} (h : OptNear o o') :
    OptNear o' o' := by
  cases h with
  | some h => exact .some h.self_right
  | none => exact .none

/-- What is absent is only near to what is absent. The condition says that there
is no number, in the form in which simple statements have it. -/
theorem OptNear.eq {o o' : Option Number} (ho : ∀ n ∈ o.toList, False)
    (h : OptNear o o') : o = o' := by
  cases h with
  | none => rfl
  | some h => exact (ho _ (List.mem_singleton_self _)).elim

namespace Simple

theorem Near.symm {s s' : Simple} (h : s.Near s') : s'.Near s := by
  cases Draft.oneKind_of_eq (Draft.kind_eq_of_near h) with
  | display verb image image' o o' =>
      obtain ⟨-, himage, hclauses, hzorder⟩ := h
      exact ⟨rfl, himage.symm, hclauses.symm, hzorder.symm⟩
  | play channel channel' file file' o o' =>
      obtain ⟨hchannel, hfile, hin, hout, hvolume, hflags⟩ := h
      exact ⟨hchannel.symm, hfile.symm, hin.symm, hout.symm, hvolume.symm,
        hflags.1.symm, hflags.2.1.symm, hflags.2.2.symm⟩
  | stop channel channel' fadeOut fadeOut' => exact ⟨h.1.symm, h.2.symm⟩
  | pause duration duration' => exact OptNear.symm h
  | _ => exact Eq.symm h

/-- A simple statement is near itself if its numbers are. -/
theorem near_self {s : Simple} (h : ∀ n ∈ s.numbers, Number.Near n n) :
    s.Near s := by
  cases s with
  | display verb image o => exact ⟨rfl, rfl, rfl, optNear_self h⟩
  | play channel file o =>
      simp only [numbers, List.forall_mem_append] at h
      exact ⟨rfl, rfl, optNear_self h.1.1, optNear_self h.1.2,
        optNear_self h.2, rfl, rfl, rfl⟩
  | stop channel fadeOut => exact ⟨rfl, optNear_self h⟩
  | pause duration => exact optNear_self h
  | _ => exact Eq.refl _

/-- What a simple statement is near to is near itself. -/
theorem Near.self_right {s s' : Simple} (h : s.Near s') : s'.Near s' := by
  cases Draft.oneKind_of_eq (Draft.kind_eq_of_near h) with
  | display verb image image' o o' =>
      exact ⟨rfl, rfl, rfl, OptNear.self_right h.2.2.2⟩
  | play channel channel' file file' o o' =>
      obtain ⟨-, -, hin, hout, hvolume, -⟩ := h
      exact ⟨rfl, rfl, hin.self_right, hout.self_right, hvolume.self_right,
        rfl, rfl, rfl⟩
  | stop channel channel' fadeOut fadeOut' => exact ⟨rfl, h.2.self_right⟩
  | pause duration duration' => exact OptNear.self_right h
  | _ => exact Eq.refl _

theorem numbers_normal (s : Simple) : s.normal.numbers = s.numbers := by
  cases s <;> rfl

/-- A simple statement without numbers is only near itself. This is what makes
the comparison transitive where the numbers are away. -/
theorem Near.eq {s s' : Simple} (hs : ∀ n ∈ s.numbers, False)
    (h : s.Near s') : s = s' := by
  cases Draft.oneKind_of_eq (Draft.kind_eq_of_near h) with
  | display verb image image' o o' =>
      obtain ⟨-, rfl, hclauses, hzorder⟩ := h
      have hz : o.zorder = o'.zorder :=
        Option.map_injective (fun _ _ => Number.int.inj) (OptNear.eq hs hzorder)
      cases o
      cases o'
      simp_all
  | play channel channel' file file' o o' =>
      obtain ⟨rfl, rfl, hin, hout, hvolume, hloop, hqueue, hchanged⟩ := h
      simp only [numbers, List.forall_mem_append] at hs
      have hin := OptNear.eq hs.1.1 hin
      have hout := OptNear.eq hs.1.2 hout
      have hvolume := OptNear.eq hs.2 hvolume
      cases o
      cases o'
      simp_all
  | stop channel channel' fadeOut fadeOut' =>
      rw [h.1, OptNear.eq hs h.2]
  | pause duration duration' => rw [OptNear.eq hs h]
  | _ => exact h

end Simple

-- ============================================================ same trees

section

variable {R : Simple → Simple → Prop}

mutual

theorem Stmt.same_symm (hR : ∀ s s', R s s' → R s' s) :
    ∀ s t : Stmt, Stmt.Same R s t → Stmt.Same R t s
  | .simple _ s, t, h => by
      cases t with
      | simple _ s' => exact ⟨h.1.symm, hR s s' h.2⟩
      | _ => exact h.elim
  | .label _ _ _ body, t, h => by
      cases t with
      | label _ _ _ body' =>
          obtain ⟨htag, hname, hps, hbody⟩ := h
          exact ⟨htag.symm, hname.symm, hps.symm,
            Stmt.sameAll_symm hR body body' hbody⟩
      | _ => exact h.elim
  | .menu _ _ choices, t, h => by
      cases t with
      | menu _ _ choices' =>
          obtain ⟨htag, hhead, hchoices⟩ := h
          exact ⟨htag.symm, hhead.symm,
            Choice.sameAll_symm hR choices choices' hchoices⟩
      | _ => exact h.elim
  | .conditional _ branches, t, h => by
      cases t with
      | conditional _ branches' =>
          exact ⟨h.1.symm, Branch.sameAll_symm hR branches branches' h.2⟩
      | _ => exact h.elim

theorem Stmt.sameAll_symm (hR : ∀ s s', R s s' → R s' s) :
    ∀ ss ts : List Stmt, Stmt.SameAll R ss ts → Stmt.SameAll R ts ss
  | [], ts, h => by
      cases ts with
      | nil => exact h
      | cons _ _ => exact h.elim
  | s :: ss, ts, h => by
      cases ts with
      | nil => exact h.elim
      | cons t ts =>
          exact ⟨Stmt.same_symm hR s t h.1, Stmt.sameAll_symm hR ss ts h.2⟩

theorem Choice.sameAll_symm (hR : ∀ s s', R s s' → R s' s) :
    ∀ cs ds : List Choice, Choice.SameAll R cs ds → Choice.SameAll R ds cs
  | [], ds, h => by
      cases ds with
      | nil => exact h
      | cons _ _ => exact h.elim
  | .mk _ _ _ body :: cs, ds, h => by
      cases ds with
      | nil => exact h.elim
      | cons d ds =>
          obtain ⟨_, _, _, body'⟩ := d
          obtain ⟨htext, hcondition, hline, hbody, hmore⟩ := h
          exact ⟨htext.symm, hcondition.symm, hline.symm,
            Stmt.sameAll_symm hR body body' hbody,
            Choice.sameAll_symm hR cs ds hmore⟩

theorem Branch.sameAll_symm (hR : ∀ s s', R s s' → R s' s) :
    ∀ as bs : List Branch, Branch.SameAll R as bs → Branch.SameAll R bs as
  | [], bs, h => by
      cases bs with
      | nil => exact h
      | cons _ _ => exact h.elim
  | .mk _ _ body :: as, bs, h => by
      cases bs with
      | nil => exact h.elim
      | cons b bs =>
          obtain ⟨_, _, body'⟩ := b
          obtain ⟨hcondition, hline, hbody, hmore⟩ := h
          exact ⟨hcondition.symm, hline.symm,
            Stmt.sameAll_symm hR body body' hbody,
            Branch.sameAll_symm hR as bs hmore⟩

end

mutual

/-- A statement is the same as itself if its simple statements are. -/
theorem Stmt.same_self : ∀ s : Stmt, s.Leaves (fun s => R s s) → Stmt.Same R s s
  | .simple _ _, h => ⟨rfl, h⟩
  | .label _ _ _ body, h => ⟨rfl, rfl, rfl, Stmt.sameAll_self body h⟩
  | .menu _ _ choices, h => ⟨rfl, rfl, Choice.sameAll_self choices h⟩
  | .conditional _ branches, h => ⟨rfl, Branch.sameAll_self branches h⟩

theorem Stmt.sameAll_self : ∀ ss : List Stmt,
    Stmt.LeavesAll (fun s => R s s) ss → Stmt.SameAll R ss ss
  | [], _ => trivial
  | s :: ss, h => ⟨Stmt.same_self s h.1, Stmt.sameAll_self ss h.2⟩

theorem Choice.sameAll_self : ∀ cs : List Choice,
    Choice.LeavesAll (fun s => R s s) cs → Choice.SameAll R cs cs
  | [], _ => trivial
  | .mk _ _ _ body :: cs, h =>
      ⟨rfl, rfl, rfl, Stmt.sameAll_self body h.1, Choice.sameAll_self cs h.2⟩

theorem Branch.sameAll_self : ∀ bs : List Branch,
    Branch.LeavesAll (fun s => R s s) bs → Branch.SameAll R bs bs
  | [], _ => trivial
  | .mk _ _ body :: bs, h =>
      ⟨rfl, rfl, Stmt.sameAll_self body h.1, Branch.sameAll_self bs h.2⟩

end

mutual

/-- Of the same statements, each simple statement on the right has its
counterpart. -/
theorem Stmt.leaves_of_same : ∀ s t : Stmt, Stmt.Same R s t →
    t.Leaves fun u => ∃ u', R u' u
  | .simple _ s, t, h => by
      cases t with
      | simple _ s' => exact ⟨s, h.2⟩
      | _ => exact h.elim
  | .label _ _ _ body, t, h => by
      cases t with
      | label _ _ _ body' => exact Stmt.leavesAll_of_sameAll body body' h.2.2.2
      | _ => exact h.elim
  | .menu _ _ choices, t, h => by
      cases t with
      | menu _ _ choices' =>
          exact Choice.leavesAll_of_sameAll choices choices' h.2.2
      | _ => exact h.elim
  | .conditional _ branches, t, h => by
      cases t with
      | conditional _ branches' =>
          exact Branch.leavesAll_of_sameAll branches branches' h.2
      | _ => exact h.elim

theorem Stmt.leavesAll_of_sameAll : ∀ ss ts : List Stmt,
    Stmt.SameAll R ss ts → Stmt.LeavesAll (fun u => ∃ u', R u' u) ts
  | [], ts, h => by
      cases ts with
      | nil => trivial
      | cons _ _ => exact h.elim
  | s :: ss, ts, h => by
      cases ts with
      | nil => trivial
      | cons t ts =>
          exact ⟨Stmt.leaves_of_same s t h.1,
            Stmt.leavesAll_of_sameAll ss ts h.2⟩

theorem Choice.leavesAll_of_sameAll : ∀ cs ds : List Choice,
    Choice.SameAll R cs ds → Choice.LeavesAll (fun u => ∃ u', R u' u) ds
  | [], ds, h => by
      cases ds with
      | nil => trivial
      | cons _ _ => exact h.elim
  | .mk _ _ _ body :: cs, ds, h => by
      cases ds with
      | nil => trivial
      | cons d ds =>
          obtain ⟨_, _, _, body'⟩ := d
          obtain ⟨-, -, -, hbody, hmore⟩ := h
          exact ⟨Stmt.leavesAll_of_sameAll body body' hbody,
            Choice.leavesAll_of_sameAll cs ds hmore⟩

theorem Branch.leavesAll_of_sameAll : ∀ as bs : List Branch,
    Branch.SameAll R as bs → Branch.LeavesAll (fun u => ∃ u', R u' u) bs
  | [], bs, h => by
      cases bs with
      | nil => trivial
      | cons _ _ => exact h.elim
  | .mk _ _ body :: as, bs, h => by
      cases bs with
      | nil => trivial
      | cons b bs =>
          obtain ⟨_, _, body'⟩ := b
          obtain ⟨-, -, hbody, hmore⟩ := h
          exact ⟨Stmt.leavesAll_of_sameAll body body' hbody,
            Branch.leavesAll_of_sameAll as bs hmore⟩

end

mutual

/-- The same statements are equal if the simple statements in them are. -/
theorem Stmt.eq_of_same : ∀ s t : Stmt,
    s.Leaves (fun s => ∀ s', R s s' → s = s') → Stmt.Same R s t → s = t
  | .simple _ s, t, hs, h => by
      cases t with
      | simple _ s' => rw [h.1, hs s' h.2]
      | _ => exact h.elim
  | .label _ _ _ body, t, hs, h => by
      cases t with
      | label _ _ _ body' =>
          obtain ⟨htag, hname, hps, hbody⟩ := h
          rw [htag, hname, hps, Stmt.eq_of_sameAll body body' hs hbody]
      | _ => exact h.elim
  | .menu _ _ choices, t, hs, h => by
      cases t with
      | menu _ _ choices' =>
          obtain ⟨htag, hhead, hchoices⟩ := h
          rw [htag, hhead, Choice.eq_of_sameAll choices choices' hs hchoices]
      | _ => exact h.elim
  | .conditional _ branches, t, hs, h => by
      cases t with
      | conditional _ branches' =>
          rw [h.1, Branch.eq_of_sameAll branches branches' hs h.2]
      | _ => exact h.elim

theorem Stmt.eq_of_sameAll : ∀ ss ts : List Stmt,
    Stmt.LeavesAll (fun s => ∀ s', R s s' → s = s') ss →
      Stmt.SameAll R ss ts → ss = ts
  | [], ts, _, h => by
      cases ts with
      | nil => rfl
      | cons _ _ => exact h.elim
  | s :: ss, ts, hs, h => by
      cases ts with
      | nil => exact h.elim
      | cons t ts =>
          rw [Stmt.eq_of_same s t hs.1 h.1, Stmt.eq_of_sameAll ss ts hs.2 h.2]

theorem Choice.eq_of_sameAll : ∀ cs ds : List Choice,
    Choice.LeavesAll (fun s => ∀ s', R s s' → s = s') cs →
      Choice.SameAll R cs ds → cs = ds
  | [], ds, _, h => by
      cases ds with
      | nil => rfl
      | cons _ _ => exact h.elim
  | .mk _ _ _ body :: cs, ds, hs, h => by
      cases ds with
      | nil => exact h.elim
      | cons d ds =>
          obtain ⟨_, _, _, body'⟩ := d
          obtain ⟨htext, hcondition, hline, hbody, hmore⟩ := h
          rw [htext, hcondition, hline,
            Stmt.eq_of_sameAll body body' hs.1 hbody,
            Choice.eq_of_sameAll cs ds hs.2 hmore]

theorem Branch.eq_of_sameAll : ∀ as bs : List Branch,
    Branch.LeavesAll (fun s => ∀ s', R s s' → s = s') as →
      Branch.SameAll R as bs → as = bs
  | [], bs, _, h => by
      cases bs with
      | nil => rfl
      | cons _ _ => exact h.elim
  | .mk _ _ body :: as, bs, hs, h => by
      cases bs with
      | nil => exact h.elim
      | cons b bs =>
          obtain ⟨_, _, body'⟩ := b
          obtain ⟨hcondition, hline, hbody, hmore⟩ := h
          rw [hcondition, hline, Stmt.eq_of_sameAll body body' hs.1 hbody,
            Branch.eq_of_sameAll as bs hs.2 hmore]

end

end

-- ========================================================== normal forms

section

variable {P : Simple → Prop}

theorem Stmt.LeavesAll.withoutPass {ss : List Stmt} (h : Stmt.LeavesAll P ss) :
    Stmt.LeavesAll P (Draft.withoutPass ss) := by
  unfold Draft.withoutPass
  split
  · exact trivial
  · exact h

mutual

/-- What holds of the normal forms of the simple statements in a statement
holds of those in its normal form. -/
theorem Stmt.leaves_normal : ∀ s : Stmt,
    s.Leaves (fun s => P s.normal) → s.normal.Leaves P
  | .simple _ _, h => h
  | .label _ _ _ body, h => (Stmt.leavesAll_normalAll body h).withoutPass
  | .menu _ _ choices, h => Choice.leavesAll_normalAll choices h
  | .conditional _ branches, h => Branch.leavesAll_normalAll branches h

theorem Stmt.leavesAll_normalAll : ∀ ss : List Stmt,
    Stmt.LeavesAll (fun s => P s.normal) ss →
      Stmt.LeavesAll P (Stmt.normalAll ss)
  | [], _ => trivial
  | s :: ss, h => ⟨Stmt.leaves_normal s h.1, Stmt.leavesAll_normalAll ss h.2⟩

theorem Choice.leavesAll_normalAll : ∀ cs : List Choice,
    Choice.LeavesAll (fun s => P s.normal) cs →
      Choice.LeavesAll P (Choice.normalAll cs)
  | [], _ => trivial
  | .mk _ _ _ body :: cs, h =>
      ⟨(Stmt.leavesAll_normalAll body h.1).withoutPass,
        Choice.leavesAll_normalAll cs h.2⟩

theorem Branch.leavesAll_normalAll : ∀ bs : List Branch,
    Branch.LeavesAll (fun s => P s.normal) bs →
      Branch.LeavesAll P (Branch.normalAll bs)
  | [], _ => trivial
  | .mk _ _ body :: bs, h =>
      ⟨(Stmt.leavesAll_normalAll body h.1).withoutPass,
        Branch.leavesAll_normalAll bs h.2⟩

end

end

/-- What holds of all numbers in some statements may be weakened. -/
theorem Stmt.Numbers.mono {P Q : Number → Prop} (h : ∀ n, P n → Q n)
    {ss : List Stmt} (hss : Stmt.Numbers P ss) : Stmt.Numbers Q ss :=
  Stmt.LeavesAll.mono (fun _ hs n hn => h n (hs n hn)) ss hss

/-- Statements are near themselves if all numbers in them are. -/
theorem Stmt.nearAll_self {ss : List Stmt}
    (h : Stmt.Numbers (fun n => Number.Near n n) ss) :
    Stmt.NearAll (Stmt.normalAll ss) (Stmt.normalAll ss) := by
  refine Stmt.sameAll_self _ (Stmt.leavesAll_normalAll ss ?_)
  refine Stmt.LeavesAll.mono (fun s hs => Simple.near_self ?_) ss h
  rwa [Simple.numbers_normal]

/-- Statements without numbers are only near those of their normal form. -/
theorem Stmt.eq_of_nearAll {ss ts : List Stmt}
    (hss : Stmt.Numbers (fun _ => False) ss)
    (h : Stmt.NearAll (Stmt.normalAll ss) ts) : Stmt.normalAll ss = ts := by
  refine Stmt.eq_of_sameAll _ ts (Stmt.leavesAll_normalAll ss ?_) h
  refine Stmt.LeavesAll.mono (fun s hs s' => Simple.Near.eq ?_) ss hss
  rwa [Simple.numbers_normal]

-- ============================================================ comparison

/-- Statements between which a comparison finds no difference. -/
def Stmt.Equivalent (as bs : List Stmt) : Prop :=
  Draft.listDifference (Draft.ofStmts as) (Draft.ofStmts bs) = .ok none

/-- Statements are equivalent if their normal forms are the same up to
numbers that count as the same. -/
theorem equivalent_iff_nearAll {as bs : List Stmt} :
    Stmt.Equivalent as bs
      ↔ Stmt.NearAll (Stmt.normalAll as) (Stmt.normalAll bs) :=
  Draft.listDifference_eq_ok_none.trans (Draft.alike_iff_nearAll as bs)

theorem Stmt.Equivalent.symm {as bs : List Stmt} (h : Stmt.Equivalent as bs) :
    Stmt.Equivalent bs as :=
  equivalent_iff_nearAll.mpr
    (Stmt.sameAll_symm (fun _ _ => Simple.Near.symm) _ _
      (equivalent_iff_nearAll.mp h))

/-- What is equivalent to something is equivalent to itself. -/
theorem Stmt.Equivalent.self_right {as bs : List Stmt}
    (h : Stmt.Equivalent as bs) : Stmt.Equivalent bs bs := by
  rw [equivalent_iff_nearAll] at h ⊢
  refine Stmt.sameAll_self _ (Stmt.LeavesAll.mono ?_ _
    (Stmt.leavesAll_of_sameAll _ _ h))
  rintro u ⟨u', hnear⟩
  exact hnear.self_right

/-- Equivalence does not look at labels. -/
theorem Stmt.equivalent_relabelAll (f : Tag → Tag)
    (g : Option Nat → Option Nat) {as bs : List Stmt} :
    Stmt.Equivalent as (Stmt.relabelAll f g bs) ↔ Stmt.Equivalent as bs := by
  rw [Stmt.Equivalent, Draft.listDifference_eq_ok_none,
    Draft.alike_relabelAll, ← Draft.listDifference_eq_ok_none,
    Stmt.Equivalent]

/-- Statements are equivalent to themselves if each number in them can be
compared and is one. -/
theorem equivalent_self {ss : List Stmt}
    (h : Stmt.Numbers (fun n => n.Measurable ∧ ¬ n.IsNan) ss) :
    Stmt.Equivalent ss ss :=
  equivalent_iff_nearAll.mpr
    (Stmt.nearAll_self (h.mono fun _ hn => Number.near_self hn.1 hn.2))

/-- On statements without numbers the comparison is an equivalence. -/
theorem equivalence_numberless :
    Equivalence fun as bs : {ss // Stmt.Numbers (fun _ => False) ss} =>
      Stmt.Equivalent as.1 bs.1 where
  refl ss := equivalent_iff_nearAll.mpr
    (Stmt.nearAll_self (ss.2.mono fun _ => False.elim))
  symm h := h.symm
  trans := by
    intro as bs cs hab hbc
    rw [equivalent_iff_nearAll] at hab hbc ⊢
    rwa [Stmt.eq_of_nearAll as.2 hab]

/-- The comparison gives an answer whenever the numbers can be compared, and
finds no difference exactly if the normal forms are the same up to numbers
that count as the same. It is symmetric, reflexive where everything that
should be a number is one, and an equivalence where there are no numbers. -/
theorem equivalent_normal {as bs : List Stmt}
    (ha : Stmt.Numbers Number.Measurable as)
    (hb : Stmt.Numbers Number.Measurable bs) :
    (∃ found, Draft.listDifference (Draft.ofStmts as) (Draft.ofStmts bs)
        = .ok found)
      ∧ (Stmt.Equivalent as bs
          ↔ Stmt.NearAll (Stmt.normalAll as) (Stmt.normalAll bs))
      ∧ (Stmt.Equivalent as bs → Stmt.Equivalent bs as)
      ∧ (∀ ss, Stmt.Numbers (fun n => n.Measurable ∧ ¬ n.IsNan) ss →
          Stmt.Equivalent ss ss)
      ∧ Equivalence fun as bs : {ss // Stmt.Numbers (fun _ => False) ss} =>
          Stmt.Equivalent as.1 bs.1 := by
  have hanswer : ∃ found, Draft.listDifference (Draft.ofStmts as)
      (Draft.ofStmts bs) = .ok found :=
    Draft.exists_difference "statements" (.list _) (.list _)
      (Draft.comparable_ofStmts as ha) (Draft.comparable_ofStmts bs hb)
  exact ⟨hanswer, equivalent_iff_nearAll, Stmt.Equivalent.symm,
    fun _ => equivalent_self, equivalence_numberless⟩

/-- A label that only says `pass`, and an empty one without the line it was
read from; pauses of one second, as an integer and as a double. -/
theorem equivalent_pass_pause :
    Stmt.Equivalent
      [.label ⟨"a", some 1⟩ "start" none [.simple ⟨"b", some 2⟩ (.raw "pass")],
        .simple ⟨"c", some 3⟩ (.pause (some (.int 1)))]
      [.label ⟨"d", none⟩ "start" (some []) [],
        .simple ⟨"e", none⟩
          (.pause (some (.double (.finite false (2 ^ 52) 1022))))] := by
  have hone : (Number.int 1).toDouble? = some (.finite false (2 ^ 52) 1022) := by
    decide +kernel
  have hnear : Number.Near (.int 1) (.double (.finite false (2 ^ 52) 1022)) :=
    Number.near_iff.mpr ⟨_, _, hone, rfl, Number.closeDoubles_self nofun⟩
  refine (equivalent_normal ?_ ?_).2.1.mpr ?_
  · refine ⟨⟨nofun, trivial⟩, ⟨fun n hn => ?_, trivial⟩⟩
    obtain rfl := List.mem_singleton.mp hn
    exact ⟨_, hone⟩
  · refine ⟨trivial, ⟨fun n hn => ?_, trivial⟩⟩
    obtain rfl := List.mem_singleton.mp hn
    exact ⟨_, rfl⟩
  · have hpass : Draft.withoutPass [.simple ⟨"", none⟩ (.raw "pass")] = [] :=
      if_pos (by decide +kernel)
    refine ⟨⟨rfl, rfl, rfl, ?_⟩, ⟨rfl, .some hnear⟩, trivial⟩
    show Stmt.SameAll _ (Draft.withoutPass [.simple ⟨"", none⟩ (.raw "pass")]) []
    rw [hpass]
    exact trivial

end NovelScript
