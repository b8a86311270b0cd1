/-
Tags and lines are bookkeeping: they are never compared and never written. What
is alike to some statements is alike to them with other tags, and they are
written as the same outline.

# Compared

`alike_relabel` goes over the tree whose labels are changed, and is said for
every statement on the other side. Statements of different kinds are alike in no
case, and the kind of a statement is no matter of its label
(`alike_relabel_of_kind`), so only the cases on the diagonal have anything in
them. A lone `pass` is looked for on both sides before bodies are compared, and
whether there is one does not depend on labels either
(`withoutPass_relabelAll`).

# Written

A statement that is refused is named by its identity, and there alone a label is
seen. What is written, if anything is, does not depend on it, which is why the
second half speaks of results without their errors (`Except.toOption`).
-/
import NovelScript.Proofs.Draft.Difference
import NovelScript.Proofs.Reading.Yield

namespace NovelScript

namespace Draft

-- ============================================================== compared

/-- The kind of a statement's draft. -/
def kindOfStmt : Stmt → StmtKind
  | .simple _ s => (ofSimple s).1
  | .label .. => .label
  | .menu .. => .menu
  | .conditional .. => .conditional

theorem kindOfStmt_eq_of_alike {s t : Stmt} (h : Alike (ofStmt s) (ofStmt t)) :
    kindOfStmt s = kindOfStmt t := by
  have hrecord : ∀ s, ∃ fields, ofStmt s = .record (.stmt (kindOfStmt s)) fields := by
    intro s
    cases s with
    | simple tag s => exact ⟨_, rfl⟩
    | label tag name ps body => exact ⟨_, rfl⟩
    | menu tag head choices => exact ⟨_, rfl⟩
    | conditional tag branches => exact ⟨_, rfl⟩
  obtain ⟨fs, hs⟩ := hrecord s
  obtain ⟨ft, ht⟩ := hrecord t
  rw [hs, ht] at h
  exact RecordKind.stmt.inj (eq_of_alike_record h)

/-- A simple statement is of no compound kind. -/
theorem kind_ofSimple (s : Simple) : (ofSimple s).1 ≠ .label
    ∧ (ofSimple s).1 ≠ .menu ∧ (ofSimple s).1 ≠ .conditional := by
  cases s with
  | display verb image o => cases verb <;> simp [ofSimple]
  | _ => simp [ofSimple]

/-- Only a simple statement is alike to a simple one. -/
theorem exists_simple_of_alike {tag : Tag} {s : Simple} {t : Stmt}
    (h : Alike (ofStmt (.simple tag s)) (ofStmt t)) :
    ∃ tag' s', t = .simple tag' s' ∧ SimpleAlike s s' := by
  have hkind := kindOfStmt_eq_of_alike h
  obtain ⟨hlabel, hmenu, hconditional⟩ := kind_ofSimple s
  cases t with
  | simple tag' s' => exact ⟨tag', s', rfl, alike_simple.mp h⟩
  | label tag' name ps body => exact absurd hkind hlabel
  | menu tag' head choices => exact absurd hkind hmenu
  | conditional tag' branches => exact absurd hkind hconditional

variable (f : Tag → Tag) (g : Option Nat → Option Nat)

theorem kindOfStmt_relabel (s : Stmt) :
    kindOfStmt (Stmt.relabel f g s) = kindOfStmt s := by
  cases s <;> rfl

theorem saysPass_relabelAll (ss : List Stmt) :
    saysPass (Stmt.relabelAll f g ss) = saysPass ss := by
  match ss with
  | [s] =>
      rw [Stmt.relabelAll, Stmt.relabelAll, saysPass, saysPass,
        Stmt.rawContent?_relabel]
  | [] => rfl
  | _ :: _ :: _ => rfl

theorem withoutPass_relabelAll (ss : List Stmt) :
    withoutPass (Stmt.relabelAll f g ss)
      = Stmt.relabelAll f g (withoutPass ss) := by
  unfold withoutPass
  rw [saysPass_relabelAll]
  split <;> rfl

/-- Nothing is alike to a statement of another kind, whatever its label. -/
theorem alike_relabel_of_kind {s t : Stmt} (h : kindOfStmt s ≠ kindOfStmt t) :
    Alike (ofStmt s) (ofStmt (Stmt.relabel f g t))
      ↔ Alike (ofStmt s) (ofStmt t) :=
  iff_of_false
    (fun ha => h ((kindOfStmt_eq_of_alike ha).trans (kindOfStmt_relabel f g t)))
    (fun ha => h (kindOfStmt_eq_of_alike ha))

/-- The same for bodies without a lone `pass`, if it holds as they are. -/
theorem alike_relabelBody_of {ts : List Stmt} (ss : List Stmt)
    (h : ∀ ss, List.Forall₂ Alike (ofStmts ss)
        (ofStmts (Stmt.relabelAll f g ts))
      ↔ List.Forall₂ Alike (ofStmts ss) (ofStmts ts)) :
    List.Forall₂ Alike (ofStmts ss)
        (ofStmts (withoutPass (Stmt.relabelAll f g ts)))
      ↔ List.Forall₂ Alike (ofStmts ss) (ofStmts (withoutPass ts)) := by
  rw [withoutPass_relabelAll]
  unfold withoutPass
  split
  · exact Iff.rfl
  · exact h ss

mutual

/-- What is alike to a statement is alike to it with other labels. -/
theorem alike_relabel : ∀ t s : Stmt,
    Alike (ofStmt s) (ofStmt (Stmt.relabel f g t))
      ↔ Alike (ofStmt s) (ofStmt t)
  | .simple _ t, s => by
      cases s with
      | simple _ s => rw [Stmt.relabel, alike_simple, alike_simple]
      | label _ _ _ _ =>
          exact alike_relabel_of_kind f g (kind_ofSimple t).1.symm
      | menu _ _ _ =>
          exact alike_relabel_of_kind f g (kind_ofSimple t).2.1.symm
      | conditional _ _ =>
          exact alike_relabel_of_kind f g (kind_ofSimple t).2.2.symm
  | .label _ _ _ ts, s => by
      cases s with
      | label _ _ _ ss =>
          rw [Stmt.relabel, alike_label, alike_label,
            alike_relabelBody_of f g _ (alike_relabelAll ts)]
      | simple _ s => exact alike_relabel_of_kind f g (kind_ofSimple s).1
      | _ => exact alike_relabel_of_kind f g (by simp [kindOfStmt])
  | .menu _ _ ts, s => by
      cases s with
      | menu _ _ ss =>
          rw [Stmt.relabel, alike_menu, alike_menu, alike_relabelChoices ts]
      | simple _ s => exact alike_relabel_of_kind f g (kind_ofSimple s).2.1
      | _ => exact alike_relabel_of_kind f g (by simp [kindOfStmt])
  | .conditional _ ts, s => by
      cases s with
      | conditional _ ss =>
          rw [Stmt.relabel, alike_conditional, alike_conditional,
            alike_relabelBranches ts]
      | simple _ s => exact alike_relabel_of_kind f g (kind_ofSimple s).2.2
      | _ => exact alike_relabel_of_kind f g (by simp [kindOfStmt])

theorem alike_relabelAll : ∀ ts ss : List Stmt,
    List.Forall₂ Alike (ofStmts ss) (ofStmts (Stmt.relabelAll f g ts))
      ↔ List.Forall₂ Alike (ofStmts ss) (ofStmts ts)
  | [], _ => Iff.rfl
  | t :: ts, [] => by
      simp [Stmt.relabelAll, ofStmts]
  | t :: ts, s :: ss => by
      rw [Stmt.relabelAll, ofStmts, ofStmts, ofStmts, List.forall₂_cons,
        List.forall₂_cons, alike_relabel t s, alike_relabelAll ts ss]

theorem alike_relabelChoices : ∀ ds cs : List Choice,
    List.Forall₂ Alike (ofChoices cs) (ofChoices (Choice.relabelAll f g ds))
      ↔ List.Forall₂ Alike (ofChoices cs) (ofChoices ds)
  | [], _ => Iff.rfl
  | .mk _ _ _ ts :: ds, [] => by
      simp [Choice.relabelAll, ofChoices]
  | .mk _ _ _ ts :: ds, .mk _ _ _ ss :: cs => by
      rw [Choice.relabelAll, alike_choices, alike_choices,
        alike_relabelBody_of f g _ (alike_relabelAll ts),
        alike_relabelChoices ds cs]

theorem alike_relabelBranches : ∀ bs as : List Branch,
    List.Forall₂ Alike (ofBranches as) (ofBranches (Branch.relabelAll f g bs))
      ↔ List.Forall₂ Alike (ofBranches as) (ofBranches bs)
  | [], _ => Iff.rfl
  | .mk _ _ ts :: bs, [] => by
      simp [Branch.relabelAll, ofBranches]
  | .mk _ _ ts :: bs, .mk _ _ ss :: as => by
      rw [Branch.relabelAll, alike_branches, alike_branches,
        alike_relabelBody_of f g _ (alike_relabelAll ts),
        alike_relabelBranches bs as]

end

end Draft

-- =============================================================== written

namespace Written

theorem toOption_bind {α β : Type} (r : Except WriteError α)
    (k : α → Except WriteError β) :
    (r >>= k).toOption = r.toOption.bind fun a => (k a).toOption := by
  cases r <;> rfl

theorem toOption_eq_some {ε α : Type} {r : Except ε α} {a : α} :
    r.toOption = some a ↔ r = .ok a := by
  cases r <;> simp [Except.toOption]

/-- What is written of a simple statement does not depend on its identity. -/
theorem toOption_simple (id id' : String) (s : Simple) :
    (simple id s).toOption = (simple id' s).toOption := by
  cases s with
  | say d =>
      unfold simple speaking
      simp only
      generalize (if isSet d.extend = true then ["extend"]
        else (present d.speaker).toList) = who
      cases who.isEmpty && !(items d.attributes).isEmpty <;> rfl
  | _ => rfl

theorem simple_of_ok {id : String} (id' : String) {s : Simple}
    {os : List Outline} (h : simple id s = .ok os) : simple id' s = .ok os := by
  rw [← toOption_eq_some, toOption_simple id' id, toOption_eq_some, h]

variable (f : Tag → Tag) (g : Option Nat → Option Nat)

@[simp] theorem isEmpty_relabelAll (ss : List Stmt) :
    (Stmt.relabelAll f g ss).isEmpty = ss.isEmpty := by
  cases ss <;> rfl

mutual

/-- A statement is written the same with other labels. -/
theorem toOption_stmt_relabel : ∀ s : Stmt,
    (stmt (Stmt.relabel f g s)).toOption = (stmt s).toOption
  | .simple tag s => toOption_simple _ _ s
  | .label tag name ps body => by
      rw [Stmt.relabel, stmt, stmt, toOption_bind, toOption_bind,
        toOption_stmts_relabel body, isEmpty_relabelAll]
  | .menu tag head choices => by
      rw [Stmt.relabel, stmt, stmt, toOption_bind, toOption_bind,
        toOption_choiceBlocks_relabel choices]
  | .conditional tag branches => by
      rw [Stmt.relabel, stmt, stmt,
        toOption_branchBlocks_relabel true branches]

theorem toOption_stmts_relabel : ∀ ss : List Stmt,
    (stmts (Stmt.relabelAll f g ss)).toOption = (stmts ss).toOption
  | [] => rfl
  | s :: ss => by
      rw [Stmt.relabelAll, stmts, stmts]
      simp only [toOption_bind, toOption_stmt_relabel s,
        toOption_stmts_relabel ss]

theorem toOption_choiceBlocks_relabel : ∀ cs : List Choice,
    (choiceBlocks (Choice.relabelAll f g cs)).toOption
      = (choiceBlocks cs).toOption
  | [] => rfl
  | .mk said condition line body :: cs => by
      rw [Choice.relabelAll, choiceBlocks, choiceBlocks]
      simp only [toOption_bind, toOption_stmts_relabel body,
        toOption_choiceBlocks_relabel cs, isEmpty_relabelAll]

theorem toOption_branchBlocks_relabel (first : Bool) : ∀ bs : List Branch,
    (branchBlocks first (Branch.relabelAll f g bs)).toOption
      = (branchBlocks first bs).toOption
  | [] => rfl
  | .mk condition line body :: bs => by
      rw [Branch.relabelAll, branchBlocks, branchBlocks]
      simp only [toOption_bind, toOption_stmts_relabel body,
        toOption_branchBlocks_relabel false bs, isEmpty_relabelAll]

end

theorem needsBlank_relabel (s t : Stmt) :
    needsBlank (Stmt.relabel f g s) (Stmt.relabel f g t) = needsBlank s t := by
  have hlabel : ∀ s, isLabel (Stmt.relabel f g s) = isLabel s := by
    intro s
    cases s <;> rfl
  have hdefinition : ∀ s, isDefinition (Stmt.relabel f g s)
      = isDefinition s := by
    intro s
    cases s with
    | simple tag s => cases s <;> rfl
    | _ => rfl
  simp only [needsBlank, hlabel, hdefinition, isRawBlock,
    Stmt.rawContent?_relabel]

theorem toOption_topLines_relabel (layout : PageLayout) : ∀ ss : List Stmt,
    (topLines layout (Stmt.relabelAll f g ss)).toOption
      = (topLines layout ss).toOption
  | [] => rfl
  | s :: ss => by
      have hgap : gap layout (Stmt.relabel f g s) (Stmt.relabelAll f g ss)
          = gap layout s ss := by
        cases ss with
        | nil => rfl
        | cons t ss =>
            simp only [Stmt.relabelAll, gap, needsBlank_relabel f g s t]
      rw [Stmt.relabelAll, topLines, topLines]
      simp only [toOption_bind, toOption_stmt_relabel f g s, hgap,
        toOption_topLines_relabel layout ss]

end Written

end NovelScript
