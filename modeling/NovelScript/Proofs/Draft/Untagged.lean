/-
Comparing without tags. A comparison skips identities and lines, so its verdict
is that of the drafts in which nothing is held for them (`untagged`). Statements
that differ in their tags only are the same then: whether two scripts differ,
and whether that can be said at all, does not depend on the identities that a
reading gave out. Only the message may show them.

# Why drafts

It would be enough for statements to change their tags. But a comparison is a
function of drafts, which goes through fields by name; at a draft all that
matters is whether the name is one that is skipped (`isSkipped`), whatever kind
of record it is in.

# Cases

The comparison looks at two drafts at a time: two lists go item by item, two
records field by field, and everything else is compared as it is. `Apart` names
the last case, in which no rule for going further applies, so that the recursion
has three cases instead of one for every pair of constructors.
-/
import NovelScript.Proofs.RoundTrip.Relabel
import NovelScript.RoundTrip

namespace NovelScript

namespace Draft

-- ============================================================== untagged

/-- A field that is skipped by comparisons, in whatever kind of record it is. -/
def isSkipped (name : String) : Bool := name = "id" || name = "line"

mutual

/-- A draft with nothing for identities and lines. The fields are still there,
so that a record has the same fields as before. -/
def untagged : Draft → Draft
  | .list items => .list (untaggedItems items)
  | .record k fields => .record k (untaggedFields fields)
  | d => d

/-- Drafts with nothing for identities and lines. -/
def untaggedItems : List Draft → List Draft
  | [] => []
  | d :: more => untagged d :: untaggedItems more

/-- Fields with nothing for identities and lines. -/
def untaggedFields : List (String × Draft) → List (String × Draft)
  | [] => []
  | (name, d) :: more =>
    (name, if isSkipped name then .null else untagged d) :: untaggedFields more

end

@[simp] theorem isEmpty_untaggedItems (items : List Draft) :
    (untaggedItems items).isEmpty = items.isEmpty := by
  cases items <;> rfl

@[simp] theorem length_untaggedItems (items : List Draft) :
    (untaggedItems items).length = items.length := by
  induction items with
  | nil => rfl
  | cons d more ih => rw [untaggedItems, List.length_cons, ih, List.length_cons]

@[simp] theorem isAbsent_untagged (d : Draft) :
    (untagged d).isAbsent = d.isAbsent := by
  cases d <;> simp [untagged, isAbsent]

@[simp] theorem isTruthy_untagged (d : Draft) :
    (untagged d).isTruthy = d.isTruthy := by
  cases d <;> simp [untagged, isTruthy]

@[simp] theorem stmtKind?_untagged (d : Draft) :
    (untagged d).stmtKind? = d.stmtKind? := by
  cases d with
  | record k fields => cases k <;> simp [untagged, stmtKind?]
  | _ => simp [untagged, stmtKind?]

theorem untaggedFields_append (as bs : List (String × Draft)) :
    untaggedFields (as ++ bs) = untaggedFields as ++ untaggedFields bs := by
  induction as with
  | nil => rfl
  | cons a as ih =>
      obtain ⟨name, d⟩ := a
      rw [List.cons_append, untaggedFields, ih, untaggedFields, List.cons_append]

/-- A field that is not skipped, or nothing if it is not there. -/
theorem field_untagged {name : String} (h : isSkipped name = false)
    (fields : List (String × Draft)) :
    (field? name (untaggedFields fields)).getD .null
      = untagged ((field? name fields).getD .null) := by
  induction fields with
  | nil => rfl
  | cons f more ih =>
      obtain ⟨n, d⟩ := f
      rw [untaggedFields, field?, field?]
      split
      · next hname =>
        subst hname
        rw [h]
        rfl
      · exact ih

-- ============================================================= compared

theorem textOrEmpty_untagged (d : Draft) :
    textOrEmpty (untagged d) = textOrEmpty d := by
  unfold textOrEmpty
  rw [isTruthy_untagged]
  cases d <;> rfl

theorem codeOf_untagged (d : Draft) : codeOf (untagged d) = codeOf d := by
  rw [codeOf, textOrEmpty_untagged, codeOf]

theorem isPassBody_untagged (d : Draft) :
    isPassBody (untagged d) = isPassBody d := by
  cases d with
  | list items =>
      rw [untagged]
      rcases items with _ | ⟨d, _ | ⟨e, more⟩⟩
      · rfl
      · rw [untaggedItems, untaggedItems]
        cases d with
        | record k fields =>
            rcases k with k | _ | _ | _ | _ | _ | _
            · cases k <;> try rfl
              rw [untagged, isPassBody, isPassBody,
                field_untagged (by decide), textOrEmpty_untagged]
            all_goals rfl
        | _ => rfl
      · rw [untaggedItems, untaggedItems, isPassBody, isPassBody] <;> simp
  | _ => simp [untagged, isPassBody]

/-- Two drafts of which at most one is a list with something in it, and at most
one a record. -/
def Apart (a b : Draft) : Prop :=
  (∀ xs ys, a = .list xs → b = .list ys → xs = [] ∨ ys = [])
    ∧ ∀ k l xs ys, a = .record k xs → b ≠ .record l ys

/-- What is apart is compared by looking at what it is. -/
theorem verdict_leaf_untagged (p : String) {a b : Draft} (h : Apart a b) :
    verdict (leafDifference p (untagged a) (untagged b))
      = verdict (leafDifference p a b) := by
  unfold leafDifference
  rw [isAbsent_untagged, isAbsent_untagged]
  by_cases hab : (a.isAbsent || b.isAbsent) = true
  · rw [if_pos hab, if_pos hab]
    split <;> rfl
  · rw [if_neg hab, if_neg hab]
    obtain ⟨hlists, hrecords⟩ := h
    cases a with
    | list xs =>
        cases b with
        | list ys =>
            rcases hlists xs ys rfl rfl with rfl | rfl <;>
              simp [isAbsent] at hab
        | _ => simp [untagged, same, verdict, Except.map]
    | record k xs =>
        cases b with
        | record l ys => exact absurd rfl (hrecords k l xs ys rfl)
        | _ => simp [untagged, same, verdict, Except.map]
    | moment t =>
        cases b with
        | moment u => rw [untagged, untagged] <;> simp
        | _ => simp [untagged, same, verdict, Except.map]
    | _ => cases b <;> simp [untagged, same, asNumber?, verdict, Except.map]

/-- A field is compared alike without tags, if what it holds is. -/
theorem verdict_one_untagged (k : RecordKind) (p name : String) {a b : Draft}
    (h : ∀ p b, verdict (difference p (untagged a) (untagged b))
      = verdict (difference p a b))
    (hskip : isSkipped name = false) :
    verdict (oneDifference k p name (untagged a) (untagged b))
      = verdict (oneDifference k p name a b) := by
  have hnot : ¬ (name = "id" || name = "line") = true := by
    rw [← isSkipped, hskip]
    decide
  unfold oneDifference
  simp only
  rw [if_neg hnot, if_neg hnot, isPassBody_untagged, isPassBody_untagged,
    isTruthy_untagged, isTruthy_untagged, codeOf_untagged, codeOf_untagged]
  split
  · -- Bodies: that one says `pass` does not depend on tags, and if one does it
    -- is compared as an empty list.
    cases isPassBody a with
    | error e => rfl
    | ok emptyA =>
        cases isPassBody b with
        | error e => rfl
        | ok emptyB =>
            have hbody : (if emptyB = true then .list [] else untagged b)
                = untagged (if emptyB = true then .list [] else b) := by
              split
              · rw [untagged, untaggedItems]
              · rfl
            simp only [Bind.bind, Except.bind]
            rw [hbody]
            cases emptyA with
            | false => exact h _ _
            | true =>
                have hempty : untagged (.list []) = .list [] := by
                  rw [untagged, untaggedItems]
                have hleaf := @verdict_leaf_untagged (p ++ "." ++ name)
                  (.list []) (if emptyB = true then .list [] else b)
                  ⟨fun xs ys hxs _ => .inl (Draft.list.inj hxs).symm,
                    fun k l xs ys hxs => by cases hxs⟩
                rw [hempty] at hleaf
                exact hleaf
  · split
    · split <;> rfl
    · split
      · rfl
      · exact h _ _

theorem untagged_ne_record {d : Draft} (h : ∀ k xs, d ≠ .record k xs) (k : RecordKind)
    (xs : List (String × Draft)) : untagged d ≠ .record k xs := by
  cases d with
  | record l ys => exact absurd rfl (h l ys)
  | _ => simp [untagged]

theorem untagged_ne_list {d : Draft} (h : ∀ xs, d ≠ .list xs) (xs : List Draft) :
    untagged d ≠ .list xs := by
  cases d with
  | list ys => exact absurd rfl (h ys)
  | _ => simp [untagged]

/-- A record and something that is none. -/
theorem difference_record_other (p : String) {k : RecordKind}
    {xs : List (String × Draft)} {b : Draft} (h : ∀ l ys, b ≠ .record l ys) :
    difference p (.record k xs) b
      = if k.isStmt then .ok (some (kindDifference p (.record k xs) b))
        else leafDifference p (.record k xs) b := by
  cases b with
  | record l ys => exact absurd rfl (h l ys)
  | _ =>
      rw [difference]
      simp

/-- Something that is no record, and something that is not a list with it. -/
theorem difference_other (p : String) {a b : Draft}
    (hrecord : ∀ k xs, a ≠ .record k xs)
    (hlist : ∀ xs ys, a = .list xs → b ≠ .list ys) :
    difference p a b
      = if (b.stmtKind?).isSome then .ok (some (kindDifference p a b))
        else leafDifference p a b := by
  cases a with
  | record k xs => exact absurd rfl (hrecord k xs)
  | list xs => rw [difference]; exact fun ys => hlist xs ys rfl
  | _ => rw [difference] <;> simp

theorem difference_list (p : String) (xs ys : List Draft) :
    difference p (.list xs) (.list ys)
      = if xs.isEmpty || ys.isEmpty then leafDifference p (.list xs) (.list ys)
        else if xs.length ≠ ys.length then
          .ok (some (p ++ ": length " ++ toString xs.length ++ " != "
            ++ toString ys.length))
        else itemDifference p 0 xs ys := by
  rw [difference]
  rfl

/-- The same for drafts that are neither both records nor both lists. -/
theorem verdict_other_untagged (p : String) {a b : Draft}
    (hrecord : ∀ k xs, a ≠ .record k xs)
    (hlist : ∀ xs ys, a = .list xs → b ≠ .list ys) :
    verdict (difference p (untagged a) (untagged b))
      = verdict (difference p a b) := by
  have hlist' : ∀ xs ys, untagged a = .list xs → untagged b ≠ .list ys := by
    intro xs ys ha
    cases a with
    | list zs => exact untagged_ne_list (fun us => hlist zs us rfl) ys
    | _ => simp [untagged] at ha
  rw [difference_other p hrecord hlist,
    difference_other p (untagged_ne_record hrecord) hlist', stmtKind?_untagged]
  split
  · rfl
  · exact verdict_leaf_untagged p
      ⟨fun xs ys ha hb => absurd hb (hlist xs ys ha),
        fun k l xs ys ha => absurd ha (hrecord k xs)⟩

mutual

/-- A verdict does not depend on tags. -/
theorem verdict_untagged (p : String) : ∀ a b : Draft,
    verdict (difference p (untagged a) (untagged b))
      = verdict (difference p a b)
  | .record ka fa, b => by
      have hfields := verdict_fields_untagged p ka fa
      by_cases hb : ∃ kb fb, b = .record kb fb
      · obtain ⟨kb, fb, rfl⟩ := hb
        rw [untagged, untagged, difference_record, difference_record]
        split
        · exact hfields fb
        · split <;> rfl
      · have hne : ∀ kb fb, b ≠ .record kb fb := fun kb fb h => hb ⟨kb, fb, h⟩
        have hleaf := @verdict_leaf_untagged p (.record ka fa) b
          ⟨fun xs ys h => (by cases h), fun k l xs ys _ => hne l ys⟩
        rw [untagged] at hleaf ⊢
        rw [difference_record_other p hne,
          difference_record_other p (untagged_ne_record hne)]
        split
        · rfl
        · exact hleaf
  | .list xs, b => by
      have hitems := verdict_items_untagged p 0 xs
      by_cases hb : ∃ ys, b = .list ys
      · obtain ⟨ys, rfl⟩ := hb
        rw [untagged, untagged, difference_list, difference_list,
          isEmpty_untaggedItems, isEmpty_untaggedItems, length_untaggedItems,
          length_untaggedItems]
        split
        · next hempty =>
          -- An empty list and one that is not differ as a whole, as two leaves
          -- do.
          have hapart : Apart (.list xs) (.list ys) := by
            refine ⟨fun as bs ha hb => ?_, fun k l as bs h => by cases h⟩
            rw [← Draft.list.inj ha, ← Draft.list.inj hb]
            simpa using hempty
          have hleaf := verdict_leaf_untagged p hapart
          rw [untagged, untagged] at hleaf
          exact hleaf
        · split
          · rfl
          · exact hitems ys
      · exact verdict_other_untagged p (fun k xs h => by cases h)
          fun _ ys _ h => hb ⟨ys, h⟩
  | .null, b | .bool _, b | .number _, b | .text _, b | .moment _, b
  | .object _, b =>
      verdict_other_untagged p (fun k xs h => by cases h)
        fun xs ys h => by cases h

theorem verdict_items_untagged (p : String) (i : Nat) :
    ∀ xs ys : List Draft,
      verdict (itemDifference p i (untaggedItems xs) (untaggedItems ys))
        = verdict (itemDifference p i xs ys)
  | x :: xs, y :: ys => by
      rw [untaggedItems, untaggedItems, itemDifference_cons,
        itemDifference_cons]
      exact verdict_orElse (verdict_untagged _ x y)
        (verdict_items_untagged p (i + 1) xs ys)
  | [], _ => rfl
  | _ :: _, [] => rfl

theorem verdict_fields_untagged (p : String) (k : RecordKind) :
    ∀ fa fb : List (String × Draft),
      verdict (fieldDifference k p (untaggedFields fa) (untaggedFields fb))
        = verdict (fieldDifference k p fa fb)
  | [], _ => by rw [untaggedFields, fieldDifference, fieldDifference]
  | (name, a) :: more, fb => by
      rw [untaggedFields, fieldDifference_cons, fieldDifference_cons]
      refine verdict_orElse ?_ (verdict_fields_untagged p k more fb)
      cases hskip : isSkipped name with
      | true =>
          unfold isSkipped at hskip
          unfold oneDifference
          simp only [if_pos hskip]
      | false =>
          rw [field_untagged hskip]
          exact verdict_one_untagged k p name
            (fun p b => verdict_untagged p a b) hskip

end

-- ============================================================== scripts

section Relabelled

variable (f : Tag → Tag) (g : Option Nat → Option Nat)

theorem untagged_ofTagged (k : StmtKind) (tag tag' : Tag)
    {own own' : List (String × Draft)}
    (h : untaggedFields own = untaggedFields own') :
    untagged (ofTagged k tag own) = untagged (ofTagged k tag' own') := by
  rw [ofTagged, ofTagged, untagged, untagged, List.cons_append,
    List.cons_append, untaggedFields, untaggedFields, untaggedFields_append,
    untaggedFields_append, h]
  rfl

mutual

/-- Without tags, the draft of a statement is that of the statement with
others. -/
theorem untagged_relabel : ∀ s : Stmt,
    untagged (ofStmt (Stmt.relabel f g s)) = untagged (ofStmt s)
  | .simple tag s => by
      rw [Stmt.relabel, ofStmt, ofStmt]
      exact untagged_ofTagged _ _ _ rfl
  | .label tag name o body => by
      rw [Stmt.relabel, ofStmt, ofStmt]
      refine untagged_ofTagged _ _ _ ?_
      simp only [untaggedFields, untagged, untagged_relabelAll body]
  | .menu tag head choices => by
      rw [Stmt.relabel, ofStmt, ofStmt]
      refine untagged_ofTagged _ _ _ ?_
      simp only [untaggedFields, untagged, untagged_relabelChoices choices]
  | .conditional tag branches => by
      rw [Stmt.relabel, ofStmt, ofStmt]
      refine untagged_ofTagged _ _ _ ?_
      simp only [untaggedFields, untagged, untagged_relabelBranches branches]

theorem untagged_relabelAll : ∀ ss : List Stmt,
    untaggedItems (ofStmts (Stmt.relabelAll f g ss))
      = untaggedItems (ofStmts ss)
  | [] => rfl
  | s :: more => by
      rw [Stmt.relabelAll, ofStmts, ofStmts, untaggedItems, untaggedItems,
        untagged_relabel s, untagged_relabelAll more]

theorem untagged_relabelChoices : ∀ cs : List Choice,
    untaggedItems (ofChoices (Choice.relabelAll f g cs))
      = untaggedItems (ofChoices cs)
  | [] => rfl
  | .mk said condition line body :: more => by
      rw [Choice.relabelAll, ofChoices, ofChoices, untaggedItems,
        untaggedItems, untagged_relabelChoices more]
      simp only [untaggedFields, untagged, untagged_relabelAll body,
        isSkipped, String.reduceEq]
      rfl

theorem untagged_relabelBranches : ∀ bs : List Branch,
    untaggedItems (ofBranches (Branch.relabelAll f g bs))
      = untaggedItems (ofBranches bs)
  | [] => rfl
  | .mk condition line body :: more => by
      rw [Branch.relabelAll, ofBranches, ofBranches, untaggedItems,
        untaggedItems, untagged_relabelBranches more]
      simp only [untaggedFields, untagged, untagged_relabelAll body,
        isSkipped, String.reduceEq]
      rfl

end

end Relabelled

/-- Whether two lists of statements differ does not depend on identities. -/
theorem verdict_anonymousAll (as bs : List Stmt) :
    verdict (listDifference (ofStmts (Stmt.anonymousAll as))
        (ofStmts (Stmt.anonymousAll bs)))
      = verdict (listDifference (ofStmts as) (ofStmts bs)) := by
  unfold listDifference
  rw [← verdict_untagged, ← verdict_untagged "statements" (.list (ofStmts as))]
  simp only [untagged, Stmt.anonymousAll, untagged_relabelAll]

end Draft

/-- Two scripts are compared alike whatever identities they were given. -/
theorem Script.difference_again {a b a' b' : Script} {found : Option String}
    (h : a.difference b = .ok found)
    (ha : Stmt.anonymousAll a'.statements = Stmt.anonymousAll a.statements)
    (hb : Stmt.anonymousAll b'.statements = Stmt.anonymousAll b.statements) :
    ∃ found', a'.difference b' = .ok found' ∧ found'.isSome = found.isSome := by
  have hverdict : Draft.verdict (a'.difference b')
      = Draft.verdict (a.difference b) := by
    unfold Script.difference
    rw [← Draft.verdict_anonymousAll, ha, hb, Draft.verdict_anonymousAll]
  rw [h] at hverdict
  cases hfound : a'.difference b' with
  | error e =>
      rw [hfound] at hverdict
      cases hverdict
  | ok found' =>
      rw [hfound] at hverdict
      exact ⟨found', rfl, Except.ok.inj hverdict⟩

end NovelScript
