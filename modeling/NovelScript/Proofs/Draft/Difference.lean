/-
Meaning the same. A difference is told with the path to it, but whether there is
one does not depend on the path: `Alike` says that there is none, and it is
decided field by field. Identities and lines never count, so two statements are
alike or not whatever their tags are.

# Verdicts

A comparison is a run that stops at the first difference, and may be refused on
the way. `verdict` keeps whether there was a difference and drops its message.
Every step of the run is a first part or else what follows (`orElse`), so that
two runs have the same verdict is shown part by part, and `verdict_difference`
moves a comparison from one path to another.

# One lemma for each kind of record

With the paths gone, `Alike` of two drafts comes to `Alike` of their items and
`FieldAlike` of their fields (`alike_list`, `difference_record`). The fields are
those of one kind of record, and each is compared by its name: skipped, as a
text with its layout removed, as a flag, as something that may be absent, or as
it is. The lemmas at the end say of each of these when two values are alike, and
from them what is alike to the draft of a statement of each kind.
-/
import Mathlib.Data.List.Forall2
import NovelScript.Draft.Difference
import NovelScript.Draft.OfScript
import NovelScript.Written.Statement

namespace NovelScript.Draft

-- =============================================================== verdicts

/-- Whether a comparison finds a difference, without its message. The message
has the path in it, and this has not. -/
def verdict (r : Except Fault (Option String)) : Except Fault Bool :=
  r.map Option.isSome

/-- The difference of a first part, or else what follows. Every comparison of
several parts is put together by this. -/
def orElse (r rest : Except Fault (Option String)) :
    Except Fault (Option String) := do
  match ← r with
  | some found => pure (some found)
  | none => rest

theorem verdict_orElse {r r' rest rest' : Except Fault (Option String)}
    (h : verdict r = verdict r') (hrest : verdict rest = verdict rest') :
    verdict (orElse r rest) = verdict (orElse r' rest') := by
  cases r with
  | error e =>
      cases r' with
      | error e' => exact h
      | ok o' => cases h
  | ok o =>
      cases r' with
      | error e' => cases h
      | ok o' =>
          have ho : o.isSome = o'.isSome := Except.ok.inj h
          cases o with
          | none =>
              cases o' with
              | none => exact hrest
              | some m' => cases ho
          | some m =>
              cases o' with
              | none => cases ho
              | some m' => rfl

theorem orElse_eq_ok_none {r rest : Except Fault (Option String)} :
    orElse r rest = .ok none ↔ r = .ok none ∧ rest = .ok none := by
  cases r with
  | error e => simp [orElse, Bind.bind, Except.bind]
  | ok o =>
      cases o with
      | none => simp [orElse, Bind.bind, Except.bind]
      | some m => simp [orElse, Bind.bind, Except.bind, pure, Except.pure]

theorem eq_ok_none_of_verdict {r r' : Except Fault (Option String)}
    (h : verdict r = verdict r') (hr : r = .ok none) : r' = .ok none := by
  subst hr
  cases r' with
  | error e => cases h
  | ok o =>
      cases o with
      | none => rfl
      | some m => cases h

theorem verdict_leafDifference (p q : String) (a b : Draft) :
    verdict (leafDifference p a b) = verdict (leafDifference q a b) := by
  unfold leafDifference
  split
  · split <;> rfl
  · split
    · split <;> rfl
    · rfl
    · rfl
    · split <;> rfl
    · split <;> rfl

-- ========================================================= one field

/-- The difference of one field of two records. -/
def oneDifference (k : RecordKind) (path name : String) (a b : Draft) :
    Except Fault (Option String) :=
  let sub := path ++ "." ++ name
  if name = "id" || name = "line" then pure none
  else if name = "body" then do
    let emptyA ← isPassBody a
    let b' := if ← isPassBody b then .list [] else b
    if emptyA then leafDifference sub (.list []) b' else difference sub a b'
  else if unraisedIsAbsent k name then
    pure (if a.isTruthy = b.isTruthy then none else some (unlike sub a b))
  else if k = .stmt .code && name = "code" then do
    let codeA ← codeOf a
    let codeB ← codeOf b
    pure (if codeA = codeB then none else some (sub ++ ": code differs"))
  else difference sub a b

theorem fieldDifference_cons (k : RecordKind) (path name : String) (a : Draft)
    (more fb : List (String × Draft)) :
    fieldDifference k path ((name, a) :: more) fb
      = orElse (oneDifference k path name a ((field? name fb).getD .null))
          (fieldDifference k path more fb) := by
  rw [fieldDifference]
  generalize (field? name fb).getD .null = b
  unfold oneDifference orElse
  by_cases hskip : (decide (name = "id") || decide (name = "line")) = true
  · simp only [if_pos hskip, Bind.bind, Except.bind, pure, Except.pure]
  · simp only [if_neg hskip]
    by_cases hbody : name = "body"
    · simp only [if_pos hbody]
      cases isPassBody a with
      | error e => rfl
      | ok emptyA =>
          cases isPassBody b with
          | error e => rfl
          | ok emptyB => cases emptyA <;> rfl
    · simp only [if_neg hbody]
      by_cases hflag : unraisedIsAbsent k name = true
      · by_cases hsame : a.isTruthy = b.isTruthy <;>
          simp only [hflag, hsame, ↓reduceIte, Bind.bind, Except.bind, pure,
            Except.pure]
      · simp only [if_neg hflag]
        split
        · cases codeOf a with
          | error e => rfl
          | ok codeA => cases codeOf b <;> rfl
        · rfl

theorem itemDifference_cons (path : String) (i : Nat) (x y : Draft)
    (xs ys : List Draft) :
    itemDifference path i (x :: xs) (y :: ys)
      = orElse (difference (path ++ "[" ++ toString i ++ "]") x y)
          (itemDifference path (i + 1) xs ys) := by
  rw [itemDifference]
  rfl

theorem verdict_oneDifference (k : RecordKind) (p q name : String)
    {a : Draft} (b : Draft)
    (h : ∀ p q b, verdict (difference p a b) = verdict (difference q a b)) :
    verdict (oneDifference k p name a b)
      = verdict (oneDifference k q name a b) := by
  -- A field is passed over, or compared up to `pass`, as a flag, up to the
  -- margin, or as it is. Which of these, no step asks the path for.
  unfold oneDifference
  split
  · rfl
  · split
    · cases isPassBody a with
      | error e => rfl
      | ok emptyA =>
          cases isPassBody b with
          | error e => rfl
          | ok emptyB =>
              cases emptyA with
              | false => exact h _ _ _
              | true =>
                  exact verdict_leafDifference (p ++ "." ++ name)
                    (q ++ "." ++ name) (.list [])
                    (if emptyB = true then .list [] else b)
    · split
      · split <;> rfl
      · split
        · cases codeOf a with
          | error e => rfl
          | ok codeA =>
              cases codeOf b with
              | error e => rfl
              | ok codeB =>
                  show verdict (.ok (if codeA = codeB then _ else _))
                    = verdict (.ok (if codeA = codeB then _ else _))
                  split <;> rfl
        · exact h _ _ _

-- ======================================================== all of a draft

mutual

/-- Whether two drafts differ does not depend on where they stand. The recursion
is that of the comparison, and the path is changed at every step of it. -/
theorem verdict_difference (p q : String) : ∀ a b : Draft,
    verdict (difference p a b) = verdict (difference q a b)
  -- The path only goes into the report, so each step of the comparison is the
  -- same at both; the recursion is over the first tree.
  | .record ka fa, b => by
      have hfields := verdict_fieldDifference p q ka fa
      cases b with
      | record kb fb =>
          simp only [difference]
          split
          · exact hfields fb
          · split <;> rfl
      | _ =>
          simp only [difference]
          split
          · rfl
          · exact verdict_leafDifference _ _ _ _
  | .list xs, b => by
      have hitems := verdict_itemDifference p q 0 xs
      cases b with
      | list ys =>
          simp only [difference]
          split
          · rfl
          · split
            · exact verdict_leafDifference _ _ _ _
            · split
              · rfl
              · exact hitems ys
      | _ =>
          simp only [difference]
          split
          · rfl
          · exact verdict_leafDifference _ _ _ _
  | .null, b | .bool _, b | .number _, b | .text _, b | .moment _, b
  | .object _, b => by
      simp only [difference]
      split
      · rfl
      · exact verdict_leafDifference _ _ _ _

theorem verdict_itemDifference (p q : String) (i : Nat) :
    ∀ xs ys : List Draft,
      verdict (itemDifference p i xs ys) = verdict (itemDifference q i xs ys)
  | x :: xs, y :: ys => by
      rw [itemDifference_cons, itemDifference_cons]
      exact verdict_orElse (verdict_difference _ _ x y)
        (verdict_itemDifference p q (i + 1) xs ys)
  | [], _ => rfl
  | _ :: _, [] => rfl

theorem verdict_fieldDifference (p q : String) (k : RecordKind) :
    ∀ fa fb : List (String × Draft),
      verdict (fieldDifference k p fa fb) = verdict (fieldDifference k q fa fb)
  | [], _ => by rw [fieldDifference, fieldDifference]
  | (name, a) :: more, fb => by
      rw [fieldDifference_cons, fieldDifference_cons]
      exact verdict_orElse
        (verdict_oneDifference k p q name _ fun p q b =>
          verdict_difference p q a b)
        (verdict_fieldDifference p q k more fb)

end

-- ================================================================ alike

/-- Two drafts between which no difference is found. The path is empty, which is
as good as any other (`difference_eq_ok_none`). -/
def Alike (a b : Draft) : Prop := difference "" a b = .ok none

/-- Two fields of records of a kind between which no difference is found. How
they are compared depends on the kind and on their name. -/
def FieldAlike (k : RecordKind) (name : String) (a b : Draft) : Prop :=
  oneDifference k "" name a b = .ok none

theorem difference_eq_ok_none (path : String) {a b : Draft} :
    difference path a b = .ok none ↔ Alike a b :=
  ⟨eq_ok_none_of_verdict (verdict_difference path "" a b),
    eq_ok_none_of_verdict (verdict_difference "" path a b)⟩

theorem oneDifference_eq_ok_none (k : RecordKind) (path name : String)
    {a b : Draft} :
    oneDifference k path name a b = .ok none ↔ FieldAlike k name a b := by
  have h := fun p q => verdict_oneDifference k p q name b
    fun p q b => verdict_difference p q a b
  exact ⟨eq_ok_none_of_verdict (h path ""), eq_ok_none_of_verdict (h "" path)⟩

theorem itemDifference_eq_ok_none (path : String) (i : Nat)
    {xs ys : List Draft} (hlen : xs.length = ys.length) :
    itemDifference path i xs ys = .ok none ↔ List.Forall₂ Alike xs ys := by
  induction xs generalizing ys i with
  | nil =>
      obtain rfl : [] = ys := (List.length_eq_zero_iff.mp hlen.symm).symm
      simp [itemDifference]
  | cons x xs ih =>
      cases ys with
      | nil => cases hlen
      | cons y ys =>
          rw [itemDifference_cons, orElse_eq_ok_none, difference_eq_ok_none,
            ih (i + 1) (Nat.succ.inj hlen), List.forall₂_cons]

/-- Lists are alike item by item, and so have as many items. An empty list is
alike to whatever is absent, which is another case. -/
theorem alike_list {xs ys : List Draft} :
    Alike (.list xs) (.list ys) ↔ List.Forall₂ Alike xs ys := by
  have hdiff : difference "" (.list xs) (.list ys)
      = if xs.isEmpty || ys.isEmpty then
          leafDifference "" (.list xs) (.list ys)
        else if xs.length ≠ ys.length then
          .ok (some ("" ++ ": length " ++ toString xs.length ++ " != "
            ++ toString ys.length))
        else itemDifference "" 0 xs ys := by
    rw [difference]
    rfl
  rw [Alike, hdiff]
  cases xs with
  | nil =>
      cases ys with
      | nil => simp [leafDifference, isAbsent]
      | cons y ys => simp [leafDifference, isAbsent]
  | cons x xs =>
      cases ys with
      | nil => simp [leafDifference, isAbsent]
      | cons y ys =>
          rw [if_neg (by simp)]
          split
          · next hlen =>
            constructor
            · intro h
              cases h
            · intro h
              exact absurd h.length_eq hlen
          · next hlen =>
            exact itemDifference_eq_ok_none _ _ (not_not.mp hlen)

theorem fieldDifference_eq_ok_none (k : RecordKind) (path : String)
    {fa fb : List (String × Draft)} :
    fieldDifference k path fa fb = .ok none
      ↔ ∀ f ∈ fa, FieldAlike k f.1 f.2 ((field? f.1 fb).getD .null) := by
  induction fa with
  | nil => simp [fieldDifference]
  | cons f fa ih =>
      rw [fieldDifference_cons, orElse_eq_ok_none, ih,
        oneDifference_eq_ok_none, List.forall_mem_cons]

/-- Records of one kind are compared field by field, and others are told by
their kinds or titles. -/
theorem difference_record (path : String) (k l : RecordKind)
    (fa fb : List (String × Draft)) :
    difference path (.record k fa) (.record l fb)
      = if k = l then fieldDifference k path fa fb
        else if k.isStmt || l.isStmt then
          .ok (some (kindDifference path (.record k fa) (.record l fb)))
        else .ok (some (path ++ ": " ++ k.title ++ " != " ++ l.title)) := by
  rw [difference]

/-- Records of a kind are alike field by field. -/
theorem alike_record {k : RecordKind} {fa fb : List (String × Draft)} :
    Alike (.record k fa) (.record k fb)
      ↔ ∀ f ∈ fa, FieldAlike k f.1 f.2 ((field? f.1 fb).getD .null) := by
  rw [← fieldDifference_eq_ok_none k "", Alike, difference_record,
    if_pos rfl]

/-- Records of different kinds are not alike. -/
theorem eq_of_alike_record {k l : RecordKind} {fa fb : List (String × Draft)}
    (h : Alike (.record k fa) (.record l fb)) : k = l := by
  rw [Alike, difference_record] at h
  split at h
  · assumption
  · split at h <;> cases h

-- =============================================================== fields

theorem fieldAlike_bookkeeping (k : RecordKind) {name : String}
    (h : name = "id" ∨ name = "line") (a b : Draft) :
    FieldAlike k name a b := by
  unfold FieldAlike oneDifference
  rw [if_pos (by simpa using h)]
  rfl

/-- Most fields are compared as they are. -/
theorem fieldAlike_plain {k : RecordKind} (name : String)
    (hskip : name ≠ "id" ∧ name ≠ "line" ∧ name ≠ "body")
    (hflag : unraisedIsAbsent k name = false)
    (hcode : ¬ (k = .stmt .code ∧ name = "code")) {a b : Draft} :
    FieldAlike k name a b ↔ Alike a b := by
  unfold FieldAlike oneDifference
  simp only
  rw [if_neg (by simp [hskip.1, hskip.2.1]), if_neg hskip.2.2,
    if_neg (by simp [hflag]), if_neg (by simpa using hcode)]
  exact difference_eq_ok_none _

/-- Some flags only count as raised or not. -/
theorem fieldAlike_flag {k : RecordKind} {name : String}
    (hskip : name ≠ "id" ∧ name ≠ "line" ∧ name ≠ "body")
    (hflag : unraisedIsAbsent k name = true) {a b : Draft} :
    FieldAlike k name a b ↔ a.isTruthy = b.isTruthy := by
  unfold FieldAlike oneDifference
  simp only
  rw [if_neg (by simp [hskip.1, hskip.2.1]), if_neg hskip.2.2, if_pos hflag]
  by_cases h : a.isTruthy = b.isTruthy
  · simp [h, pure, Except.pure]
  · simp [h, pure, Except.pure]

-- ================================================================ texts

theorem alike_text {s t : String} :
    Alike (.text s) (.text t) ↔ s = t := by
  have hkind : ((Draft.text t).stmtKind?).isSome = false := rfl
  unfold Alike difference
  simp only [hkind, Bool.false_eq_true, if_false, leafDifference, isAbsent,
    same]
  by_cases hs : s = "" <;> by_cases ht : t = "" <;> by_cases hst : s = t <;>
    simp_all

theorem forall₂_alike_text {ss ts : List String} :
    List.Forall₂ Alike (ss.map Draft.text) (ts.map Draft.text) ↔ ss = ts := by
  rw [List.forall₂_map_left_iff, List.forall₂_map_right_iff]
  simp only [alike_text]
  rw [List.forall₂_eq_eq_eq]

@[simp] theorem isTruthy_optFlag (o : Option Bool) :
    (optFlag o).isTruthy = Written.isSet o := by
  cases o <;> rfl

theorem present_of_ne {s : String} (h : s ≠ "") :
    Written.present (some s) = some s := by
  unfold Written.present
  split
  · next heq => exact absurd (Option.some.inj heq) h
  · rfl

/-- Texts that may be absent are alike if the same is present. -/
theorem alike_optText {o o' : Option String} :
    Alike (optText o) (optText o') ↔ Written.present o = Written.present o' := by
  -- A text that is absent is compared as an empty one, in either order.
  have hnull : ∀ t, Alike .null (.text t) ↔ t = "" := by
    intro t
    by_cases ht : t = "" <;>
      simp [Alike, difference, stmtKind?, leafDifference, isAbsent, ht]
  have hnull' : ∀ s, Alike (.text s) .null ↔ s = "" := by
    intro s
    by_cases hs : s = "" <;>
      simp [Alike, difference, stmtKind?, leafDifference, isAbsent, hs]
  have hpresent : ∀ s, Written.present (some s) = none ↔ s = "" := by
    intro s
    by_cases hs : s = ""
    · subst hs
      exact ⟨fun _ => rfl, fun _ => rfl⟩
    · rw [present_of_ne hs]
      simp [hs]
  cases o with
  | none =>
      cases o' with
      | none =>
          exact ⟨fun _ => rfl, fun _ => rfl⟩
      | some t => exact (hnull t).trans ((hpresent t).symm.trans eq_comm)
  | some s =>
      cases o' with
      | none => exact (hnull' s).trans (hpresent s).symm
      | some t =>
          refine alike_text.trans ⟨fun h => by rw [h], fun h => ?_⟩
          by_cases hs : s = ""
          · subst hs
            exact ((hpresent t).mp h.symm).symm
          · rw [present_of_ne hs] at h
            by_cases ht : t = ""
            · subst ht
              cases h
            · rw [present_of_ne ht] at h
              exact Option.some.inj h

/-- Lists of texts that may be absent are alike if they have the same
items. -/
theorem alike_optTexts {o o' : Option (List String)} :
    Alike (optTexts o) (optTexts o') ↔ Written.items o = Written.items o' := by
  have hnull : ∀ ts : List String,
      Alike .null (.list (ts.map .text)) ↔ ts = [] := by
    intro ts
    cases ts <;> simp [Alike, difference, stmtKind?, leafDifference, isAbsent]
  have hnull' : ∀ ts : List String,
      Alike (.list (ts.map .text)) .null ↔ ts = [] := by
    intro ts
    cases ts <;> simp [Alike, difference, stmtKind?, leafDifference, isAbsent]
  cases o with
  | none =>
      cases o' with
      | none => exact ⟨fun _ => rfl, fun _ => rfl⟩
      | some ts => exact (hnull ts).trans eq_comm
  | some ss =>
      cases o' with
      | none => exact hnull' ss
      | some ts => exact alike_list.trans forall₂_alike_text

-- =========================================================== statements

theorem field?_append (name : String) (as bs : List (String × Draft)) :
    field? name (as ++ bs) = (field? name as).or (field? name bs) := by
  induction as with
  | nil => rfl
  | cons a as ih =>
      rw [List.cons_append, field?, field?, ih]
      split <;> rfl

/-- The statement's own field, behind its identity and before its line. -/
theorem field?_tagged {name : String} (hid : name ≠ "id")
    (hline : name ≠ "line") (id line : Draft)
    (own : List (String × Draft)) :
    field? name (("id", id) :: own ++ [("line", line)]) = field? name own := by
  rw [List.cons_append, field?, if_neg hid.symm, field?_append, field?,
    if_neg hline.symm]
  cases field? name own <;> rfl

/-- Statements of a kind are alike by their own fields. -/
theorem alike_tagged {k : StmtKind} {tag tag' : Tag}
    {own own' : List (String × Draft)}
    (hown : ∀ f ∈ own, f.1 ≠ "id" ∧ f.1 ≠ "line") :
    Alike (ofTagged k tag own) (ofTagged k tag' own')
      ↔ ∀ f ∈ own, FieldAlike (.stmt k) f.1 f.2
          ((field? f.1 own').getD .null) := by
  rw [ofTagged, ofTagged, alike_record]
  constructor
  · intro h f hf
    have := h f (List.mem_append_left _ (List.mem_cons_of_mem _ hf))
    rwa [field?_tagged (hown f hf).1 (hown f hf).2] at this
  · intro h f hf
    rcases List.mem_append.mp hf with hf | hf
    · rcases List.mem_cons.mp hf with rfl | hf
      · exact fieldAlike_bookkeeping _ (Or.inl rfl) _ _
      · rw [field?_tagged (hown f hf).1 (hown f hf).2]
        exact h f hf
    · obtain rfl : f = _ := List.mem_singleton.mp hf
      exact fieldAlike_bookkeeping _ (Or.inr rfl) _ _

/-- Whether statements are one raw line that only says `pass`. -/
def saysPass : List Stmt → Bool
  | [s] => (s.rawContent?.map fun c => decide (Text.trimmed c = "pass")).getD
      false
  | _ => false

/-- The statements of a body; one that only says `pass` is empty. -/
def withoutPass (ss : List Stmt) : List Stmt := if saysPass ss then [] else ss

theorem isPassBody_ofStmts (ss : List Stmt) :
    isPassBody (.list (ofStmts ss)) = .ok (saysPass ss) := by
  match ss with
  | [] => rfl
  | [.label ..] | [.menu ..] | [.conditional ..] => rfl
  | [.simple tag s] =>
      cases s with
      | raw content =>
          have htext : textOrEmpty (.text content) = .ok content := by
            by_cases hc : content = ""
            · subst hc
              rfl
            · simp [textOrEmpty, isTruthy, hc]
          show (textOrEmpty (.text content) >>= fun c =>
            pure (decide (Text.trimmed c = "pass"))) = _
          rw [htext]
          rfl
      | display verb image o => cases verb <;> rfl
      | _ => rfl
  | a :: _ :: _ =>
      cases a with
      | simple tag s =>
          cases s with
          | display verb image o => cases verb <;> rfl
          | _ => rfl
      | _ => rfl

/-- Bodies are alike by their statements, once a lone `pass` is left out. -/
theorem fieldAlike_body {k : RecordKind} {as bs : List Stmt} :
    FieldAlike k "body" (.list (ofStmts as)) (.list (ofStmts bs))
      ↔ List.Forall₂ Alike (ofStmts (withoutPass as))
          (ofStmts (withoutPass bs)) := by
  have hleaf : ∀ p (ds : List Draft),
      leafDifference p (.list []) (.list ds) = .ok none ↔ ds = [] := by
    intro p ds
    cases ds <;> simp [leafDifference, isAbsent]
  have hlist : (if saysPass bs = true then Draft.list []
      else .list (ofStmts bs)) = .list (ofStmts (withoutPass bs)) := by
    unfold withoutPass
    split <;> rfl
  unfold FieldAlike oneDifference
  simp only [isPassBody_ofStmts]
  rw [if_neg (by decide), if_pos trivial]
  simp only [Bind.bind, Except.bind]
  rw [hlist]
  cases hpass : saysPass as with
  | false =>
      have has : withoutPass as = as := if_neg (by rw [hpass]; decide)
      rw [if_neg (by decide), difference_eq_ok_none, alike_list, has]
  | true =>
      have has : withoutPass as = [] := if_pos hpass
      rw [if_pos rfl, hleaf, has, ofStmts, List.forall₂_nil_left_iff]

/-- Two simple statements of which the drafts are alike. -/
def SimpleAlike (s s' : Simple) : Prop :=
  (ofSimple s).1 = (ofSimple s').1
    ∧ ∀ f ∈ (ofSimple s).2, FieldAlike (.stmt (ofSimple s).1) f.1 f.2
        ((field? f.1 (ofSimple s').2).getD .null)

theorem own_ofSimple (s : Simple) :
    ∀ f ∈ (ofSimple s).2, f.1 ≠ "id" ∧ f.1 ≠ "line" := by
  cases s <;> simp [ofSimple]

/-- Whether simple statements are alike does not depend on their tags. -/
theorem alike_simple {tag tag' : Tag} {s s' : Simple} :
    Alike (ofStmt (.simple tag s)) (ofStmt (.simple tag' s'))
      ↔ SimpleAlike s s' := by
  rw [ofStmt, ofStmt]
  constructor
  · intro h
    have hkind := eq_of_alike_record h
    obtain hk : (ofSimple s).1 = (ofSimple s').1 := by simpa using hkind
    refine ⟨hk, ?_⟩
    rw [← hk] at h
    exact (alike_tagged (own_ofSimple s)).mp h
  · rintro ⟨hk, hown⟩
    rw [← hk]
    exact (alike_tagged (own_ofSimple s)).mpr hown

theorem alike_label {tag tag' : Tag} {name name' : String}
    {ps ps' : Option (List String)} {body body' : List Stmt} :
    Alike (ofStmt (.label tag name ps body))
        (ofStmt (.label tag' name' ps' body'))
      ↔ name = name' ∧ Written.items ps = Written.items ps'
        ∧ List.Forall₂ Alike (ofStmts (withoutPass body))
            (ofStmts (withoutPass body')) := by
  rw [ofStmt, ofStmt, alike_tagged (by simp)]
  simp only [List.forall_mem_cons, List.not_mem_nil, false_imp_iff,
    implies_true, and_true]
  rw [fieldAlike_plain "name" (by simp) rfl (by simp),
    fieldAlike_plain "parameters" (by simp) rfl (by simp)]
  show Alike (.text name) (.text name')
      ∧ FieldAlike _ "body" (.list (ofStmts body)) (.list (ofStmts body'))
      ∧ Alike (optTexts ps) (optTexts ps') ↔ _
  rw [alike_text, fieldAlike_body, alike_optTexts]
  tauto

/-- The heads of two menus in which the same is present. -/
def HeadAlike (h h' : MenuHead) : Prop :=
  Written.present h.prompt = Written.present h'.prompt
    ∧ Written.present h.promptSpeaker = Written.present h'.promptSpeaker
    ∧ Written.present h.setVar = Written.present h'.setVar
    ∧ Written.present h.screen = Written.present h'.screen
    ∧ Written.present h.name = Written.present h'.name

theorem alike_menu {tag tag' : Tag} {head head' : MenuHead}
    {choices choices' : List Choice} :
    Alike (ofStmt (.menu tag head choices))
        (ofStmt (.menu tag' head' choices'))
      ↔ HeadAlike head head'
        ∧ List.Forall₂ Alike (ofChoices choices) (ofChoices choices') := by
  rw [ofStmt, ofStmt, alike_tagged (by simp)]
  simp only [List.forall_mem_cons, List.not_mem_nil, false_imp_iff,
    implies_true, and_true]
  rw [fieldAlike_plain "choices" (by simp) rfl (by simp),
    fieldAlike_plain "prompt" (by simp) rfl (by simp),
    fieldAlike_plain "prompt_speaker" (by simp) rfl (by simp),
    fieldAlike_plain "set_var" (by simp) rfl (by simp),
    fieldAlike_plain "screen" (by simp) rfl (by simp),
    fieldAlike_plain "name" (by simp) rfl (by simp)]
  show Alike (.list (ofChoices choices)) (.list (ofChoices choices'))
      ∧ Alike (optText head.prompt) (optText head'.prompt)
      ∧ Alike (optText head.promptSpeaker) (optText head'.promptSpeaker)
      ∧ Alike (optText head.setVar) (optText head'.setVar)
      ∧ Alike (optText head.screen) (optText head'.screen)
      ∧ Alike (optText head.name) (optText head'.name) ↔ _
  simp only [alike_list, alike_optText]
  exact and_comm

theorem alike_conditional {tag tag' : Tag} {branches branches' : List Branch} :
    Alike (ofStmt (.conditional tag branches))
        (ofStmt (.conditional tag' branches'))
      ↔ List.Forall₂ Alike (ofBranches branches) (ofBranches branches') := by
  rw [ofStmt, ofStmt, alike_tagged (by simp)]
  simp only [List.forall_mem_cons, List.not_mem_nil, false_imp_iff,
    implies_true, and_true]
  rw [fieldAlike_plain "branches" (by simp) rfl (by simp)]
  exact alike_list

theorem alike_choices {text text' : String} {condition condition' : Option String}
    {line line' : Option Nat} {body body' : List Stmt}
    {more more' : List Choice} :
    List.Forall₂ Alike (ofChoices (.mk text condition line body :: more))
        (ofChoices (.mk text' condition' line' body' :: more'))
      ↔ (text = text'
          ∧ Written.present condition = Written.present condition'
          ∧ List.Forall₂ Alike (ofStmts (withoutPass body))
              (ofStmts (withoutPass body')))
        ∧ List.Forall₂ Alike (ofChoices more) (ofChoices more') := by
  rw [ofChoices, ofChoices, List.forall₂_cons, alike_record]
  simp only [List.forall_mem_cons, List.not_mem_nil, false_imp_iff,
    implies_true, and_true]
  rw [fieldAlike_plain "text" (by simp) rfl (by simp),
    fieldAlike_plain "condition" (by simp) rfl (by simp)]
  show ((Alike (.text text) (.text text')
      ∧ FieldAlike _ "body" (.list (ofStmts body)) (.list (ofStmts body'))
      ∧ Alike (optText condition) (optText condition')
      ∧ FieldAlike _ "line" _ _) ∧ _) ↔ _
  rw [alike_text, fieldAlike_body, alike_optText]
  have hline := fieldAlike_bookkeeping .choice (Or.inr (Eq.refl "line"))
    (optLine line) (optLine line')
  tauto

theorem alike_branches {condition condition' : Option String}
    {line line' : Option Nat} {body body' : List Stmt}
    {more more' : List Branch} :
    List.Forall₂ Alike (ofBranches (.mk condition line body :: more))
        (ofBranches (.mk condition' line' body' :: more'))
      ↔ (Written.present condition = Written.present condition'
          ∧ List.Forall₂ Alike (ofStmts (withoutPass body))
              (ofStmts (withoutPass body')))
        ∧ List.Forall₂ Alike (ofBranches more) (ofBranches more') := by
  rw [ofBranches, ofBranches, List.forall₂_cons, alike_record]
  simp only [List.forall_mem_cons, List.not_mem_nil, false_imp_iff,
    implies_true, and_true]
  rw [fieldAlike_plain "condition" (by simp) rfl (by simp)]
  show ((Alike (optText condition) (optText condition')
      ∧ FieldAlike _ "body" (.list (ofStmts body)) (.list (ofStmts body'))
      ∧ FieldAlike _ "line" _ _) ∧ _) ↔ _
  rw [fieldAlike_body, alike_optText]
  have hline := fieldAlike_bookkeeping .branch (Or.inr (Eq.refl "line"))
    (optLine line) (optLine line')
  tauto

theorem listDifference_eq_ok_none {as bs : List Stmt} :
    listDifference (ofStmts as) (ofStmts bs) = .ok none
      ↔ List.Forall₂ Alike (ofStmts as) (ofStmts bs) := by
  rw [listDifference, difference_eq_ok_none, alike_list]

end NovelScript.Draft
