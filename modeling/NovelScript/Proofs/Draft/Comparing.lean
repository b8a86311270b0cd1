/-
When a comparison gives an answer. Comparing two drafts fails on two occasions
only: a number is beyond the doubles, or code or raw content is no text. Drafts
in which the second does not occur are `Comparable`, and so are the drafts of
all statements; a comparison of two of them gives an answer as soon as their
numbers have doubles, and is refused for an integer that has none.

# Which numbers count

`Comparable P` says of a draft that its texts are texts and that `P` holds of
its numbers. It is stated for any `P`, so that one induction over the comparison
serves both ends: with numbers that have doubles there is an answer
(`exists_difference`), and with any numbers a refusal names one that has none
(`Answers`). Lines are never looked at, and a number there does not count.

# The shape of the induction

It follows the three functions of the comparison, over drafts, items and fields.
A field that is missing is compared as nothing, which can be compared with
anything; so a statement about the fields that are there is enough
(`comparable_field`).
-/
import NovelScript.Proofs.Number.Near
import NovelScript.Proofs.RoundTrip.Again
import NovelScript.RoundTrip

namespace NovelScript

-- ============================================================= numbers

/-- The numbers in a simple statement. -/
def Simple.numbers : Simple → List Number
  | .display _ _ o => (o.zorder.map .int).toList
  | .play _ _ o => o.fadeIn.toList ++ o.fadeOut.toList ++ o.volume.toList
  | .stop _ fadeOut => fadeOut.toList
  | .pause duration => duration.toList
  | _ => []

/-- Something holds of all numbers in some statements. -/
def Stmt.Numbers (P : Number → Prop) (ss : List Stmt) : Prop :=
  Stmt.LeavesAll (fun s => ∀ n ∈ s.numbers, P n) ss

namespace Draft

-- ========================================================== comparable

/-- A text, or nothing. -/
def Textual (d : Draft) : Prop := d = .null ∨ ∃ s, d = .text s

/-- A field that is read as a text is one. -/
def FieldTextual (name : String) (d : Draft) : Prop :=
  name = "code" ∨ name = "content" → Textual d

mutual

/-- Something holds of all numbers of a draft, and what is read as a text is
one. -/
def Comparable (P : Number → Prop) : Draft → Prop
  | .number n => P n
  | .list items => ComparableAll P items
  | .record _ fields => ComparableFields P fields
  | .null | .bool _ | .text _ | .moment _ | .object _ => True

/-- So it is in all of several drafts. -/
def ComparableAll (P : Number → Prop) : List Draft → Prop
  | [] => True
  | d :: more => Comparable P d ∧ ComparableAll P more

/-- So it is in all fields of a record; lines are never looked at. -/
def ComparableFields (P : Number → Prop) : List (String × Draft) → Prop
  | [] => True
  | (name, d) :: more =>
    (name ≠ "line" → Comparable P d) ∧ FieldTextual name d
      ∧ ComparableFields P more

end

variable {P : Number → Prop}

/-- A field that is not there is nothing, and can be compared. So it is enough
to know something about the fields that are there. -/
theorem comparable_field {fields : List (String × Draft)} (name : String)
    (h : ComparableFields P fields) :
    (name ≠ "line" → Comparable P ((field? name fields).getD .null))
      ∧ FieldTextual name ((field? name fields).getD .null) := by
  induction fields with
  | nil => exact ⟨fun _ => trivial, fun _ => Or.inl rfl⟩
  | cons f fields ih =>
      obtain ⟨n, d⟩ := f
      rw [field?]
      by_cases hn : n = name
      · rw [if_pos hn, ← hn]
        exact ⟨h.1, h.2.1⟩
      · rw [if_neg hn]
        exact ih h.2.2

-- ============================================================= answers

/-- A comparison gives an answer, unless it is refused for one of the numbers,
which has no double. -/
def Answers (P : Number → Prop) (r : Except Fault (Option String)) : Prop :=
  ∀ e, r = .error e → e = .tooLarge ∧ ∃ n, P n ∧ ¬ n.Measurable

theorem answers_ok (found : Option String) : Answers P (.ok found) := by
  intro e h
  cases h

theorem answers_orElse {r rest : Except Fault (Option String)}
    (h : Answers P r) (hrest : Answers P rest) : Answers P (orElse r rest) := by
  cases r with
  | error e => exact h
  | ok found =>
      cases found with
      | none => exact hrest
      | some message => exact answers_ok (some message)

theorem answers_leafDifference (path : String) {a b : Draft}
    (ha : Comparable P a) (hb : Comparable P b) :
    Answers P (leafDifference path a b) := by
  unfold leafDifference
  split
  · exact answers_ok _
  · split
    · exact answers_ok _
    · exact answers_ok _
    · exact answers_ok _
    · next x y _ =>
      cases hclose : x.close? y with
      | some near => cases near <;> exact answers_ok _
      | none =>
          intro e he
          refine ⟨(Except.error.inj he).symm, ?_⟩
          by_cases hx : x.Measurable
          · refine ⟨y, hb, fun hy => ?_⟩
            obtain ⟨near, hnear⟩ := Number.close?_of_measurable hx hy
            rw [hnear] at hclose
            cases hclose
          · exact ⟨x, ha, hx⟩
    · exact answers_ok _

theorem exists_textOrEmpty {d : Draft} (h : Textual d) :
    ∃ s, textOrEmpty d = .ok s := by
  rcases h with rfl | ⟨s, rfl⟩
  · exact ⟨"", rfl⟩
  · unfold textOrEmpty
    split <;> exact ⟨_, rfl⟩

theorem exists_codeOf {d : Draft} (h : Textual d) :
    ∃ cs, codeOf d = .ok cs := by
  obtain ⟨s, hs⟩ := exists_textOrEmpty h
  exact ⟨_, by rw [codeOf, hs]; rfl⟩

theorem exists_isPassBody {d : Draft} (h : Comparable P d) :
    ∃ empty, isPassBody d = .ok empty := by
  unfold isPassBody
  split
  · next fields =>
    obtain ⟨c, hc⟩ :=
      exists_textOrEmpty ((comparable_field "content" h.1).2 (Or.inr rfl))
    exact ⟨_, by rw [hc]; rfl⟩
  · exact ⟨false, rfl⟩

/-- Two fields are compared as far as what is in them can be. -/
theorem answers_oneDifference (k : RecordKind) (path name : String)
    {a b : Draft} (ha : name ≠ "line" → Comparable P a)
    (hatext : FieldTextual name a)
    (hb : name ≠ "line" → Comparable P b) (hbtext : FieldTextual name b)
    (h : Comparable P a → ∀ p b, Comparable P b →
      Answers P (difference p a b)) :
    Answers P (oneDifference k path name a b) := by
  unfold oneDifference
  split
  · exact answers_ok none
  · next hskip =>
    have hline : name ≠ "line" := by
      rintro rfl
      exact hskip rfl
    replace h := h (ha hline)
    replace ha := ha hline
    replace hb := hb hline
    -- Four ways of comparing a field: bodies up to `pass`, flags that may be
    -- absent, code up to its margin, and all else as it is. In none of them does
    -- a comparable value stop the comparison.
    split
    · obtain ⟨emptyA, hemptyA⟩ := exists_isPassBody ha
      obtain ⟨emptyB, hemptyB⟩ := exists_isPassBody hb
      have hbody : Comparable P (if emptyB = true then .list [] else b) := by
        split
        · exact trivial
        · exact hb
      have hempty : Comparable P (.list []) := trivial
      rw [hemptyA, hemptyB]
      cases emptyA with
      | true => exact answers_leafDifference _ hempty hbody
      | false => exact h _ _ hbody
    · split
      · exact answers_ok _
      · split
        · next hcode =>
          simp only [Bool.and_eq_true, decide_eq_true_eq] at hcode
          obtain ⟨-, hname⟩ := hcode
          obtain ⟨codeA, hcodeA⟩ := exists_codeOf (hatext (.inl hname))
          obtain ⟨codeB, hcodeB⟩ := exists_codeOf (hbtext (.inl hname))
          rw [hcodeA, hcodeB]
          exact answers_ok _
        · exact h _ _ hb

mutual

/-- A comparison is refused for nothing but a number. -/
theorem answers_difference (path : String) : ∀ a b : Draft,
    Comparable P a → Comparable P b → Answers P (difference path a b)
  -- The cases are those of the comparison: two records, two lists, and all
  -- else, which is compared as leaves or not at all.
  | .record ka fa, b, ha, hb => by
      have hfields := answers_fieldDifference path ka fa
      cases b with
      | record kb fb =>
          rw [difference_record]
          split
          · exact hfields fb ha hb
          · split <;> exact answers_ok _
      | _ =>
          simp only [difference]
          split
          · exact answers_ok _
          · exact answers_leafDifference path ha hb
  | .list xs, b, ha, hb => by
      have hitems := answers_itemDifference path 0 xs
      cases b with
      | list ys =>
          simp only [difference]
          split
          · exact answers_ok _
          · split
            · exact answers_leafDifference path ha hb
            · split
              · exact answers_ok _
              · exact hitems ys ha hb
      | _ =>
          simp only [difference]
          split
          · exact answers_ok _
          · exact answers_leafDifference path ha hb
  | .null, b, ha, hb | .bool _, b, ha, hb | .number _, b, ha, hb
  | .text _, b, ha, hb | .moment _, b, ha, hb | .object _, b, ha, hb => by
      simp only [difference]
      split
      · exact answers_ok _
      · exact answers_leafDifference path ha hb

theorem answers_itemDifference (path : String) (i : Nat) :
    ∀ xs ys : List Draft, ComparableAll P xs → ComparableAll P ys →
      Answers P (itemDifference path i xs ys)
  | x :: xs, y :: ys, hxs, hys => by
      rw [itemDifference_cons]
      exact answers_orElse (answers_difference _ x y hxs.1 hys.1)
        (answers_itemDifference path (i + 1) xs ys hxs.2 hys.2)
  | [], _, _, _ => answers_ok none
  | _ :: _, [], _, _ => answers_ok none

theorem answers_fieldDifference (path : String) (k : RecordKind) :
    ∀ fa fb : List (String × Draft),
      ComparableFields P fa → ComparableFields P fb →
      Answers P (fieldDifference k path fa fb)
  | [], _, _, _ => by
      rw [fieldDifference]
      exact answers_ok none
  | (name, a) :: more, fb, hfa, hfb => by
      rw [fieldDifference_cons]
      obtain ⟨hb, hbtext⟩ := comparable_field name hfb
      exact answers_orElse
        (answers_oneDifference k path name hfa.1 hfa.2.1 hb hbtext
          fun ha p b => answers_difference p a b ha)
        (answers_fieldDifference path k more fb hfa.2.2 hfb)

end

/-- A comparison of drafts whose numbers have doubles gives an answer. Drafts of
statements are such drafts if their integers are no larger than the doubles. -/
theorem exists_difference (path : String) (a b : Draft)
    (ha : Comparable Number.Measurable a)
    (hb : Comparable Number.Measurable b) :
    ∃ found, difference path a b = .ok found := by
  have hanswers := answers_difference path a b ha hb
  cases hr : difference path a b with
  | ok found => exact ⟨found, rfl⟩
  | error e =>
      obtain ⟨-, n, hn, hnot⟩ := hanswers e hr
      exact absurd hn hnot

-- ========================================================== statements

/-- An integer that may be absent is a number that may be absent. -/
theorem optional_int (o : Option Int) :
    optional int o = optNumber (o.map .int) := by
  cases o <;> rfl

theorem comparable_optText (o : Option String) : Comparable P (optText o) := by
  cases o <;> exact trivial

theorem comparable_optFlag (o : Option Bool) : Comparable P (optFlag o) := by
  cases o <;> exact trivial

theorem comparable_optTexts (o : Option (List String)) :
    Comparable P (optTexts o) := by
  cases o with
  | none => exact trivial
  | some ts =>
      show ComparableAll P (ts.map .text)
      induction ts with
      | nil => exact trivial
      | cons t ts ih => exact ⟨trivial, ih⟩

theorem comparable_optNumber {o : Option Number}
    (h : ∀ n ∈ o.toList, P n) : Comparable P (optNumber o) := by
  cases o with
  | none => exact trivial
  | some n => exact h n (List.mem_singleton_self n)

theorem comparable_text (s : String) : Comparable P (.text s) := trivial

theorem comparableFields_append {fa fb : List (String × Draft)} :
    ComparableFields P (fa ++ fb)
      ↔ ComparableFields P fa ∧ ComparableFields P fb := by
  induction fa with
  | nil => exact (and_iff_right trivial).symm
  | cons f fa ih =>
      obtain ⟨name, d⟩ := f
      simp only [List.cons_append, ComparableFields, ih, and_assoc]

/-- A statement is comparable by its own fields. -/
theorem comparable_ofTagged {k : StmtKind} {tag : Tag}
    {own : List (String × Draft)} (h : ComparableFields P own) :
    Comparable P (ofTagged k tag own) := by
  simp [ofTagged, Comparable, ComparableFields, comparableFields_append,
    FieldTextual, h]

theorem comparable_displayOptions {o : DisplayOptions}
    (h : ∀ n ∈ (o.zorder.map Number.int).toList, P n) :
    Comparable P (ofDisplayOptions o) := by
  have hz := comparable_optNumber h
  rw [← optional_int] at hz
  simp [ofDisplayOptions, Comparable, FieldTextual,
    comparable_optTexts, comparable_optText, hz, ComparableFields]

theorem comparable_audioOptions {o : AudioOptions}
    (h : ∀ n ∈ o.fadeIn.toList ++ o.fadeOut.toList ++ o.volume.toList, P n) :
    Comparable P (ofAudioOptions o) := by
  simp only [List.forall_mem_append] at h
  simp [ofAudioOptions, Comparable, FieldTextual,
    comparable_optNumber h.1.1, comparable_optNumber h.1.2,
    comparable_optNumber h.2, comparable_optFlag, ComparableFields]

theorem comparable_ofSimple {s : Simple} (h : ∀ n ∈ s.numbers, P n) :
    ComparableFields P (ofSimple s).2 := by
  cases s with
  | display verb image o =>
      simp [ofSimple, FieldTextual, comparable_text,
        comparable_displayOptions h, ComparableFields]
  | play channel file o =>
      simp [ofSimple, FieldTextual, comparable_text,
        comparable_audioOptions h, ComparableFields]
  | stop channel fadeOut =>
      simp [ofSimple, FieldTextual, comparable_text,
        comparable_optNumber h, ComparableFields]
  | pause duration =>
      simp [ofSimple, FieldTextual, comparable_optNumber h,
        ComparableFields]
  | code c =>
      simp [ofSimple, ComparableFields, FieldTextual, Textual, comparable_text,
        comparable_optFlag]
  | raw content =>
      simp [ofSimple, ComparableFields, FieldTextual, Textual, comparable_text]
  | _ =>
      simp [ofSimple, FieldTextual, comparable_text,
        comparable_optText, comparable_optTexts, comparable_optFlag,
        ComparableFields]

mutual

/-- A statement can be compared if its numbers can. -/
theorem comparable_ofStmt : ∀ s : Stmt,
    s.Leaves (fun s => ∀ n ∈ s.numbers, P n) → Comparable P (ofStmt s)
  | .simple _ s, h => comparable_ofTagged (comparable_ofSimple h)
  | .label _ name ps body, h => by
      have hbody : Comparable P (.list (ofStmts body)) :=
        comparable_ofStmts body h
      refine comparable_ofTagged ?_
      simp [FieldTextual, comparable_text, hbody, comparable_optTexts,
        ComparableFields]
  | .menu _ head choices, h => by
      have hchoices : Comparable P (.list (ofChoices choices)) :=
        comparable_ofChoices choices h
      refine comparable_ofTagged ?_
      simp [FieldTextual, hchoices, comparable_optText,
        ComparableFields]
  | .conditional _ branches, h => by
      have hbranches : Comparable P (.list (ofBranches branches)) :=
        comparable_ofBranches branches h
      refine comparable_ofTagged ?_
      simp [FieldTextual, hbranches, ComparableFields]

theorem comparable_ofStmts : ∀ ss : List Stmt,
    Stmt.Numbers P ss → ComparableAll P (ofStmts ss)
  | [], _ => trivial
  | s :: ss, h => ⟨comparable_ofStmt s h.1, comparable_ofStmts ss h.2⟩

theorem comparable_ofChoices : ∀ cs : List Choice,
    Choice.LeavesAll (fun s => ∀ n ∈ s.numbers, P n) cs →
      ComparableAll P (ofChoices cs)
  | [], _ => trivial
  | .mk said condition line body :: cs, h => by
      have hbody : Comparable P (.list (ofStmts body)) :=
        comparable_ofStmts body h.1
      refine ⟨?_, comparable_ofChoices cs h.2⟩
      change ComparableFields P _
      simp [FieldTextual, comparable_text, hbody,
        comparable_optText, ComparableFields]

theorem comparable_ofBranches : ∀ bs : List Branch,
    Branch.LeavesAll (fun s => ∀ n ∈ s.numbers, P n) bs →
      ComparableAll P (ofBranches bs)
  | [], _ => trivial
  | .mk condition line body :: bs, h => by
      have hbody : Comparable P (.list (ofStmts body)) :=
        comparable_ofStmts body h.1
      refine ⟨?_, comparable_ofBranches bs h.2⟩
      change ComparableFields P _
      simp [FieldTextual, hbody, comparable_optText,
        ComparableFields]

end

end Draft

/-- A comparison of two scripts gives an answer, unless an integer in one of
them is beyond the doubles: for nothing else is it refused. -/
theorem Script.tooLarge_of_difference {P : Number → Prop} {a b : Script}
    (ha : Stmt.Numbers P a.statements) (hb : Stmt.Numbers P b.statements)
    {e : Fault} (h : a.difference b = .error e) :
    e = .tooLarge ∧ ∃ i, P (.int i) ∧ (Number.int i).toDouble? = none := by
  obtain ⟨he, n, hn, hnot⟩ :=
    Draft.answers_difference "statements" (.list _) (.list _)
      (Draft.comparable_ofStmts a.statements ha)
      (Draft.comparable_ofStmts b.statements hb) e h
  obtain ⟨i, rfl, hi⟩ := Number.exists_int_of_not_measurable hnot
  exact ⟨he, i, hn, hi⟩

end NovelScript
