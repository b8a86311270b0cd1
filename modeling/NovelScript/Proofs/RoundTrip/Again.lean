/-
What a script is after it was written and read again. Compound statements come
back as they were, except that what is absent in one of several ways is then
absent in one way, and that a body which only says `pass` is then empty. A
simple statement comes back as whatever its line is taken for; that is a
parameter here.

# Coming back

`Stmt.again` puts such a parameter into all leaves of a tree. It takes the tags
off, since identities and line numbers are new ones each time. `Stmt.Leaves`
says that something holds of all simple statements in a tree; every statement
about trees below is of the form that it holds of the tree if something holds of
its leaves.

# What can come back

`Proper` asks for names that are names, for conditions on one line, for branches
of which only the last may have no condition, and so on: what the reader accepts
in a header, and no more. It says nothing of simple statements. A body that is
one line of raw text saying `pass`, with white space around it, is refused,
because it would come back as an empty body (`ExactPass`).

# Meaning the same

`alike_againAll` says when the script that comes back means the same: exactly if
each simple statement in it does. The induction is over the tree, and a lone
`pass` is its only difficulty, since it is compared as an empty body: a leaf
that says `pass` has to come back as it is (`KeepsPass`), and then so does the
body (`alike_againBody_of`).
-/
import NovelScript.Proofs.Draft.Difference
import NovelScript.Proofs.Grammar.Heading

namespace NovelScript

open Draft (saysPass)

-- ====================================================== coming back

/-- A menu's head as it comes back: empty texts are absent. Who asks a question
that is not there is never read, which has to be asked of the head. -/
def MenuHead.again (h : MenuHead) : MenuHead where
  prompt := Written.present h.prompt
  promptSpeaker := Written.present h.promptSpeaker
  setVar := Written.present h.setVar
  screen := Written.present h.screen
  name := Written.present h.name

section

variable (f : Simple → Simple)

mutual

/-- A statement as it comes back, without its tag. What simple statements come
back as is given by a function, so that this can be said before anything is
known about them. -/
def Stmt.again : Stmt → Stmt
  | .simple _ s => .simple ⟨"", none⟩ (f s)
  | .label _ name parameters body =>
    .label ⟨"", none⟩ name (presentItems parameters)
      (Draft.withoutPass (Stmt.againAll body))
  | .menu _ head choices =>
    .menu ⟨"", none⟩ head.again (Choice.againAll choices)
  | .conditional _ branches =>
    .conditional ⟨"", none⟩ (Branch.againAll branches)

/-- Statements as they come back. -/
def Stmt.againAll : List Stmt → List Stmt
  | [] => []
  | s :: more => Stmt.again s :: Stmt.againAll more

/-- Choices as they come back. -/
def Choice.againAll : List Choice → List Choice
  | [] => []
  | .mk text condition _ body :: more =>
    .mk text (Written.present condition) none
        (Draft.withoutPass (Stmt.againAll body))
      :: Choice.againAll more

/-- Branches as they come back. -/
def Branch.againAll : List Branch → List Branch
  | [] => []
  | .mk condition _ body :: more =>
    .mk condition none (Draft.withoutPass (Stmt.againAll body))
      :: Branch.againAll more

end

end

-- ============================================================== leaves

section

variable (P : Simple → Prop)

mutual

/-- Something holds of all simple statements in a statement, however deep they
are nested. -/
def Stmt.Leaves : Stmt → Prop
  | .simple _ s => P s
  | .label _ _ _ body => Stmt.LeavesAll body
  | .menu _ _ choices => Choice.LeavesAll choices
  | .conditional _ branches => Branch.LeavesAll branches

/-- Something holds of all simple statements in several. -/
def Stmt.LeavesAll : List Stmt → Prop
  | [] => True
  | s :: more => Stmt.Leaves s ∧ Stmt.LeavesAll more

/-- Something holds of all simple statements in some choices. -/
def Choice.LeavesAll : List Choice → Prop
  | [] => True
  | .mk _ _ _ body :: more => Stmt.LeavesAll body ∧ Choice.LeavesAll more

/-- Something holds of all simple statements in some branches. -/
def Branch.LeavesAll : List Branch → Prop
  | [] => True
  | .mk _ _ body :: more => Stmt.LeavesAll body ∧ Branch.LeavesAll more

end

end

mutual

/-- What holds of all simple statements in a statement may be weakened. -/
theorem Stmt.Leaves.mono {P Q : Simple → Prop} (h : ∀ s, P s → Q s) :
    ∀ s : Stmt, s.Leaves P → s.Leaves Q
  | .simple _ s, hs => h s hs
  | .label _ _ _ body, hs => Stmt.LeavesAll.mono h body hs
  | .menu _ _ choices, hs => Choice.LeavesAll.mono h choices hs
  | .conditional _ branches, hs => Branch.LeavesAll.mono h branches hs

theorem Stmt.LeavesAll.mono {P Q : Simple → Prop} (h : ∀ s, P s → Q s) :
    ∀ ss : List Stmt, Stmt.LeavesAll P ss → Stmt.LeavesAll Q ss
  | [], _ => trivial
  | s :: more, hs =>
      ⟨Stmt.Leaves.mono h s hs.1, Stmt.LeavesAll.mono h more hs.2⟩

theorem Choice.LeavesAll.mono {P Q : Simple → Prop} (h : ∀ s, P s → Q s) :
    ∀ cs : List Choice, Choice.LeavesAll P cs → Choice.LeavesAll Q cs
  | [], _ => trivial
  | .mk _ _ _ body :: more, hs =>
      ⟨Stmt.LeavesAll.mono h body hs.1, Choice.LeavesAll.mono h more hs.2⟩

theorem Branch.LeavesAll.mono {P Q : Simple → Prop} (h : ∀ s, P s → Q s) :
    ∀ bs : List Branch, Branch.LeavesAll P bs → Branch.LeavesAll Q bs
  | [], _ => trivial
  | .mk _ _ body :: more, hs =>
      ⟨Stmt.LeavesAll.mono h body hs.1, Branch.LeavesAll.mono h more hs.2⟩

end

-- ============================================================== headers

section

open Text

/-- A menu's head that can be written: names are names, the screen has no
blanks at its ends, and nobody asks a question that is not there. -/
structure MenuHead.Proper (h : MenuHead) : Prop where
  /-- The name is one. -/
  name : ∀ n ∈ Written.present h.name, Name n.toList
  /-- The screen has no blanks at its ends. -/
  screen : ∀ s ∈ Written.present h.screen, trimmed s = s
  /-- Who asks has a name, and asks something. -/
  speaker : ∀ s ∈ Written.present h.promptSpeaker, Name s.toList
    ∧ ∃ p, Written.present h.prompt = some p
  /-- The set of choices already taken is a dotted name. -/
  setVar : ∀ v ∈ Written.present h.setVar, Dotted v.toList

/-- A condition on one line, without blanks at its ends. -/
def Condition (c : String) : Prop := Inline c.toList

/-- A body that only says `pass` says nothing else: if it is one raw statement
that says `pass` when it is trimmed, there is nothing to trim. -/
def ExactPass (body : List Stmt) : Prop :=
  saysPass body = true → ∃ tag, body = [.simple tag (.raw "pass")]

mutual

/-- The compound statements in a statement can be written: their names are
names, their parameters are read as they are, and their conditions stand on one
line. Nothing is asked of simple statements. -/
def Stmt.Proper : Stmt → Prop
  | .simple _ _ => True
  | .label _ name parameters body =>
    LabelName name.toList ∧ Grammar.Parameters parameters
      ∧ ExactPass body ∧ Stmt.ProperAll body
  | .menu _ head choices => head.Proper ∧ Choice.ProperAll choices
  | .conditional _ branches => branches ≠ [] ∧ Branch.ProperAll true branches

/-- The compound statements in several statements can be written. -/
def Stmt.ProperAll : List Stmt → Prop
  | [] => True
  | s :: more => Stmt.Proper s ∧ Stmt.ProperAll more

/-- Choices can be written. -/
def Choice.ProperAll : List Choice → Prop
  | [] => True
  | .mk _ condition _ body :: more =>
    (∀ c ∈ Written.present condition, Condition c)
      ∧ ExactPass body ∧ Stmt.ProperAll body ∧ Choice.ProperAll more

/-- Branches can be written: each has a condition, except that the last one
may have none if it is not the first. -/
def Branch.ProperAll (first : Bool) : List Branch → Prop
  | [] => True
  | .mk condition _ body :: more =>
    (∀ c ∈ condition, Condition c)
      ∧ (condition = none → first = false ∧ more = [])
      ∧ ExactPass body ∧ Stmt.ProperAll body ∧ Branch.ProperAll false more

end

end

-- ============================================= meaning the same again

namespace Draft

theorem present_present (o : Option String) :
    Written.present (Written.present o) = Written.present o := by
  cases o with
  | none => rfl
  | some s =>
      by_cases hs : s = ""
      · subst hs
        rfl
      · rw [present_of_ne hs, present_of_ne hs]

theorem items_presentItems (o : Option (List String)) :
    Written.items (presentItems o) = Written.items o := by
  unfold presentItems
  split
  · next h => exact (List.isEmpty_iff.mp h).symm
  · rfl

theorem headAlike_again (h : MenuHead) : HeadAlike h h.again :=
  ⟨(present_present _).symm, (present_present _).symm,
    (present_present _).symm, (present_present _).symm,
    (present_present _).symm⟩

theorem simpleAlike_raw {c c' : String} :
    SimpleAlike (.raw c) (.raw c') ↔ c = c' := by
  unfold SimpleAlike ofSimple
  simp only [List.forall_mem_cons, List.not_mem_nil, false_imp_iff,
    implies_true, and_true, true_and]
  rw [fieldAlike_plain "content" (by simp) rfl (by simp)]
  exact alike_text

/-- Only raw text is alike to raw text. -/
theorem eq_raw_of_simpleAlike {s : Simple} {c : String}
    (h : SimpleAlike s (.raw c)) : s = .raw c := by
  have hkind := h.1
  cases s with
  | raw content => rw [simpleAlike_raw.mp h]
  | display verb image o => cases verb <;> cases hkind
  | _ => cases hkind

/-- Raw text is only alike to raw text. -/
theorem eq_raw_of_raw_simpleAlike {s : Simple} {c : String}
    (h : SimpleAlike (.raw c) s) : s = .raw c := by
  have hkind := h.1
  cases s with
  | raw content => rw [simpleAlike_raw.mp h]
  | display verb image o => cases verb <;> cases hkind
  | _ => cases hkind

theorem saysPass_simple (tag : Tag) (s : Simple) :
    saysPass [.simple tag s] = true
      ↔ ∃ c, s = .raw c ∧ Text.trimmed c = "pass" := by
  cases s <;> simp [saysPass, Stmt.rawContent?]

/-- Statements of which one says `pass` are raw text. -/
theorem exists_raw_of_saysPass {ss : List Stmt} (h : saysPass ss = true) :
    ∃ tag c, ss = [.simple tag (.raw c)] ∧ Text.trimmed c = "pass" := by
  match ss with
  | [.simple tag s] =>
      obtain ⟨c, rfl, hc⟩ := (saysPass_simple tag s).mp h
      exact ⟨tag, c, rfl, hc⟩
  | [.label ..] | [.menu ..] | [.conditional ..] => cases h
  | [] | _ :: _ :: _ => cases h

variable {f : Simple → Simple}

/-- A lone `pass` comes back as it is. It is asked of the function for simple
statements, since a body that says `pass` is dropped. -/
def KeepsPass (f : Simple → Simple) : Prop :=
  ∀ c, Text.trimmed c = "pass" → f (.raw c) = .raw c

theorem withoutPass_withoutPass (ss : List Stmt) :
    withoutPass (withoutPass ss) = withoutPass ss := by
  unfold withoutPass
  split
  · rfl
  · rfl

/-- A body comes back alike if its statements do. A body that says `pass` comes
back empty, and both are alike. -/
theorem alike_againBody_of {body : List Stmt} (hpass : KeepsPass f)
    (hbody : List.Forall₂ Alike (ofStmts body)
        (ofStmts (Stmt.againAll f body))
      ↔ Stmt.LeavesAll (fun s => SimpleAlike s (f s)) body) :
    List.Forall₂ Alike (ofStmts (withoutPass body))
        (ofStmts (withoutPass (withoutPass (Stmt.againAll f body))))
      ↔ Stmt.LeavesAll (fun s => SimpleAlike s (f s)) body := by
  rw [withoutPass_withoutPass]
  cases hback : saysPass (Stmt.againAll f body) with
  | false =>
      have hsame : withoutPass (Stmt.againAll f body)
          = Stmt.againAll f body := if_neg (by rw [hback]; decide)
      have hpassing : saysPass body = false := by
        by_contra hpassing
        obtain ⟨tag, c, rfl, hc⟩ :=
          exists_raw_of_saysPass (eq_true_of_ne_false hpassing)
        rw [Stmt.againAll, Stmt.again, hpass c hc, Stmt.againAll,
          (saysPass_simple _ _).mpr ⟨c, rfl, hc⟩] at hback
        cases hback
      rw [hsame, withoutPass, if_neg (by rw [hpassing]; decide), hbody]
  | true =>
      obtain ⟨tag, c, hc, htrim⟩ := exists_raw_of_saysPass hback
      have hempty : withoutPass (Stmt.againAll f body) = [] := if_pos hback
      rw [hempty]
      match body with
      | [.simple tag' s] =>
          have hs : ⟨"", none⟩ = tag ∧ f s = .raw c := by
            simpa [Stmt.againAll, Stmt.again] using hc
          simp only [Stmt.LeavesAll, Stmt.Leaves, and_true, hs.2]
          constructor
          · intro h
            -- What is alike to nothing was a lone `pass` before.
            have hpassing : saysPass [.simple tag' s] = true := by
              by_contra hpassing
              rw [withoutPass, if_neg hpassing] at h
              cases h
            obtain ⟨c', rfl, hc'⟩ := (saysPass_simple tag' s).mp hpassing
            rw [hpass c' hc'] at hs
            exact simpleAlike_raw.mpr (Simple.raw.inj hs.2)
          · intro h
            have hpassing := (saysPass_simple tag' s).mpr
              ⟨c, eq_raw_of_simpleAlike h, htrim⟩
            rw [withoutPass, if_pos hpassing]
            exact List.Forall₂.nil
      | [.label ..] | [.menu ..] | [.conditional ..] =>
          simp [Stmt.againAll, Stmt.again] at hc
      | [] => simp [Stmt.againAll] at hc
      | _ :: _ :: _ => simp [Stmt.againAll] at hc

mutual

/-- A statement that comes back means the same if and only if all simple
statements in it do. -/
theorem alike_again (hpass : KeepsPass f) : ∀ s,
    Alike (ofStmt s) (ofStmt (Stmt.again f s))
      ↔ s.Leaves fun s => SimpleAlike s (f s)
  | .simple _ s => alike_simple
  | .label _ name parameters body => by
      have hbody := alike_againBody_of hpass (alike_againAll hpass body)
      rw [Stmt.Leaves, ← hbody, Stmt.again, alike_label, items_presentItems]
      simp only [true_and]
  | .menu _ head choices => by
      rw [Stmt.Leaves, ← alike_againChoices hpass choices, Stmt.again, alike_menu]
      exact and_iff_right (headAlike_again head)
  | .conditional _ branches => by
      rw [Stmt.Leaves, ← alike_againBranches hpass branches, Stmt.again,
        alike_conditional]

/-- Statements come back alike exactly if the simple statements in them do. -/
theorem alike_againAll (hpass : KeepsPass f) : ∀ ss,
    List.Forall₂ Alike (ofStmts ss) (ofStmts (Stmt.againAll f ss))
      ↔ Stmt.LeavesAll (fun s => SimpleAlike s (f s)) ss
  | [] => by simp [Stmt.againAll, ofStmts, Stmt.LeavesAll]
  | s :: more => by
      rw [Stmt.againAll, ofStmts, ofStmts, List.forall₂_cons,
        alike_again hpass s, alike_againAll hpass more, Stmt.LeavesAll]

theorem alike_againChoices (hpass : KeepsPass f) : ∀ cs,
    List.Forall₂ Alike (ofChoices cs) (ofChoices (Choice.againAll f cs))
      ↔ Choice.LeavesAll (fun s => SimpleAlike s (f s)) cs
  | [] => by simp [Choice.againAll, ofChoices, Choice.LeavesAll]
  | .mk said condition line body :: more => by
      have hbody := alike_againBody_of hpass (alike_againAll hpass body)
      rw [Choice.againAll, alike_choices, hbody,
        alike_againChoices hpass more, Choice.LeavesAll]
      simp only [present_present, true_and]

theorem alike_againBranches (hpass : KeepsPass f) : ∀ bs,
    List.Forall₂ Alike (ofBranches bs) (ofBranches (Branch.againAll f bs))
      ↔ Branch.LeavesAll (fun s => SimpleAlike s (f s)) bs
  | [] => by simp [Branch.againAll, ofBranches, Branch.LeavesAll]
  | .mk condition line body :: more => by
      have hbody := alike_againBody_of hpass (alike_againAll hpass body)
      rw [Branch.againAll, alike_branches, hbody,
        alike_againBranches hpass more, Branch.LeavesAll]
      simp only [true_and]

end

end Draft

end NovelScript
