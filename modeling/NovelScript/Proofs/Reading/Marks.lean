/-
What stands on which line, as far as branches go. A script has a line for every
statement, choice and branch that was read; `Stmt.marks` lists these lines in
the order of the text, each with its role. A branch is late if one before it in
its conditional is the last resort.

# No line has two roles

The statements stand for the lines of the source one after the other (`Owns`),
and their own lines are some of these, in the same order (`marks_of_owns`). The
lines of a source have different numbers, so no line has two roles
(`role_unique`). A complaint names a line, and so it can be asked what the line
it names is.

# Each statement for itself

The list is made of what each statement on its own says about its lines
(`mem_marksAll`), however deep it is nested: the statements at every depth of a
tree are listed by `Stmt.nests`, and a line has a role in the tree if it has
that role in one of them. That leaves the branches of one conditional, which are
a row (`Branch.row`). A branch is late in it if there is a branch without
condition among those before it, and that alone is what `Branch.mem_row` says.

Identities do not matter for any of this (`marksAll_anonymous`), which is how it
is taken from the yield to what is read.
-/
import NovelScript.Grammar.Simple
import NovelScript.Proofs.Reading.Nests

namespace NovelScript

open Grammar

/-- The condition of a branch. -/
def Branch.condition : Branch → Option String
  | .mk condition _ _ => condition

/-- What a line of a script is, as far as branches go. -/
inductive Role where
  /-- It has nothing to do with them. -/
  | plain
  /-- Raw text that begins with the word of a further branch. -/
  | stray
  /-- A branch, and whether one before it is the last resort. -/
  | branch (late : Bool)
deriving DecidableEq

/-- A line and its role. -/
abbrev Mark := Option Nat × Role

/-- The role of a simple statement. -/
def Simple.role : Simple → Role
  | .raw content => if OpensBranch content then .stray else .plain
  | _ => .plain

-- =============================================================== marks

/-- The lines of branches behind others, of which one may have been the last
resort. -/
def Branch.row (late : Bool) : List Branch → List Mark
  | [] => []
  | b :: more =>
    (b.line, .branch late) :: Branch.row (late || b.condition.isNone) more

/-- The lines of a statement itself. -/
def Stmt.ownMarks : Stmt → List Mark
  | .simple tag s => [(tag.line, s.role)]
  | .label tag _ _ _ => [(tag.line, .plain)]
  | .menu tag _ choices =>
    (tag.line, .plain) :: choices.map fun c => (c.line, .plain)
  | .conditional _ branches => Branch.row false branches

mutual

/-- The lines of a statement and of those nested in it, each with its role. A
conditional has no line besides those of its branches. -/
def Stmt.marks : Stmt → List Mark
  | .simple tag s => [(tag.line, s.role)]
  | .label tag _ _ body => (tag.line, .plain) :: Stmt.marksAll body
  | .menu tag _ choices => (tag.line, .plain) :: Choice.marksAll choices
  | .conditional _ branches => Branch.marksAll false branches

/-- The lines of statements and of those nested in them. -/
def Stmt.marksAll : List Stmt → List Mark
  | [] => []
  | s :: more => Stmt.marks s ++ Stmt.marksAll more

/-- The lines of choices and of the statements nested in them. -/
def Choice.marksAll : List Choice → List Mark
  | [] => []
  | .mk _ _ line body :: more =>
    (line, .plain) :: (Stmt.marksAll body ++ Choice.marksAll more)

/-- The lines of branches and of the statements nested in them. -/
def Branch.marksAll (late : Bool) : List Branch → List Mark
  | [] => []
  | .mk condition line body :: more =>
    (line, .branch late)
      :: (Stmt.marksAll body ++ Branch.marksAll (late || condition.isNone) more)

end

theorem Stmt.marksAll_append (as bs : List Stmt) :
    Stmt.marksAll (as ++ bs) = Stmt.marksAll as ++ Stmt.marksAll bs := by
  induction as with
  | nil => rfl
  | cons a as ih =>
      simp only [List.cons_append, Stmt.marksAll, ih, List.append_assoc]

theorem Stmt.marksAll_single (s : Stmt) : Stmt.marksAll [s] = s.marks := by
  simp only [Stmt.marksAll, List.append_nil]

/-- A line is in the row of some branches if one of them stands on it, and it is
late if there was a last resort before. -/
theorem Branch.mem_row {late : Bool} {bs : List Branch} {x : Mark} :
    x ∈ Branch.row late bs ↔ ∃ before b after, bs = before ++ b :: after
      ∧ x = (b.line, .branch (late || before.any (·.condition.isNone))) := by
  induction bs generalizing late with
  | nil => simp [Branch.row]
  | cons a bs ih =>
      rw [Branch.row, List.mem_cons, ih]
      constructor
      · intro h
        cases h with
        | inl h => exact ⟨[], a, bs, rfl, by simpa using h⟩
        | inr h =>
            obtain ⟨before, b, after, rfl, rfl⟩ := h
            refine ⟨a :: before, b, after, rfl, ?_⟩
            rw [List.any_cons, Bool.or_assoc]
      · intro h
        obtain ⟨before, b, after, hbs, rfl⟩ := h
        cases before with
        | nil =>
            obtain ⟨rfl, -⟩ := List.cons.inj hbs
            left
            simp
        | cons e before =>
            obtain ⟨rfl, rfl⟩ := List.cons.inj hbs
            right
            refine ⟨before, b, after, rfl, ?_⟩
            rw [List.any_cons, Bool.or_assoc]

/-- The last resort itself is not late, the branch behind it is. -/
example : Branch.row false
    [.mk (some "a") (some 1) [], .mk none (some 3) [],
      .mk (some "b") (some 5) []]
    = [(some 1, .branch false), (some 3, .branch false),
      (some 5, .branch true)] := rfl

section

variable (x : Mark)

mutual

/-- The lines of a statement and of those nested in it are the lines of each of
them. -/
theorem Stmt.mem_marks (nest : Nat) : ∀ s,
    x ∈ Stmt.marks s ↔ ∃ m ∈ Stmt.nests nest s, x ∈ m.2.ownMarks
  | .simple tag s => by
      simp only [Stmt.marks, Stmt.nests, List.mem_singleton, exists_eq_left,
        Stmt.ownMarks.eq_1]
  | .label tag name parameters body => by
      simp only [Stmt.marks, Stmt.nests, List.mem_cons, exists_eq_or_imp,
        Stmt.ownMarks.eq_2, List.not_mem_nil, or_false,
        Stmt.mem_marksAll (nest + 1) body]
  | .menu tag head choices => by
      simp only [Stmt.marks, Stmt.nests, List.mem_cons, exists_eq_or_imp,
        Stmt.ownMarks.eq_3, Choice.mem_marksAll (nest + 2) choices, or_assoc]
  | .conditional tag branches => by
      simp only [Stmt.marks, Stmt.nests, List.mem_cons, exists_eq_or_imp,
        Stmt.ownMarks.eq_4, Branch.mem_marksAll (nest + 1) false branches]

theorem Stmt.mem_marksAll (nest : Nat) : ∀ ss,
    x ∈ Stmt.marksAll ss ↔ ∃ m ∈ Stmt.nestsAll nest ss, x ∈ m.2.ownMarks
  | [] => by simp [Stmt.marksAll, Stmt.nestsAll]
  | s :: more => by
      simp only [Stmt.marksAll, Stmt.nestsAll, List.mem_append,
        Stmt.mem_marks nest s, Stmt.mem_marksAll nest more, or_and_right,
        exists_or]

theorem Choice.mem_marksAll (nest : Nat) : ∀ cs,
    x ∈ Choice.marksAll cs ↔ x ∈ cs.map (fun c => (c.line, Role.plain))
      ∨ ∃ m ∈ Choice.nestsAll nest cs, x ∈ m.2.ownMarks
  | [] => by simp [Choice.marksAll, Choice.nestsAll]
  | .mk text condition line body :: more => by
      simp only [Choice.marksAll, Choice.nestsAll, List.map_cons, List.mem_cons,
        List.mem_append, Choice.line.eq_1, Stmt.mem_marksAll nest body,
        Choice.mem_marksAll nest more, or_and_right, exists_or]
      rw [or_assoc]
      exact or_congr_right or_left_comm

theorem Branch.mem_marksAll (nest : Nat) : ∀ late bs,
    x ∈ Branch.marksAll late bs ↔ x ∈ Branch.row late bs
      ∨ ∃ m ∈ Branch.nestsAll nest bs, x ∈ m.2.ownMarks
  | _, [] => by simp [Branch.marksAll, Branch.row, Branch.nestsAll]
  | late, .mk condition line body :: more => by
      simp only [Branch.marksAll, Branch.nestsAll, Branch.row, List.mem_cons,
        List.mem_append, Branch.line.eq_1, Branch.condition.eq_1,
        Stmt.mem_marksAll nest body, Branch.mem_marksAll nest _ more,
        or_and_right, exists_or]
      rw [or_assoc]
      exact or_congr_right or_left_comm

end

end

mutual

/-- Identities do not matter for the lines. -/
theorem Stmt.marks_anonymous : ∀ s,
    Stmt.marks (Stmt.relabel Tag.anonymous id s) = Stmt.marks s
  | .simple tag s => rfl
  | .label tag name parameters body => by
      simp only [Stmt.relabel, Stmt.marks, Stmt.marksAll_anonymous body]
      rfl
  | .menu tag head choices => by
      simp only [Stmt.relabel, Stmt.marks, Choice.marksAll_anonymous choices]
      rfl
  | .conditional tag branches => by
      simp only [Stmt.relabel, Stmt.marks, Branch.marksAll_anonymous false branches]

theorem Stmt.marksAll_anonymous : ∀ ss,
    Stmt.marksAll (Stmt.relabelAll Tag.anonymous id ss) = Stmt.marksAll ss
  | [] => rfl
  | s :: more => by
      simp only [Stmt.relabelAll, Stmt.marksAll, Stmt.marks_anonymous s,
        Stmt.marksAll_anonymous more]

theorem Choice.marksAll_anonymous : ∀ cs,
    Choice.marksAll (Choice.relabelAll Tag.anonymous id cs) = Choice.marksAll cs
  | [] => rfl
  | .mk text condition line body :: more => by
      simp only [Choice.relabelAll, Choice.marksAll, Stmt.marksAll_anonymous body,
        Choice.marksAll_anonymous more, id]

theorem Branch.marksAll_anonymous : ∀ late bs,
    Branch.marksAll late (Branch.relabelAll Tag.anonymous id bs)
      = Branch.marksAll late bs
  | _, [] => rfl
  | late, .mk condition line body :: more => by
      simp only [Branch.relabelAll, Branch.marksAll, Stmt.marksAll_anonymous body,
        Branch.marksAll_anonymous _ more, id]

end

-- ================================================= one role for each line

namespace Reading

/-- The numbers of some lines, as statements have them. -/
def numbersOf (ls : List Line) : List (Option Nat) :=
  ls.map fun l => some l.number

/-- The lines of a body are some of those that it stands for, if those of its
statements are. -/
theorem marks_of_ownsBody {body : List Stmt} {ls rest : List Line}
    (h : OwnsBody body ls rest)
    (hall : ∀ {ls rest : List Line}, OwnsAll body ls rest →
      ((Stmt.marksAll body).map Prod.fst).Sublist (numbersOf ls)) :
    ((Stmt.marksAll body).map Prod.fst).Sublist (numbersOf ls) := by
  cases h with
  | stmts h => exact hall h
  | pass _ => exact List.nil_sublist _

mutual

/-- The lines of a statement are some of those that it stands for, in order. So
no line is the line of two statements. -/
theorem marks_of_owns : ∀ (s : Stmt) {ls rest : List Line}, Owns s ls rest →
    (s.marks.map Prod.fst).Sublist (numbersOf ls)
  | .simple tag s, _, _, h => by
      obtain ⟨l, more, rfl, hline⟩ := h.exists_first
      have htag : tag.line = some l.number := hline
      simp only [Stmt.marks, List.map_cons, List.map_nil, htag]
      exact (List.nil_sublist _).cons_cons _
  | .label tag name parameters body, _, _, h => by
      cases h with
      | label _ hbody =>
          exact (marks_of_ownsBody hbody (marks_of_ownsAll body)).cons_cons _
  | .menu tag head choices, _, _, h => by
      cases h with
      | menu _ hchoices =>
          exact (marks_of_ownsChoices choices hchoices).cons_cons _
  | .conditional tag [], _, _, h => by cases h
  | .conditional tag (.mk condition line body :: branches), _, _, h => by
      cases h with
      | conditional _ hbody hbranches =>
          simp only [Stmt.marks, Branch.marksAll, List.map_cons, List.map_append,
            numbersOf, List.cons_append]
          exact ((marks_of_ownsBody hbody (marks_of_ownsAll body)).append
            (marks_of_ownsBranches _ branches hbranches)).cons_cons _

theorem marks_of_ownsAll : ∀ (ss : List Stmt) {ls rest : List Line},
    OwnsAll ss ls rest →
      ((Stmt.marksAll ss).map Prod.fst).Sublist (numbersOf ls)
  | [], _, _, _ => List.nil_sublist _
  | s :: more, _, _, h => by
      cases h with
      | cons hs hmore =>
          simp only [Stmt.marksAll, List.map_append, numbersOf]
          exact (marks_of_owns s hs).append (marks_of_ownsAll more hmore)

theorem marks_of_ownsChoices : ∀ (choices : List Choice) {ls rest : List Line},
    OwnsChoices choices ls rest →
      ((Choice.marksAll choices).map Prod.fst).Sublist (numbersOf ls)
  | [], _, _, _ => List.nil_sublist _
  | .mk text condition line body :: more, _, _, h => by
      cases h with
      | choice _ _ hbody hmore =>
          simp only [Choice.marksAll, List.map_cons, List.map_append, numbersOf,
            List.cons_append]
          exact (((marks_of_ownsBody hbody (marks_of_ownsAll body)).append
            (marks_of_ownsChoices more hmore)).cons_cons _).trans
              (List.sublist_append_right _ _)

theorem marks_of_ownsBranches : ∀ (late : Bool) (branches : List Branch)
    {ls rest : List Line}, OwnsBranches branches ls rest →
      ((Branch.marksAll late branches).map Prod.fst).Sublist (numbersOf ls)
  | _, [], _, _, _ => List.nil_sublist _
  | _, .mk condition line body :: more, _, _, h => by
      cases h with
      | branch _ hbody hmore =>
          simp only [Branch.marksAll, List.map_cons, List.map_append, numbersOf,
            List.cons_append]
          exact ((marks_of_ownsBody hbody (marks_of_ownsAll body)).append
            (marks_of_ownsBranches _ more hmore)).cons_cons _

end

/-- No line of a script has two roles, since it is the line of one statement,
choice or branch at most. -/
theorem role_unique (tabSize : Int) (numbering : Numbering) (source : String)
    {line : Option Nat} {r r' : Role}
    (h : (line, r) ∈ Stmt.marksAll (read tabSize numbering source).1)
    (h' : (line, r') ∈ Stmt.marksAll (read tabSize numbering source).1) :
    r = r' := by
  have hsub := marks_of_ownsAll _
    (ownsAll_linesYield (Source.scanned_of_mem_scan tabSize source))
  rw [← anonymousAll_read tabSize numbering source, Stmt.anonymousAll,
    Stmt.marksAll_anonymous] at hsub
  have hnumbers : (numbersOf (Source.scan tabSize source).1).Nodup := by
    refine List.pairwise_map.mpr ((Source.increasing_scan tabSize source).imp ?_)
    intro a b hlt heq
    have := Option.some.inj heq
    omega
  have hsame := List.inj_on_of_nodup_map (hsub.nodup hnumbers) h h' rfl
  exact (Prod.mk.inj hsame).2

end Reading

end NovelScript
