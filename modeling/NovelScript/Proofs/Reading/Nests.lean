/-
Nesting is depth. A statement of a script is nested in others, each of which
says how much deeper its lines are: the body of a label or of a branch by one,
that of a choice by two, since the choice's own line stands in between
(`Stmt.nests`). The line that a statement was read from is as deep as its
nesting says, and the lines of choices and branches likewise.

# The exception

Lines that are deeper than the place where they stand are kept as raw text, and
there is a complaint about the first of them (`StrayAt`). This goes both ways:
no statement stands elsewhere without the complaint, and there is no such
complaint without the raw text. `Nests` says both at once of the statements that
are met in a part of the tree, since a proof of either alone would have to look
at the same places.

# How it is shown

Along the relation `Reads`, one case for each of its constructors. What is
needed of `Nests` is that it can be put together: of two parts (`Nests.append`),
with complaints of other kinds (`Nests.complain`), with a line that gives no
statement (`Nests.line`), and below a statement that owns what is met
(`Nests.own`). A menu that falls back takes its complaints away with its
statements, so there is no case for it.
-/
import NovelScript.Proofs.Reading.Reads

namespace NovelScript

-- ============================================================== nesting

/-- The line of a choice. -/
def Choice.line : Choice → Option Nat
  | .mk _ _ line _ => line

/-- The line of a branch. -/
def Branch.line : Branch → Option Nat
  | .mk _ line _ => line

/-- The choices of a menu. -/
def Stmt.choices : Stmt → List Choice
  | .menu _ _ choices => choices
  | _ => []

/-- The branches of a conditional. -/
def Stmt.branches : Stmt → List Branch
  | .conditional _ branches => branches
  | _ => []

mutual

/-- A statement with how deep it is nested, and those nested in it. What stands
in a choice is two deeper than the menu, for the choice has a line of its own,
and what stands in a branch one deeper than the conditional. -/
def Stmt.nests (nest : Nat) : Stmt → List (Nat × Stmt)
  | .simple tag s => [(nest, .simple tag s)]
  | .label tag name parameters body =>
    (nest, .label tag name parameters body) :: Stmt.nestsAll (nest + 1) body
  | .menu tag head choices =>
    (nest, .menu tag head choices) :: Choice.nestsAll (nest + 2) choices
  | .conditional tag branches =>
    (nest, .conditional tag branches) :: Branch.nestsAll (nest + 1) branches

/-- Statements with how deep they are nested, and those nested in them. -/
def Stmt.nestsAll (nest : Nat) : List Stmt → List (Nat × Stmt)
  | [] => []
  | s :: more => Stmt.nests nest s ++ Stmt.nestsAll nest more

/-- The statements in choices. -/
def Choice.nestsAll (nest : Nat) : List Choice → List (Nat × Stmt)
  | [] => []
  | .mk _ _ _ body :: more =>
    Stmt.nestsAll nest body ++ Choice.nestsAll nest more

/-- The statements in branches. -/
def Branch.nestsAll (nest : Nat) : List Branch → List (Nat × Stmt)
  | [] => []
  | .mk _ _ body :: more =>
    Stmt.nestsAll nest body ++ Branch.nestsAll nest more

end

theorem Stmt.nestsAll_append (nest : Nat) (as bs : List Stmt) :
    Stmt.nestsAll nest (as ++ bs)
      = Stmt.nestsAll nest as ++ Stmt.nestsAll nest bs := by
  induction as with
  | nil => rfl
  | cons a as ih =>
      simp only [List.cons_append, Stmt.nestsAll, ih, List.append_assoc]

theorem Stmt.nestsAll_single (nest : Nat) (s : Stmt) :
    Stmt.nestsAll nest [s] = Stmt.nests nest s := by
  simp only [Stmt.nestsAll, List.append_nil]

section

variable (f : Tag → Tag) (g : Option Nat → Option Nat)

mutual

/-- New labels do not change what is nested in what. -/
theorem Stmt.nests_relabel (nest : Nat) : ∀ s,
    Stmt.nests nest (Stmt.relabel f g s)
      = (Stmt.nests nest s).map fun m => (m.1, Stmt.relabel f g m.2)
  | .simple tag s => rfl
  | .label tag name parameters body => by
      simp only [Stmt.relabel, Stmt.nests, List.map_cons,
        Stmt.nestsAll_relabel (nest + 1) body]
  | .menu tag head choices => by
      simp only [Stmt.relabel, Stmt.nests, List.map_cons,
        Choice.nestsAll_relabel (nest + 2) choices]
  | .conditional tag branches => by
      simp only [Stmt.relabel, Stmt.nests, List.map_cons,
        Branch.nestsAll_relabel (nest + 1) branches]

theorem Stmt.nestsAll_relabel (nest : Nat) : ∀ ss,
    Stmt.nestsAll nest (Stmt.relabelAll f g ss)
      = (Stmt.nestsAll nest ss).map fun m => (m.1, Stmt.relabel f g m.2)
  | [] => rfl
  | s :: more => by
      simp only [Stmt.relabelAll, Stmt.nestsAll, List.map_append,
        Stmt.nests_relabel nest s, Stmt.nestsAll_relabel nest more]

theorem Choice.nestsAll_relabel (nest : Nat) : ∀ cs,
    Choice.nestsAll nest (Choice.relabelAll f g cs)
      = (Choice.nestsAll nest cs).map fun m => (m.1, Stmt.relabel f g m.2)
  | [] => rfl
  | .mk text condition line body :: more => by
      simp only [Choice.relabelAll, Choice.nestsAll, List.map_append,
        Stmt.nestsAll_relabel nest body, Choice.nestsAll_relabel nest more]

theorem Branch.nestsAll_relabel (nest : Nat) : ∀ bs,
    Branch.nestsAll nest (Branch.relabelAll f g bs)
      = (Branch.nestsAll nest bs).map fun m => (m.1, Stmt.relabel f g m.2)
  | [] => rfl
  | .mk condition line body :: more => by
      simp only [Branch.relabelAll, Branch.nestsAll, List.map_append,
        Stmt.nestsAll_relabel nest body, Branch.nestsAll_relabel nest more]

end

theorem Choice.map_line_relabelAll : ∀ cs,
    (Choice.relabelAll f g cs).map Choice.line = cs.map fun c => g c.line
  | [] => rfl
  | .mk text condition line body :: more => by
      simp only [Choice.relabelAll, List.map_cons, Choice.line,
        Choice.map_line_relabelAll more]

theorem Branch.map_line_relabelAll : ∀ bs,
    (Branch.relabelAll f g bs).map Branch.line = bs.map fun b => g b.line
  | [] => rfl
  | .mk condition line body :: more => by
      simp only [Branch.relabelAll, List.map_cons, Branch.line,
        Branch.map_line_relabelAll more]

end

namespace Reading

open Grammar Item

-- ============================================================= one place

/-- One of some lines has a number and a depth. -/
def LineAt (ls : List Line) (depth : Nat) (number : Option Nat) : Prop :=
  ∃ l ∈ ls, number = some l.number ∧ l.depth = depth

/-- A statement is raw text of lines that are deeper than its place, and there
is a complaint about the first of them. -/
def StrayAt (ls : List Line) (ds : List Diagnostic) (nest : Nat) (s : Stmt) :
    Prop :=
  ∃ l ∈ ls, s.tag.line = some l.number ∧ nest < l.depth
    ∧ s.rawContent?.isSome = true ∧ ⟨l.number, .indentation⟩ ∈ ds

/-- A statement stands where its nesting says. -/
structure Placed (ls : List Line) (ds : List Diagnostic) (nest : Nat)
    (s : Stmt) : Prop where
  /-- Its line is as deep as it is nested, or it is raw text that is told to be
  deeper. -/
  own : LineAt ls nest s.tag.line ∨ StrayAt ls ds nest s
  /-- The choices of a menu are one deeper than it. -/
  choices : ∀ c ∈ s.choices, LineAt ls (nest + 1) c.line
  /-- The branches of a conditional are as deep as it. -/
  branches : ∀ b ∈ s.branches, LineAt ls nest b.line

section

variable {ls ls' : List Line} {ds ds' : List Diagnostic} {nest : Nat}
  {s : Stmt}

theorem LineAt.mono {number : Option Nat} (h : LineAt ls nest number)
    (hls : ls ⊆ ls') : LineAt ls' nest number := by
  obtain ⟨l, hl, h⟩ := h
  exact ⟨l, hls hl, h⟩

theorem StrayAt.mono (h : StrayAt ls ds nest s) (hls : ls ⊆ ls')
    (hds : ds ⊆ ds') : StrayAt ls' ds' nest s := by
  obtain ⟨l, hl, hline, hlt, hraw, hd⟩ := h
  exact ⟨l, hls hl, hline, hlt, hraw, hds hd⟩

theorem Placed.mono (h : Placed ls ds nest s) (hls : ls ⊆ ls')
    (hds : ds ⊆ ds') : Placed ls' ds' nest s :=
  ⟨h.own.imp (·.mono hls) (·.mono hls hds),
    fun c hc => (h.choices c hc).mono hls,
    fun b hb => (h.branches b hb).mono hls⟩

end

-- ============================================================ many places

/-- The statements that are met stand where their nesting says, and every
complaint about lines that are too deep is about one of them. -/
structure Nests (ls : List Line) (met : List (Nat × Stmt))
    (ds : List Diagnostic) : Prop where
  /-- Each statement is in its place. -/
  placed : ∀ m ∈ met, Placed ls ds m.1 m.2
  /-- Each complaint belongs to raw text. -/
  strays : ∀ d ∈ ds, d.cause = .indentation →
    ∃ m ∈ met, StrayAt ls ds m.1 m.2 ∧ m.2.tag.line = some d.line

/-- Complaints none of which is about lines that are too deep. -/
def Level (ds : List Diagnostic) : Prop := ∀ d ∈ ds, d.cause ≠ .indentation

theorem Plain.level {ds : List Diagnostic} (h : Plain ds) : Level ds :=
  fun d hd => (h d hd).1

theorem level_lateFound (late : Bool) (l : Line) (condition : Option String) :
    Level (lateFound late l condition) := by
  unfold lateFound
  split
  · simp [Level]
  · simp [Level]

section

variable {ls ls' : List Line} {met met' : List (Nat × Stmt)}
  {ds ds' : List Diagnostic} {nest : Nat}

theorem nests_nil (ls : List Line) : Nests ls [] [] :=
  ⟨by simp, by simp⟩

/-- Lines in a row, each with what is met in them. -/
theorem Nests.append (h : Nests ls met ds) (h' : Nests ls' met' ds') :
    Nests (ls ++ ls') (met ++ met') (ds ++ ds') := by
  have hls := List.subset_append_left ls ls'
  have hls' := List.subset_append_right ls ls'
  have hds := List.subset_append_left ds ds'
  have hds' := List.subset_append_right ds ds'
  constructor
  · intro m hm
    cases List.mem_append.mp hm with
    | inl hm => exact (h.placed m hm).mono hls hds
    | inr hm => exact (h'.placed m hm).mono hls' hds'
  · intro d hd hcause
    cases List.mem_append.mp hd with
    | inl hd =>
        obtain ⟨m, hm, hstray, hline⟩ := h.strays d hd hcause
        exact ⟨m, List.mem_append_left _ hm, hstray.mono hls hds, hline⟩
    | inr hd =>
        obtain ⟨m, hm, hstray, hline⟩ := h'.strays d hd hcause
        exact ⟨m, List.mem_append_right _ hm, hstray.mono hls' hds', hline⟩

/-- More complaints of other kinds, which say nothing about depth. -/
theorem Nests.complain (h : Nests ls met ds) (hds' : Level ds') :
    Nests ls met (ds' ++ ds) := by
  have hnone : Nests [] [] ds' := by
    constructor
    · simp
    · exact fun d hd hcause => absurd hcause (hds' d hd)
  exact hnone.append h

theorem Nests.complainOne (h : Nests ls met ds) {d : Diagnostic}
    (hd : d.cause ≠ .indentation) : Nests ls met (d :: ds) :=
  h.complain (List.forall_mem_singleton.mpr hd)

/-- The order of the complaints does not matter. -/
theorem Nests.congr (h : Nests ls met ds) (hds : ∀ d, d ∈ ds ↔ d ∈ ds') :
    Nests ls met ds' := by
  have hsub : ds ⊆ ds' := fun d hd => (hds d).mp hd
  constructor
  · exact fun m hm => (h.placed m hm).mono (List.Subset.refl ls) hsub
  · intro d hd hcause
    obtain ⟨m, hm, hstray, hline⟩ := h.strays d ((hds d).mpr hd) hcause
    exact ⟨m, hm, hstray.mono (List.Subset.refl ls) hsub, hline⟩

/-- One more line, which no statement that is met was read from. -/
theorem Nests.line (l : Line) (h : Nests ls met ds) : Nests (l :: ls) met ds :=
  (nests_nil [l]).append h

/-- A statement in its place, and those nested in it. Its own line is among the
lines already. -/
theorem Nests.own {s : Stmt} (h : Nests ls met ds)
    (hs : Placed ls ds nest s) : Nests ls ((nest, s) :: met) ds := by
  constructor
  · exact List.forall_mem_cons.mpr ⟨hs, h.placed⟩
  · intro d hd hcause
    obtain ⟨m, hm, hstray⟩ := h.strays d hd hcause
    exact ⟨m, List.mem_cons_of_mem _ hm, hstray⟩

/-- Lines of which the first says a simple statement. -/
theorem nests_simple {l : Line} (hl : l.depth = nest) (block : List Line)
    (s : Simple) : Nests (l :: block) [(nest, bareSimple l s)] [] := by
  apply (nests_nil _).own
  refine ⟨Or.inl ⟨l, List.mem_cons_self, rfl, hl⟩, ?_, ?_⟩
  · exact fun c hc => by cases hc
  · exact fun b hb => by cases hb

/-- Lines that are deeper than where they stand. -/
theorem nests_stray {l : Line} {block : List Line}
    (h : ∀ b ∈ l :: block, nest < b.depth) :
    Nests (l :: block) [(nest, bareRaw l (l :: block))]
      [⟨l.number, .indentation⟩] := by
  have hstray : StrayAt (l :: block) [⟨l.number, .indentation⟩] nest
      (bareRaw l (l :: block)) :=
    ⟨l, List.mem_cons_self, rfl, h l List.mem_cons_self, rfl,
      List.mem_cons_self⟩
  constructor
  · refine List.forall_mem_singleton.mpr ⟨Or.inr hstray, ?_, ?_⟩
    · exact fun c hc => by cases hc
    · exact fun b hb => by cases hb
  · intro d hd _
    obtain rfl := List.mem_singleton.mp hd
    exact ⟨_, List.mem_cons_self, hstray, rfl⟩

end

/-- A body of one line that only says `pass` is dropped, and nothing is told of
it: a complaint would be about the one line, which is where it should be. -/
theorem Nests.pass {n : Nat} {l : Line} {st : Stmt} {ds : List Diagnostic}
    (hl : l.depth = n) (hst : st.rawContent?.isSome = true)
    (h : Nests [l] (Stmt.nestsAll n [st]) ds) : Nests [l] [] ds := by
  constructor
  · intro m hm
    cases hm
  · intro d hd hcause
    obtain ⟨m, hm, hstray, -⟩ := h.strays d hd hcause
    cases st with
    | simple tag s =>
        obtain rfl := List.mem_singleton.mp hm
        obtain ⟨l', hl', -, hlt, -⟩ := hstray
        obtain rfl := List.mem_singleton.mp hl'
        omega
    | label => cases hst
    | menu => cases hst
    | conditional => cases hst

-- ======================================================= all that is read

theorem LineAt.head {l : Line} {ls : List Line} {n : Nat} (hl : l.depth = n) :
    LineAt (l :: ls) n (some l.number) := ⟨l, List.mem_cons_self, rfl, hl⟩

mutual

theorem nests_of_reads : ∀ {n : Nat} {ls : List Line} {ss : List Stmt}
    {ds : List Diagnostic}, Reads n ls ss ds →
      Nests ls (Stmt.nestsAll n ss) ds
  | _, _, _, _, .nil => nests_nil []
  | _, _, _, _, .append h h' => by
      rw [Stmt.nestsAll_append]
      exact (nests_of_reads h).append (nests_of_reads h')
  | _, _, _, _, .simple hl => nests_simple hl _ _
  | _, _, _, _, .stray h => nests_stray h
  | _, _, _, _, .complain hplain h =>
      (nests_of_reads h).complain hplain.level
  | _, _, _, _, .strayBranch _ _ h => (nests_of_reads h).complainOne (by simp)
  | _, _, _, _, .label hl hbody => by
      rw [Stmt.nestsAll_single, Stmt.nests]
      refine ((nests_of_readsBody hbody).line _).own ⟨Or.inl (.head hl), ?_, ?_⟩
      · exact fun c hc => by cases hc
      · exact fun b hb => by cases hb
  | _, _, _, _, .menu hl hchoices => by
      obtain ⟨hnests, hlines⟩ := nests_of_readsChoices hchoices
      rw [Stmt.nestsAll_single, Stmt.nests]
      refine (hnests.line _).own ⟨Or.inl (.head hl), ?_, ?_⟩
      · exact fun c hc => (hlines c hc).mono (List.subset_cons_self _ _)
      · exact fun b hb => by cases hb
  | _, _, _, _, .conditional hl hbranches => by
      obtain ⟨hnests, hlines⟩ := nests_of_readsBranches hbranches
      rw [Stmt.nestsAll_single, Stmt.nests]
      refine hnests.own ⟨Or.inl (.head hl), ?_, hlines⟩
      exact fun c hc => by cases hc

theorem nests_of_readsBody : ∀ {n : Nat} {ls : List Line} {body : List Stmt}
    {ds : List Diagnostic}, ReadsBody n ls body ds →
      Nests ls (Stmt.nestsAll n body) ds
  | _, _, _, _, .stmts h => nests_of_reads h
  | _, _, _, _, .pass hl hraw _ h =>
      (nests_of_reads h).pass hl (Option.isSome_of_eq_some hraw)

/-- Choices are as deep as their lines, and what is nested in them is one
deeper. -/
theorem nests_of_readsChoices : ∀ {n : Nat} {ls : List Line}
    {choices : List Choice} {ds : List Diagnostic},
      ReadsChoices n ls choices ds →
        Nests ls (Choice.nestsAll (n + 1) choices) ds
          ∧ ∀ c ∈ choices, LineAt ls n c.line
  | _, _, _, _, .nil => ⟨nests_nil [], fun c hc => by cases hc⟩
  | _, _, _, _, .aside h => by
      obtain ⟨hnests, hlines⟩ := nests_of_readsChoices h
      refine ⟨hnests.line _, fun c hc => ?_⟩
      exact (hlines c hc).mono (List.subset_cons_self _ _)
  | _, _, _, _, .choice hl hbody hmore => by
      obtain ⟨hnests, hlines⟩ := nests_of_readsChoices hmore
      have hbody := nests_of_readsBody hbody
      constructor
      · exact ((hbody.append hnests).line _).complain (plain_colonFound _ _).level
      · refine List.forall_mem_cons.mpr ⟨.head hl, fun c hc => ?_⟩
        exact (hlines c hc).mono (List.subset_cons_of_subset _
          (List.subset_append_right _ _))

/-- Branches are as deep as their lines, and what is nested in them is one
deeper. -/
theorem nests_of_readsBranches : ∀ {n : Nat} {late : Bool} {ls : List Line}
    {branches : List Branch} {ds : List Diagnostic},
      ReadsBranches n late ls branches ds →
        Nests ls (Branch.nestsAll (n + 1) branches) ds
          ∧ ∀ b ∈ branches, LineAt ls n b.line
  | _, _, _, _, _, .nil => ⟨nests_nil [], fun b hb => by cases hb⟩
  | _, _, _, _, _, .branch hl hbody hmore => by
      obtain ⟨hnests, hlines⟩ := nests_of_readsBranches hmore
      have hbody := nests_of_readsBody hbody
      constructor
      · exact (((hbody.append hnests).line _).complain
          (plain_colonFound _ _).level).complain (level_lateFound _ _ _)
      · refine List.forall_mem_cons.mpr ⟨.head hl, fun b hb => ?_⟩
        exact (hlines b hb).mono (List.subset_cons_of_subset _
          (List.subset_append_right _ _))

end

-- =============================================================== scripts

section

variable {ls : List Line} {ds : List Diagnostic} {nest : Nat} {s : Stmt}

theorem line_relabel (s : Stmt) :
    (s.relabel Tag.anonymous id).tag.line = s.tag.line := by
  cases s <;> rfl

theorem strayAt_of_anonymous
    (h : StrayAt ls ds nest (s.relabel Tag.anonymous id)) :
    StrayAt ls ds nest s := by
  unfold StrayAt at h
  rwa [line_relabel, Stmt.rawContent?_relabel] at h

/-- Where a statement stands does not depend on identities. -/
theorem placed_of_anonymous
    (h : Placed ls ds nest (s.relabel Tag.anonymous id)) :
    Placed ls ds nest s := by
  constructor
  case own =>
    rw [← line_relabel s]
    exact h.own.imp id strayAt_of_anonymous
  case choices =>
    intro c hc
    cases s with
    | menu tag head choices =>
        have hmem : c.line ∈ (Choice.relabelAll Tag.anonymous id choices).map
            Choice.line := by
          rw [Choice.map_line_relabelAll]
          exact List.mem_map_of_mem hc
        obtain ⟨c', hc', hline⟩ := List.mem_map.mp hmem
        rw [← hline]
        exact h.choices c' hc'
    | _ => cases hc
  case branches =>
    intro b hb
    cases s with
    | conditional tag branches =>
        have hmem : b.line ∈ (Branch.relabelAll Tag.anonymous id branches).map
            Branch.line := by
          rw [Branch.map_line_relabelAll]
          exact List.mem_map_of_mem hb
        obtain ⟨b', hb', hline⟩ := List.mem_map.mp hmem
        rw [← hline]
        exact h.branches b' hb'
    | _ => cases hb

theorem nests_of_anonymous {ss : List Stmt}
    (h : Nests ls (Stmt.nestsAll nest (Stmt.anonymousAll ss)) ds) :
    Nests ls (Stmt.nestsAll nest ss) ds := by
  rw [Stmt.anonymousAll, Stmt.nestsAll_relabel] at h
  constructor
  · intro m hm
    exact placed_of_anonymous (h.placed _ (List.mem_map_of_mem hm))
  · intro d hd hcause
    obtain ⟨m', hm', hstray, hline⟩ := h.strays d hd hcause
    obtain ⟨m, hm, rfl⟩ := List.mem_map.mp hm'
    rw [line_relabel] at hline
    exact ⟨m, hm, strayAt_of_anonymous hstray, hline⟩

end

/-- Every statement of a script is read from a line that is as deep as the
statement is nested, or it is raw text of deeper lines and there is a complaint
about the first of them; every such complaint is about raw text of the script.
Choices are one deeper than their menu, and branches as deep as their
conditional. -/
theorem nests_read (tabSize : Int) (numbering : Numbering) (source : String) :
    Nests (Source.scan tabSize source).1
      (Stmt.nestsAll 0 (read tabSize numbering source).1)
      (read tabSize numbering source).2.1 := by
  obtain ⟨ds, hreads, hds⟩ := reads_read tabSize numbering source
  exact (nests_of_anonymous (nests_of_reads hreads)).congr hds

end Reading

end NovelScript
