/-
What complaints about the structure of a script say of it. There are two kinds:
a branch comes after the last resort of its conditional, or the word of a branch
opens none. `Structured` ties both to the lines of the script and their roles:
every late branch is told, and every complaint is about a late branch or about
raw text that begins with such a word. It is shown along `Reads`, one case for
each constructor; what a menu drops when it falls back is dropped on both sides,
so there is no case for it.

# Raw text begins with its line

That the text begins with the word is not plain where a block is kept as one raw
text, since its lines are indented against the shallowest of them. This is the
first: no line of a block is narrower than its header (`Wide`), so nothing is
put in front of the header (`exists_relativeText`).

# A lone `pass`

A body that says only `pass` is dropped, and a statement with it. Nothing is
told of that statement, as it does not begin with the word of a branch
(`not_opensBranch_of_pass`).

# Exactly

A line has one role (`role_unique`). So where there is a complaint about the
line of a branch, the branch is late, and the complaints describe the
conditionals exactly: of the first branch that it has a condition, and of each
later one that it is told if and only if it comes after one without.
-/
import NovelScript.Proofs.Reading.Formed
import NovelScript.Proofs.Reading.Marks
import NovelScript.Proofs.Reading.Nested
import NovelScript.Proofs.Text.Lines

namespace NovelScript.Reading

open Grammar Item Text

-- ========================================================== first words

/-- What follows a word and does not go on with it leaves it the first. -/
theorem firstWord?_append {cs rest : List Char} {word : String}
    (h : firstWord? cs = some word) (hword : word ≠ "$")
    (hrest : Stops isWordChar rest) : firstWord? (cs ++ rest) = some word := by
  have hname : ∃ w tail, name? cs = some (w, tail) ∧ String.ofList w = word := by
    unfold firstWord? at h
    split at h
    · exact absurd (Option.some.inj h).symm hword
    · obtain ⟨⟨w, tail⟩, hname, hw⟩ := Option.map_eq_some_iff.mp h
      exact ⟨w, tail, hname, hw⟩
  obtain ⟨w, tail, hname, rfl⟩ := hname
  obtain ⟨hw, hstop, rfl⟩ := name?_eq_some.mp hname
  rw [List.append_assoc]
  apply firstWord?_name hw
  cases tail with
  | nil => exact hrest
  | cons c tail => exact fun d hd => hstop d hd

theorem opensBranch_append {content : String} {rest : List Char}
    (h : OpensBranch content) (hrest : Stops isWordChar rest) :
    OpensBranch (String.ofList (content.toList ++ rest)) := by
  unfold OpensBranch
  rw [String.toList_ofList]
  exact h.imp (firstWord?_append · (by decide) hrest)
    (firstWord?_append · (by decide) hrest)

/-- Lines none of which is narrower than the first begin with the first: its own
indentation is the margin, and what follows it on the text is a line break or
nothing. -/
theorem exists_relativeText {l : Line} {block : List Line}
    (h : ∀ b ∈ block, l.indent ≤ b.indent) :
    ∃ rest, Line.relativeText (l :: block)
        = String.ofList (l.content.toList ++ rest)
      ∧ Stops isWordChar rest := by
  have hbase : least (l.indent :: block.map Line.indent) = l.indent := by
    obtain ⟨hmem, hle⟩ := least_spec l.indent (block.map Line.indent)
    apply le_antisymm (hle _ List.mem_cons_self)
    cases List.mem_cons.mp hmem with
    | inl heq => exact heq.ge
    | inr hmem =>
        obtain ⟨b, hb, heq⟩ := List.mem_map.mp hmem
        rw [← heq]
        exact h b hb
  cases block with
  | nil =>
      refine ⟨[], ?_, stops_nil _⟩
      rw [relativeText_single, List.append_nil, String.ofList_toList]
  | cons b block =>
      have hstop : Stops isWordChar ('\n' :: (joinLines ((b :: block).map
          fun k => String.ofList (List.replicate (k.indent - l.indent) ' ')
            ++ k.content)).toList) := by
        intro c hc
        obtain rfl := Option.mem_some.mp hc
        decide
      refine ⟨_, ?_, hstop⟩
      apply String.toList_inj.mp
      unfold Line.relativeText
      simp only [List.map_cons] at hbase ⊢
      rw [hbase, toList_joinLines_cons_cons, Nat.sub_self, String.toList_ofList]
      simp

-- ============================================================== widths

/-- Lines that are wider than each line before them that they are deeper
than. -/
def Wide (ls : List Line) : Prop :=
  ∀ a inside, a :: inside <:+: ls → (∀ b ∈ inside, a.depth < b.depth) →
    ∀ b ∈ inside, a.indent < b.indent

theorem wide_scan (tabSize : Int) (source : String) :
    Wide (Source.scan tabSize source).1 := by
  intro a inside hinside hdeeper
  obtain ⟨front, back, h⟩ := hinside
  rw [List.append_assoc, List.cons_append] at h
  exact Source.indent_lt_of_deeper tabSize source h.symm hdeeper

section

variable {ls ls' : List Line} {l : Line}

theorem Wide.of_isInfix (h : Wide ls) (hpart : ls' <:+: ls) : Wide ls' :=
  fun a inside hinside => h a inside (hinside.trans hpart)

theorem Wide.left (h : Wide (ls ++ ls')) : Wide ls :=
  h.of_isInfix (List.prefix_append ls ls').isInfix

theorem Wide.right (h : Wide (ls ++ ls')) : Wide ls' :=
  h.of_isInfix (List.suffix_append ls ls').isInfix

theorem Wide.tail (h : Wide (l :: ls)) : Wide ls :=
  h.of_isInfix (List.suffix_cons l ls).isInfix

/-- A line with the word of a branch keeps it at the front of the raw text that
it is kept as, with the block below it or without. -/
theorem Wide.opensBranch (h : Wide (l :: ls)) (hopens : OpensBranch l.content)
    {content : String} (hcontent : content = l.content
      ∨ Below l ls ∧ content = Line.relativeText (l :: ls)) :
    OpensBranch content := by
  cases hcontent with
  | inl hcontent => rwa [hcontent]
  | inr hcontent =>
      obtain ⟨hbelow, rfl⟩ := hcontent
      have hwider := h l ls List.infix_rfl hbelow
      obtain ⟨rest, htext, hrest⟩ :=
        exists_relativeText fun b hb => (hwider b hb).le
      rw [htext]
      exact opensBranch_append hopens hrest

end

-- ============================================================ complaints

/-- Every late branch is told, and every complaint about the structure is about
a late branch or about raw text that begins with the word of a branch. -/
structure Structured (marks : List Mark) (ds : List Diagnostic) : Prop where
  /-- There is a complaint about each late branch. -/
  late : ∀ line, (line, .branch true) ∈ marks →
    ∃ d ∈ ds, d.cause.isStructural = true ∧ line = some d.line
  /-- Each complaint is about one of the lines. -/
  told : ∀ d ∈ ds, d.cause.isStructural = true →
    (some d.line, .branch true) ∈ marks ∨ (some d.line, .stray) ∈ marks

/-- Complaints none of which is about the structure. -/
def Local (ds : List Diagnostic) : Prop :=
  ∀ d ∈ ds, d.cause.isStructural = false

theorem Plain.toLocal {ds : List Diagnostic} (h : Plain ds) : Local ds :=
  fun d hd => (h d hd).2

section

variable {marks marks' : List Mark} {ds ds' : List Diagnostic}

theorem structured_nil : Structured [] [] := ⟨by simp, by simp⟩

theorem Structured.append (h : Structured marks ds)
    (h' : Structured marks' ds') : Structured (marks ++ marks') (ds ++ ds') := by
  constructor
  · intro line hline
    cases List.mem_append.mp hline with
    | inl hline =>
        obtain ⟨d, hd, hstructural⟩ := h.late line hline
        exact ⟨d, List.mem_append_left _ hd, hstructural⟩
    | inr hline =>
        obtain ⟨d, hd, hstructural⟩ := h'.late line hline
        exact ⟨d, List.mem_append_right _ hd, hstructural⟩
  · intro d hd hstructural
    cases List.mem_append.mp hd with
    | inl hd =>
        exact (h.told d hd hstructural).imp (List.mem_append_left _)
          (List.mem_append_left _)
    | inr hd =>
        exact (h'.told d hd hstructural).imp (List.mem_append_right _)
          (List.mem_append_right _)

/-- The order of the complaints does not matter. -/
theorem Structured.congr (h : Structured marks ds)
    (hds : ∀ d, d ∈ ds ↔ d ∈ ds') : Structured marks ds' := by
  constructor
  · intro line hline
    obtain ⟨d, hd, hstructural⟩ := h.late line hline
    exact ⟨d, (hds d).mp hd, hstructural⟩
  · exact fun d hd => h.told d ((hds d).mpr hd)

/-- More complaints of other kinds. -/
theorem Structured.complain (h : Structured marks ds) (hds' : Local ds') :
    Structured marks (ds' ++ ds) := by
  have hnone : Structured [] ds' := by
    constructor
    · simp
    · intro d hd hstructural
      rw [hds' d hd] at hstructural
      cases hstructural
  exact hnone.append h

/-- One more line, which is no late branch. -/
theorem Structured.line (h : Structured marks ds) (line : Option Nat)
    {role : Role} (hrole : role ≠ .branch true) :
    Structured ((line, role) :: marks) ds := by
  have hone : Structured [(line, role)] [] := by
    constructor
    · intro line' h'
      obtain ⟨-, rfl⟩ := Prod.mk.inj (List.mem_singleton.mp h')
      exact absurd rfl hrole
    · simp
  exact hone.append h

/-- One more branch, which is told if it is late. -/
theorem Structured.branch (h : Structured marks ds) (late : Bool) (l : Line)
    (condition : Option String) :
    Structured ((some l.number, .branch late) :: marks)
      (lateFound late l condition ++ ds) := by
  cases late with
  | false => exact h.line _ (by simp)
  | true =>
      have hone : Structured [(some l.number, .branch true)]
          (lateFound true l condition) := by
        constructor
        · intro line hline
          obtain ⟨rfl, -⟩ := Prod.mk.inj (List.mem_singleton.mp hline)
          exact ⟨_, List.mem_cons_self, rfl, rfl⟩
        · intro d hd _
          obtain rfl := List.mem_singleton.mp hd
          exact Or.inl List.mem_cons_self
      exact hone.append h

/-- The word of a branch that opens none is told. -/
theorem Structured.strayBranch (h : Structured marks ds) {l : Line}
    (hl : (some l.number, .stray) ∈ marks) (word : String) :
    Structured marks (⟨l.number, .strayBranch word⟩ :: ds) := by
  constructor
  · intro line hline
    obtain ⟨d, hd, hstructural⟩ := h.late line hline
    exact ⟨d, List.mem_cons_of_mem _ hd, hstructural⟩
  · intro d hd hstructural
    cases List.mem_cons.mp hd with
    | inl hd =>
        rw [hd]
        exact Or.inr hl
    | inr hd => exact h.told d hd hstructural

end

/-- No simple statement stands on the line of a branch. -/
theorem role_ne_branch (s : Simple) (late : Bool) : s.role ≠ .branch late := by
  unfold Simple.role
  split
  · split <;> simp
  · simp

theorem structured_simple (l : Line) (s : Simple) :
    Structured (Stmt.marksAll [bareSimple l s]) [] :=
  structured_nil.line _ (role_ne_branch s true)

theorem structured_stray (l : Line) (block : List Line) :
    Structured (Stmt.marksAll [bareRaw l (l :: block)])
      [⟨l.number, .indentation⟩] := by
  have hlocal : Local [⟨l.number, .indentation⟩] := by
    simp [Local, Cause.isStructural]
  exact (structured_simple l _).complain hlocal

/-- Text that only says `pass` begins with no word of a branch, so nothing is
told of it and it may be dropped. -/
theorem not_opensBranch_of_pass {content : String}
    (h : trim content.toList = "pass".toList) : ¬OpensBranch content := by
  intro hopens
  cases pass_cases h with
  | inl hword =>
      rw [OpensBranch, hword.1] at hopens
      exact absurd hopens (by decide)
  | inr hword =>
      rw [OpensBranch, hword.1] at hopens
      exact absurd hopens (by decide)

/-- A body of one line that only says `pass` is dropped, and nothing is told of
it. -/
theorem Structured.pass {st : Stmt} {content : String} {ds : List Diagnostic}
    (hraw : st.rawContent? = some content)
    (hpass : trim content.toList = "pass".toList)
    (h : Structured (Stmt.marksAll [st]) ds) : Structured [] ds := by
  cases st with
  | simple tag s =>
      have hcontent : s = .raw content := by
        cases s <;> cases hraw
        rfl
      have hrole : s.role = .plain := by
        rw [hcontent]
        exact if_neg (not_opensBranch_of_pass hpass)
      rw [Stmt.marksAll_single, Stmt.marks, hrole] at h
      constructor
      · intro line hline
        cases hline
      · intro d hd hstructural
        have htold := h.told d hd hstructural
        simp at htold
  | label => cases hraw
  | menu => cases hraw
  | conditional => cases hraw

-- ======================================================= all that is read

mutual

theorem structured_of_reads : ∀ {n : Nat} {ls : List Line} {ss : List Stmt}
    {ds : List Diagnostic}, Reads n ls ss ds → Wide ls →
      Structured (Stmt.marksAll ss) ds
  | _, _, _, _, .nil, _ => structured_nil
  | _, _, _, _, .append h h', hwide => by
      rw [Stmt.marksAll_append]
      exact (structured_of_reads h hwide.left).append
        (structured_of_reads h' hwide.right)
  | _, _, _, _, .simple _, _ => structured_simple _ _
  | _, _, _, _, .stray _, _ => structured_stray _ _
  | _, _, _, _, .complain hplain h, hwide =>
      (structured_of_reads h hwide).complain hplain.toLocal
  | _, _, _, _, .strayBranch hword hcontent h, hwide => by
      have hrole : Simple.role (.raw _) = .stray :=
        if_pos (hwide.opensBranch hword hcontent)
      apply (structured_of_reads h hwide).strayBranch
      rw [Stmt.marksAll, bareSimple, Stmt.marks, hrole]
      exact List.mem_cons_self
  | _, _, _, _, .label _ hbody, hwide => by
      rw [Stmt.marksAll_single, Stmt.marks]
      exact (structured_of_readsBody hbody hwide.tail).line _ (by simp)
  | _, _, _, _, .menu _ hchoices, hwide => by
      rw [Stmt.marksAll_single, Stmt.marks]
      exact (structured_of_readsChoices hchoices hwide.tail).line _ (by simp)
  | _, _, _, _, .conditional _ hbranches, hwide => by
      rw [Stmt.marksAll_single, Stmt.marks]
      exact structured_of_readsBranches hbranches hwide

theorem structured_of_readsBody : ∀ {n : Nat} {ls : List Line}
    {body : List Stmt} {ds : List Diagnostic}, ReadsBody n ls body ds →
      Wide ls → Structured (Stmt.marksAll body) ds
  | _, _, _, _, .stmts h, hwide => structured_of_reads h hwide
  | _, _, _, _, .pass _ hraw hpass h, hwide =>
      (structured_of_reads h hwide).pass hraw hpass

theorem structured_of_readsChoices : ∀ {n : Nat} {ls : List Line}
    {choices : List Choice} {ds : List Diagnostic},
      ReadsChoices n ls choices ds → Wide ls →
        Structured (Choice.marksAll choices) ds
  | _, _, _, _, .nil, _ => structured_nil
  | _, _, _, _, .aside h, hwide => structured_of_readsChoices h hwide.tail
  | _, _, _, _, .choice _ hbody hmore, hwide => by
      have hbody := structured_of_readsBody hbody hwide.tail.left
      have hmore := structured_of_readsChoices hmore hwide.tail.right
      exact ((hbody.append hmore).complain (plain_colonFound _ _).toLocal).line _
        (by simp)

theorem structured_of_readsBranches : ∀ {n : Nat} {late : Bool}
    {ls : List Line} {branches : List Branch} {ds : List Diagnostic},
      ReadsBranches n late ls branches ds → Wide ls →
        Structured (Branch.marksAll late branches) ds
  | _, _, _, _, _, .nil, _ => structured_nil
  | _, _, _, _, _, .branch _ hbody hmore, hwide => by
      have hbody := structured_of_readsBody hbody hwide.tail.left
      have hmore := structured_of_readsBranches hmore hwide.tail.right
      exact ((hbody.append hmore).complain (plain_colonFound _ _).toLocal).branch _ _ _

end

-- =============================================================== scripts

/-- The lines of a script are structured as the complaints about it say. -/
theorem structured_read (tabSize : Int) (numbering : Numbering)
    (source : String) :
    Structured (Stmt.marksAll (read tabSize numbering source).1)
      (read tabSize numbering source).2.1 := by
  obtain ⟨ds, hreads, hds⟩ := reads_read tabSize numbering source
  have hstructured := structured_of_reads hreads (wide_scan tabSize source)
  rw [Stmt.anonymousAll, Stmt.marksAll_anonymous] at hstructured
  exact hstructured.congr hds

theorem kind_eq_structure {d : Diagnostic} :
    d.kind = "structure" ↔ d.cause.isStructural = true := by
  unfold Diagnostic.kind
  split
  · next h => exact iff_of_true rfl h
  · next h => exact iff_of_false (by decide) h

mutual

/-- What is nested in a statement of the form that reading gives has this form
as well. -/
theorem formed_of_nests (nest : Nat) : ∀ s : Stmt, s.Formed →
    ∀ m ∈ Stmt.nests nest s, m.2.Formed
  | .simple _ _, h => List.forall_mem_singleton.mpr h
  | .label _ _ _ body, h =>
      List.forall_mem_cons.mpr ⟨h, formed_of_nestsAll _ body h.2.2.2⟩
  | .menu _ _ choices, h =>
      List.forall_mem_cons.mpr ⟨h, formed_of_nestsChoices _ choices h.2.2⟩
  | .conditional _ branches, h =>
      List.forall_mem_cons.mpr ⟨h, formed_of_nestsBranches _ branches h.2.2⟩

theorem formed_of_nestsAll (nest : Nat) : ∀ ss : List Stmt, Stmt.FormedAll ss →
    ∀ m ∈ Stmt.nestsAll nest ss, m.2.Formed
  | [], _ => fun m hm => by cases hm
  | s :: more, h => List.forall_mem_append.mpr
      ⟨formed_of_nests nest s h.1, formed_of_nestsAll nest more h.2⟩

theorem formed_of_nestsChoices (nest : Nat) : ∀ cs : List Choice,
    Choice.FormedAll cs → ∀ m ∈ Choice.nestsAll nest cs, m.2.Formed
  | [], _ => fun m hm => by cases hm
  | .mk _ _ _ body :: more, h => List.forall_mem_append.mpr
      ⟨formed_of_nestsAll nest body h.2.2.1,
        formed_of_nestsChoices nest more h.2.2.2⟩

theorem formed_of_nestsBranches (nest : Nat) : ∀ bs : List Branch,
    Branch.FormedAll bs → ∀ m ∈ Branch.nestsAll nest bs, m.2.Formed
  | [], _ => fun m hm => by cases hm
  | .mk _ _ body :: more, h => List.forall_mem_append.mpr
      ⟨formed_of_nestsAll nest body h.2.2.1,
        formed_of_nestsBranches nest more h.2.2.2⟩

end

/-- The branches of a statement are on their lines, and late if one before them
is the last resort. -/
theorem branch_mem_ownMarks {s : Stmt} {line : Option Nat} {late : Bool} :
    (line, .branch late) ∈ s.ownMarks ↔
      ∃ before b after, s.branches = before ++ b :: after ∧ b.line = line
        ∧ before.any (·.condition.isNone) = late := by
  cases s with
  | simple tag s =>
      simp [Stmt.ownMarks, Stmt.branches, (role_ne_branch s late).symm]
  | label tag name parameters body => simp [Stmt.ownMarks, Stmt.branches]
  | menu tag head choices => simp [Stmt.ownMarks, Stmt.branches]
  | conditional tag branches =>
      rw [Stmt.ownMarks, Branch.mem_row]
      simp only [Stmt.branches, Prod.mk.injEq, Role.branch.injEq,
        Bool.false_or, eq_comm]

/-- A line has the word of a branch that opens none if a raw text stands on
it. -/
theorem exists_raw_of_stray {s : Stmt} {line : Option Nat}
    (h : (line, .stray) ∈ s.ownMarks) :
    ∃ tag content, s = .simple tag (.raw content) ∧ tag.line = line
      ∧ OpensBranch content := by
  cases s with
  | simple tag s =>
      obtain ⟨hline, hrole⟩ := Prod.mk.inj (List.mem_singleton.mp h)
      unfold Simple.role at hrole
      split at hrole
      · next content =>
        split at hrole
        · next hopens => exact ⟨tag, content, rfl, hline.symm, hopens⟩
        · cases hrole
      · cases hrole
  | label tag name parameters body => simp [Stmt.ownMarks] at h
  | menu tag head choices => simp [Stmt.ownMarks] at h
  | conditional tag branches =>
      rw [Stmt.ownMarks, Branch.mem_row] at h
      obtain ⟨before, b, after, -, heq⟩ := h
      cases (Prod.mk.inj heq).2

/-- One of some branches is the last resort. -/
def LastResort (before : List Branch) : Prop :=
  ∃ e ∈ before, e.condition = none

theorem any_isNone {before : List Branch} :
    before.any (·.condition.isNone) = true ↔ LastResort before := by
  simp [LastResort]

/-- The complaints about the structure of a script describe the statements that
are met in it. -/
structure ToldExactly (met : List (Nat × Stmt)) (ds : List Diagnostic) :
    Prop where
  /-- The first branch of a conditional has a condition. -/
  first : ∀ m ∈ met, ∀ tag branches, m.2 = .conditional tag branches →
    ∃ condition line body more,
      branches = .mk (some condition) line body :: more
  /-- There is a complaint about the line of a branch if and only if the last
  resort comes before it. -/
  told : ∀ m ∈ met, ∀ before b after, m.2.branches = before ++ b :: after →
    ((∃ d ∈ ds, d.kind = "structure" ∧ b.line = some d.line)
      ↔ LastResort before)
  /-- Each complaint is about the line of such a branch, or about that of a raw
  text that begins with the word of one. -/
  placed : ∀ d ∈ ds, d.kind = "structure" →
    (∃ m ∈ met, ∃ before b after, m.2.branches = before ++ b :: after
        ∧ b.line = some d.line ∧ LastResort before)
      ∨ ∃ m ∈ met, ∃ tag content, m.2 = .simple tag (.raw content)
        ∧ tag.line = some d.line ∧ OpensBranch content
  /-- Without complaints, the last resort of a conditional is its last branch,
  and the only one. -/
  quiet : (∀ d ∈ ds, d.kind ≠ "structure") →
    ∀ m ∈ met, ∀ before b after, m.2.branches = before ++ b :: after →
      b.condition = none → after = [] ∧ ¬LastResort before

/-- Where no branch is told, the last resort is the last branch. -/
theorem last_of_quiet {bs before after : List Branch} {b : Branch}
    (hquiet : ∀ before b after, bs = before ++ b :: after →
      ¬LastResort before)
    (hbs : bs = before ++ b :: after) (hb : b.condition = none) :
    after = [] ∧ ¬LastResort before := by
  refine ⟨?_, hquiet _ _ _ hbs⟩
  cases after with
  | nil => rfl
  | cons c after =>
      -- The branch `b` comes before `c`, so `c` would be told.
      have hlast : LastResort (before ++ [b]) :=
        ⟨b, List.mem_append_right _ List.mem_cons_self, hb⟩
      exact absurd hlast (hquiet _ c after (by simp [hbs]))

/-- For every script, the complaints about its structure describe its
conditionals exactly, at any depth: of each branch behind the first it can be
told from them whether it comes too late, and there are no others but at raw
text. -/
theorem toldExactly_read (tabSize : Int) (numbering : Numbering) (source : String) :
    ToldExactly (Stmt.nestsAll 0 (read tabSize numbering source).1)
      (read tabSize numbering source).2.1 := by
  have hread := structured_read tabSize numbering source
  have hmarks : ∀ x, x ∈ Stmt.marksAll (read tabSize numbering source).1 ↔ _ :=
    fun x => Stmt.mem_marksAll x 0 _
  have htold : ∀ m ∈ Stmt.nestsAll 0 (read tabSize numbering source).1,
      ∀ before b after, m.2.branches = before ++ b :: after →
        ((∃ d ∈ (read tabSize numbering source).2.1,
            d.kind = "structure" ∧ b.line = some d.line)
          ↔ LastResort before) := by
    intro m hm before b after hbranches
    have hmark := (hmarks (b.line, _)).mpr
      ⟨m, hm, branch_mem_ownMarks.mpr ⟨before, b, after, hbranches, rfl, rfl⟩⟩
    constructor
    · intro ⟨d, hd, hkind, hline⟩
      rw [hline] at hmark
      -- A complaint about this line is about a late branch or about raw text;
      -- the line has one role, so it is the first.
      cases hread.told d hd (kind_eq_structure.mp hkind) with
      | inl h =>
          have hrole := role_unique tabSize numbering source hmark h
          exact any_isNone.mp (Role.branch.inj hrole)
      | inr h => cases role_unique tabSize numbering source hmark h
    · intro hlast
      rw [any_isNone.mpr hlast] at hmark
      obtain ⟨d, hd, hstructural, hline⟩ := hread.late _ hmark
      exact ⟨d, hd, kind_eq_structure.mpr hstructural, hline⟩
  constructor
  case first =>
    intro m hm tag branches hs
    have hformed := formed_of_nestsAll 0 _
      (formedAll_read tabSize numbering source) m hm
    rw [hs] at hformed
    exact hformed.2.1
  case told => exact htold
  case placed =>
    intro d hd hkind
    cases hread.told d hd (kind_eq_structure.mp hkind) with
    | inl h =>
        obtain ⟨m, hm, hmark⟩ := (hmarks _).mp h
        obtain ⟨before, b, after, hbranches, hline, hlate⟩ :=
          branch_mem_ownMarks.mp hmark
        exact Or.inl ⟨m, hm, before, b, after, hbranches, hline,
          any_isNone.mp hlate⟩
    | inr h =>
        obtain ⟨m, hm, hmark⟩ := (hmarks _).mp h
        exact Or.inr ⟨m, hm, exists_raw_of_stray hmark⟩
  case quiet =>
    intro hnone m hm before b after hbranches
    apply last_of_quiet _ hbranches
    intro before b after hbranches hlast
    obtain ⟨d, hd, hkind, -⟩ := (htold m hm before b after hbranches).mpr hlast
    exact hnone d hd hkind

end NovelScript.Reading
