/-
Reading as a relation. `Reads n ls ss ds` says that lines at a depth give some
statements and some complaints, with one constructor for each thing that can
happen: a line is a simple statement, with the block below it or without; a
block is too deep; a header owns what is nested in it. The choices of a menu and
the branches of a conditional have relations of their own.

# What it is for

What the reader gives is related to its lines (`reads_linesYield`), and that is
all that is used of it elsewhere. A property of what is read is then shown by
one case for each constructor, without the words, the colons and the literals on
which the reader decides. So where a rule of the grammar changes, this module
does, and not those that are built on the relation.

# What it forgets

Which rule took a line is forgotten, but for one thing: a line that begins with
the word of a branch and opens none (`OpensBranch`), since there is a complaint
about it. Complaints about colons and about lines of menus are only known to be
about single lines (`Plain`). A menu that falls back to raw text is no case of
its own: it is one simple statement, and there are two complaints about single
lines.
-/
import NovelScript.Proofs.Reading.Tiling
import NovelScript.Proofs.Source.Depths
import NovelScript.Proofs.Source.Minima

namespace NovelScript

open Grammar Item Text

/-- Text that begins with the word of a further branch, whatever follows it. It
need not be one in form. -/
def OpensBranch (content : String) : Prop :=
  firstWord? content.toList = some "elif"
    ∨ firstWord? content.toList = some "else"

instance (content : String) : Decidable (OpensBranch content) :=
  inferInstanceAs (Decidable (_ ∨ _))

namespace Reading

-- ========================================================== the relation

/-- Complaints that are about single lines, not about how deep they are nor
about the branches of conditionals. -/
def Plain (ds : List Diagnostic) : Prop :=
  ∀ d ∈ ds, d.cause ≠ .indentation ∧ d.cause.isStructural = false

/-- The complaint about a branch behind the last resort. -/
def lateFound (late : Bool) (l : Line) (condition : Option String) :
    List Diagnostic :=
  if late then [⟨l.number, .afterElse (branchWord condition)⟩] else []

mutual

/-- Lines at a depth are read as statements, with complaints: one constructor
for no lines at all, and one for each thing that can become of the first of
them. -/
inductive Reads : Nat → List Line → List Stmt → List Diagnostic → Prop where
  /-- No lines. -/
  | nil {n : Nat} : Reads n [] [] []
  /-- Lines and those behind them. -/
  | append {n : Nat} {ls ls' : List Line} {ss ss' : List Stmt}
      {ds ds' : List Diagnostic} (h : Reads n ls ss ds)
      (h' : Reads n ls' ss' ds') :
    Reads n (ls ++ ls') (ss ++ ss') (ds ++ ds')
  /-- A line is a simple statement, alone or with all that is deeper. -/
  | simple {n : Nat} {l : Line} {block : List Line} {s : Simple}
      (hl : l.depth = n) :
    Reads n (l :: block) [bareSimple l s] []
  /-- Lines that are deeper than where they stand are kept as raw text. -/
  | stray {n : Nat} {l : Line} {block : List Line}
      (h : ∀ b ∈ l :: block, n < b.depth) :
    Reads n (l :: block) [bareRaw l (l :: block)] [⟨l.number, .indentation⟩]
  /-- There are complaints about single lines. -/
  | complain {n : Nat} {ls : List Line} {ss : List Stmt}
      {ds ds' : List Diagnostic} (hplain : Plain ds') (h : Reads n ls ss ds) :
    Reads n ls ss (ds' ++ ds)
  /-- The word of a branch opens none, and its line is kept as raw text. -/
  | strayBranch {n : Nat} {l : Line} {block : List Line} {content word : String}
      {ss : List Stmt} {ds : List Diagnostic} (hword : OpensBranch l.content)
      (hcontent : content = l.content
        ∨ Below l block ∧ content = Line.relativeText (l :: block))
      (h : Reads n (l :: block) (bareSimple l (.raw content) :: ss) ds) :
    Reads n (l :: block) (bareSimple l (.raw content) :: ss)
      (⟨l.number, .strayBranch word⟩ :: ds)
  /-- A label owns its body. -/
  | label {n : Nat} {l : Line} {name : String}
      {parameters : Option (List String)} {ls : List Line} {body : List Stmt}
      {ds : List Diagnostic} (hl : l.depth = n)
      (hbody : ReadsBody (n + 1) ls body ds) :
    Reads n (l :: ls) [.label ⟨"", some l.number⟩ name parameters body] ds
  /-- A menu owns its choices. -/
  | menu {n : Nat} {l : Line} {head : MenuHead} {ls : List Line}
      {choices : List Choice} {ds : List Diagnostic} (hl : l.depth = n)
      (hchoices : ReadsChoices (n + 1) ls choices ds) :
    Reads n (l :: ls) [.menu ⟨"", some l.number⟩ head choices] ds
  /-- A conditional owns its branches, and its line is that of the first. -/
  | conditional {n : Nat} {l : Line} {ls : List Line} {branches : List Branch}
      {ds : List Diagnostic} (hl : l.depth = n)
      (hbranches : ReadsBranches n false (l :: ls) branches ds) :
    Reads n (l :: ls) [.conditional ⟨"", some l.number⟩ branches] ds

/-- Lines at a depth are read as a body, with complaints. -/
inductive ReadsBody : Nat → List Line → List Stmt → List Diagnostic → Prop where
  /-- Statements. -/
  | stmts {n : Nat} {ls : List Line} {ss : List Stmt} {ds : List Diagnostic}
      (h : Reads n ls ss ds) : ReadsBody n ls ss ds
  /-- A line that only says `pass` is an empty body. -/
  | pass {n : Nat} {l : Line} {st : Stmt} {content : String}
      {ds : List Diagnostic} (hl : l.depth = n)
      (hraw : st.rawContent? = some content)
      (hpass : trim content.toList = "pass".toList) (h : Reads n [l] [st] ds) :
    ReadsBody n [l] [] ds

/-- Lines at a depth are read as the choices of a menu, with complaints. -/
inductive ReadsChoices : Nat → List Line → List Choice → List Diagnostic →
    Prop where
  /-- No lines. -/
  | nil {n : Nat} : ReadsChoices n [] [] []
  /-- A line that is no choice. -/
  | aside {n : Nat} {l : Line} {ls : List Line} {choices : List Choice}
      {ds : List Diagnostic} (h : ReadsChoices n ls choices ds) :
    ReadsChoices n (l :: ls) choices ds
  /-- A choice owns its body. -/
  | choice {n : Nat} {l : Line} {text : String} {condition : Option String}
      {ls ls' : List Line} {body : List Stmt} {more : List Choice}
      {ds ds' : List Diagnostic} (hl : l.depth = n)
      (hbody : ReadsBody (n + 1) ls body ds)
      (hmore : ReadsChoices n ls' more ds') :
    ReadsChoices n (l :: (ls ++ ls'))
      (.mk text condition (some l.number) body :: more)
      (colonFound l .choice ++ (ds ++ ds'))

/-- Lines at a depth are read as branches of a conditional, of which one may
have been the last resort, with complaints. -/
inductive ReadsBranches : Nat → Bool → List Line → List Branch →
    List Diagnostic → Prop where
  /-- No lines. -/
  | nil {n : Nat} {late : Bool} : ReadsBranches n late [] [] []
  /-- A branch owns its body. -/
  | branch {n : Nat} {late : Bool} {l : Line} {condition : Option String}
      {header : Header} {ls ls' : List Line} {body : List Stmt}
      {more : List Branch} {ds ds' : List Diagnostic} (hl : l.depth = n)
      (hbody : ReadsBody (n + 1) ls body ds)
      (hmore : ReadsBranches n (late || condition.isNone) ls' more ds') :
    ReadsBranches n late (l :: (ls ++ ls'))
      (.mk condition (some l.number) body :: more)
      (lateFound late l condition ++ (colonFound l header ++ (ds ++ ds')))

end

-- ============================================================== one item

theorem plain_colonFound (l : Line) (header : Header) :
    Plain (colonFound l header) := by
  unfold colonFound
  split
  · simp [Plain]
  · simp [Plain, Cause.isStructural]

theorem Plain.append {ds ds' : List Diagnostic} (h : Plain ds) (h' : Plain ds') :
    Plain (ds ++ ds') := List.forall_mem_append.mpr ⟨h, h'⟩

section

variable {n : Nat} {l : Line} {block : List Line}

theorem reads_strayYield (h : ∀ b ∈ block, n < b.depth) :
    Reads n block (strayYield block).stmts (strayYield block).found := by
  cases block with
  | nil => exact .nil
  | cons l block => exact .stray h

/-- A simple statement in front of a block that it does not own. -/
theorem reads_line_stray (hl : l.depth = n) (hblock : ∀ b ∈ block, n < b.depth)
    (s : Simple) :
    Reads n (l :: block) (bareSimple l s :: (strayYield block).stmts)
      (strayYield block).found := by
  have hline : Reads n [l] [bareSimple l s] [] := .simple hl
  exact hline.append (reads_strayYield hblock)

theorem reads_rawYield (hl : l.depth = n) (hblock : ∀ b ∈ block, n < b.depth) :
    Reads n (l :: block) (rawYield l block).stmts (rawYield l block).found := by
  unfold rawYield
  split
  · exact .simple hl
  · exact reads_line_stray hl hblock _

theorem reads_simpleYield (hl : l.depth = n)
    (hblock : ∀ b ∈ block, n < b.depth) :
    Reads n (l :: block) (simpleYield l block).stmts
      (simpleYield l block).found := by
  unfold simpleYield
  cases lineKind l.content.toList with
  | simple s => exact reads_line_stray hl hblock s
  | raw => exact reads_rawYield hl hblock
  | openLiteral =>
      have hplain : Plain [⟨l.number, .openLiteral⟩] := by
        simp [Plain, Cause.isStructural]
      exact .complain hplain (reads_rawYield hl hblock)

theorem reads_codeYield (hl : l.depth = n) (hblock : ∀ b ∈ block, n < b.depth) :
    Reads n (l :: block) (codeYield l block).stmts (codeYield l block).found := by
  unfold codeYield
  split
  · split
    · exact .simple hl
    · exact reads_rawYield hl hblock
  · exact reads_rawYield hl hblock

/-- A line with the word of a branch that opens none. -/
theorem reads_strayBranch (hl : l.depth = n) (hblock : ∀ b ∈ block, n < b.depth)
    (hopens : OpensBranch l.content) (word : String) :
    Reads n (l :: block) (rawYield l block).stmts
      (⟨l.number, .strayBranch word⟩ :: (rawYield l block).found) := by
  have hbelow : Below l block := by
    intro b hb
    rw [hl]
    exact hblock b hb
  unfold rawYield
  split
  · exact .strayBranch hopens (Or.inr ⟨hbelow, rfl⟩) (.simple hl)
  · exact .strayBranch hopens (Or.inl rfl) (reads_line_stray hl hblock _)

/-- A menu that falls back to raw text. -/
theorem reads_fallback (hl : l.depth = n) (bad : Line) :
    Reads n (l :: block) [bareRaw l (l :: block)]
      (colonFound l .menu ++ [⟨bad.number, .menuLine bad.content⟩]) := by
  have hplain : Plain [⟨bad.number, .menuLine bad.content⟩] := by
    simp [Plain, Cause.isStructural]
  rw [← List.append_nil (colonFound l .menu ++ _)]
  exact .complain ((plain_colonFound l _).append hplain) (.simple hl)

end

/-- The body of a header is what is read of its block, or nothing if that only
says `pass`. -/
theorem Reads.bodyOf {n : Nat} {block : List Item} {body : List Stmt}
    {ds : List Diagnostic} (hat : AllAt n block)
    (h : Reads n (linesOfAll block) body ds) :
    ReadsBody n (linesOfAll block) (bodyOf block body) ds := by
  unfold Reading.bodyOf
  split
  · split
    · next content hraw =>
      split
      · next hpass => exact .pass hat.1.1 hraw hpass h
      · exact .stmts h
    · exact .stmts h
  · exact .stmts h

-- ============================================================== all items

/-- The lines of a menu that is read to its end are read as its choices. -/
def MenuReads (n : Nat) (m : MenuParts) (items : List Item) : Prop :=
  ∀ parts found, menuYield m items = (.ok parts, found) →
    ∃ choices, parts.choices = m.choices ++ choices
      ∧ ReadsChoices n (linesOfAll items) choices found

theorem MenuReads.aside {n : Nat} {m m' : MenuParts} {l : Line}
    {items : List Item} {hasBlock : Bool}
    (hline : menuLine m l hasBlock = .parts m') (h : MenuReads n m' items)
    {parts : MenuParts} {found : List Diagnostic}
    (hread : menuYield m' items = (.ok parts, found)) :
    hasBlock = false ∧ ∃ choices, parts.choices = m.choices ++ choices
      ∧ ReadsChoices n (l :: linesOfAll items) choices found := by
  have hspec := menuLine_spec m l hasBlock
  rw [hline] at hspec
  obtain ⟨-, hblock, hchoices⟩ := hspec
  obtain ⟨choices, hparts, hreads⟩ := h parts found hread
  exact ⟨hblock, choices, hchoices ▸ hparts, .aside hreads⟩

mutual

theorem reads_itemYield : ∀ {n : Nat} (i : Item) (rest : List Line),
    Stands opensConditional continuesConditional rest i → At n i →
      Reads n (lines i) (itemYield i).stmts (itemYield i).found
  | n, .plain l block, rest, ⟨_, _, _, hblock⟩, ⟨hl, hat⟩ => by
      have hinner := reads_itemsYield block rest hblock hat
      have hmenu := menuReads_menuYield {} block rest hblock hat
      have hbelow : ∀ b ∈ linesOfAll block, n < b.depth := le_depth_of_allAt hat
      have hraw := reads_rawYield hl hbelow
      rcases word_cases (firstWord? l.content.toList) with
        hw | hw | hw | hw | hw | hw | hw
      · -- a label
        simp only [itemYield, hw]
        cases label? (headOf l) with
        | none => exact hraw
        | some head =>
            exact .complain (plain_colonFound l _) (.label hl (hinner.bodyOf hat))
      · -- a menu
        simp only [itemYield, hw]
        cases menu? (headOf l) with
        | none => exact hraw
        | some head =>
            simp only
            cases hresult : menuYield {} block with
            | mk result found =>
                cases result with
                | ok parts =>
                    obtain ⟨choices, hparts, hchoices⟩ :=
                      hmenu parts found hresult
                    rw [List.nil_append] at hparts
                    simp only [hparts]
                    exact .complain (plain_colonFound l _) (.menu hl hchoices)
                | error bad => exact reads_fallback hl bad
      · -- `elif` that no conditional has
        simp only [itemYield, hw]
        exact reads_strayBranch hl hbelow (Or.inl hw) _
      · -- `else` that no conditional has
        simp only [itemYield, hw]
        exact reads_strayBranch hl hbelow (Or.inr hw) _
      · -- code behind `python`
        simp only [itemYield, hw]
        exact reads_codeYield hl hbelow
      · -- code behind `init`
        simp only [itemYield, hw]
        exact reads_codeYield hl hbelow
      · -- any other line
        rw [itemYield_unruled hw]
        exact reads_simpleYield hl hbelow
  | n, .chain l block branches, rest, ⟨hopens, _, _, hblock, hbranches⟩,
      ⟨hl, hat, hbranchesAt⟩ => by
      obtain ⟨condition, hcond⟩ := Option.isSome_iff_exists.mp hopens
      have hinner := reads_itemsYield block _ hblock hat
      have hmore := reads_branchesYield false branches rest hbranches hbranchesAt
      simp only [itemYield, hcond]
      rw [List.append_assoc]
      exact .conditional hl (.branch hl (hinner.bodyOf hat) hmore)

theorem reads_itemsYield : ∀ {n : Nat} (items : List Item) (rest : List Line),
    StandAll opensConditional continuesConditional rest items →
      AllAt n items →
        Reads n (linesOfAll items) (itemsYield items).stmts
          (itemsYield items).found
  | _, [], _, _, _ => .nil
  | _, i :: more, rest, ⟨hi, hmore⟩, ⟨hiAt, hmoreAt⟩ =>
      .append (reads_itemYield i _ hi hiAt)
        (reads_itemsYield more rest hmore hmoreAt)

theorem reads_branchesYield : ∀ {n : Nat} (late : Bool)
    (branches : List (Line × List Item)) (rest : List Line),
    StandBranches opensConditional continuesConditional rest branches →
      BranchesAt n branches →
        ReadsBranches n late (linesOfBranches branches)
          (branchesYield late branches).1 (branchesYield late branches).2
  | _, _, [], _, _, _ => .nil
  | n, late, (l, block) :: more, rest, ⟨_, _, _, hblock, hmore⟩,
      ⟨hl, hat, hmoreAt⟩ => by
      have hinner := reads_itemsYield block _ hblock hat
      have hrest := reads_branchesYield
        (late || ((branchCondition? (headOf l)).getD none).isNone) more rest
        hmore hmoreAt
      simp only [branchesYield, List.append_assoc]
      exact .branch hl (hinner.bodyOf hat) hrest

theorem menuReads_menuYield : ∀ {n : Nat} (m : MenuParts) (items : List Item)
    (rest : List Line),
    StandAll opensConditional continuesConditional rest items →
      AllAt n items → MenuReads n m items
  | _, m, [], _, _, _ => by
      -- A menu that holds nothing more has all its choices already.
      intro parts found h
      obtain ⟨hparts, rfl⟩ := Prod.mk.inj h
      cases hparts
      exact ⟨[], by simp, .nil⟩
  | n, m, .plain l block :: more, rest, ⟨⟨_, _, _, hblock⟩, hmore⟩,
      ⟨⟨hl, hat⟩, hmoreAt⟩ => by
      have hinner := reads_itemsYield block _ hblock hat
      have hrest : ∀ m, MenuReads n m more := fun m =>
        menuReads_menuYield m more rest hmore hmoreAt
      intro parts found h
      unfold menuYield at h
      cases hline : menuLine m l (!block.isEmpty) with
      | parts m' =>
          simp only [hline] at h
          obtain ⟨hempty, haside⟩ := (hrest m').aside hline h
          obtain rfl : block = [] := by simpa using hempty
          exact haside
      | choice text condition =>
          simp only [hline] at h
          obtain ⟨hparts, rfl⟩ := Prod.mk.inj h
          obtain ⟨choices, hchoices, hreads⟩ :=
            hrest _ parts _ (Prod.ext hparts rfl)
          rw [List.append_assoc, List.singleton_append] at hchoices
          refine ⟨_, hchoices, ?_⟩
          rw [List.append_assoc]
          exact .choice hl (hinner.bodyOf hat) hreads
      | refused =>
          simp only [hline] at h
          cases (Prod.mk.inj h).1
  | _, m, .chain l block branches :: more, rest, ⟨_, hmore⟩, ⟨_, hmoreAt⟩ => by
      have hrest := fun m => menuReads_menuYield m more rest hmore hmoreAt
      intro parts found h
      unfold menuYield at h
      cases hline : menuLine m l (!block.isEmpty) with
      | parts m' =>
          simp only [hline] at h
          cases branches with
          | nil =>
              obtain ⟨hempty, haside⟩ := (hrest m').aside hline h
              obtain rfl : block = [] := by simpa using hempty
              exact haside
          | cons b bs => cases (Prod.mk.inj h).1
      | choice text condition =>
          simp only [hline] at h
          cases (Prod.mk.inj h).1
      | refused =>
          simp only [hline] at h
          cases (Prod.mk.inj h).1

end

-- =============================================================== scripts

/-- Lines none of which is more than one deeper than the line before it are
read at the margin; those above the first that stands there are too deep. -/
theorem reads_linesYield {ls : List Line} (h : Source.Climbs 0 ls) :
    Reads 0 ls (linesYield ls).stmts (linesYield ls).found := by
  have hsplit := ls.takeWhile_append_dropWhile (p := (0 < ·.depth))
  have hstray : Reads 0 (ls.takeWhile (0 < ·.depth)) _ _ :=
    reads_strayYield fun b hb => by simpa using List.mem_takeWhile_imp hb
  have hitems := reads_itemsYield (Item.ofLines opensConditional
      continuesConditional (ls.dropWhile (0 < ·.depth))) []
    (standAll_ofLines _ _ _ [] fun _ _ _ hr => by cases hr)
    (allAt_margin _ _ h)
  rw [linesOfAll_ofLines] at hitems
  conv => arg 2; rw [← hsplit]
  exact .append hstray hitems

/-- What is complained of while the lines are cut is about single lines. -/
theorem plain_scan (tabSize : Int) (source : String) :
    Plain (Source.scan tabSize source).2 := by
  intro d hd
  obtain ⟨width, outer, closed, hdedent⟩ := Source.exists_dedent_of_mem_scan hd
  rw [hdedent]
  exact ⟨by simp, rfl⟩

/-- The lines of a script are read as its statements, without identities, with
the complaints that the reader gives in the order of their lines. -/
theorem reads_read (tabSize : Int) (numbering : Numbering) (source : String) :
    ∃ ds, Reads 0 (Source.scan tabSize source).1
        (Stmt.anonymousAll (read tabSize numbering source).1) ds
      ∧ ∀ d, d ∈ ds ↔ d ∈ (read tabSize numbering source).2.1 := by
  rw [anonymousAll_read, found_read]
  have hread := reads_linesYield (Source.climbs_scan tabSize source)
  exact ⟨_, .complain (plain_scan tabSize source) hread,
    fun d => List.mem_mergeSort.symm⟩

end Reading

end NovelScript
