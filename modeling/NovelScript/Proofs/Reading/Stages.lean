/-
The stages of a reading. Reading a script is one recursion, through items, the
bodies below headers, the branches of conditionals and the lines of menus; a
stage is one call of it: what is to be read, how far the reading has come, and
the lines behind. `Comes` leads from a stage to those that it calls, each with
the progress that it is called with. So the stages that a source `Reaches` are
all the states in which the reader is while it reads the source.

# What they are for

What a whole reading gives does not show what was given up on the way. A menu
that falls back takes the choices that were read, and what was complained about
in them, away again; and it can stand in a choice of a menu that is given up
itself. A statement about such a menu is about the stage at which it is read.

# What one step keeps

One step keeps four things, each with its lemma: the lines of a stage are a
piece of the source (`Comes.suffix`), they stand as their depths say
(`Comes.stands`), they are at one depth (`Comes.level`), and no complaint is
lost on the way down (`Comes.found`). The last one is true only because
complaints are taken back when a call is left, never when one is made. `Sound`
puts the four together, and a whole way of steps keeps it (`sound_of_reaches`).
-/
import Mathlib.Logic.Relation
import NovelScript.Proofs.Reading.Meaningful
import NovelScript.Proofs.Source.Depths

namespace NovelScript.Reading

open Grammar Item

-- =============================================================== stages

/-- What the reader is called for. -/
inductive Task where
  /-- An item. -/
  | item (i : Item)
  /-- Several items in a row. -/
  | items (is : List Item)
  /-- The further branches of a conditional, of which one may have been the
  last resort. -/
  | branches (seenElse : Bool) (bs : List (Line × List Item))
  /-- The lines of a menu, of which some parts are there already. -/
  | menu (m : MenuParts) (is : List Item)

namespace Task

/-- The lines that are to be read. -/
def lines : Task → List Line
  | item i => i.lines
  | items is | menu _ is => linesOfAll is
  | branches _ bs => linesOfBranches bs

/-- What is to be read stands in front of some lines. -/
def Stands (behind : List Line) : Task → Prop
  | item i => Item.Stands opensConditional continuesConditional behind i
  | items is | menu _ is =>
    StandAll opensConditional continuesConditional behind is
  | branches _ bs =>
    StandBranches opensConditional continuesConditional behind bs

/-- What is to be read is at a depth. -/
def At (n : Nat) : Task → Prop
  | item i => Item.At n i
  | items is | menu _ is => AllAt n is
  | branches _ bs => BranchesAt n bs

end Task

/-- A call of the reader. -/
structure Stage where
  /-- What it is called for. -/
  task : Task
  /-- How far the reading has come. -/
  progress : Progress
  /-- The lines behind those that are to be read. -/
  behind : List Line

/-- How far a reading has come after one more part of it. -/
def Progress.after {α : Type} (p : Progress) (r : Reader α) : Progress :=
  (r.run p).2

/-- What is said about the header of a further branch. -/
def branchHead (seenElse : Bool) (l : Line) : Reader Unit := do
  let condition := (branchCondition? (headOf l)).getD none
  if seenElse then complain l (.afterElse (branchWord condition))
  expectColon l (.branch (branchWord condition))

/-- The calls that a call leads to. A call for an item leads to those for its
body, for its branches or for the lines of its menu; a call for several leads to
one for the first of them, and to one for the others with the progress after it.
-/
inductive Comes : Stage → Stage → Prop where
  /-- The first of several items. -/
  | first {i : Item} {more : List Item} {p : Progress} {rest : List Line} :
    Comes ⟨.items (i :: more), p, rest⟩ ⟨.item i, p, linesOfAll more ++ rest⟩
  /-- The items behind the first. -/
  | others {i : Item} {more : List Item} {p : Progress} {rest : List Line} :
    Comes ⟨.items (i :: more), p, rest⟩
      ⟨.items more, p.after (readItem i), rest⟩
  /-- The body of a label. -/
  | label {l : Line} {block : List Item} {name : String}
    {parameters : Option (List String)} {p : Progress} {rest : List Line}
    (hword : firstWord? l.content.toList = some "label")
    (hlabel : label? (headOf l) = some (name, parameters)) :
    Comes ⟨.item (.plain l block), p, rest⟩
      ⟨.items block, p.after (expectColon l (.label name)), rest⟩
  /-- The lines of a menu. -/
  | menu {l : Line} {block : List Item} {name screen : Option String}
    {p : Progress} {rest : List Line}
    (hword : firstWord? l.content.toList = some "menu")
    (hmenu : menu? (headOf l) = some (name, screen)) :
    Comes ⟨.item (.plain l block), p, rest⟩
      ⟨.menu {} block, p.after (expectColon l .menu), rest⟩
  /-- The body of a conditional. -/
  | body {l : Line} {block : List Item} {branches : List (Line × List Item)}
    {p : Progress} {rest : List Line} :
    Comes ⟨.item (.chain l block branches), p, rest⟩
      ⟨.items block, p.after (expectColon l .ifs),
        linesOfBranches branches ++ rest⟩
  /-- The further branches of a conditional. -/
  | branches {l : Line} {block : List Item}
    {branches : List (Line × List Item)} {p : Progress} {rest : List Line} :
    Comes ⟨.item (.chain l block branches), p, rest⟩
      ⟨.branches false branches,
        (p.after (expectColon l .ifs)).after (readItems block), rest⟩
  /-- The body of a further branch. -/
  | branchBody {seenElse : Bool} {l : Line} {block : List Item}
    {more : List (Line × List Item)} {p : Progress} {rest : List Line} :
    Comes ⟨.branches seenElse ((l, block) :: more), p, rest⟩
      ⟨.items block, p.after (branchHead seenElse l),
        linesOfBranches more ++ rest⟩
  /-- The branches behind a further branch. -/
  | branchOthers {seenElse : Bool} {l : Line} {block : List Item}
    {more : List (Line × List Item)} {p : Progress} {rest : List Line} :
    Comes ⟨.branches seenElse ((l, block) :: more), p, rest⟩
      ⟨.branches
          (seenElse || ((branchCondition? (headOf l)).getD none).isNone) more,
        (p.after (branchHead seenElse l)).after (readItems block), rest⟩
  /-- The lines of a menu behind one that is no choice. -/
  | aside {m m' : MenuParts} {l : Line} {block more : List Item}
    {p : Progress} {rest : List Line}
    (hline : menuLine m l (!block.isEmpty) = .parts m') :
    Comes ⟨.menu m (.plain l block :: more), p, rest⟩ ⟨.menu m' more, p, rest⟩
  /-- The lines of a menu behind its question, where that begins with the word
  for a conditional. -/
  | wordAside {m m' : MenuParts} {l : Line} {block more : List Item}
    {p : Progress} {rest : List Line}
    (hline : menuLine m l (!block.isEmpty) = .parts m') :
    Comes ⟨.menu m (.chain l block [] :: more), p, rest⟩
      ⟨.menu m' more, p, rest⟩
  /-- The body of a choice. -/
  | choiceBody {m : MenuParts} {l : Line} {block more : List Item}
    {text : List Char} {condition : Option String} {p : Progress}
    {rest : List Line}
    (hline : menuLine m l (!block.isEmpty) = .choice text condition) :
    Comes ⟨.menu m (.plain l block :: more), p, rest⟩
      ⟨.items block, p.after (expectColon l .choice),
        linesOfAll more ++ rest⟩
  /-- The lines of a menu behind a choice. -/
  | choiceOthers {m : MenuParts} {l : Line} {block more : List Item}
    {text : List Char} {condition : Option String} {p : Progress}
    {rest : List Line}
    (hline : menuLine m l (!block.isEmpty) = .choice text condition) :
    Comes ⟨.menu m (.plain l block :: more), p, rest⟩
      ⟨.menu (m.withChoice (.mk (String.ofList text) condition (some l.number)
          (bodyOf block ((readItems block).run
            (p.after (expectColon l .choice))).1))) more,
        (p.after (expectColon l .choice)).after (readItems block), rest⟩

/-- The first call for a source: its lines from the first one at the margin
on, once the lines above it are read. -/
def firstStage (tabSize : Int) (numbering : Numbering) (source : String) :
    Stage :=
  let ls := (Source.scan tabSize source).1
  { task := .items (itemsOf (ls.dropWhile (0 < ·.depth)))
    progress := (start tabSize numbering source).after
      (strayBlock (ls.takeWhile (0 < ·.depth)))
    behind := [] }

/-- The calls that the reading of a source comes to: those that are led to from
the first one, in any number of steps. -/
def Reaches (tabSize : Int) (numbering : Numbering) (source : String)
    (s : Stage) : Prop :=
  Relation.ReflTransGen Comes (firstStage tabSize numbering source) s

-- ============================================================= one step

variable {s s' : Stage}

/-- The lines of a stage and those behind it are the last lines of those of
the stage that it was called from. -/
theorem Comes.suffix (h : Comes s s') :
    s'.task.lines ++ s'.behind <:+ s.task.lines ++ s.behind := by
  cases h <;> simp only [Task.lines, linesOfAll, linesOfBranches, lines,
    List.append_assoc, List.cons_append]
  case first => exact List.suffix_rfl
  case others => exact List.suffix_append _ _
  case label => exact List.suffix_cons _ _
  case menu => exact List.suffix_cons _ _
  case body => exact List.suffix_cons _ _
  case branches => exact (List.suffix_append _ _).trans (List.suffix_cons _ _)
  case branchBody => exact List.suffix_cons _ _
  case branchOthers =>
    exact (List.suffix_append _ _).trans (List.suffix_cons _ _)
  case aside => exact (List.suffix_append _ _).trans (List.suffix_cons _ _)
  case wordAside => exact (List.suffix_append _ _).trans (List.suffix_cons _ _)
  case choiceBody => exact List.suffix_cons _ _
  case choiceOthers =>
    exact (List.suffix_append _ _).trans (List.suffix_cons _ _)

/-- What is read at a stage stands in front of the lines behind it. For a body
these are the lines behind the header's item. -/
theorem Comes.stands (h : Comes s s') (hs : s.task.Stands s.behind) :
    s'.task.Stands s'.behind := by
  cases h
  case first => exact hs.1
  case others => exact hs.2
  case label => exact hs.2.2.2
  case menu => exact hs.2.2.2
  case body => exact hs.2.2.2.1
  case branches => exact hs.2.2.2.2
  case branchBody => exact hs.2.2.2.1
  case branchOthers => exact hs.2.2.2.2
  case aside => exact hs.2
  case wordAside => exact hs.2
  case choiceBody => exact hs.1.2.2.2
  case choiceOthers => exact hs.2

/-- What is read at a stage is at one depth. It is one more for a body than for
its header. -/
theorem Comes.level (h : Comes s s') (hs : ∃ n, s.task.At n) :
    ∃ n, s'.task.At n := by
  obtain ⟨n, hs⟩ := hs
  cases h
  case first => exact ⟨n, hs.1⟩
  case others => exact ⟨n, hs.2⟩
  case label => exact ⟨n + 1, hs.2⟩
  case menu => exact ⟨n + 1, hs.2⟩
  case body => exact ⟨n + 1, hs.2.1⟩
  case branches => exact ⟨n, hs.2.2⟩
  case branchBody => exact ⟨n + 1, hs.2.1⟩
  case branchOthers => exact ⟨n, hs.2.2⟩
  case aside => exact ⟨n, hs.2⟩
  case wordAside => exact ⟨n, hs.2⟩
  case choiceBody => exact ⟨n + 1, hs.1.2⟩
  case choiceOthers => exact ⟨n, hs.2⟩

section

variable (p : Progress)

theorem found_after_expectColon (l : Line) (header : Header) :
    p.found <+: (p.after (expectColon l header)).found := by
  unfold Progress.after
  rw [run_expectColon]
  exact List.prefix_append _ _

theorem Says.found_after {r : Reader (List Stmt)} {y : Yield} (h : Says r y) :
    p.found <+: (p.after r).found := by
  unfold Progress.after
  rw [(h p).2]
  exact List.prefix_append _ _

theorem found_after_branchHead (seenElse : Bool) (l : Line) :
    p.found <+: (p.after (branchHead seenElse l)).found := by
  unfold branchHead
  cases seenElse with
  | false => exact found_after_expectColon p l _
  | true =>
      have hsaid := found_after_expectColon
        { p with found := p.found ++ [⟨l.number, .afterElse
          (branchWord ((branchCondition? (headOf l)).getD none))⟩] } l
        (.branch (branchWord ((branchCondition? (headOf l)).getD none)))
      exact (List.prefix_append _ _).trans hsaid

end

/-- What was complained about when a stage was called is still there at the
stages that it calls. -/
theorem Comes.found (h : Comes s s') :
    s.progress.found <+: s'.progress.found := by
  have hbody : ∀ (q : Progress) (block : List Item),
      q.found <+: (q.after (readItems block)).found :=
    fun q block => (says_readItems block).found_after q
  cases h
  case first => exact List.prefix_rfl
  case others => exact (says_readItem _).found_after _
  case label => exact found_after_expectColon _ _ _
  case menu => exact found_after_expectColon _ _ _
  case body => exact found_after_expectColon _ _ _
  case branches => exact (found_after_expectColon _ _ _).trans (hbody _ _)
  case branchBody => exact found_after_branchHead _ _ _
  case branchOthers => exact (found_after_branchHead _ _ _).trans (hbody _ _)
  case aside => exact List.prefix_rfl
  case wordAside => exact List.prefix_rfl
  case choiceBody => exact found_after_expectColon _ _ _
  case choiceOthers => exact (found_after_expectColon _ _ _).trans (hbody _ _)

-- ============================================================ all steps

/-- A stage at which the reading of some lines is as it should be. The four
fields are what later proofs use of the way that led there. -/
structure Sound (ls : List Line) (odd : List Diagnostic) (s : Stage) : Prop where
  /-- What is to be read and what is behind it are the last of the lines. -/
  placed : s.task.lines ++ s.behind <:+ ls
  /-- What is to be read stands in front of what is behind it. -/
  stands : s.task.Stands s.behind
  /-- What is to be read is at one depth. -/
  level : ∃ n, s.task.At n
  /-- The complaints about the indentation are still there. -/
  kept : odd <+: s.progress.found

theorem Sound.step {ls : List Line} {odd : List Diagnostic}
    (hs : Sound ls odd s) (h : Comes s s') : Sound ls odd s' :=
  ⟨h.suffix.trans hs.placed, h.stands hs.stands, h.level hs.level,
    hs.kept.trans h.found⟩

variable (tabSize : Int) (numbering : Numbering) (source : String)

theorem sound_firstStage :
    Sound (Source.scan tabSize source).1 (Source.scan tabSize source).2
      (firstStage tabSize numbering source) := by
  constructor
  case placed =>
    show linesOfAll (itemsOf _) ++ [] <:+ _
    rw [List.append_nil, itemsOf, linesOfAll_ofLines]
    exact List.dropWhile_suffix _
  case stands =>
    exact standAll_ofLines _ _ _ [] fun _ _ _ hr => by cases hr
  case level =>
    exact ⟨0, allAt_margin _ _ (Source.climbs_scan tabSize source)⟩
  case kept =>
    exact (says_strayBlock _).found_after (start tabSize numbering source)

/-- At every stage that the reading of a source comes to, it is as it should
be. -/
theorem sound_of_reaches {s : Stage}
    (h : Reaches tabSize numbering source s) :
    Sound (Source.scan tabSize source).1 (Source.scan tabSize source).2 s := by
  induction h with
  | refl => exact sound_firstStage tabSize numbering source
  | tail _ hstep ih => exact ih.step hstep

end NovelScript.Reading
