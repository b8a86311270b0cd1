/-
What an item gives, apart from the reading that finds it out. The reader threads
a numbering and a list of complaints through every item; what it builds depends
on neither. This file states the reading once more without them: `itemYield`
gives the statements of an item without identities and the complaints that the
item itself gives rise to.

# Labels

A statement carries a tag, with its identity and its line. Most of what is shown
about readings is up to some change of these, and `Stmt.relabel` is the one
function for all of them: dropping identities (`Stmt.anonymousAll`), dropping
all labels (`Stmt.unlabelAll`), moving lines. Changes in a row are one change
(`Stmt.relabel_relabel`), which is what makes the special cases agree.

# The bridge

`Says r y` says of a reader that from any progress it gives the statements of
the yield, up to identities, and adds the complaints of the yield to those it
began with. The bridge is `says_readItem` and its three companions, one for each
function of the recursion. All theorems about a whole reading cross it once, at
`says_readLines`, and speak of yields from then on.

# Menus

A menu that falls back to raw text is the one place where complaints are
withdrawn. The reader goes back to the progress it had; the yield simply never
had them. So the companion for menus says two things: what is added if the menu
is read to its end, and that nothing of it is left if it is not.
-/
import NovelScript.Reading

namespace NovelScript

-- ========================================================== relabelling

mutual

/-- A statement with its tags and the lines of its parts changed. Choices and
branches have no tag, only a line. -/
def Stmt.relabel (f : Tag → Tag) (g : Option Nat → Option Nat) : Stmt → Stmt
  | .simple tag s => .simple (f tag) s
  | .label tag name parameters body =>
    .label (f tag) name parameters (Stmt.relabelAll f g body)
  | .menu tag head choices =>
    .menu (f tag) head (Choice.relabelAll f g choices)
  | .conditional tag branches =>
    .conditional (f tag) (Branch.relabelAll f g branches)

/-- Statements with their tags and lines changed. -/
def Stmt.relabelAll (f : Tag → Tag) (g : Option Nat → Option Nat) :
    List Stmt → List Stmt
  | [] => []
  | s :: more => Stmt.relabel f g s :: Stmt.relabelAll f g more

/-- Choices with their tags and lines changed. -/
def Choice.relabelAll (f : Tag → Tag) (g : Option Nat → Option Nat) :
    List Choice → List Choice
  | [] => []
  | .mk text condition line body :: more =>
    .mk text condition (g line) (Stmt.relabelAll f g body)
      :: Choice.relabelAll f g more

/-- Branches with their tags and lines changed. -/
def Branch.relabelAll (f : Tag → Tag) (g : Option Nat → Option Nat) :
    List Branch → List Branch
  | [] => []
  | .mk condition line body :: more =>
    .mk condition (g line) (Stmt.relabelAll f g body)
      :: Branch.relabelAll f g more

end

/-- A tag without its identity. -/
def Tag.anonymous (t : Tag) : Tag := { t with id := "" }

/-- Statements without their identities. Two readings of one source agree in
this, whatever the numbering is. -/
def Stmt.anonymousAll (ss : List Stmt) : List Stmt :=
  Stmt.relabelAll Tag.anonymous id ss

/-- Choices without the identities in them. -/
def Choice.anonymousAll (cs : List Choice) : List Choice :=
  Choice.relabelAll Tag.anonymous id cs

/-- Branches without the identities in them. -/
def Branch.anonymousAll (bs : List Branch) : List Branch :=
  Branch.relabelAll Tag.anonymous id bs

/-- Statements without tags and lines. This is what is left of them when they
were moved to another place. -/
def Stmt.unlabelAll (ss : List Stmt) : List Stmt :=
  Stmt.relabelAll (fun _ => ⟨"", none⟩) (fun _ => none) ss

/-- Choices without the tags and lines in them. -/
def Choice.unlabelAll (cs : List Choice) : List Choice :=
  Choice.relabelAll (fun _ => ⟨"", none⟩) (fun _ => none) cs

/-- Branches without the tags and lines in them. -/
def Branch.unlabelAll (bs : List Branch) : List Branch :=
  Branch.relabelAll (fun _ => ⟨"", none⟩) (fun _ => none) bs

section

variable (f : Tag → Tag) (g : Option Nat → Option Nat)

theorem Stmt.relabelAll_append (as bs : List Stmt) :
    Stmt.relabelAll f g (as ++ bs)
      = Stmt.relabelAll f g as ++ Stmt.relabelAll f g bs := by
  induction as with
  | nil => rfl
  | cons a as ih =>
      rw [List.cons_append, Stmt.relabelAll, ih, Stmt.relabelAll,
        List.cons_append]

theorem Choice.relabelAll_append (as bs : List Choice) :
    Choice.relabelAll f g (as ++ bs)
      = Choice.relabelAll f g as ++ Choice.relabelAll f g bs := by
  induction as with
  | nil => rfl
  | cons a as ih =>
      cases a with
      | mk text condition line body =>
          rw [List.cons_append, Choice.relabelAll, ih,
            Choice.relabelAll, List.cons_append]

mutual

/-- Of two changes of labels in a row both take effect. -/
theorem Stmt.relabel_relabel (f' : Tag → Tag)
    (g' : Option Nat → Option Nat) : ∀ s,
    Stmt.relabel f' g' (Stmt.relabel f g s)
      = Stmt.relabel (f' ∘ f) (g' ∘ g) s
  | .simple tag s => rfl
  | .label tag name parameters body => by
      simp only [Stmt.relabel, Stmt.relabelAll_relabelAll f' g' body]
      rfl
  | .menu tag head choices => by
      simp only [Stmt.relabel, Choice.relabelAll_relabelAll f' g' choices]
      rfl
  | .conditional tag branches => by
      simp only [Stmt.relabel, Branch.relabelAll_relabelAll f' g' branches]
      rfl

theorem Stmt.relabelAll_relabelAll (f' : Tag → Tag)
    (g' : Option Nat → Option Nat) : ∀ ss,
    Stmt.relabelAll f' g' (Stmt.relabelAll f g ss)
      = Stmt.relabelAll (f' ∘ f) (g' ∘ g) ss
  | [] => rfl
  | s :: more => by
      simp only [Stmt.relabelAll, Stmt.relabel_relabel f' g' s,
        Stmt.relabelAll_relabelAll f' g' more]

theorem Choice.relabelAll_relabelAll (f' : Tag → Tag)
    (g' : Option Nat → Option Nat) : ∀ cs,
    Choice.relabelAll f' g' (Choice.relabelAll f g cs)
      = Choice.relabelAll (f' ∘ f) (g' ∘ g) cs
  | [] => rfl
  | .mk text condition line body :: more => by
      simp only [Choice.relabelAll, Stmt.relabelAll_relabelAll f' g' body,
        Choice.relabelAll_relabelAll f' g' more, Function.comp_apply]

theorem Branch.relabelAll_relabelAll (f' : Tag → Tag)
    (g' : Option Nat → Option Nat) : ∀ bs,
    Branch.relabelAll f' g' (Branch.relabelAll f g bs)
      = Branch.relabelAll (f' ∘ f) (g' ∘ g) bs
  | [] => rfl
  | .mk condition line body :: more => by
      simp only [Branch.relabelAll, Stmt.relabelAll_relabelAll f' g' body,
        Branch.relabelAll_relabelAll f' g' more, Function.comp_apply]

end

/-- New labels leave the content of raw text alone. -/
theorem Stmt.rawContent?_relabel (s : Stmt) :
    (Stmt.relabel f g s).rawContent? = s.rawContent? := by
  cases s with
  | simple tag s => rw [Stmt.relabel]; cases s <;> rfl
  | label tag name parameters body => rw [Stmt.relabel]; rfl
  | menu tag head choices => rw [Stmt.relabel]; rfl
  | conditional tag branches => rw [Stmt.relabel]; rfl

end

namespace Reading

open Grammar

-- ============================================================ outcomes

/-- What lines give: statements without identities, and complaints. -/
structure Yield where
  /-- The statements. -/
  stmts : List Stmt := []
  /-- The complaints, in the order in which they arise. -/
  found : List Diagnostic := []

/-- Two yields in a row. -/
def Yield.append (a b : Yield) : Yield :=
  ⟨a.stmts ++ b.stmts, a.found ++ b.found⟩

/-- The complaint about a header without a colon. -/
def colonFound (l : Line) (header : Header) : List Diagnostic :=
  if hasColon l then [] else [⟨l.number, .colon header⟩]

/-- A simple statement of a line, without identity. -/
def bareSimple (l : Line) (s : Simple) : Stmt :=
  .simple ⟨"", some l.number⟩ s

/-- Lines as one raw statement, without identity. -/
def bareRaw (first : Line) (ls : List Line) : Stmt :=
  bareSimple first (.raw (Line.relativeText ls))

theorem relativeText_single (l : Line) : Line.relativeText [l] = l.content := by
  simp [Line.relativeText, Text.least, Text.joinLines]

/-- What a block that no header asked for gives. -/
def strayYield : List Line → Yield
  | [] => {}
  | l :: ls => ⟨[bareRaw l (l :: ls)], [⟨l.number, .indentation⟩]⟩

/-- What a line that is kept as raw text gives, with its block. -/
def rawYield (l : Line) (block : List Line) : Yield :=
  if hasColon l && !block.isEmpty then ⟨[bareRaw l (l :: block)], []⟩
  else ⟨bareSimple l (.raw l.content) :: (strayYield block).stmts,
    (strayYield block).found⟩

/-- What a line that has to be a simple statement gives. -/
def simpleYield (l : Line) (block : List Line) : Yield :=
  match lineKind l.content.toList with
  | .simple s =>
    ⟨bareSimple l s :: (strayYield block).stmts, (strayYield block).found⟩
  | .raw => rawYield l block
  | .openLiteral =>
    ⟨(rawYield l block).stmts,
      ⟨l.number, .openLiteral⟩ :: (rawYield l block).found⟩

/-- The code below a header; a header without lines has none. -/
def codeText (block : List Line) : String :=
  if block.isEmpty then "" else Line.relativeText block

/-- What a code block gives. -/
def codeYield (l : Line) (block : List Line) : Yield :=
  match codeHeader? (headOf l) with
  | some flags =>
    if hasColon l then
      ⟨[bareSimple l (codeBlock flags (codeText block))], []⟩
    else rawYield l block
  | none => rawYield l block

mutual

/-- What an item gives: its statements, without identities, and the complaints
that it gives rise to, in the order in which the reader makes them. -/
def itemYield : Item → Yield
  | .plain l block =>
    match firstWord? l.content.toList with
    | some "label" =>
      match label? (headOf l) with
      | none => rawYield l (Item.linesOfAll block)
      | some (name, parameters) =>
        let inner := itemsYield block
        ⟨[.label ⟨"", some l.number⟩ name parameters
          (bodyOf block inner.stmts)],
          colonFound l (.label name) ++ inner.found⟩
    | some "menu" =>
      match menu? (headOf l) with
      | none => rawYield l (Item.linesOfAll block)
      | some (name, screen) =>
        match menuYield {} block with
        | (.ok parts, found) =>
          ⟨[.menu ⟨"", some l.number⟩ (menuHead parts name screen)
            parts.choices], colonFound l .menu ++ found⟩
        | (.error bad, _) =>
          ⟨[bareRaw l (l :: Item.linesOfAll block)],
            colonFound l .menu ++ [⟨bad.number, .menuLine bad.content⟩]⟩
    | some "elif" =>
      ⟨(rawYield l (Item.linesOfAll block)).stmts,
        ⟨l.number, .strayBranch "elif"⟩
          :: (rawYield l (Item.linesOfAll block)).found⟩
    | some "else" =>
      ⟨(rawYield l (Item.linesOfAll block)).stmts,
        ⟨l.number, .strayBranch "else"⟩
          :: (rawYield l (Item.linesOfAll block)).found⟩
    | some "python" => codeYield l (Item.linesOfAll block)
    | some "init" => codeYield l (Item.linesOfAll block)
    | _ => simpleYield l (Item.linesOfAll block)
  | .chain l block branches =>
    let inner := itemsYield block
    let more := branchesYield false branches
    ⟨[.conditional ⟨"", some l.number⟩
      (.mk (ifCondition? (headOf l)) (some l.number)
        (bodyOf block inner.stmts) :: more.1)],
      colonFound l .ifs ++ inner.found ++ more.2⟩

/-- What several items give. -/
def itemsYield : List Item → Yield
  | [] => {}
  | i :: more => (itemYield i).append (itemsYield more)

/-- What the further branches of a conditional give. -/
def branchesYield (seenElse : Bool) :
    List (Line × List Item) → List Branch × List Diagnostic
  | [] => ([], [])
  | (l, block) :: more =>
    let condition := (branchCondition? (headOf l)).getD none
    let inner := itemsYield block
    let rest := branchesYield (seenElse || condition.isNone) more
    (.mk condition (some l.number) (bodyOf block inner.stmts) :: rest.1,
      (if seenElse then
        [⟨l.number, .afterElse (branchWord condition)⟩] else [])
        ++ colonFound l (.branch (branchWord condition))
        ++ inner.found ++ rest.2)

/-- What the lines of a menu give: its parts, or the first line that does
not belong there. -/
def menuYield (m : MenuParts) :
    List Item → Except Line MenuParts × List Diagnostic
  | [] => (.ok m, [])
  | .plain l block :: more =>
    match menuLine m l (!block.isEmpty) with
    | .parts m' => menuYield m' more
    | .choice text condition =>
      let inner := itemsYield block
      let rest := menuYield { m with choices := m.choices ++
        [.mk (String.ofList text) condition (some l.number)
          (bodyOf block inner.stmts)] } more
      (rest.1, colonFound l .choice ++ inner.found ++ rest.2)
    | .refused => (.error l, [])
  | .chain l block branches :: more =>
    match menuLine m l (!block.isEmpty), branches with
    | .parts m', [] => menuYield m' more
    | .parts _, (bad, _) :: _ => (.error bad, [])
    | _, _ => (.error l, [])

end

/-- What all lines give. -/
def linesYield (ls : List Line) : Yield :=
  (strayYield (ls.takeWhile (0 < ·.depth))).append
    (itemsYield (Item.ofLines opensConditional continuesConditional
      (ls.dropWhile (0 < ·.depth))))

-- ========================================================== the bridge

/-- A reader gives what a yield says, wherever the reading stands: its
statements up to identities, and its complaints behind those that were there. -/
def Says (r : Reader (List Stmt)) (y : Yield) : Prop :=
  ∀ p, Stmt.anonymousAll (r.run p).1 = y.stmts
    ∧ (r.run p).2.found = p.found ++ y.found

theorem run_bind {α β : Type} (r : Reader α) (k : α → Reader β)
    (p : Progress) : (r >>= k).run p = (k (r.run p).1).run (r.run p).2 :=
  rfl

theorem run_pure {α : Type} (a : α) (p : Progress) :
    (pure a : Reader α).run p = (a, p) :=
  rfl

/-- Reading one simple statement. -/
theorem run_simple (l : Line) (s : Simple) (p : Progress) :
    (simple l s).run p
      = (.simple ⟨p.numbering.next.1, some l.number⟩ s,
          { p with numbering := p.numbering.next.2 }) :=
  rfl

theorem run_complain (l : Line) (c : Cause) (p : Progress) :
    (complain l c).run p = ((), { p with found := p.found ++ [⟨l.number, c⟩] }) :=
  rfl

theorem run_fresh (p : Progress) :
    fresh.run p = (p.numbering.next.1, { p with numbering := p.numbering.next.2 }) :=
  rfl

theorem run_expectColon (l : Line) (h : Header) (p : Progress) :
    (expectColon l h).run p
      = ((), { p with found := p.found ++ colonFound l h }) := by
  unfold expectColon colonFound
  split
  · rw [List.append_nil]
    rfl
  · rfl

/-- Complaining before a reading puts the complaint in front. -/
theorem Says.complain {r : Reader (List Stmt)} {y : Yield}
    (h : Says r y) (l : Line) (c : Cause) :
    Says (do Reading.complain l c; r) ⟨y.stmts, ⟨l.number, c⟩ :: y.found⟩ := by
  intro p
  rw [run_bind, run_complain]
  obtain ⟨hs, hf⟩ := h { p with found := p.found ++ [⟨l.number, c⟩] }
  refine ⟨hs, ?_⟩
  rw [hf, List.append_assoc, List.singleton_append]

theorem says_rawLines (l : Line) (ls : List Line) :
    Says (do pure [← rawLines l ls]) ⟨[bareRaw l ls], []⟩ := by
  intro p
  exact ⟨rfl, (List.append_nil _).symm⟩

theorem says_strayBlock (ls : List Line) :
    Says (strayBlock ls) (strayYield ls) := by
  cases ls with
  | nil => exact fun p => ⟨rfl, (List.append_nil _).symm⟩
  | cons l ls => exact (says_rawLines l (l :: ls)).complain l .indentation

/-- A simple statement in front of a block that it does not own. -/
theorem says_simple_stray (l : Line) (s : Simple) (block : List Line) :
    Says (do
        let st ← simple l s
        pure (st :: (← strayBlock block)))
      ⟨bareSimple l s :: (strayYield block).stmts,
        (strayYield block).found⟩ := by
  intro p
  rw [run_bind, run_simple, run_bind, run_pure]
  obtain ⟨hs, hf⟩ := says_strayBlock block
    { p with numbering := p.numbering.next.2 }
  refine ⟨?_, hf⟩
  rw [Stmt.anonymousAll, Stmt.relabelAll, ← Stmt.anonymousAll, hs]
  rfl

theorem says_rawItem (l : Line) (block : List Line) :
    Says (rawItem l block) (rawYield l block) := by
  unfold rawItem rawYield
  split
  · exact says_rawLines l (l :: block)
  · exact says_simple_stray l _ block

theorem says_simpleItem (l : Line) (block : List Line) :
    Says (simpleItem l block) (simpleYield l block) := by
  unfold simpleItem simpleYield
  cases lineKind l.content.toList with
  | simple s => exact says_simple_stray l s block
  | raw => exact says_rawItem l block
  | openLiteral => exact (says_rawItem l block).complain l .openLiteral

theorem says_readCode (l : Line) (block : List Line) :
    Says (readCode l block) (codeYield l block) := by
  unfold readCode codeYield
  cases codeHeader? (headOf l) with
  | none => exact says_rawItem l block
  | some flags =>
      cases hasColon l with
      | false => exact says_rawItem l block
      | true => exact fun p => ⟨rfl, (List.append_nil _).symm⟩

/-- A body with new labels is that of the statements with them. -/
theorem relabelAll_bodyOf (f : Tag → Tag) (g : Option Nat → Option Nat)
    (block : List Item) (body : List Stmt) :
    Stmt.relabelAll f g (bodyOf block body)
      = bodyOf block (Stmt.relabelAll f g body) := by
  unfold bodyOf
  split
  · next l st =>
    simp only [Stmt.relabelAll, Stmt.rawContent?_relabel]
    cases st.rawContent? with
    | none => rfl
    | some content =>
        simp only
        split
        · rfl
        · rfl
  · next hne =>
    split
    · next l st heq =>
      exfalso
      cases body with
      | nil => simp [Stmt.relabelAll] at heq
      | cons b more =>
          cases more with
          | nil => exact hne l b rfl rfl
          | cons c more => simp [Stmt.relabelAll] at heq
    · rfl

theorem anonymousAll_bodyOf (block : List Item) (body : List Stmt) :
    Stmt.anonymousAll (bodyOf block body)
      = bodyOf block (Stmt.anonymousAll body) :=
  relabelAll_bodyOf Tag.anonymous id block body

/-- Readings of branches and of menus, compared with their outcomes. -/
def SaysBranches (r : Reader (List Branch))
    (y : List Branch × List Diagnostic) : Prop :=
  ∀ p, Branch.anonymousAll (r.run p).1 = y.1
    ∧ (r.run p).2.found = p.found ++ y.2

/-- The parts of a menu with other labels on its choices. -/
def MenuParts.relabel (f : Tag → Tag) (g : Option Nat → Option Nat)
    (m : MenuParts) : MenuParts :=
  { m with choices := Choice.relabelAll f g m.choices }

/-- The parts of a menu without identities. -/
def MenuParts.anonymous (m : MenuParts) : MenuParts :=
  m.relabel Tag.anonymous id

/-- The parts of a menu with one more choice. -/
def MenuParts.withChoice (m : MenuParts) (c : Choice) : MenuParts :=
  { m with choices := m.choices ++ [c] }

theorem relabel_withChoice (f : Tag → Tag) (g : Option Nat → Option Nat)
    (m : MenuParts) (text : String) (condition : Option String)
    (line : Option Nat) (body : List Stmt) :
    (m.withChoice (.mk text condition line body)).relabel f g
      = (m.relabel f g).withChoice
          (.mk text condition (g line) (Stmt.relabelAll f g body)) := by
  unfold MenuParts.withChoice MenuParts.relabel
  rw [Choice.relabelAll_append]
  rfl

/-- A reading of a menu gives what an outcome says. -/
def SaysMenu (r : Reader (Except Line MenuParts))
    (y : Except Line MenuParts × List Diagnostic) : Prop :=
  ∀ p, (r.run p).1.map MenuParts.anonymous = y.1
    ∧ (r.run p).2.found = p.found ++ y.2

/-- What a line adds to a menu does not depend on labels. -/
theorem menuLine_relabel (f : Tag → Tag) (g : Option Nat → Option Nat)
    (m : MenuParts) (l : Line) (hasBlock : Bool) :
    menuLine (m.relabel f g) l hasBlock
      = match menuLine m l hasBlock with
        | .parts m' => .parts (m'.relabel f g)
        | .choice text condition => .choice text condition
        | .refused => .refused := by
  -- A menu line asks of the parts only whether there are any, never what they
  -- are called.
  have hask : (m.relabel f g).canAsk = m.canAsk := by
    unfold MenuParts.canAsk MenuParts.relabel
    cases m.choices with
    | nil => rfl
    | cons c cs => cases c; rfl
  unfold menuLine
  rw [hask]
  cases choice? (headOf l) with
  | some found =>
      obtain ⟨text, condition⟩ := found
      simp only
      split <;> rfl
  | none =>
      simp only
      split
      · rfl
      · unfold bareMenuLine
        rw [hask]
        split
        · rfl
        · cases menuSet? (headOf l) with
          | some var =>
              show (if m.setVar.isNone = true then _ else _) = _
              simp only
              split <;> rfl
          | none =>
              cases menuPrompt? (headOf l) with
              | none => rfl
              | some asked =>
                  simp only
                  split <;> rfl

theorem says_label {l : Line} {block : List Item} (name : String)
    (parameters : Option (List String))
    (hbody : Says (readItems block) (itemsYield block)) :
    Says (do
        expectColon l (.label name)
        let body ← readItems block
        pure [.label ⟨← fresh, some l.number⟩ name parameters
          (bodyOf block body)])
      ⟨[.label ⟨"", some l.number⟩ name parameters
          (bodyOf block (itemsYield block).stmts)],
        colonFound l (.label name) ++ (itemsYield block).found⟩ := by
  intro p
  simp only [run_bind, run_expectColon, run_fresh, run_pure]
  obtain ⟨hs, hf⟩ := hbody
    { p with found := p.found ++ colonFound l (.label name) }
  refine ⟨?_, ?_⟩
  · simp only [Stmt.anonymousAll, Stmt.relabelAll, Stmt.relabel]
    rw [← Stmt.anonymousAll, anonymousAll_bodyOf, hs]
    rfl
  · simp only [hf, List.append_assoc]

/-- The statement of a menu, or the raw text it falls back to. -/
def menuResult (l : Line) (block : List Item) (name screen : Option String) :
    Except Line MenuParts × List Diagnostic → Yield
  | (.ok parts, found) =>
    ⟨[.menu ⟨"", some l.number⟩ (menuHead parts name screen)
      parts.choices], colonFound l .menu ++ found⟩
  | (.error bad, _) =>
    ⟨[bareRaw l (l :: Item.linesOfAll block)],
      colonFound l .menu ++ [⟨bad.number, .menuLine bad.content⟩]⟩

/-- What follows the reading of a menu's lines. -/
def closeMenu (l : Line) (block : List Item) (name screen : Option String)
    (before : Progress) : Except Line MenuParts → Reader (List Stmt)
  | .ok parts => do
    pure [.menu ⟨← fresh, some l.number⟩ (menuHead parts name screen)
      parts.choices]
  | .error bad => do
    modify fun p => { p with found := before.found }
    complain bad (.menuLine bad.content)
    pure [← rawLines l (l :: Item.linesOfAll block)]

/-- Once a menu's lines are read, the menu or the raw text remains; with
the latter the complaints go back to those before. -/
theorem run_closeMenu {l : Line} {block : List Item}
    (name screen : Option String) (p before after : Progress)
    (hbefore : before.found = p.found ++ colonFound l .menu)
    {r : Except Line MenuParts} {y : Except Line MenuParts × List Diagnostic}
    (hr : r.map MenuParts.anonymous = y.1)
    (hf : after.found = before.found ++ y.2) :
    Stmt.anonymousAll ((closeMenu l block name screen before r).run after).1
        = (menuResult l block name screen y).stmts
      ∧ ((closeMenu l block name screen before r).run after).2.found
        = p.found ++ (menuResult l block name screen y).found := by
  obtain ⟨_, found⟩ := y
  obtain rfl := hr
  cases r with
  | ok parts =>
      refine ⟨rfl, hf.trans ?_⟩
      rw [hbefore, List.append_assoc]
      rfl
  | error bad =>
      refine ⟨rfl, ?_⟩
      show before.found ++ [_] = _
      rw [hbefore, List.append_assoc]
      rfl

theorem says_menu {l : Line} {block : List Item}
    (name screen : Option String)
    (hmenu : SaysMenu (readMenu {} block) (menuYield {} block)) :
    Says (do
        expectColon l .menu
        let before ← get
        closeMenu l block name screen before (← readMenu {} block))
      (menuResult l block name screen (menuYield {} block)) := by
  intro p
  rw [run_bind, run_expectColon]
  obtain ⟨hs, hf⟩ := hmenu { p with found := p.found ++ colonFound l .menu }
  exact run_closeMenu name screen p _ _ rfl hs hf

/-- Complaining before a branch puts the complaint in front. -/
theorem SaysBranches.complain {r : Reader (List Branch)}
    {y : List Branch × List Diagnostic} (h : SaysBranches r y)
    (l : Line) (c : Cause) :
    SaysBranches (do Reading.complain l c; r)
      (y.1, ⟨l.number, c⟩ :: y.2) := by
  intro p
  rw [run_bind, run_complain]
  obtain ⟨hs, hf⟩ := h { p with found := p.found ++ [⟨l.number, c⟩] }
  refine ⟨hs, ?_⟩
  rw [hf, List.append_assoc, List.singleton_append]

theorem says_branch {l : Line} {block : List Item}
    {readMore : Reader (List Branch)}
    {more : List Branch × List Diagnostic} (condition : Option String)
    (hbody : Says (readItems block) (itemsYield block))
    (hmore : SaysBranches readMore more) :
    SaysBranches (do
        expectColon l (.branch (branchWord condition))
        let body ← readItems block
        let rest ← readMore
        pure (.mk condition (some l.number) (bodyOf block body) :: rest))
      (.mk condition (some l.number)
          (bodyOf block (itemsYield block).stmts) :: more.1,
        colonFound l (.branch (branchWord condition))
          ++ (itemsYield block).found ++ more.2) := by
  intro p
  simp only [run_bind, run_expectColon, run_pure]
  obtain ⟨hs, hf⟩ := hbody
    { p with found :=
        p.found ++ colonFound l (.branch (branchWord condition)) }
  obtain ⟨hs', hf'⟩ := hmore ((readItems block).run
    { p with found :=
        p.found ++ colonFound l (.branch (branchWord condition)) }).2
  refine ⟨?_, ?_⟩
  · simp only [Branch.anonymousAll, Branch.relabelAll]
    rw [← Stmt.anonymousAll, ← Branch.anonymousAll, anonymousAll_bodyOf,
      hs, hs']
    rfl
  · rw [hf', hf]
    simp only [List.append_assoc]

-- ================================================================ words

/-- The words whose lines are read by rules of their own. -/
def ruledWords : List String :=
  ["label", "menu", "elif", "else", "python", "init"]

theorem word_cases (w : Option String) :
    w = some "label" ∨ w = some "menu" ∨ w = some "elif" ∨ w = some "else"
      ∨ w = some "python" ∨ w = some "init"
      ∨ ∀ r ∈ ruledWords, w ≠ some r := by
  by_cases h : ∃ r ∈ ruledWords, w = some r
  · obtain ⟨r, hr, rfl⟩ := h
    simp only [ruledWords, List.mem_cons, List.not_mem_nil, or_false] at hr
    rcases hr with rfl | rfl | rfl | rfl | rfl | rfl <;> simp
  · exact .inr <| .inr <| .inr <| .inr <| .inr <| .inr
      fun r hr hw => h ⟨r, hr, hw⟩

/-- A line that no rule of its own reads is read as a simple statement. -/
theorem readItem_unruled {l : Line} {block : List Item}
    (h : ∀ r ∈ ruledWords, firstWord? l.content.toList ≠ some r) :
    readItem (.plain l block) = simpleItem l (Item.linesOfAll block) := by
  unfold readItem
  split
  case h_7 => rfl
  all_goals exact absurd ‹_› (h _ (by decide))

theorem itemYield_unruled {l : Line} {block : List Item}
    (h : ∀ r ∈ ruledWords, firstWord? l.content.toList ≠ some r) :
    itemYield (.plain l block) = simpleYield l (Item.linesOfAll block) := by
  unfold itemYield
  split
  case h_7 => rfl
  all_goals exact absurd ‹_› (h _ (by decide))

mutual

/-- Reading an item gives what the item's yield says. The cases are those of the
first word of its line, as in the reader. -/
theorem says_readItem : ∀ i, Says (readItem i) (itemYield i)
  | .plain l block => by
      have hbody := says_readItems block
      have hmenu := says_readMenu {} block
      rcases word_cases (firstWord? l.content.toList) with
        hw | hw | hw | hw | hw | hw | hw
      · -- a label
        simp only [readItem, itemYield, hw]
        cases label? (headOf l) with
        | none => exact says_rawItem l _
        | some head => exact says_label head.1 head.2 hbody
      · -- a menu
        simp only [readItem, itemYield, hw]
        cases menu? (headOf l) with
        | none => exact says_rawItem l _
        | some head => exact says_menu head.1 head.2 hmenu
      · -- `elif` that no conditional has
        simp only [readItem, itemYield, hw]
        exact (says_rawItem l _).complain l _
      · -- `else` that no conditional has
        simp only [readItem, itemYield, hw]
        exact (says_rawItem l _).complain l _
      · -- code behind `python`
        simp only [readItem, itemYield, hw]
        exact says_readCode l _
      · -- code behind `init`
        simp only [readItem, itemYield, hw]
        exact says_readCode l _
      · -- any other line
        rw [readItem_unruled hw, itemYield_unruled hw]
        exact says_simpleItem l _
  | .chain l block branches => by
      have hbody := says_readItems block
      have hmore := says_readBranches false branches
      unfold readItem itemYield
      intro p
      simp only [run_bind, run_expectColon, run_fresh, run_pure]
      -- The body is read at the state that the complaint about the colon
      -- leaves, and the branches at the one that the body leaves.
      obtain ⟨hs, hf⟩ := hbody
        { p with found := p.found ++ colonFound l .ifs }
      obtain ⟨hs', hf'⟩ := hmore ((readItems block).run
        { p with found := p.found ++ colonFound l .ifs }).2
      refine ⟨?_, ?_⟩
      · simp only [Stmt.anonymousAll, Stmt.relabelAll, Stmt.relabel,
          Branch.relabelAll]
        rw [← Stmt.anonymousAll, ← Branch.anonymousAll,
          anonymousAll_bodyOf, hs, hs']
        rfl
      · rw [hf', hf]
        simp only [List.append_assoc]

/-- Reading several items gives what their yields say. -/
theorem says_readItems : ∀ is, Says (readItems is) (itemsYield is)
  | [] => fun p => ⟨rfl, (List.append_nil _).symm⟩
  | i :: more => by
      have hfirst := says_readItem i
      have hrest := says_readItems more
      unfold readItems itemsYield
      intro p
      simp only [run_bind, run_pure]
      obtain ⟨hs, hf⟩ := hfirst p
      obtain ⟨hs', hf'⟩ := hrest ((readItem i).run p).2
      refine ⟨?_, ?_⟩
      · rw [Stmt.anonymousAll, Stmt.relabelAll_append]
        rw [← Stmt.anonymousAll, ← Stmt.anonymousAll, hs, hs']
        rfl
      · rw [hf', hf, List.append_assoc]
        rfl

theorem says_readBranches : ∀ seenElse bs,
    SaysBranches (readBranches seenElse bs) (branchesYield seenElse bs)
  | _, [] => fun p => ⟨rfl, (List.append_nil _).symm⟩
  | seenElse, (l, block) :: more => by
      have hbody := says_readItems block
      have hrest := says_readBranches (seenElse
        || ((branchCondition? (headOf l)).getD none).isNone) more
      unfold readBranches branchesYield
      cases seenElse with
      | false => exact says_branch _ hbody hrest
      | true => exact (says_branch _ hbody hrest).complain l _

theorem says_readMenu : ∀ m is,
    SaysMenu (readMenu m is) (menuYield m.anonymous is)
  | m, [] => fun p => ⟨rfl, (List.append_nil _).symm⟩
  | m, .plain l block :: more => by
      have hbody := says_readItems block
      unfold readMenu menuYield
      rw [MenuParts.anonymous, menuLine_relabel]
      cases hl : menuLine m l (!block.isEmpty) with
      | parts m' => exact says_readMenu m' more
      | refused => exact fun p => ⟨rfl, (List.append_nil _).symm⟩
      | choice text condition =>
          intro p
          simp only [run_bind, run_expectColon]
          obtain ⟨hs, hf⟩ := hbody
            { p with found := p.found ++ colonFound l .choice }
          obtain ⟨hs', hf'⟩ := says_readMenu
            (m.withChoice (.mk (String.ofList text) condition
              (some l.number) (bodyOf block ((readItems block).run
                { p with found := p.found ++ colonFound l .choice }).1)))
            more ((readItems block).run
              { p with found := p.found ++ colonFound l .choice }).2
          -- Taking the names away from a part that was just added is adding it
          -- without names.
          rw [MenuParts.anonymous, relabel_withChoice, ← Stmt.anonymousAll,
            anonymousAll_bodyOf, hs] at hs' hf'
          refine ⟨hs', hf'.trans ?_⟩
          rw [hf]
          simp only [List.append_assoc]
          rfl
  | m, .chain l block branches :: more => by
      unfold readMenu menuYield
      rw [MenuParts.anonymous, menuLine_relabel]
      cases hl : menuLine m l (!block.isEmpty) with
      | parts m' =>
          cases branches with
          | nil => exact says_readMenu m' more
          | cons b bs => exact fun p => ⟨rfl, (List.append_nil _).symm⟩
      | refused => exact fun p => ⟨rfl, (List.append_nil _).symm⟩
      | choice text condition =>
          exact fun p => ⟨rfl, (List.append_nil _).symm⟩

end

-- ============================================================== scripts

/-- Reading lines gives what their yield says. What is shown of whole readings
is shown of yields by this. -/
theorem says_readLines (ls : List Line) : Says (readLines ls) (linesYield ls) := by
  intro p
  unfold readLines linesYield
  simp only [run_bind, run_pure]
  obtain ⟨hs, hf⟩ := says_strayBlock (ls.takeWhile (0 < ·.depth)) p
  obtain ⟨hs', hf'⟩ := says_readItems (Item.ofLines opensConditional
    continuesConditional (ls.dropWhile (0 < ·.depth)))
    ((strayBlock (ls.takeWhile (0 < ·.depth))).run p).2
  refine ⟨?_, ?_⟩
  · rw [Stmt.anonymousAll, Stmt.relabelAll_append, ← Stmt.anonymousAll,
      ← Stmt.anonymousAll, hs, hs']
    rfl
  · rw [hf', hf, List.append_assoc]
    rfl

/-- The statements of a script are those of its lines. -/
theorem anonymousAll_read (tabSize : Int) (numbering : Numbering)
    (source : String) :
    Stmt.anonymousAll (read tabSize numbering source).1
      = (linesYield (Source.scan tabSize source).1).stmts :=
  (says_readLines _ _).1

/-- The complaints about a script are those about its indentation and
those of its lines, in the order of their lines. -/
theorem found_read (tabSize : Int) (numbering : Numbering)
    (source : String) :
    (read tabSize numbering source).2.1
      = ((Source.scan tabSize source).2
          ++ (linesYield (Source.scan tabSize source).1).found).mergeSort
          (fun a b => a.line ≤ b.line) := by
  rw [← (says_readLines (Source.scan tabSize source).1
    { numbering := numbering, found := (Source.scan tabSize source).2 }).2]
  rfl

/-- If there are no complaints about a script then neither about its
indentation nor about its lines. -/
theorem quiet_of_read {tabSize : Int} {numbering : Numbering}
    {source : String} (h : (read tabSize numbering source).2.1 = []) :
    (Source.scan tabSize source).2 = []
      ∧ (linesYield (Source.scan tabSize source).1).found = [] := by
  rw [found_read] at h
  have hperm := List.mergeSort_perm ((Source.scan tabSize source).2
    ++ (linesYield (Source.scan tabSize source).1).found)
    (fun a b => a.line ≤ b.line)
  rw [h] at hperm
  exact List.append_eq_nil_iff.mp hperm.symm.eq_nil

end Reading

end NovelScript
