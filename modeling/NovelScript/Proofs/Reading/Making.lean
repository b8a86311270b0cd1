/-
Reading by making. This file reads a script once more in the way of a tool
that makes every statement by hand: each one, each branch and each choice
goes through `Draft.build`, also those of a menu that is given up later,
and a making that is refused ends the reading with its fault.

# Plans

The tool has a plan for every line and every item (`makeItem` and its
companions), after the rules by which scripts are read, and to read by
making is to follow the plan of a source (`makeScript`). No plan takes an identity
without making something.

# Nothing is refused

`makes_lines` says that no making is ever refused: the reading that can fail
gives what the reading gives that cannot, with the same identities and the same
complaints. One step of it is `makes_of_spoken`, that what one line said can be
made; all else follows the items. For that induction the lines have to be as the
scanner leaves them, and the items as the block form puts them (`Stands`).

A menu is gone through with blanks in place of its choices, because what a line
of a menu is depends on how many choices there were and not on what they are
(`MenuParts.Blank`).
-/
import NovelScript.Proofs.Draft.Making
import NovelScript.Proofs.Reading.Plan
import NovelScript.Proofs.Reading.Tiling

namespace NovelScript.Reading

open Text Grammar Draft Item

/-- A reading that can fail. -/
abbrev Maker := StateT Progress (Except Fault)

-- ============================================================= the plans

/-- Makes something by hand. -/
def made (maker : String) (row : List Draft)
    (named : List (String × Draft)) : Plan Draft :=
  .make maker row named .done

/-- Complains about a line. -/
def told (l : Line) (cause : Cause) : Plan Unit :=
  .tell (· ++ [⟨l.number, cause⟩]) (.done ())

/-- Complains about a header without a colon. -/
def toldColon (l : Line) (header : Header) : Plan Unit :=
  if hasColon l then pure () else told l (.colon header)

/-- What was complained about so far. -/
def toldSoFar : Plan (List Diagnostic) := .look .done

/-- Complains about these things only, and takes back all others. -/
def toldOnly (found : List Diagnostic) : Plan Unit :=
  .tell (fun _ => found) (.done ())

/-- Makes a simple statement of a line. -/
def makeSimple (l : Line) (s : Simple) : Plan Draft :=
  made s.making.maker s.making.row
    (s.making.named ++ [("line", .int l.number)])

/-- Makes one raw statement of lines. -/
def makeRawLines (first : Line) (ls : List Line) : Plan Draft :=
  makeSimple first (.raw (Line.relativeText ls))

/-- Makes a block that no header asked for. -/
def makeStray : List Line → Plan (List Draft)
  | [] => pure []
  | l :: ls => do
    told l .indentation
    pure [← makeRawLines l (l :: ls)]

/-- Makes a line that is kept as raw text, with its block if it has the
form of a header. -/
def makeRawItem (l : Line) (block : List Line) : Plan (List Draft) := do
  if hasColon l && !block.isEmpty then
    pure [← makeRawLines l (l :: block)]
  else
    let s ← makeSimple l (.raw l.content)
    pure (s :: (← makeStray block))

/-- Makes a line that has to be a simple statement. -/
def makeSimpleItem (l : Line) (block : List Line) : Plan (List Draft) :=
  match lineKind l.content.toList with
  | .simple s => do
    let st ← makeSimple l s
    pure (st :: (← makeStray block))
  | .raw => makeRawItem l block
  | .openLiteral => do
    told l .openLiteral
    makeRawItem l block

/-- Makes a code block. -/
def makeCode (l : Line) (block : List Line) : Plan (List Draft) :=
  match codeHeader? (headOf l) with
  | some flags =>
    if hasColon l then do
      pure [← makeSimple l (codeBlock flags (codeText block))]
    else makeRawItem l block
  | none => makeRawItem l block

/-- The content of raw text. -/
def rawText? : Draft → Option String
  | .record (.stmt .raw) fields =>
    match field? "content" fields with
    | some (.text s) => some s
    | _ => none
  | _ => none

/-- A body of one line that only says `pass` is an empty one. -/
def bodyMade (block : List Item) (body : List Draft) : List Draft :=
  match block, body with
  | [.plain _ []], [d] =>
    match rawText? d with
    | some content =>
      if trim content.toList = "pass".toList then [] else body
    | none => body
  | _, _ => body

mutual

/-- Makes the statements of an item, case by case as the item is read. Where the
reader builds a statement, this calls the way of making it. -/
def makeItem : Item → Plan (List Draft)
  | .plain l block =>
    match firstWord? l.content.toList with
    | some "label" =>
      match label? (headOf l) with
      | none => makeRawItem l (linesOfAll block)
      | some (name, parameters) => do
        toldColon l (.label name)
        let body ← makeItems block
        pure [← made "label" [.text name, .list (bodyMade block body)]
          [("parameters", optTexts parameters), ("line", .int l.number)]]
    | some "menu" =>
      match menu? (headOf l) with
      | none => makeRawItem l (linesOfAll block)
      | some (name, screen) => do
        toldColon l .menu
        let before ← toldSoFar
        match ← makeMenu {} [] block with
        | .ok (parts, choices) =>
          pure [← made "menu" [.list choices]
            [("prompt", optText (parts.prompt.map String.ofList)),
              ("prompt_speaker", optText parts.promptSpeaker),
              ("set_var", optText parts.setVar),
              ("screen", optText screen), ("name", optText name),
              ("line", .int l.number)]]
        | .error bad => do
          toldOnly before
          told bad (.menuLine bad.content)
          pure [← makeRawLines l (l :: linesOfAll block)]
    | some "elif" => do
      told l (.strayBranch "elif")
      makeRawItem l (linesOfAll block)
    | some "else" => do
      told l (.strayBranch "else")
      makeRawItem l (linesOfAll block)
    | some "python" => makeCode l (linesOfAll block)
    | some "init" => makeCode l (linesOfAll block)
    | _ => makeSimpleItem l (linesOfAll block)
  | .chain l block branches => do
    toldColon l .ifs
    let body ← makeItems block
    let first ← made "if_branch"
      [optText (ifCondition? (headOf l)), .list (bodyMade block body),
        .int l.number] []
    let more ← makeBranches false branches
    pure [← made "if_" [.list (first :: more)]
      [("line", .int l.number)]]

/-- Makes the statements of several items. -/
def makeItems : List Item → Plan (List Draft)
  | [] => pure []
  | i :: more => do
    let first ← makeItem i
    pure (first ++ (← makeItems more))

/-- Makes the further branches of a conditional. -/
def makeBranches (seenElse : Bool) :
    List (Line × List Item) → Plan (List Draft)
  | [] => pure []
  | (l, block) :: more => do
    let condition := (branchCondition? (headOf l)).getD none
    if seenElse then told l (.afterElse (branchWord condition))
    toldColon l (.branch (branchWord condition))
    let body ← makeItems block
    let branch ← made "if_branch"
      [optText condition, .list (bodyMade block body), .int l.number] []
    let rest ← makeBranches (seenElse || condition.isNone) more
    pure (branch :: rest)

/-- Makes the choices of a menu. The parts hold a blank for each of them,
since how many there are decides what a further line can be. -/
def makeMenu (m : MenuParts) (choices : List Draft) :
    List Item → Plan (Except Line (MenuParts × List Draft))
  | [] => pure (.ok (m, choices))
  | .plain l block :: more =>
    match menuLine m l (!block.isEmpty) with
    | .parts m' => makeMenu m' choices more
    | .choice said condition => do
      toldColon l .choice
      let body ← makeItems block
      let choice ← made "menu_choice"
        [.text (String.ofList said), .list (bodyMade block body),
          optText condition] [("line", .int l.number)]
      makeMenu (m.withChoice (.mk "" none none [])) (choices ++ [choice]) more
    | .refused => pure (.error l)
  | .chain l block branches :: more =>
    match menuLine m l (!block.isEmpty), branches with
    | .parts m', [] => makeMenu m' choices more
    | .parts _, (bad, _) :: _ => pure (.error bad)
    | _, _ => pure (.error l)

end

/-- Makes the statements of all lines. -/
def makeLines (ls : List Line) : Plan (List Draft) := do
  let stray ← makeStray (ls.takeWhile (0 < ·.depth))
  let items := ofLines opensConditional continuesConditional
    (ls.dropWhile (0 < ·.depth))
  pure (stray ++ (← makeItems items))

/-- Makes the script of a source, with the name of its file and the
version of the format. -/
def planScript (tabSize : Int) (file version source : String) :
    Plan Draft := do
  toldOnly (Source.scan tabSize source).2
  let stmts ← makeLines (Source.scan tabSize source).1
  made "script" [.list stmts]
    [("file_path", .text file), ("version", .text version)]

section

variable (now : Timestamp)

/-- Reads a script by making it. -/
def makeScript (tabSize : Int) (file version source : String) :
    Maker Draft :=
  (planScript tabSize file version source).run now

-- ======================================================= nothing fails

/-- A reading that can fail does not, and gives what another gives. -/
def Makes (m : Plan (List Draft)) (r : Reader (List Stmt)) : Prop :=
  ∀ p, m.run now p = .ok (ofStmts (r.run p).1, (r.run p).2)

/-- The same for one thing. -/
def MakesOne {α : Type} (m : Plan Draft) (r : Reader α) (f : α → Draft) :
    Prop :=
  ∀ p, m.run now p = .ok (f (r.run p).1, (r.run p).2)

/-- A step that only changes what was complained about. -/
def Tells (t : Plan Unit) (u : Reader Unit) : Prop :=
  ∀ p, t.run now p = .ok ((), (u.run p).2)

variable {now}

theorem tells_told (l : Line) (cause : Cause) :
    Tells now (told l cause) (complain l cause) := fun _ => rfl

theorem tells_colon (l : Line) (header : Header) :
    Tells now (toldColon l header) (expectColon l header) := by
  intro p
  unfold toldColon expectColon
  split <;> rfl

theorem ofStmts_append (as bs : List Stmt) :
    ofStmts (as ++ bs) = ofStmts as ++ ofStmts bs := by
  induction as with
  | nil => rfl
  | cons a as ih => rw [List.cons_append, ofStmts, ih, ofStmts]; rfl

/-- What is made by hand, when nothing is refused. -/
theorem run_made {maker : String} {row : List Draft}
    {named : List (String × Draft)} {d : Draft} {numbering : Numbering}
    {p : Progress}
    (h : Draft.build now p.numbering maker row named = (.ok d, numbering)) :
    (made maker row named).run now p = .ok (d, { p with numbering }) := by
  rw [made, Plan.run, h]
  rfl

/-- A simple statement that can be made of its line is made. -/
theorem makesOne_simple {l : Line} {s : Simple}
    (h : ∀ n, NovelScript.Makes now n l.number s) :
    MakesOne now (makeSimple l s) (simple l s) ofStmt :=
  fun p => run_made (h p.numbering)

theorem makesOne_rawLines (l : Line) (ls : List Line) :
    MakesOne now (makeRawLines l ls) (rawLines l ls) ofStmt :=
  makesOne_simple fun n => makes_raw now n l.number _

/-- Statements that are made one by one. -/
theorem MakesOne.single {m : Plan Draft} {r : Reader Stmt}
    (h : MakesOne now m r ofStmt) :
    Makes now (do pure [← m]) (do pure [← r]) := by
  intro p
  rw [Plan.run_bind (h p)]
  rfl

theorem MakesOne.cons {m : Plan Draft} {r : Reader Stmt}
    {ms : Plan (List Draft)} {rs : Reader (List Stmt)}
    (h : MakesOne now m r ofStmt) (hs : Makes now ms rs) :
    Makes now (do
        let s ← m
        pure (s :: (← ms)))
      (do
        let s ← r
        pure (s :: (← rs))) := by
  intro p
  rw [Plan.run_bind (h p), Plan.run_bind (hs (r.run p).2)]
  rfl

/-- A step in front that cannot fail. -/
theorem Makes.after {m : Plan (List Draft)} {r : Reader (List Stmt)}
    {t : Plan Unit} {u : Reader Unit} (h : Makes now m r)
    (hu : Tells now t u) : Makes now (do t; m) (do u; r) := by
  intro p
  rw [Plan.run_bind (hu p)]
  exact h (u.run p).2

theorem makes_stray (ls : List Line) :
    Makes now (makeStray ls) (strayBlock ls) := by
  cases ls with
  | nil => exact fun p => rfl
  | cons l ls =>
      exact (makesOne_rawLines l (l :: ls)).single.after (tells_told l _)

theorem makes_rawItem (l : Line) (block : List Line) :
    Makes now (makeRawItem l block) (rawItem l block) := by
  unfold makeRawItem rawItem
  split
  · exact (makesOne_rawLines l _).single
  · exact (makesOne_simple fun n => makes_raw now n l.number _).cons
      (makes_stray block)

theorem makes_simpleItem {l : Line} (hl : Source.Scanned l)
    (block : List Line) :
    Makes now (makeSimpleItem l block) (simpleItem l block) := by
  unfold makeSimpleItem simpleItem
  cases hk : lineKind l.content.toList with
  | simple s =>
      refine (makesOne_simple fun n => ?_).cons (makes_stray block)
      rcases spoken_lineKind hl.unbroken hk with hs | ⟨rfl, -⟩
      · exact makes_of_spoken now n l.number hs
      · exact makes_raw now n l.number _
  | raw => exact makes_rawItem l block
  | openLiteral => exact (makes_rawItem l block).after (tells_told l _)

theorem makes_code (l : Line) (block : List Line) :
    Makes now (makeCode l block) (readCode l block) := by
  unfold makeCode readCode
  cases codeHeader? (headOf l) with
  | none => exact makes_rawItem l block
  | some flags =>
      cases hasColon l with
      | false => exact makes_rawItem l block
      | true =>
          exact (makesOne_simple fun n =>
            NovelScript.makes_code now n l.number _).single

/-- The content of raw text is in its draft. -/
theorem rawText?_ofStmt (s : Stmt) : rawText? (ofStmt s) = s.rawContent? := by
  cases s with
  | simple tag s =>
      cases s with
      | display verb image options => cases verb <;> rfl
      | _ => rfl
  | _ => rfl

theorem bodyMade_ofStmts (block : List Item) (body : List Stmt) :
    bodyMade block (ofStmts body) = ofStmts (bodyOf block body) := by
  unfold bodyOf
  split
  · next l st =>
    show (match rawText? (ofStmt st) with
      | some content =>
        if trim content.toList = "pass".toList then [] else [ofStmt st]
      | none => [ofStmt st]) = _
    rw [rawText?_ofStmt]
    cases st.rawContent? with
    | none => rfl
    | some content =>
        simp only
        split <;> rfl
  · next hne =>
    unfold bodyMade
    split
    · next l d heq =>
      exfalso
      match body, heq with
      | [st], _ => exact hne l st rfl rfl
    · rfl

-- ================================================= compound statements

theorem lineEnd_headOf {l : Line} (hl : Source.Scanned l) :
    LineEnd (headOf l) :=
  ⟨endsInk_headOf l,
    hl.unbroken.subset fun _ hc => (headOf_isPrefix l).subset hc⟩

/-- The names that a menu has taken up are names. -/
structure MenuParts.Named (m : MenuParts) : Prop where
  /-- The one who asks. -/
  speaker : ∀ s ∈ m.promptSpeaker, Name s.toList
  /-- The set of choices already taken. -/
  setVar : ∀ v ∈ m.setVar, Dotted v.toList

theorem MenuParts.Named.menuLine {m m' : MenuParts} {l : Line}
    {hasBlock : Bool} (hm : m.Named)
    (h : Reading.menuLine m l hasBlock = .parts m') : m'.Named := by
  unfold Reading.menuLine at h
  split at h
  · split at h
    · obtain rfl := MenuLine.parts.inj h
      exact ⟨hm.speaker, hm.setVar⟩
    · cases h
  · split at h
    · cases h
    · unfold bareMenuLine at h
      split at h
      · obtain rfl := MenuLine.parts.inj h
        exact hm
      · split at h
        · next var hvar =>
          split at h
          · obtain rfl := MenuLine.parts.inj h
            refine ⟨hm.speaker, fun v hv => ?_⟩
            obtain rfl := Option.some.inj hv
            exact menuSet?_eq_some hvar
          · cases h
        · split at h
          · next speaker said hasked =>
            split at h
            · obtain rfl := MenuLine.parts.inj h
              refine ⟨fun s hs => ?_, hm.setVar⟩
              obtain rfl := Option.some.inj hs
              exact menuPrompt?_eq_some hasked
            · cases h
          · cases h

/-- The parts of a menu with blanks for its choices. -/
def MenuParts.Blank (m m' : MenuParts) : Prop :=
  m = { m' with choices := m.choices }
    ∧ m.choices.isEmpty = m'.choices.isEmpty

/-- What a line adds to a menu does not depend on what its choices are. -/
theorem MenuParts.Blank.menuLine {m m' : MenuParts} (h : m.Blank m')
    (l : Line) (hasBlock : Bool) :
    match Reading.menuLine m' l hasBlock with
    | .parts n' => ∃ n, Reading.menuLine m l hasBlock = .parts n ∧ n.Blank n'
    | .choice said condition =>
      Reading.menuLine m l hasBlock = .choice said condition
    | .refused => Reading.menuLine m l hasBlock = .refused := by
  obtain ⟨hm, hchoices⟩ := h
  -- What a line adds depends on three things that both parts have in common:
  -- whether there is a question, whether there are choices, and whether there
  -- is a set.
  have hask : m.canAsk = m'.canAsk := by
    unfold MenuParts.canAsk
    rw [hchoices, hm]
  have hset : m.setVar = m'.setVar := by rw [hm]
  unfold Reading.menuLine
  rw [hask]
  cases choice? (headOf l) with
  | some found =>
      simp only
      by_cases hprompt : (!hasColon l && !hasBlock && found.2.isNone
          && m'.canAsk) = true
      · rw [if_pos hprompt, if_pos hprompt]
        refine ⟨_, rfl, ?_, hchoices⟩
        rw [hm]
      · rw [if_neg hprompt, if_neg hprompt]
  | none =>
      simp only
      cases hasColon l || hasBlock with
      | true => rfl
      | false =>
          simp only [Bool.false_eq_true, if_false]
          unfold bareMenuLine
          rw [hset, hask]
          by_cases hpass : headOf l = "pass".toList
          · rw [if_pos hpass, if_pos hpass]
            exact ⟨m, rfl, hm, hchoices⟩
          · rw [if_neg hpass, if_neg hpass]
            cases menuSet? (headOf l) with
            | some var =>
                simp only
                cases m'.setVar.isNone with
                | false => rfl
                | true =>
                    refine ⟨_, rfl, ?_, hchoices⟩
                    rw [hm]
            | none =>
                cases menuPrompt? (headOf l) with
                | none => rfl
                | some asked =>
                    simp only
                    cases m'.canAsk with
                    | false => rfl
                    | true =>
                        refine ⟨_, rfl, ?_, hchoices⟩
                        rw [hm]

/-- A reading of a menu that can fail does not. -/
def MakesMenu (now : Timestamp)
    (mk : Plan (Except Line (MenuParts × List Draft)))
    (r : Reader (Except Line MenuParts)) : Prop :=
  ∀ p, match (r.run p).1 with
    | .ok parts => parts.Named ∧ ∃ m, m.Blank parts
        ∧ mk.run now p = .ok (.ok (m, ofChoices parts.choices), (r.run p).2)
    | .error bad => mk.run now p = .ok (.error bad, (r.run p).2)

/-- The branches of a reading that can fail. -/
def MakesBranches (now : Timestamp) (mk : Plan (List Draft))
    (r : Reader (List Branch)) : Prop :=
  ∀ p, mk.run now p = .ok (ofBranches (r.run p).1, (r.run p).2)

theorem makes_label {l : Line} {block : List Item} {name : String}
    {parameters : Option (List String)} (hname : LabelName name.toList)
    (hparameters : Arguments parameters)
    (hbody : Makes now (makeItems block) (readItems block)) :
    Makes now (do
        toldColon l (.label name)
        let body ← makeItems block
        pure [← made "label" [.text name, .list (bodyMade block body)]
          [("parameters", optTexts parameters), ("line", .int l.number)]])
      (do
        expectColon l (.label name)
        let body ← readItems block
        pure [.label ⟨← fresh, some l.number⟩ name parameters
          (bodyOf block body)]) := by
  intro p
  rw [Plan.run_bind (tells_colon l _ p), Plan.run_bind (hbody _),
    bodyMade_ofStmts]
  rw [Plan.run_bind (run_made (build_label now _ l.number _ hname.tidy
    hparameters.tidyTexts))]
  rfl

/-- A branch with what follows it. -/
theorem makesBranches_cons {l : Line} {block : List Item}
    {condition : Option String} {mk : Plan (List Draft)}
    {r : Reader (List Branch)} (hcond : TidyText condition)
    (hbody : Makes now (makeItems block) (readItems block))
    (hmore : MakesBranches now mk r) :
    MakesBranches now (do
        let body ← makeItems block
        let branch ← made "if_branch"
          [optText condition, .list (bodyMade block body), .int l.number] []
        let rest ← mk
        pure (branch :: rest))
      (do
        let body ← readItems block
        let rest ← r
        pure (.mk condition (some l.number) (bodyOf block body) :: rest)) := by
  intro p
  rw [Plan.run_bind (hbody p), bodyMade_ofStmts,
    Plan.run_bind (run_made (build_branch now _ l.number _ hcond)),
    Plan.run_bind (hmore _)]
  rfl

/-- A step in front that cannot fail. -/
theorem MakesBranches.after {m : Plan (List Draft)}
    {r : Reader (List Branch)} {t : Plan Unit} {u : Reader Unit}
    (h : MakesBranches now m r) (hu : Tells now t u) :
    MakesBranches now (do t; m) (do u; r) := by
  intro p
  rw [Plan.run_bind (hu p)]
  exact h (u.run p).2

theorem ofBranches_cons (condition : Option String) (line : Nat)
    (body : List Stmt) (branches : List Branch) :
    ofBranch condition line (ofStmts body) :: ofBranches branches
      = ofBranches (.mk condition (some line) body :: branches) :=
  rfl

theorem makes_chain {l : Line} {block : List Item} {condition : String}
    {mk : Plan (List Draft)} {r : Reader (List Branch)}
    (hcond : Tidy condition.toList)
    (hbody : Makes now (makeItems block) (readItems block))
    (hmore : MakesBranches now mk r) :
    Makes now (do
        toldColon l .ifs
        let body ← makeItems block
        let first ← made "if_branch"
          [optText (some condition), .list (bodyMade block body),
            .int l.number] []
        let more ← mk
        pure [← made "if_" [.list (first :: more)]
          [("line", .int l.number)]])
      (do
        expectColon l .ifs
        let body ← readItems block
        let more ← r
        pure [.conditional ⟨← fresh, some l.number⟩
          (.mk (some condition) (some l.number) (bodyOf block body)
            :: more)]) := by
  intro p
  rw [Plan.run_bind (tells_colon l _ p), Plan.run_bind (hbody _),
    bodyMade_ofStmts,
    Plan.run_bind (run_made (build_branch now _ l.number _
      (show TidyText (some condition) from fun c hc => by
        obtain rfl := Option.some.inj hc
        exact hcond))),
    Plan.run_bind (hmore _), ofBranches_cons,
    Plan.run_bind (run_made
      (build_conditional now _ l.number condition _ _))]
  rfl

theorem run_toldSoFar (p : Progress) :
    toldSoFar.run now p = .ok (p.found, p) := rfl

theorem run_read (p : Progress) : (get : Reader Progress).run p = (p, p) :=
  rfl

/-- Complaints are taken back without fail. -/
theorem tells_toldOnly (found : List Diagnostic) :
    Tells now (toldOnly found)
      (modify fun p => { p with found }) := fun _ => rfl

/-- Once the lines of a menu are read, the menu or the raw text is made. -/
theorem makes_menuItem {l : Line} {block : List Item}
    {name screen : Option String} (hname : ∀ n ∈ name, Name n.toList)
    (hmenu : MakesMenu now (makeMenu {} [] block) (readMenu {} block)) :
    Makes now (do
        toldColon l .menu
        let before ← toldSoFar
        match ← makeMenu {} [] block with
        | .ok (parts, choices) =>
          pure [← made "menu" [.list choices]
            [("prompt", optText (parts.prompt.map String.ofList)),
              ("prompt_speaker", optText parts.promptSpeaker),
              ("set_var", optText parts.setVar),
              ("screen", optText screen), ("name", optText name),
              ("line", .int l.number)]]
        | .error bad => do
          toldOnly before
          told bad (.menuLine bad.content)
          pure [← makeRawLines l (l :: linesOfAll block)])
      (do
        expectColon l .menu
        let before ← get
        match ← readMenu {} block with
        | .ok parts =>
          pure [.menu ⟨← fresh, some l.number⟩ (menuHead parts name screen)
            parts.choices]
        | .error bad => do
          modify fun p => { p with found := before.found }
          complain bad (.menuLine bad.content)
          pure [← rawLines l (l :: linesOfAll block)]) := by
  -- The complaint about the colon comes first, and what was complained about up
  -- to here is kept for the case that the menu falls back.
  intro p
  have h := hmenu ((expectColon l .menu).run p).2
  rw [Plan.run_bind (tells_colon l .menu p),
    Plan.run_bind (run_toldSoFar _)]
  simp only [Reading.run_bind, run_read]
  cases hr : (readMenu {} block).run ((expectColon l .menu).run p).2 with
  | mk result p' =>
      rw [hr] at h
      cases result with
      | ok parts =>
          obtain ⟨hnamed, m, ⟨hm, -⟩, hrun⟩ := h
          rw [Plan.run_bind hrun]
          have hbuild := build_menu now p'.numbering l.number screen
            (fun s hs => (hnamed.speaker s hs).tidy)
            (fun v hv => (hnamed.setVar v hv).tidy)
            (fun n hn => (hname n hn).tidy)
          simp only
          rw [hm, Plan.run_bind (run_made hbuild)]
          rfl
      | error bad =>
          rw [Plan.run_bind h]
          exact (((makesOne_rawLines l _).single.after (tells_told bad _)).after
            (tells_toldOnly _)) p'

theorem MenuParts.Blank.withChoice {m m' : MenuParts} (h : m.Blank m')
    (c c' : Choice) : (m.withChoice c).Blank (m'.withChoice c') := by
  obtain ⟨hm, -⟩ := h
  unfold MenuParts.withChoice
  refine ⟨?_, ?_⟩
  · rw [hm]
  · cases m.choices <;> cases m'.choices <;> rfl

theorem ofChoices_append (as bs : List Choice) :
    ofChoices (as ++ bs) = ofChoices as ++ ofChoices bs := by
  induction as with
  | nil => rfl
  | cons a as ih =>
      cases a with
      | mk said condition line body =>
          rw [List.cons_append, ofChoices, ih, ofChoices]
          rfl

/-- A choice in front of the lines of a menu that follow it. -/
theorem makesMenu_choice {m m' : MenuParts} {l : Line} {block : List Item}
    {said : List Char} {condition : Option String} {more : List Item}
    (hcond : TidyText condition)
    (hbody : Makes now (makeItems block) (readItems block))
    (hmore : ∀ body, MakesMenu now
      (makeMenu (m.withChoice (.mk "" none none []))
        (ofChoices (m'.withChoice (.mk (String.ofList said) condition
          (some l.number) body)).choices) more)
      (readMenu (m'.withChoice (.mk (String.ofList said) condition
        (some l.number) body)) more)) :
    MakesMenu now (do
        toldColon l .choice
        let body ← makeItems block
        let choice ← made "menu_choice"
          [.text (String.ofList said), .list (bodyMade block body),
            optText condition] [("line", .int l.number)]
        makeMenu (m.withChoice (.mk "" none none []))
          (ofChoices m'.choices ++ [choice]) more)
      (do
        expectColon l .choice
        let body ← readItems block
        readMenu { m' with choices := m'.choices ++
          [.mk (String.ofList said) condition (some l.number)
            (bodyOf block body)] } more) := by
  intro p
  rw [Plan.run_bind (tells_colon l .choice p),
    Plan.run_bind (hbody _), bodyMade_ofStmts,
    Plan.run_bind (run_made (build_choice now _ l.number _ _ hcond))]
  have h := hmore (bodyOf block
    ((readItems block).run ((expectColon l .choice).run p).2).1)
    ((readItems block).run ((expectColon l .choice).run p).2).2
  simp only [MenuParts.withChoice, ofChoices_append] at h
  exact h

/-- Two readings in a row. -/
theorem Makes.append {m ms : Plan (List Draft)} {r rs : Reader (List Stmt)}
    (h : Makes now m r) (hs : Makes now ms rs) :
    Makes now (do
        let first ← m
        pure (first ++ (← ms)))
      (do
        let first ← r
        pure (first ++ (← rs))) := by
  intro p
  rw [Plan.run_bind (h p), Plan.run_bind (hs (r.run p).2)]
  show Except.ok (_, _) = _
  rw [← ofStmts_append]
  rfl

/-- What no rule of its own makes is made as a simple statement. -/
theorem makeItem_unruled {l : Line} {block : List Item}
    (h : ∀ r ∈ ruledWords, firstWord? l.content.toList ≠ some r) :
    makeItem (.plain l block) = makeSimpleItem l (linesOfAll block) := by
  unfold makeItem
  split
  case h_7 => rfl
  all_goals exact absurd ‹_› (h _ (by decide))

mutual

theorem makes_item : ∀ (i : Item) (rest : List Line),
    Stands opensConditional continuesConditional rest i →
      (∀ l ∈ lines i, Source.Scanned l) →
        Makes now (makeItem i) (readItem i)
  | .plain l block, rest => by
      rintro ⟨-, -, -, hblock⟩ hscan
      have hl := hscan l List.mem_cons_self
      have hhead := lineEnd_headOf hl
      have hbody := makes_items block rest hblock
        fun b hb => hscan b (List.mem_cons_of_mem l hb)
      have hmenu := @makes_menu {} {} block rest
        ⟨rfl, rfl⟩ ⟨by simp, by simp⟩ hblock
        fun b hb => hscan b (List.mem_cons_of_mem l hb)
      have hraw := @makes_rawItem now l (linesOfAll block)
      rcases word_cases (firstWord? l.content.toList) with
        hw | hw | hw | hw | hw | hw | hw
      · -- a label
        simp only [makeItem, readItem, hw]
        cases hlabel : label? (headOf l) with
        | none => exact hraw
        | some head =>
            obtain ⟨hname, hparameters⟩ :=
              label?_eq_some hhead.unbroken hlabel
            exact makes_label hname hparameters hbody
      · -- a menu
        simp only [makeItem, readItem, hw]
        cases hhead : menu? (headOf l) with
        | none => exact hraw
        | some head =>
            exact makes_menuItem (menu?_eq_some hhead) hmenu
      · -- `elif` that no conditional has
        simp only [makeItem, readItem, hw]
        exact hraw.after (tells_told l _)
      · -- `else` that no conditional has
        simp only [makeItem, readItem, hw]
        exact hraw.after (tells_told l _)
      · -- code behind `python`
        simp only [makeItem, readItem, hw]
        exact makes_code l _
      · -- code behind `init`
        simp only [makeItem, readItem, hw]
        exact makes_code l _
      · -- any other line
        rw [makeItem_unruled hw, readItem_unruled hw]
        exact makes_simpleItem hl _
  | .chain l block branches, rest => by
      rintro ⟨hopens, -, -, hblock, hbranches⟩ hscan
      obtain ⟨condition, hcond⟩ := Option.isSome_iff_exists.mp hopens
      have hl := hscan l (by simp [lines])
      unfold makeItem readItem
      simp only [hcond]
      refine makes_chain
        (ifCondition?_eq_some (lineEnd_headOf hl) hcond).tidy
        (makes_items block _ hblock fun b hb => hscan b ?_)
        (makes_branches false branches rest hbranches
          fun b hb => hscan b ?_)
      · exact List.mem_append_left _ (List.mem_cons_of_mem l hb)
      · exact List.mem_append_right _ hb

theorem makes_items : ∀ (items : List Item) (rest : List Line),
    StandAll opensConditional continuesConditional rest items →
      (∀ l ∈ linesOfAll items, Source.Scanned l) →
        Makes now (makeItems items) (readItems items)
  | [], _ => fun _ _ p => rfl
  | i :: more, rest => by
      rintro ⟨hi, hmore⟩ hscan
      have hfirst := makes_item i _ hi
        fun l hl => hscan l (List.mem_append_left _ hl)
      have hrest := makes_items more rest hmore
        fun l hl => hscan l (List.mem_append_right _ hl)
      unfold makeItems readItems
      exact hfirst.append hrest

theorem makes_branches : ∀ (seenElse : Bool)
    (branches : List (Line × List Item)) (rest : List Line),
    StandBranches opensConditional continuesConditional rest branches →
      (∀ l ∈ linesOfBranches branches, Source.Scanned l) →
        MakesBranches now (makeBranches seenElse branches)
          (readBranches seenElse branches)
  | _, [], _ => fun _ _ p => rfl
  | seenElse, (l, block) :: more, rest => by
      rintro ⟨hbranch, -, -, hblock, hmore⟩ hscan
      obtain ⟨condition, hcond⟩ := Option.isSome_iff_exists.mp hbranch
      have hl := hscan l (by simp [linesOfBranches])
      have hbody := makes_items block _ hblock fun b hb => hscan b
        (List.mem_append_left _ (List.mem_cons_of_mem l hb))
      have hrest := makes_branches (seenElse || condition.isNone) more rest
        hmore fun b hb => hscan b (List.mem_append_right _ hb)
      have htidy : TidyText condition := fun c hc =>
        (branchCondition?_eq_some (lineEnd_headOf hl) hcond c hc).tidy
      unfold makeBranches readBranches
      simp only [hcond, Option.getD_some]
      cases seenElse with
      | false =>
          exact (makesBranches_cons htidy hbody hrest).after (tells_colon l _)
      | true =>
          exact ((makesBranches_cons htidy hbody hrest).after
            (tells_colon l _)).after (tells_told l _)

theorem makes_menu : ∀ {m m' : MenuParts} (items : List Item)
    (rest : List Line), m.Blank m' → m'.Named →
    StandAll opensConditional continuesConditional rest items →
      (∀ l ∈ linesOfAll items, Source.Scanned l) →
        MakesMenu now (makeMenu m (ofChoices m'.choices) items)
          (readMenu m' items)
  | m, m', [], _ => fun hblank hnamed _ _ p => ⟨hnamed, m, hblank, rfl⟩
  -- A choice is made behind its body, so the parts that are made lag behind
  -- those that are read by the choices, for which they hold blanks.
  | m, m', .plain l block :: more, rest => by
      intro hblank hnamed
      rintro ⟨⟨-, -, -, hblock⟩, hmore⟩ hscan
      have hl := hscan l (by simp [linesOfAll, lines])
      have hbody := makes_items block _ hblock fun b hb => hscan b
        (List.mem_append_left _ (List.mem_cons_of_mem l hb))
      have hline := hblank.menuLine l (!block.isEmpty)
      unfold makeMenu readMenu
      cases hm : menuLine m' l (!block.isEmpty) with
      | parts n' =>
          rw [hm] at hline
          obtain ⟨n, hn, hblank'⟩ := hline
          have hchoices : n'.choices = m'.choices := by
            have := menuLine_spec m' l (!block.isEmpty)
            rw [hm] at this
            exact this.2.2
          rw [hn, ← hchoices]
          exact makes_menu more rest hblank' (hnamed.menuLine hm) hmore
            fun b hb => hscan b (List.mem_append_right _ hb)
      | choice said condition =>
          rw [hm] at hline
          rw [hline]
          have htidy : TidyText condition := fun c hc => by
            have := menuLine_spec m' l (!block.isEmpty)
            rw [hm] at this
            exact (choice?_eq_some (lineEnd_headOf hl) this c hc).tidy
          exact makesMenu_choice htidy hbody
            fun body => makes_menu more rest (hblank.withChoice _ _)
              ⟨hnamed.speaker, hnamed.setVar⟩ hmore
              fun b hb => hscan b (List.mem_append_right _ hb)
      | refused =>
          rw [hm] at hline
          rw [hline]
          exact fun p => rfl
  -- A question in the form of a conditional, if no branch follows it.
  | m, m', .chain l block branches :: more, rest => by
      intro hblank hnamed
      rintro ⟨-, hmore⟩ hscan
      have hline := hblank.menuLine l (!block.isEmpty)
      unfold makeMenu readMenu
      cases hm : menuLine m' l (!block.isEmpty) with
      | parts n' =>
          rw [hm] at hline
          obtain ⟨n, hn, hblank'⟩ := hline
          have hchoices : n'.choices = m'.choices := by
            have := menuLine_spec m' l (!block.isEmpty)
            rw [hm] at this
            exact this.2.2
          rw [hn, ← hchoices]
          cases branches with
          | nil =>
              exact makes_menu more rest hblank' (hnamed.menuLine hm) hmore
                fun b hb => hscan b (List.mem_append_right _ hb)
          | cons b bs => exact fun p => rfl
      | choice said condition =>
          rw [hm] at hline
          rw [hline]
          exact fun p => rfl
      | refused =>
          rw [hm] at hline
          rw [hline]
          exact fun p => rfl

end

-- ============================================================== scripts

/-- Lines that a scanner hands on are read by making: the same statements come
out, with the same identities, the same complaints are made, and no making is
refused. -/
theorem makes_lines {ls : List Line} (hscan : ∀ l ∈ ls, Source.Scanned l) :
    Makes now (makeLines ls) (readLines ls) := by
  refine (makes_stray _).append (makes_items _ [] ?_ ?_)
  · exact standAll_ofLines _ _ _ [] fun l _ r hr => by simp at hr
  · rw [linesOfAll_ofLines]
    exact fun l hl => hscan l ((List.dropWhile_sublist _).subset hl)

end

end NovelScript.Reading
