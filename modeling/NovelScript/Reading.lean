/-
Reading a script. The lines of the text are put into block form and each item
becomes one statement; a line that no rule takes is kept as raw text, together
with the block below it if it ends in a colon. A block that no header asked for
becomes a raw statement of its own. Reading never fails.

# Progress

A reading is a run that draws identities and complains (`Reader`). A statement
takes its identity when it is built, after those nested in it, so that the
identities are in the order in which statements end. Complaints are kept in the
order in which they are made, those of the scanner first, and are put into the
order of their lines at the end.

# Menus

A menu is read line by line: a question, a set of choices already taken, a
`pass` that says nothing, and choices. With a line that does not belong there it
is kept as raw text as a whole, and nothing that was complained about inside it
remains but the complaint about this line; the identities that were drawn inside
it stay drawn.

# The recursion

It is structural, over items, blocks of items and the branches of conditionals;
the block form has been made before. So the words that a rule looks at play no
part in whether it ends.
-/
import NovelScript.Grammar.Simple
import NovelScript.Script
import NovelScript.Source.Block

namespace NovelScript.Reading

open Grammar

/-- How far a reading has come. -/
structure Progress where
  /-- Where identities come from. -/
  numbering : Numbering
  /-- What was complained about. -/
  found : List Diagnostic := []

/-- A step of a reading. -/
abbrev Reader := StateM Progress

/-- A fresh identity. -/
def fresh : Reader String := modifyGet fun p =>
  (p.numbering.next.1, { p with numbering := p.numbering.next.2 })

/-- Complains about a line. -/
def complain (l : Line) (cause : Cause) : Reader Unit :=
  modify fun p => { p with found := p.found ++ [⟨l.number, cause⟩] }

/-- Complains about a header without a colon. -/
def expectColon (l : Line) (header : Header) : Reader Unit :=
  if hasColon l then pure () else complain l (.colon header)

/-- A simple statement of a line. -/
def simple (l : Line) (s : Simple) : Reader Stmt := do
  pure (.simple ⟨← fresh, some l.number⟩ s)

/-- Lines as one raw statement. -/
def rawLines (first : Line) (ls : List Line) : Reader Stmt :=
  simple first (.raw (Line.relativeText ls))

/-- A block that no header asked for. -/
def strayBlock : List Line → Reader (List Stmt)
  | [] => pure []
  | l :: ls => do
    complain l .indentation
    pure [← rawLines l (l :: ls)]

/-- A line that is kept as raw text, with its block if it has the form of a header. -/
def rawItem (l : Line) (block : List Line) : Reader (List Stmt) := do
  if hasColon l && !block.isEmpty then pure [← rawLines l (l :: block)]
  else
    let s ← simple l (.raw l.content)
    pure (s :: (← strayBlock block))

/-- A line that has to be a simple statement, and a block below it that it does not own. -/
def simpleItem (l : Line) (block : List Line) : Reader (List Stmt) :=
  match lineKind l.content.toList with
  | .simple s => do
    let st ← simple l s
    pure (st :: (← strayBlock block))
  | .raw => rawItem l block
  | .openLiteral => do
    complain l .openLiteral
    rawItem l block

/-- A code block, or raw text if its header is none. -/
def readCode (l : Line) (block : List Line) : Reader (List Stmt) :=
  match codeHeader? (headOf l) with
  | some flags =>
    if hasColon l then do
      pure [← simple l (codeBlock flags (if block.isEmpty then "" else Line.relativeText block))]
    else rawItem l block
  | none => rawItem l block

/-- A body of one line that only says `pass` is an empty one. -/
def bodyOf (block : List Item) (body : List Stmt) : List Stmt :=
  match block, body with
  | [.plain _ []], [st] =>
    match st.rawContent? with
    | some content => if Text.trim content.toList = "pass".toList then [] else body
    | none => body
  | _, _ => body

-- ============================================================== menus

/-- What has been read of a menu. -/
structure MenuParts where
  /-- The question; it may be empty. -/
  prompt : Option (List Char) := none
  /-- Who asks it. -/
  promptSpeaker : Option String := none
  /-- The set of choices already taken. -/
  setVar : Option String := none
  /-- The choices. -/
  choices : List Choice := []

/-- What a line of a menu adds to it. -/
inductive MenuLine where
  /-- A question, or a word that stands for nothing. -/
  | parts (m : MenuParts)
  /-- A choice. -/
  | choice (text : List Char) (condition : Option String)
  /-- Nothing: it is no line of a menu. -/
  | refused

/-- Whether a menu can still get a question. -/
def MenuParts.canAsk (m : MenuParts) : Bool := m.prompt.isNone && m.choices.isEmpty

/-- What a line of a menu without block adds to it, if it is not a choice. -/
def bareMenuLine (m : MenuParts) (head : List Char) : MenuLine :=
  if head = "pass".toList then .parts m
  else match menuSet? head with
    | some var =>
      if m.setVar.isNone then .parts { m with setVar := some var } else .refused
    | none => match menuPrompt? head with
      | some (speaker, text) =>
        if m.canAsk then .parts { m with prompt := some text, promptSpeaker := some speaker }
        else .refused
      | none => .refused

/-- What a line of a menu adds to it. -/
def menuLine (m : MenuParts) (l : Line) (hasBlock : Bool) : MenuLine :=
  match choice? (headOf l) with
  | some (text, condition) =>
    if !hasColon l && !hasBlock && condition.isNone && m.canAsk then
      .parts { m with prompt := some text }
    else .choice text condition
  | none => if hasColon l || hasBlock then .refused else bareMenuLine m (headOf l)

/-- A text without white space at its ends, absent when nothing is left. -/
def presentText (s : String) : Option String :=
  let t := Text.trimmed s
  if t = "" then none else some t

/-- A menu's head: an empty question is none, and then nobody asks it. -/
def menuHead (m : MenuParts) (name screen : Option String) : MenuHead :=
  let prompt := m.prompt.bind fun cs => if cs.isEmpty then none else some (String.ofList cs)
  { prompt := prompt
    promptSpeaker := if prompt.isSome then m.promptSpeaker else none
    setVar := m.setVar
    screen := screen.bind presentText
    name := name }

-- ============================================================== items

mutual

/-- The statements of an item: one, and one more if a block is left over. -/
def readItem : Item → Reader (List Stmt)
  | .plain l block =>
    match firstWord? l.content.toList with
    | some "label" =>
      match label? (headOf l) with
      | none => rawItem l (Item.linesOfAll block)
      | some (name, parameters) => do
        expectColon l (.label name)
        let body ← readItems block
        pure [.label ⟨← fresh, some l.number⟩ name parameters (bodyOf block body)]
    | some "menu" =>
      match menu? (headOf l) with
      | none => rawItem l (Item.linesOfAll block)
      | some (name, screen) => do
        expectColon l .menu
        let before ← get
        match ← readMenu {} block with
        | .ok parts =>
          pure [.menu ⟨← fresh, some l.number⟩ (menuHead parts name screen) parts.choices]
        -- What was complained about inside is dropped with the statements
        -- there; only the first line that does not fit is reported. The
        -- numbering is not set back.
        | .error bad => do
          modify fun p => { p with found := before.found }
          complain bad (.menuLine bad.content)
          pure [← rawLines l (l :: Item.linesOfAll block)]
    | some "elif" => do
      complain l (.strayBranch "elif")
      rawItem l (Item.linesOfAll block)
    | some "else" => do
      complain l (.strayBranch "else")
      rawItem l (Item.linesOfAll block)
    | some "python" => readCode l (Item.linesOfAll block)
    | some "init" => readCode l (Item.linesOfAll block)
    -- No other word heads a block.
    | _ => simpleItem l (Item.linesOfAll block)
  | .chain l block branches => do
    expectColon l .ifs
    let body ← readItems block
    let more ← readBranches false branches
    pure [.conditional ⟨← fresh, some l.number⟩
      (.mk (ifCondition? (headOf l)) (some l.number) (bodyOf block body) :: more)]

/-- The statements of several items. -/
def readItems : List Item → Reader (List Stmt)
  | [] => pure []
  | i :: more => do
    let first ← readItem i
    pure (first ++ (← readItems more))

/-- The further branches of a conditional. -/
def readBranches (seenElse : Bool) : List (Line × List Item) → Reader (List Branch)
  | [] => pure []
  | (l, block) :: more => do
    let condition := (branchCondition? (headOf l)).getD none
    -- A late branch is complained about, and read all the same.
    if seenElse then complain l (.afterElse (branchWord condition))
    expectColon l (.branch (branchWord condition))
    let body ← readItems block
    let rest ← readBranches (seenElse || condition.isNone) more
    pure (.mk condition (some l.number) (bodyOf block body) :: rest)

/-- The parts of a menu, or the first line that does not belong there. -/
def readMenu (m : MenuParts) : List Item → Reader (Except Line MenuParts)
  | [] => pure (.ok m)
  | .plain l block :: more =>
    match menuLine m l (!block.isEmpty) with
    | .parts m' => readMenu m' more
    | .choice text condition => do
      expectColon l .choice
      let body ← readItems block
      readMenu { m with choices := m.choices ++
        [.mk (String.ofList text) condition (some l.number) (bodyOf block body)] } more
    | .refused => pure (.error l)
  | .chain l block branches :: more =>
    match menuLine m l (!block.isEmpty), branches with
    | .parts m', [] => readMenu m' more
    -- A question with further branches: the first of them is what does not fit.
    | .parts _, (bad, _) :: _ => pure (.error bad)
    | _, _ => pure (.error l)

end

/-- The statements of all lines. Lines above the first that stands at the margin are a block that
no header asked for. -/
def readLines (ls : List Line) : Reader (List Stmt) := do
  let stray ← strayBlock (ls.takeWhile (0 < ·.depth))
  let items := Item.ofLines opensConditional continuesConditional (ls.dropWhile (0 < ·.depth))
  pure (stray ++ (← readItems items))

/-- A script's statements, its diagnostics in the order of their lines, and the numbering after
the reading. -/
def read (tabSize : Int) (numbering : Numbering) (source : String) :
    List Stmt × List Diagnostic × Numbering :=
  let (ls, odd) := Source.scan tabSize source
  let (stmts, after) := (readLines ls).run { numbering := numbering, found := odd }
  (stmts, after.found.mergeSort fun a b => a.line ≤ b.line, after.numbering)

end NovelScript.Reading
