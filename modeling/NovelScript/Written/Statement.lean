/-
Writing a script. The text depends on the statements alone: parts that are
absent or empty are left out, every body is indented by one level, and groups at
the margin are set apart by empty lines where that is asked for.

# Outlines

A statement comes to an outline, lines and headers with what stands below them,
and the outline is put on the page afterwards. So what a statement says is
written without regard to where it stands, and only the page knows widths.

# The refusal

The one thing that cannot be written is a line of narration with attributes,
because there is no speaker whose image they could change. Bounds on what can be
written, of digits, of depth and of indentations, are not looked at here;
`Draft/Written` looks at them, and comes to the same text where they are kept.
-/
import NovelScript.Script
import NovelScript.Text.Bracket
import NovelScript.Written.Outline
import NovelScript.Written.Phrase

namespace NovelScript

/-- How a script is laid out. -/
structure PageLayout where
  /-- Spaces for each level. -/
  indentSize : Int := 4
  /-- Whether groups at the margin are set apart by empty lines. -/
  blankLines : Bool := true
deriving DecidableEq, Repr, Inhabited

namespace Written

/-- A text that is there and not empty. -/
def present : Option String → Option String
  | some "" => none
  | t => t

/-- The items of a list that is there. -/
def items (list : Option (List String)) : List String := list.getD []

/-- A list that is there and not empty, in a row. -/
def argumentRow (list : Option (List String)) : Option String :=
  if (items list).isEmpty then none else some (Text.joinArguments (items list))

/-- Whether a flag is raised. -/
def isSet (flag : Option Bool) : Bool := flag.getD false

/-- Who says a line, and with which attributes. -/
def speaking (id : String) (d : Dialogue) : Except WriteError (List String) :=
  let who := if isSet d.extend then ["extend"] else (present d.speaker).toList
  if who.isEmpty && !(items d.attributes).isEmpty then .error (.narration id)
  else .ok (who ++ items d.attributes)

/-- A simple statement as an outline. -/
def simple (id : String) : Simple → Except WriteError (List Outline)
  | .say d => do
    let who ← speaking id d
    pure [.line (Phrase.say who (Text.quoted d.text) (argumentRow d.arguments)
      (present d.transition))]
  | .display verb image o =>
    pure [.line (Phrase.display verb.word image (items o.attributes) (present o.asTag)
      (present o.atPosition) (present o.behind) (present o.layer) (o.zorder.map toString)
      (present o.transition))]
  | .transition name => pure [.line (Phrase.transition name)]
  | .jump target expression => pure [.line (Phrase.jump (isSet expression) target)]
  | .call c =>
    pure [.line ((if isSet c.expression then Phrase.callExpression else Phrase.call)
      c.target (argumentRow c.arguments) (present c.fromLabel))]
  | .giveBack value => pure [.line (Phrase.giveBack (present value))]
  | .assign target value operator =>
    pure [.line (Phrase.assign target (if operator = "" then "=" else operator) value)]
  | .code c => pure (Phrase.code c.code (isSet c.early) (isSet c.hide) (isSet c.init))
  | .define name value store => pure [.line (Phrase.define (present store) name value)]
  | .default name value => pure [.line (Phrase.default name value)]
  | .play channel file o =>
    pure [.line (Phrase.play (isSet o.queue) channel (Text.quoted file)
      (Phrase.audioOptions (o.fadeIn.map Number.text) (o.fadeOut.map Number.text)
        (o.volume.map Number.text) o.loop (isSet o.ifChanged)))]
  | .stop channel fadeOut => pure [.line (Phrase.stop channel (fadeOut.map Number.text))]
  | .pause duration => pure [.line (Phrase.pause (duration.map Number.text))]
  | .nvl action => pure [.line (Phrase.nvl action)]
  | .raw content => pure (Phrase.raw content)

/-- The lines of a menu before its choices. -/
def menuLines (head : MenuHead) : List Outline :=
  ((present head.prompt).map fun prompt =>
    Outline.line (Phrase.menuPrompt (present head.promptSpeaker) (Text.quoted prompt))).toList ++
  ((present head.setVar).map fun var => Outline.line (Phrase.menuSet var)).toList

/-- A header with its body. Statements that come to no line leave it bare: only where there are no
statements at all does the body say so. -/
def headed (head : String) (hasBody : Bool) (inner : List Outline) : Outline :=
  if hasBody && inner.isEmpty then .line head else .block head inner

mutual

/-- A statement as an outline. -/
def stmt : Stmt → Except WriteError (List Outline)
  | .simple tag s => simple tag.id s
  | .label _ name parameters body => do
    let inner ← stmts body
    pure [headed (Phrase.labelHead name (argumentRow parameters)) (!body.isEmpty) inner]
  | .menu _ head choices => do
    let inner ← choiceBlocks choices
    pure [.block (Phrase.menuHead (present head.name) ((present head.screen).map Text.quoted))
      (menuLines head ++ inner)]
  | .conditional _ branches => branchBlocks true branches

/-- Several statements as an outline. -/
def stmts : List Stmt → Except WriteError (List Outline)
  | [] => pure []
  | s :: more => do
    let first ← stmt s
    let rest ← stmts more
    pure (first ++ rest)

/-- The choices of a menu as an outline. -/
def choiceBlocks : List Choice → Except WriteError (List Outline)
  | [] => pure []
  | .mk text condition _ body :: more => do
    let inner ← stmts body
    let rest ← choiceBlocks more
    pure (headed (Phrase.choiceHead (Text.quoted text) (present condition)) (!body.isEmpty) inner ::
      rest)

/-- The branches of a conditional as an outline. -/
def branchBlocks (first : Bool) : List Branch → Except WriteError (List Outline)
  | [] => pure []
  | .mk condition _ body :: more => do
    let inner ← stmts body
    let rest ← branchBlocks false more
    pure (headed (Phrase.branchHead first condition) (!body.isEmpty) inner :: rest)

end

-- ============================================================ scripts

/-- Whether a statement is a label. -/
def isLabel : Stmt → Bool
  | .label .. => true
  | _ => false

/-- Whether a statement defines a name. -/
def isDefinition : Stmt → Bool
  | .simple _ (.define ..) | .simple _ (.default ..) => true
  | _ => false

/-- Whether a statement is raw text of several lines. -/
def isRawBlock (s : Stmt) : Bool := (s.rawContent?.map fun c => c.toList.contains '\n').getD false

/-- Whether an empty line belongs between two statements at the margin: around labels, where
definitions end, and around raw text of several lines. -/
def needsBlank (s next : Stmt) : Bool :=
  isLabel s || isLabel next || (isDefinition s && !isDefinition next) ||
    isRawBlock s || isRawBlock next

/-- The empty lines between a statement at the margin and what follows it. -/
def gap (layout : PageLayout) (s : Stmt) : List Stmt → List String
  | next :: _ => if layout.blankLines && needsBlank s next then [""] else []
  | [] => []

/-- The lines of the statements at the margin. -/
def topLines (layout : PageLayout) : List Stmt → Except WriteError (List String)
  | [] => pure []
  | s :: more => do
    let outline ← stmt s
    let rest ← topLines layout more
    pure (Outline.linesOfAll layout.indentSize 0 outline ++ gap layout s more ++ rest)

/-- Lines as a text; no lines are the empty text. -/
def page (lines : List String) : String :=
  if lines.isEmpty then "" else Text.joinLines lines ++ "\n"

/-- The text of a script. -/
def script (layout : PageLayout) (statements : List Stmt) : Except WriteError String := do
  let lines ← topLines layout statements
  pure (page lines)

end Written

end NovelScript
