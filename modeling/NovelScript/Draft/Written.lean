/-
Writing drafts. A draft that is well formed is written as a script is; where a
field holds something else, that is put into the line as it is, taken apart
into its characters or names, or refused, depending on what the field is for.

# Room

Lines need room for their indentations, which may be longer than any text. So
whoever lays a draft out first asks for the indentation of every line, in the
order in which the lines are put together, and is told why there is none.

# Limits

The calls that write a block of statements are made from within the calls that
write what the block belongs to, three of them for each block, and the digits
of an integer are only written out up to a certain count. Either limit may be
left open. Without limits a draft is written as the rules of the language have
it; with them, the writing ends where the first of them is met, which may be
before or behind a line that is refused.

A limit on calls counts what is left for nested blocks: what a single line
takes is set aside beforehand.
-/
import NovelScript.Draft.Difference
import NovelScript.Written.Statement

namespace NovelScript.Draft

-- ================================================= fields as they are used

/-- Whether a field is there and not empty. -/
def isPresent (d : Draft) : Bool := !d.isAbsent

/-- A field that has to be a text. -/
def needText : Draft → Except Fault String
  | .text s => .ok s
  | _ => .error .wrongType

/-- The parts of a value: the items of a list, the characters of a text, the names of an object. -/
def partsOf : Draft → Except Fault (List Draft)
  | .list items => .ok items
  | .text s => .ok (s.toList.map fun c => .text (String.singleton c))
  | .object members => .ok (members.map fun (n, _) => .text n)
  | _ => .error .wrongType

/-- The parts of a value, which have to be texts. -/
def textsOf (d : Draft) : Except Fault (List String) := do
  let parts ← partsOf d
  parts.mapM needText

/-- A text that stands for one character is escaped; a longer one is not. -/
def escapedPart (s : String) : String :=
  match s.toList with
  | [c] => String.ofList (Text.escapedChar c)
  | _ => s

/-- The inside of the literal that a value is written as. -/
def escapedOf (d : Draft) : Except Fault String := do
  pure (String.join ((← textsOf d).map escapedPart))

/-- A value as a literal. -/
def literalOf (d : Draft) : Except Fault String := do pure ("\"" ++ (← escapedOf d) ++ "\"")

/-- A list of arguments in a row, if it is present. -/
def argumentsOf (d : Draft) : Except Fault (Option String) :=
  if d.isPresent then do pure (some (Text.joinArguments (← textsOf d))) else .ok none

/-- A field as it is put into a line, if it is present. -/
def inLine? (d : Draft) : Option String := if d.isPresent then some d.inLine else none

/-- A field that has to be a text if it is present. -/
def needText? (d : Draft) : Except Fault (Option String) :=
  if d.isPresent then do pure (some (← d.needText)) else .ok none

/-- A field as a number. -/
def numberOf : Draft → Except Fault String
  | .number n => .ok n.text
  | .text s => match Number.readDouble? s.toList with
    | some d => .ok d.text
    | none => .error (.notNumeral s)
  | _ => .error .wrongType

/-- A field as a number, unless it is nothing. -/
def numberOf? (d : Draft) : Except Fault (Option String) :=
  if d.isNull then .ok none else do pure (some (← numberOf d))

/-- A flag, unless it is nothing. -/
def flagOf? (d : Draft) : Option Bool := if d.isNull then none else some d.isTruthy

-- ============================================================= layout

/-- How drafts are laid out. The size of an indentation is held as it was given. -/
structure Layout where
  /-- Spaces for each level. -/
  indentSize : Json := .int 4
  /-- Whether groups at the margin are set apart by empty lines. -/
  blankLines : Bool := true

/-- Whether the indentation of a depth can be made: the size has to be a whole number. -/
def Layout.room (l : Layout) (depth : Int) : Except Fault Unit :=
  match l.indentSize.size? with
  | some n => padRoom (n * depth)
  | none => .error .wrongType

/-- Spaces for each level, once it is known that they can be made. -/
def Layout.width (l : Layout) : Int := l.indentSize.size?.getD 0

-- ============================================================= limits

/-- What there is only so much of for whoever writes. A limit that is not given does not hold. -/
structure Limits where
  /-- How many calls are left for nested blocks. -/
  calls : Option Nat := none
  /-- The most digits that an integer is written with. -/
  digits : Option Nat := none

/-- The limits where so many calls are left for nested blocks. -/
def Limits.ofCalls (calls : Nat) : Limits := ⟨some calls, some Excess.mostDigits⟩

/-- The limits for whoever starts to write from outside all blocks. -/
def Limits.usual : Limits := .ofCalls 987

/-- The calls that writing a block takes: one finds the writer of the statement that the block
belongs to, one is that writer, and one goes through the block. -/
def blockCalls : Nat := 3

/-- What the lines of a draft have room for. -/
structure Room extends Limits where
  /-- Whether the indentation of a depth can be made. -/
  pad : Int → Except Fault Unit

namespace Room

/-- Room without limits. -/
def free (pad : Int → Except Fault Unit) : Room := { pad }

/-- The room inside a block that has something in it. -/
def inside (r : Room) : Except Fault Room :=
  match r.calls with
  -- Without a bound there is room at any depth.
  | none => .ok r
  | some n =>
    if n < blockCalls then .error (.excess .depth) else .ok { r with calls := some (n - blockCalls) }

/-- Whether the digits of a value can be written out, if it is an integer. -/
def spell (r : Room) : Draft → Except Fault Unit
  | .number (.int i) => match r.digits with
    | some most => if Nat.pow 10 most ≤ i.natAbs then .error (.unwritable .overlong) else .ok ()
    | none => .ok ()
  | _ => .ok ()

/-- A field as a number, unless it is nothing. -/
def number? (r : Room) (d : Draft) : Except Fault (Option String) := do
  r.spell d
  numberOf? d

end Room

-- ========================================================== statements

/-- A line that is said. Its indentation is made before its words are put in a row. -/
def sayLine (pad : Except Fault Unit) (d : Draft) : Except Fault String := do
  let speaker ← d.get "speaker"
  let attributes ← d.get "attributes"
  let extended := (← d.get "extend").isTruthy
  let who : List Draft :=
    if extended then [.text "extend"] else if speaker.isPresent then [speaker] else []
  let with_ ←
    if attributes.isPresent then
      if who.isEmpty then .error (.unwritable (.narration (← d.get "id").inLine))
      else partsOf attributes
    else pure []
  let said ← literalOf (← d.get "text")
  let arguments ← argumentsOf (← d.get "arguments")
  pad
  let speaking ← (who ++ with_).mapM needText
  let transition ← needText? (← d.get "transition")
  pure (Phrase.say speaking said arguments transition)

/-- A change of the picture. -/
def displayLine (room : Room) (k : StmtKind) (pad : Except Fault Unit) (d : Draft) :
    Except Fault String := do
  let o ← d.get "options"
  let attributes ← o.get "attributes"
  let attributes ← if attributes.isPresent then partsOf attributes else pure []
  let zorder ← o.get "zorder"
  -- The integer is turned into text before the indentation is made, and the
  -- words are put in a row behind it: of several faults the first in this order
  -- is met.
  room.spell zorder
  pad
  let image ← needText (← d.get "image")
  let attributes ← attributes.mapM needText
  let asTag ← needText? (← o.get "as_tag")
  let atPosition ← needText? (← o.get "at_position")
  let behind ← needText? (← o.get "behind")
  let layer ← needText? (← o.get "layer")
  let transition ← needText? (← o.get "transition")
  pure (Phrase.display k.word image attributes asTag atPosition behind layer
    (if zorder.isNull then none else some zorder.inLine) transition)

/-- A call. -/
def callLine (pad : Except Fault Unit) (d : Draft) : Except Fault String := do
  let target ← d.get "target"
  let arguments ← argumentsOf (← d.get "arguments")
  pad
  if (← d.get "expression").isTruthy then
    let target ← needText target
    pure (Phrase.callExpression target arguments (← needText? (← d.get "from_label")))
  else
    -- In front of brackets the target goes through a format, which takes any
    -- value; alone it is a word of the row, which must be a text.
    let target ← if arguments.isSome then pure target.inLine else needText target
    pure (Phrase.call target arguments (← needText? (← d.get "from_label")))

/-- A sound. -/
def playLine (room : Room) (pad : Except Fault Unit) (d : Draft) : Except Fault String := do
  let o ← d.get "options"
  let fadeIn ← room.number? (← o.get "fade_in")
  let fadeOut ← room.number? (← o.get "fade_out")
  let volume ← room.number? (← o.get "volume")
  let options := Phrase.audioOptions fadeIn fadeOut volume (flagOf? (← o.get "loop"))
    (← o.get "if_changed").isTruthy
  let file ← literalOf (← d.get "file")
  pad
  let channel ← needText (← d.get "channel")
  pure (Phrase.play (← o.get "queue").isTruthy channel file options)

/-- Code. A block of code needs the indentation of its depth and of the next. -/
def codeOutline (room : Int → Except Fault Unit) (depth : Int) (d : Draft) :
    Except Fault (List Outline) := do
  let code ← textOrEmpty (← d.get "code")
  let o := Phrase.code code (← d.get "early").isTruthy (← d.get "hide").isTruthy
    (← d.get "init").isTruthy
  room depth
  match o with
  | [.line _] => pure o
  | _ => do
    room (depth + 1)
    pure o

/-- A statement without nested statements as an outline. -/
def simpleOutline (room : Room) (depth : Int) (k : StmtKind) (d : Draft) :
    Except Fault (List Outline) := do
  let line (text : Except Fault String) : Except Fault (List Outline) := do
    let s ← text
    room.pad depth
    pure [.line s]
  match k with
  | .dialogue => pure [.line (← sayLine (room.pad depth) d)]
  | .scene | .reveal | .hide => pure [.line (← displayLine room k (room.pad depth) d)]
  | .call => pure [.line (← callLine (room.pad depth) d)]
  | .play => pure [.line (← playLine room (room.pad depth) d)]
  | .transition => line do pure (Phrase.transition (← d.get "transition").inLine)
  | .jump => line do pure (Phrase.jump (← d.get "expression").isTruthy (← d.get "target").inLine)
  | .giveBack => line do pure (Phrase.giveBack (← d.get "value").inLine?)
  | .assign => line do
    let operator ← d.get "operator"
    pure (Phrase.assign (← d.get "variable").inLine
      (if operator.isTruthy then operator.inLine else "=") (← d.get "value").inLine)
  | .code => codeOutline room.pad depth d
  | .define => line do
    pure (Phrase.define (← d.get "store").inLine? (← d.get "name").inLine (← d.get "value").inLine)
  | .default => line do pure (Phrase.default (← d.get "name").inLine (← d.get "value").inLine)
  | .stop => line do
    let fadeOut ← room.number? (← d.get "fade_out")
    pure (Phrase.stop (← d.get "channel").inLine fadeOut)
  | .pause => line do pure (Phrase.pause (← room.number? (← d.get "duration")))
  | .nvl => line do pure (Phrase.nvl (← d.get "action").inLine)
  | .raw => do
    let content ← d.get "content"
    room.pad depth
    pure (Phrase.raw (← textOrEmpty content))
  | .label | .menu | .conditional => pure []

/-- The header of a menu, and its lines before the choices. -/
def menuParts (room : Int → Except Fault Unit) (depth : Int) (d : Draft) :
    Except Fault (String × List Outline) := do
  let screen ← d.get "screen"
  let screen ← if screen.isPresent then pure (some (← literalOf screen)) else pure none
  let head := Phrase.menuHead (← d.get "name").inLine? screen
  room depth
  -- Asked for even if nothing is written there.
  room (depth + 1)
  let prompt ← d.get "prompt"
  let asked ← if prompt.isPresent then
      pure [Outline.line (Phrase.menuPrompt (← d.get "prompt_speaker").inLine? (← literalOf prompt))]
    else pure []
  let var ← d.get "set_var"
  pure (head, asked ++ (if var.isPresent then [.line (Phrase.menuSet var.inLine)] else []))

/-- The header of a choice. -/
def choiceHead (fields : List (String × Draft)) : Except Fault String := do
  let d := Draft.record .choice fields
  let condition := (← d.get "condition").inLine?
  pure (Phrase.choiceHead (← literalOf (← d.get "text")) condition)

/-- The header of a branch. -/
def branchHead (first : Bool) (fields : List (String × Draft)) : Except Fault String := do
  let condition ← (Draft.record .branch fields).get "condition"
  pure (Phrase.branchHead first (if condition.isNull then none else some condition.inLine))

mutual

/-- A draft as an outline at a depth. -/
def outline (room : Room) (depth : Int) : Draft → Except Fault (List Outline)
  | .record (.stmt k) fields =>
    match k with
    | .label => do
      let d := Draft.record (.stmt .label) fields
      let parameters ← argumentsOf (← d.get "parameters")
      let head := Phrase.labelHead (← d.get "name").inLine parameters
      room.pad depth
      pure [← bodyOutline room (depth + 1) head fields]
    | .menu => do
      let (head, before) ← menuParts room.pad depth (.record (.stmt .menu) fields)
      pure [.block head (before ++ (← sectionOutlines room (depth + 1) "choices" fields))]
    | .conditional => sectionOutlines room depth "branches" fields
    -- All kinds without a body.
    | k => simpleOutline room depth k (.record (.stmt k) fields)
  | .null => .error (.unwritable (.notStatement (typeName .null)))
  | .bool b => .error (.unwritable (.notStatement (typeName (.bool b))))
  | .number n => .error (.unwritable (.notStatement (typeName (.number n))))
  | .text s => .error (.unwritable (.notStatement (typeName (.text s))))
  | .moment t => .error (.unwritable (.notStatement (typeName (.moment t))))
  | .list items => .error (.unwritable (.notStatement (typeName (.list items))))
  | .object ms => .error (.unwritable (.notStatement (typeName (.object ms))))
  | .record k fields => .error (.unwritable (.notStatement (typeName (.record k fields))))

/-- Drafts as an outline at a depth. -/
def outlines (room : Room) (depth : Int) :
    List Draft → Except Fault (List Outline)
  | [] => .ok []
  | d :: more => do
    let first ← outline room depth d
    let rest ← outlines room depth more
    pure (first ++ rest)

/-- A header with the body among the fields of a record, which stands at a depth, as an outline. -/
def bodyOutline (room : Room) (depth : Int) (head : String) :
    List (String × Draft) → Except Fault Outline
  | [] => .error .noMember
  | (name, d) :: more =>
    if name = "body" then match d with
      | .list [] => do
        room.pad depth
        pure (.block head [])
      | .list items => do
        let inner ← room.inside
        pure (Written.headed head true (← outlines inner depth items))
      | d => if d.isTruthy then .error .wrongType else do
        room.pad depth
        pure (.block head [])
    else bodyOutline room depth head more

/-- The choices or branches among the fields of a record, as an outline at a depth. -/
def sectionOutlines (room : Room) (depth : Int) (which : String) :
    List (String × Draft) → Except Fault (List Outline)
  | [] => .error .noMember
  | (name, d) :: more =>
    if name = which then match d with
      | .list items =>
        if which = "choices" then choiceOutlines room depth items
        else branchOutlines room depth true items
      | _ => .error .wrongType
    else sectionOutlines room depth which more

/-- Choices as an outline at a depth. -/
def choiceOutlines (room : Room) (depth : Int) :
    List Draft → Except Fault (List Outline)
  | [] => .ok []
  | .record _ fields :: more => do
    let head ← choiceHead fields
    let block ← bodyOutline room (depth + 1) head fields
    let rest ← choiceOutlines room depth more
    pure (block :: rest)
  | _ :: _ => .error .noMember

/-- Branches as an outline at a depth. -/
def branchOutlines (room : Room) (depth : Int) (first : Bool) :
    List Draft → Except Fault (List Outline)
  | [] => .ok []
  | .record _ fields :: more => do
    let head ← branchHead first fields
    room.pad depth
    let block ← bodyOutline room (depth + 1) head fields
    let rest ← branchOutlines room depth false more
    pure (block :: rest)
  | _ :: _ => .error .noMember

end

-- ============================================================ scripts

/-- Whether a draft is a raw statement of several lines. -/
def isRawBlock (d : Draft) : Except Fault Bool :=
  match d.stmtKind? with
  | some .raw => do
    match ← d.get "content" with
    | .text s => pure (s.toList.contains '\n')
    | .list items => pure (items.any fun i => i.same (.text "\n"))
    | .object ms => pure ((field? "\n" ms).isSome)
    | _ => .error .wrongType
  | _ => .ok false

/-- Whether a draft is a statement that defines a name. -/
def isDefinition (d : Draft) : Bool :=
  d.stmtKind? = some .define || d.stmtKind? = some .default

/-- Whether an empty line belongs between two drafts at the margin. -/
def needsBlank (d next : Draft) : Except Fault Bool := do
  if d.stmtKind? = some .label || next.stmtKind? = some .label then pure true
  else if isDefinition d && !isDefinition next then pure true
  else if ← isRawBlock d then pure true
  else isRawBlock next

/-- The empty lines between a draft at the margin and what follows it. -/
def gap (layout : Layout) (d : Draft) : List Draft → Except Fault (List String)
  | next :: _ => do
    if layout.blankLines then
      if ← needsBlank d next then pure [""] else pure []
    else pure []
  | [] => .ok []

/-- The lines of the drafts at the margin. -/
def topLines (limits : Limits) (layout : Layout) : List Draft → Except Fault (List String)
  | [] => .ok []
  | d :: more => do
    let o ← outline ⟨limits, layout.room⟩ 0 d
    let space ← gap layout d more
    let rest ← topLines limits layout more
    pure (Outline.linesOfAll layout.width 0 o ++ space ++ rest)

/-- The statements of a draft of a script. -/
def statementsOf (d : Draft) : Except Fault (List Draft) :=
  match d with
  | .record .script fields => match field? "statements" fields with
    | some (.list items) => .ok items
    | _ => .error .noMember
  | _ => .error .noMember

/-- The text of a draft of a script, as far as the limits allow it. -/
def writtenWithin (limits : Limits) (layout : Layout) (d : Draft) : Except Fault String := do
  pure (Written.page (← topLines limits layout (← statementsOf d)))

/-- The text of a draft of a script. -/
def writtenScript (layout : Layout) (d : Draft) : Except Fault String := writtenWithin {} layout d

/-- The text of one draft at a depth, which has to be a whole number, as far as the limits
allow it. -/
def writtenAtWithin (limits : Limits) (layout : Layout) (depth : Json) (d : Draft) :
    Except Fault String := do
  let pad (deeper : Int) := match depth.size? with
    | some n => layout.room (n + deeper)
    | none => .error .wrongType
  let o ← outline ⟨limits, pad⟩ 0 d
  pure (Text.joinLines (Outline.linesOfAll layout.width (depth.size?.getD 0) o))

/-- The text of one draft at a depth. -/
def writtenAt (layout : Layout) (depth : Json) (d : Draft) : Except Fault String :=
  writtenAtWithin {} layout depth d

/-- The layout that named options give. -/
def Layout.ofOptions (l : Layout) : List (String × Json) → Except Fault Layout
  | [] => .ok l
  | ("indent_size", v) :: more => ofOptions { l with indentSize := v } more
  | ("insert_blank_lines", v) :: more => ofOptions { l with blankLines := isTruthyJson v } more
  | _ :: _ => .error .wrongType

end NovelScript.Draft
