/-
Loading drafts from JSON. Only what is needed to build the records is looked at:
the kind and the identity of a statement, its nested statements and the names of
its options. Every other field is taken over as it is, whatever kind of value it
is, so a draft that is loaded may have a number for a text.

# What is missing

The fields of a statement that its object lacks get what they begin with, and if
a required one is among them the statement is malformed; all that are missing
are named at once. An object whose kind is none, or a value that is no object,
is malformed as well. Where a block should be, what counts as false is an empty
one, a text or an object is gone through for statements that it cannot have, and
with any other value loading ends in a fault that is not about the format.

# Checking

Whoever asks for it has the value checked first: what breaks the format of saved
scripts is then refused before anything is loaded. Of all violations one is
reported. The check goes deeper than loading, one call of a rule inside another,
and so it has a bound on how deep a value is nested (`Schema/Bound`).
-/
import NovelScript.Draft.Basic
import NovelScript.Schema.Bound
import NovelScript.Schema.Formats
import NovelScript.Text.Lines

namespace NovelScript.Draft

/-- The kind that a saved statement tells. -/
def kindOf (ms : List (String × Json)) : Except Fault StmtKind :=
  match Json.member? "type" ms with
  | some (.list _) | some (.object _) => .error .wrongType
  | some (.text w) => match StmtKind.ofWord? w with
    | some k => .ok k
    | none => .error (.malformed (.unknownKind (Text.shown w)))
  | some v => .error (.malformed (.unknownKind v.shown))
  | none => .error (.malformed (.unknownKind Json.shownNull))

/-- The field of a record of options that a member names. -/
def optionField? (k : RecordKind) (name : String) : Option String :=
  (k.fields.find? fun (f, _) => Text.camelCase f = name).map (·.1)

/-- The fields of a record of options. -/
def optionFields (k : RecordKind) : List (String × Json) → Except Fault (List (String × Draft))
  | [] => .ok []
  | (name, v) :: more =>
    match optionField? k name with
    | none => .error (.malformed (.unknownOption name k))
    | some f => do
      let rest ← optionFields k more
      pure ((f, ofJson v) :: rest)

/-- A record of options. -/
def optionsOf (k : RecordKind) (v : Json) : Except Fault Draft :=
  match v with
  | .object ms => do
    let fields ← optionFields k ms
    pure (make k fields)
  | v => if isTruthyJson v then .error .noMember else .ok (noOptions k)

/-- The kind of options that statements of a kind have. -/
def optionsKind (k : StmtKind) : RecordKind :=
  if k = .play then .audioOptions else .displayOptions

/-- What is wrong with a value that is not an object but should be a statement. -/
def notObject (v : Json) : Fault := .malformed (.notObject (ofJson v).typeName)

mutual

/-- A statement. -/
def loaded (v : Json) : Except Fault Draft :=
  match v with
  | .object ms => do
    let k ← kindOf ms
    match Json.member? "id" ms with
    | some id => if !isTruthyJson id then .error (.malformed (.noIdentity k)) else pure ()
    | none => .error (.malformed (.noIdentity k))
    let given ← loadedFields k ms (RecordKind.stmt k).fields
    let given := if k = .dialogue && (field? "speaker" given).isNone then
      ("speaker", .null) :: given else given
    match lacking (.stmt k) given with
    | [] => pure (make (.stmt k) given)
    | names => .error (.malformed (.missing k names))
  | v => .error (notObject v)
termination_by (sizeOf v, 0)
decreasing_by
  apply Prod.Lex.left
  simp only [Json.object.sizeOf_spec]
  omega

/-- The fields of a statement that its object has. -/
def loadedFields (k : StmtKind) (ms : List (String × Json)) (fs : List (String × FieldStart)) :
    Except Fault (List (String × Draft)) :=
  match fs with
  | [] => .ok []
  | (name, _) :: more =>
    match _h : Json.member? (Text.camelCase name) ms with
    | none => loadedFields k ms more
    | some v => do
      let d ← loadedField k name v
      let rest ← loadedFields k ms more
      pure ((name, d) :: rest)
termination_by (sizeOf ms, fs.length)
decreasing_by
  · apply Prod.Lex.right; simp only [List.length_cons]; omega
  · apply Prod.Lex.left; exact Json.sizeOf_of_member? _h
  · apply Prod.Lex.right; simp only [List.length_cons]; omega

/-- The value of a statement's field. -/
def loadedField (k : StmtKind) (name : String) (v : Json) : Except Fault Draft :=
  match name with
  | "body" => (loadedBlock v).map .list
  | "choices" => (loadedChoices v).map .list
  | "branches" => (loadedBranches v).map .list
  | "options" => optionsOf (optionsKind k) v
  | _ => .ok (ofJson v)
termination_by (sizeOf v, 2)
decreasing_by
  all_goals apply Prod.Lex.right; omega

/-- The statements of a block; a value that counts as false is an empty block. -/
def loadedBlock (v : Json) : Except Fault (List Draft) :=
  match v with
  | .list items => loadedAll items
  | .object ms => if ms.isEmpty then .ok [] else .error (notObject (.text ""))
  | .text s => if s = "" then .ok [] else .error (notObject (.text s))
  | v => if isTruthyJson v then .error .wrongType else .ok []
termination_by (sizeOf v, 1)
decreasing_by
  apply Prod.Lex.left
  simp only [Json.list.sizeOf_spec]
  omega

/-- Several statements. -/
def loadedAll (items : List Json) : Except Fault (List Draft) :=
  match items with
  | [] => .ok []
  | v :: more => do
    let d ← loaded v
    let ds ← loadedAll more
    pure (d :: ds)
termination_by (sizeOf items, 0)
decreasing_by
  all_goals
    apply Prod.Lex.left
    simp only [List.cons.sizeOf_spec]
    omega

/-- The choices of a menu. -/
def loadedChoices (v : Json) : Except Fault (List Draft) :=
  match v with
  | .list items => loadedChoiceItems items
  | .object [] => .ok []
  | .text "" => .ok []
  | _ => .error .wrongType
termination_by (sizeOf v, 1)
decreasing_by
  apply Prod.Lex.left
  simp only [Json.list.sizeOf_spec]
  omega

/-- Several choices. -/
def loadedChoiceItems (items : List Json) : Except Fault (List Draft) :=
  match items with
  | [] => .ok []
  | .object ms :: more =>
    match Json.member? "text" ms with
    | none => .error .noKey
    | some said => do
      let body ← loadedBody ms
      let ds ← loadedChoiceItems more
      pure (make .choice
        [("text", ofJson said), ("body", .list body),
         ("condition", ofJson ((Json.member? "condition" ms).getD .null)),
         ("line", ofJson ((Json.member? "line" ms).getD .null))] :: ds)
  | _ :: _ => .error .wrongType
termination_by (sizeOf items, 0)
decreasing_by
  · apply Prod.Lex.left
    simp only [List.cons.sizeOf_spec, Json.object.sizeOf_spec]
    omega
  · apply Prod.Lex.left
    simp only [List.cons.sizeOf_spec]
    omega

/-- The branches of a conditional. -/
def loadedBranches (v : Json) : Except Fault (List Draft) :=
  match v with
  | .list items => loadedBranchItems items
  | .object ms => if ms.isEmpty then .ok [] else .error .noMember
  | .text s => if s = "" then .ok [] else .error .noMember
  | _ => .error .wrongType
termination_by (sizeOf v, 1)
decreasing_by
  apply Prod.Lex.left
  simp only [Json.list.sizeOf_spec]
  omega

/-- Several branches. -/
def loadedBranchItems (items : List Json) : Except Fault (List Draft) :=
  match items with
  | [] => .ok []
  | .object ms :: more => do
    let body ← loadedBody ms
    let ds ← loadedBranchItems more
    pure (make .branch
      [("condition", ofJson ((Json.member? "condition" ms).getD .null)), ("body", .list body),
       ("line", ofJson ((Json.member? "line" ms).getD .null))] :: ds)
  | _ :: _ => .error .noMember
termination_by (sizeOf items, 0)
decreasing_by
  · apply Prod.Lex.left
    simp only [List.cons.sizeOf_spec, Json.object.sizeOf_spec]
    omega
  · apply Prod.Lex.left
    simp only [List.cons.sizeOf_spec]
    omega

/-- The body of a choice or branch. -/
def loadedBody (ms : List (String × Json)) : Except Fault (List Draft) :=
  match _h : Json.member? "body" ms with
  | none => .ok []
  | some v => loadedBlock v
termination_by (sizeOf ms, 0)
decreasing_by
  apply Prod.Lex.left
  exact Json.sizeOf_of_member? _h

end

-- ============================================================ scripts

/-- The time of reading that a script tells, or the present one. -/
def loadedTime (now : Timestamp) (v : Option Json) : Except Fault Timestamp :=
  match v with
  | none => .ok now
  | some v =>
    if !isTruthyJson v then .ok now
    else match v with
      | .text s => match Timestamp.read? s with
        | some t => .ok t
        | none => .error (.malformed (.badTime (Text.shown s)))
      | _ => .error .wrongType

/-- Where a script comes from. -/
def loadedMetadata (now : Timestamp) (v : Option Json) : Except Fault Draft :=
  let members : Except Fault (List (String × Json)) := match v with
    | some (.object ms) => .ok ms
    | some v => if isTruthyJson v then .error .noMember else .ok []
    | none => .ok []
  do
    let ms ← members
    let version := match Json.member? "version" ms with
      | some v => if isTruthyJson v then ofJson v else .text formatVersion
      | none => .text formatVersion
    let time ← loadedTime now (Json.member? "parseTime" ms)
    pure (.record .metadata
      [("file_path", ofJson ((Json.member? "filePath" ms).getD (.text ""))),
       ("parse_time", .moment time), ("version", version)])

/-- A script. -/
def loadedScript (now : Timestamp) (v : Json) : Except Fault Draft :=
  match v with
  | .object ms => do
    let m ← loadedMetadata now (Json.member? "metadata" ms)
    let statements ← loadedBlock ((Json.member? "statements" ms).getD .null)
    pure (.record .script [("statements", .list statements), ("metadata", m)])
  | _ => .error .noMember

-- ================================================================ checked

/-- All that breaks the format of saved scripts, as long as the value can be followed. -/
def violations (v : Json) : Except Fault (List Violation) :=
  match Schema.excess? v with
  | some e => .error (.excess e)
  | none => .ok (Schema.scriptViolations v)

/-- Refuses a value that breaks the format of saved scripts. -/
def check (v : Json) : Except Fault Unit := do
  match Schema.foremost? (← violations v) with
  | some e => .error (.malformed (.rule e.pointer e.message))
  | none => pure ()

/-- A script from a JSON value, checked first if that is asked for. -/
def loadScript (now : Timestamp) (validate : Bool) (v : Json) : Except Fault Draft := do
  if validate then check v
  loadedScript now v

/-- A script from JSON text. -/
def loadText (now : Timestamp) (validate : Bool) (text : String) : Except Fault Draft := do
  loadScript now validate (← (Json.load text).mapError Fault.ofLoadError)

end NovelScript.Draft
