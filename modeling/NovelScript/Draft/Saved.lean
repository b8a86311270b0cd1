/-
Saving drafts. A statement becomes an object with its kind, its identity, its
fields by their capitalised names and its line.

# What is left out

Fields that are absent are left out: nothing, empty texts and lists, and options
that say nothing. Texts that a statement cannot do without are kept even when
they are empty (`keptWhenEmpty`); names are not among these, and an empty name
is left out like any other. A flag that is not raised is kept, as it may be
unsaid as well.

# What is taken over

What a field holds is taken over as it is; as JSON it can only be written if no
record and no point in time is among it. A record where none should be is found
only then, so saving a draft and writing what was saved are two steps with
faults of their own. Neither has a bound on how deep drafts are nested or on how
many digits an integer has.
-/
import NovelScript.Draft.Basic
import NovelScript.Json.Writer
import NovelScript.Text.Lines

namespace NovelScript.Draft

/-- The fields whose text is kept even when it is empty. -/
def keptWhenEmpty : List String := ["text", "content", "code", "value", "file"]

/-- The member that a field without statements becomes, if any. -/
def savedField (name : String) (d : Draft) : List (String × Draft) :=
  if d.isNull || (d.isAbsent && !keptWhenEmpty.contains name) then []
  else [(Text.camelCase name, d)]

/-- The members that a record of options becomes. -/
def savedOptions (fields : List (String × Draft)) : List (String × Draft) :=
  (fields.filter fun (_, d) => !d.isAbsent).map fun (name, d) => (Text.camelCase name, d)

/-- The members that the named fields of a choice or branch become; its text is always kept. -/
def savedParts (fields : List (String × Draft)) : List String → Except Fault (List (String × Draft))
  | [] => .ok []
  | name :: more =>
    match field? name fields with
    | none => .error .noMember
    | some d => do
      let rest ← savedParts fields more
      pure (if d.isAbsent && name ≠ "text" then rest else (name, d) :: rest)

mutual

/-- A statement as an object. -/
def saved : Draft → Except Fault Draft
  | .record (.stmt k) fields => do
    let id ← (Draft.record (.stmt k) fields).get "id"
    let own ← savedFields fields
    let line ← (Draft.record (.stmt k) fields).get "line"
    pure (.object (("type", .text k.word) :: ("id", id) :: own ++
      if line.isNull then [] else [("line", line)]))
  | _ => .error .noMember

/-- The members that the fields of a statement become, its identity and its line left out. -/
def savedFields : List (String × Draft) → Except Fault (List (String × Draft))
  | [] => .ok []
  | (name, d) :: more => do
    let own ← match name, d with
      | "id", _ => pure []
      | "line", _ => pure []
      | "body", .list items => do pure [("body", .list (← savedAll items))]
      | "choices", .list items =>
        do pure [("choices", .list (← savedSections ["text", "condition", "line"] items))]
      | "branches", .list items =>
        do pure [("branches", .list (← savedSections ["condition", "line"] items))]
      | "options", .record _ fields =>
        pure (if (savedOptions fields).isEmpty then []
          else [("options", .object (savedOptions fields))])
      | _, d => pure (savedField name d)
    let rest ← savedFields more
    pure (own ++ rest)

/-- Statements as objects. -/
def savedAll : List Draft → Except Fault (List Draft)
  | [] => .ok []
  | d :: more => do
    let v ← saved d
    let vs ← savedAll more
    pure (v :: vs)

/-- Choices or branches as objects, with the named fields before the body. -/
def savedSections (names : List String) : List Draft → Except Fault (List Draft)
  | [] => .ok []
  | .record _ fields :: more => do
    let parts ← savedParts fields names
    let body ← savedBody fields
    let rest ← savedSections names more
    pure (.object (parts ++ [("body", .list body)]) :: rest)
  | _ :: _ => .error .noMember

/-- The body among the fields of a choice or branch. -/
def savedBody : List (String × Draft) → Except Fault (List Draft)
  | [] => .error .noMember
  | (name, d) :: more =>
    if name = "body" then match d with
      | .list items => savedAll items
      | _ => .error .wrongType
    else savedBody more

end

/-- A script as an object. -/
def savedScript : Draft → Except Fault Draft
  | .record .script fields => do
    let m ← (Draft.record .script fields).get "metadata"
    let path ← m.get "file_path"
    let time ← match ← m.get "parse_time" with
      | .moment t => pure t.text
      | _ => .error .noMember
    let version ← m.get "version"
    let statements ← match field? "statements" fields with
      | some (.list items) => savedAll items
      | _ => .error .noMember
    pure (.object
      [("type", .text "script"),
       ("metadata",
        .object [("filePath", path), ("parseTime", .text time), ("version", version)]),
       ("statements", .list statements)])
  | _ => .error .noMember

/-- A script or statement as a JSON value. -/
def savedJson (d : Draft) : Except Fault Json := do
  let o ← match d with
    | .record .script _ => savedScript d
    | _ => saved d
  o.toJson

/-- How a JSON text is laid out with a given indentation: on one line if there is none, else with so
many spaces for each level. -/
def jsonLayout (indent : Json) : Except Fault Json.Layout :=
  match indent, indent.size? with
  | .null, _ => .ok .line
  | _, some n => (padRoom n).map fun _ => .block n.toNat
  | _, none => .error .wrongType

/-- The JSON text of a script or statement. -/
def savedText (indent : Json) (d : Draft) : Except Fault String := do
  let v ← savedJson d
  pure (v.written (← jsonLayout indent))

end NovelScript.Draft
