/-
Drafts: trees that nobody has checked. A script that was loaded without
validation, or put together by hand, may hold any value in any field, so a
draft is a tree of values and records whose fields hold drafts. Every record
holds all the fields of its kind, in order.

A message shows a record by its title and all its fields; a text is shown in
quotes, except where a draft is put into a line as it is.
-/
import NovelScript.Draft.Fault
import NovelScript.Json.Writer
import NovelScript.Script

namespace NovelScript

/-- A value, or a record with named fields. -/
inductive Draft where
  /-- Nothing. -/
  | null
  /-- A truth value. -/
  | bool (b : Bool)
  /-- A number. -/
  | number (n : Number)
  /-- A text. -/
  | text (s : String)
  /-- A point in time. -/
  | moment (t : Timestamp)
  /-- A list. -/
  | list (items : List Draft)
  /-- An object that is no record. -/
  | object (members : List (String × Draft))
  /-- A record. -/
  | record (kind : RecordKind) (fields : List (String × Draft))
deriving Inhabited

namespace Draft

-- ============================================================= values

mutual

/-- A JSON value as a draft. -/
def ofJson : Json → Draft
  | .null => .null
  | .bool b => .bool b
  | .number n => .number n
  | .text s => .text s
  | .list items => .list (ofJsonItems items)
  | .object members => .object (ofJsonMembers members)

/-- The items of a JSON list as drafts. -/
def ofJsonItems : List Json → List Draft
  | [] => []
  | v :: more => ofJson v :: ofJsonItems more

/-- The members of a JSON object as drafts. -/
def ofJsonMembers : List (String × Json) → List (String × Draft)
  | [] => []
  | (n, v) :: more => (n, ofJson v) :: ofJsonMembers more

end

mutual

/-- A draft without records as a JSON value. -/
def toJson : Draft → Except Fault Json
  | .null => .ok .null
  | .bool b => .ok (.bool b)
  | .number n => .ok (.number n)
  | .text s => .ok (.text s)
  | .list items => (toJsonItems items).map .list
  | .object members => (toJsonMembers members).map .object
  | .moment _ | .record .. => .error .wrongType

/-- Drafts without records as JSON values. -/
def toJsonItems : List Draft → Except Fault (List Json)
  | [] => .ok []
  | d :: more => do
    let v ← toJson d
    let vs ← toJsonItems more
    pure (v :: vs)

/-- Named drafts without records as members of a JSON object. -/
def toJsonMembers : List (String × Draft) → Except Fault (List (String × Json))
  | [] => .ok []
  | (n, d) :: more => do
    let v ← toJson d
    let vs ← toJsonMembers more
    pure ((n, v) :: vs)

end

/-- The name that messages have for the type of a value. -/
def typeName : Draft → String
  | .null => "NoneType"
  | .bool _ => "bool"
  | .number (.int _) => "int"
  | .number (.double _) => "float"
  | .text _ => "str"
  | .moment _ => "datetime"
  | .list _ => "list"
  | .object _ => "dict"
  | .record k _ => k.title

/-- Whether a value counts as true: nothing, zero and what is empty do not. -/
def isTruthy : Draft → Bool
  | .null => false
  | .bool b => b
  | .number (.int i) => i ≠ 0
  | .number (.double d) => d.isNonzero
  | .text s => s ≠ ""
  | .list items => !items.isEmpty
  | .object members => !members.isEmpty
  | .moment _ | .record .. => true

/-- Whether a JSON value counts as true. -/
def isTruthyJson (v : Json) : Bool := (ofJson v).isTruthy

/-- Whether a value stands for a field that was left out: nothing, an empty text or an empty list. -/
def isAbsent : Draft → Bool
  | .null => true
  | .text s => s = ""
  | .list items => items.isEmpty
  | _ => false

/-- Whether a value is nothing at all. -/
def isNull : Draft → Bool
  | .null => true
  | _ => false

-- ============================================================ records

/-- The field of a row of fields; nothing if it is not there. -/
def field? (name : String) : List (String × Draft) → Option Draft
  | [] => none
  | (n, d) :: more => if n = name then some d else field? name more

/-- The field of a record. -/
def get (name : String) : Draft → Except Fault Draft
  | .record _ fields => match field? name fields with
    | some d => .ok d
    | none => .error .noMember
  | _ => .error .noMember

/-- A record of options in which nothing is said. -/
def noOptions (k : RecordKind) : Draft := .record k (k.fields.map fun (n, _) => (n, .null))

/-- What a field holds if nothing is said. -/
def starting : FieldStart → Draft
  | .required | .absent => .null
  | .emptyList => .list []
  | .text s => .text s
  | .options k => noOptions k

/-- The required fields of a kind that a row of fields lacks. -/
def lacking (k : RecordKind) (given : List (String × Draft)) : List String :=
  (k.fields.filter fun (n, start) => start = .required && (field? n given).isNone).map (·.1)

/-- A record with the given fields; the others hold what they begin with. -/
def make (k : RecordKind) (given : List (String × Draft)) : Draft :=
  .record k (k.fields.map fun (n, start) => (n, (field? n given).getD (starting start)))

/-- The kind of a draft that is a statement. -/
def stmtKind? : Draft → Option StmtKind
  | .record (.stmt k) _ => some k
  | _ => none

/-- An integer. -/
def int (i : Int) : Draft := .number (.int i)

/-- A value that may be missing. -/
def optional {α : Type} (f : α → Draft) : Option α → Draft
  | some a => f a
  | none => .null

-- ============================================================ lengths

/-- The bound of the numbers that lengths are counted with. -/
def lengthBound : Int := (Nat.pow 2 63 : Nat)

/-- The longest indentation that is held. -/
def widestPad : Int := (Nat.pow 2 33 : Nat)

/-- Whether an indentation of a width can be made. -/
def padRoom (width : Int) : Except Fault Unit :=
  if width < -lengthBound ∨ lengthBound ≤ width then .error .tooLarge
  else if widestPad < width then .error .noRoom
  else .ok ()

-- ============================================================== marks

mutual

/-- A draft in which everything that is no number has a mark; those that had none get marks of their
own, from `next` on. -/
def marked (next : Nat) : Draft → Draft × Nat
  | .number (.double (.nan 0)) => (.number (.double (.nan next)), next + 1)
  | .list items =>
    let (items, next) := markedItems next items
    (.list items, next)
  | .object members =>
    let (members, next) := markedMembers next members
    (.object members, next)
  | .record k fields =>
    let (fields, next) := markedMembers next fields
    (.record k fields, next)
  | d => (d, next)

/-- Drafts with marks. -/
def markedItems (next : Nat) : List Draft → List Draft × Nat
  | [] => ([], next)
  | d :: more =>
    let (d, next) := marked next d
    let (more, next) := markedItems next more
    (d :: more, next)

/-- Named drafts with marks. -/
def markedMembers (next : Nat) : List (String × Draft) → List (String × Draft) × Nat
  | [] => ([], next)
  | (n, d) :: more =>
    let (d, next) := marked next d
    let (more, next) := markedMembers next more
    ((n, d) :: more, next)

end

-- =============================================================== messages

mutual

/-- A draft as a message shows it. -/
def shown : Draft → String
  | .null => Json.shownNull
  | .bool b => Json.shownBool b
  | .number n => n.text
  | .text s => Text.shown s
  | .moment t => t.shown
  | .list items => "[" ++ String.intercalate ", " (shownItems items) ++ "]"
  | .object members => "\x7b" ++ String.intercalate ", " (shownMembers members) ++ "\x7d"
  | .record k fields => k.title ++ "(" ++ String.intercalate ", " (shownFields fields) ++ ")"

/-- The items of a list as a message shows them. -/
def shownItems : List Draft → List String
  | [] => []
  | d :: more => shown d :: shownItems more

/-- The members of an object as a message shows them. -/
def shownMembers : List (String × Draft) → List String
  | [] => []
  | (n, d) :: more => (Text.shown n ++ ": " ++ shown d) :: shownMembers more

/-- The fields of a record as a message shows them. -/
def shownFields : List (String × Draft) → List String
  | [] => []
  | (n, d) :: more => (n ++ "=" ++ shown d) :: shownFields more

end

/-- A draft as it is put into a line: a text as it is, everything else as a message shows it. -/
def inLine : Draft → String
  | .text s => s
  | .moment t => t.textWith " "
  | d => d.shown

end Draft

end NovelScript
