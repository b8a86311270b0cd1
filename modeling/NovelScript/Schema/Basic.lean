/-
Rules for JSON values. A schema is a row of keywords, each of which accepts or
refuses a value on its own; a keyword that does not concern the type of a value
accepts it. Every refusal tells its place, what is wrong, and whether the value
had the type that the schema of the keyword asks for.
-/
import NovelScript.Json.Writer

namespace NovelScript

/-- The types that a schema can ask for. -/
inductive JsonType where
  | object | array | string | number | integer | boolean
deriving DecidableEq, Repr

/-- The name of a type. -/
def JsonType.name : JsonType → String
  | object => "object"
  | array => "array"
  | string => "string"
  | number => "number"
  | integer => "integer"
  | boolean => "boolean"

/-- Whether a value has a type. A number without fraction is an integer however it is written, and
a truth value is no number. -/
def Json.hasType (v : Json) : JsonType → Bool
  | .object => match v with
    | .object _ => true
    | _ => false
  | .array => match v with
    | .list _ => true
    | _ => false
  | .string => match v with
    | .text _ => true
    | _ => false
  | .boolean => match v with
    | .bool _ => true
    | _ => false
  | .number => match v with
    | .number _ => true
    | _ => false
  | .integer => match v with
    | .number (.int _) => true
    | .number (.double d) => d.toInt?.isSome
    | _ => false

/-- A rule for values. -/
inductive Keyword where
  /-- The value has the type. -/
  | type (t : JsonType)
  /-- The value is the text. -/
  | constant (s : String)
  /-- The value is one of the texts. -/
  | oneOf (ss : List String)
  /-- A text or list is not empty. -/
  | nonEmpty
  /-- A number is not below a bound. -/
  | atLeast (n : Int)
  /-- A number is not above a bound. -/
  | atMost (n : Int)
  /-- A text is three numbers with points between them. -/
  | version
  /-- An object has the members. -/
  | required (names : List String)
  /-- The members of an object that are there keep their own rules. -/
  | properties (ps : List (String × List Keyword))
  /-- An object has no other members. -/
  | closed (names : List String)
  /-- The first items of a list keep a rule each. -/
  | firstItems (ss : List (List Keyword))
  /-- The items of a list from an index on keep a rule. -/
  | items (skipped : Nat) (s : List Keyword)
  /-- The items of a list keep the rule that the named definition gives. -/
  | itemsOf (definition : String)
  /-- The value keeps all these rules. -/
  | all (ss : List (List Keyword))
  /-- The value keeps the second rule if it keeps the first. -/
  | implies (condition conclusion : List Keyword)
  /-- The value keeps a rule that stands elsewhere. -/
  | also (s : List Keyword)

/-- A row of rules. -/
abbrev Schema := List Keyword

/-- A step from a value to a part of it. -/
inductive PathPart where
  /-- To the member of a name. -/
  | name (s : String)
  /-- To the item at an index. -/
  | index (i : Nat)
deriving DecidableEq, Repr

/-- The text of a step. -/
def PathPart.text : PathPart → String
  | name s => s
  | index i => toString i

/-- A rule that a value breaks. -/
structure Violation where
  /-- The way to the value. -/
  path : List PathPart
  /-- What is wrong with it. -/
  message : String
  /-- Whether it has the type that the schema of the rule asks for. -/
  typed : Bool
deriving DecidableEq, Repr

namespace Violation

/-- The way to the value, as a text. -/
def pointer (e : Violation) : String := "/" ++ String.intercalate "/" (e.path.map PathPart.text)

/-- The place and what is wrong there. -/
def report (e : Violation) : String := e.pointer ++ ": " ++ e.message

end Violation

end NovelScript
