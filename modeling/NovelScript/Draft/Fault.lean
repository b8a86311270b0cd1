/-
What can go wrong with a draft or with a saved script, by cause. The wording of
each cause stands beside it; causes without wording only have a name.

The causes fall into groups. A saved script may be malformed (`FormatError`), at
a place that the message names. Arguments may make no sense (`Refusal`). What is
written may have no image for its attributes, or be beyond a bound. The others
are what happens when a value is used for what it is not: it has no such member,
is of the wrong type, is no number of whole steps. They are told apart as far as
a program can tell them apart, by the name of the cause, and have no wording of
the library's own.
-/
import NovelScript.Draft.Kind
import NovelScript.Json.Bound
import NovelScript.Text.Shown
import NovelScript.Written.Outline

namespace NovelScript

/-- Why a saved script or statement is malformed. -/
inductive FormatError where
  /-- A statement is not an object but a value of the named type. -/
  | notObject (type : String)
  /-- The kind of a statement is not known. -/
  | unknownKind (shownKind : String)
  /-- A statement has no identity. -/
  | noIdentity (k : StmtKind)
  /-- A record of options has no such field. -/
  | unknownOption (name : String) (k : RecordKind)
  /-- A statement lacks required fields. -/
  | missing (k : StmtKind) (names : List String)
  /-- The time of reading is none. -/
  | badTime (shownTime : String)
  /-- The text is no JSON. -/
  | json (e : Json.ReadError)
  /-- The value breaks a rule of the format. -/
  | rule (path message : String)
deriving DecidableEq, Repr

namespace FormatError

/-- The names of missing fields as a message lists them. -/
def listed : List String → String
  | [] => ""
  | [a] => "'" ++ a ++ "'"
  | [a, b] => "'" ++ a ++ "' and '" ++ b ++ "'"
  | names => String.intercalate ", " (names.dropLast.map fun n => "'" ++ n ++ "'") ++ ", and '" ++
      names.getLastD "" ++ "'"

/-- What a message says about missing fields. -/
def missingText (k : StmtKind) (names : List String) : String :=
  k.title ++ ".__init__() missing " ++ toString names.length ++ " required positional argument" ++
    (if names.length = 1 then "" else "s") ++ ": " ++ listed names

/-- The place in the value that the error speaks of. -/
def path : FormatError → String
  | badTime _ => "/metadata/parseTime"
  | rule p _ => p
  | _ => ""

/-- The wording without the place. -/
def detail : FormatError → String
  | notObject type => "node must be an object, got " ++ type
  | unknownKind k => "unknown node type " ++ k
  | noIdentity k => k.word ++ " node has no id"
  | unknownOption name k => "unknown option " ++ Text.shown name ++ " for " ++ k.title
  | missing k names => k.word ++ " node is missing fields (" ++ missingText k names ++ ")"
  | badTime t => "bad parseTime " ++ t
  | json e => e.message
  | rule _ m => m

/-- The wording. -/
def message (e : FormatError) : String :=
  if e.path = "" then e.detail else e.path ++ ": " ++ e.detail

end FormatError

/-- Why a statement cannot be made from its arguments. -/
inductive Refusal where
  /-- A field needs a number. -/
  | number (field shownValue : String)
  /-- An image has no name. -/
  | image
  /-- A place in an order is not an integer. -/
  | zorder (shownValue : String)
  /-- A sound channel is not known. -/
  | channel (shownValue : String)
  /-- A conditional has no branch. -/
  | noBranch
  /-- The first branch of a conditional has no condition. -/
  | noCondition
  /-- A continued line has a speaker. -/
  | extendedSpeaker
  /-- Narration has attributes. -/
  | narration
  /-- An operator is not known. -/
  | operator (shownValue : String)
  /-- An action of the text page is not known. -/
  | nvl (shownValue : String)
deriving DecidableEq, Repr

/-- The wording of a refusal. -/
def Refusal.message : Refusal → String
  | number field v => field ++ " must be a number, got " ++ v
  | image => "image name is required"
  | zorder v => "zorder must be an integer, got " ++ v
  | channel v => "unknown audio channel: " ++ v
  | noBranch => "if statement needs at least one branch"
  | noCondition => "first branch of an if statement must have a condition"
  | extendedSpeaker => "extend dialogue continues the previous speaker; speaker must be None"
  | narration => "attributes need a speaker or extend; narration has no image to change"
  | operator v => "unsupported assignment operator: " ++ v
  | nvl v => "unknown nvl action: " ++ v

/-- What can go wrong with a draft. -/
inductive Fault where
  /-- A value has a type that cannot be used where it stands. -/
  | wrongType
  /-- A value has no field of the name that was asked for. -/
  | noMember
  /-- An object has no member of the name that was asked for. -/
  | noKey
  /-- A list has no item at the place that was asked for. -/
  | noIndex
  /-- A number is too large to be compared or measured with. -/
  | tooLarge
  /-- A text would be too long to be held. -/
  | noRoom
  /-- A text or a value has too much of something. -/
  | excess (e : Excess)
  /-- A text is no number. -/
  | notNumeral (text : String)
  /-- A value is no literal. -/
  | notLiteral (shownValue : String)
  /-- A statement cannot be made. -/
  | refused (why : Refusal)
  /-- A draft cannot be written. -/
  | unwritable (why : WriteError)
  /-- A saved script is malformed. -/
  | malformed (why : FormatError)
deriving DecidableEq, Repr

/-- A loading error of JSON as a fault. -/
def Fault.ofLoadError : Json.LoadError → Fault
  | .malformed e => .malformed (.json e)
  | .excess e => .excess e

/-- The wording of a fault, if it has one. -/
def Fault.message? : Fault → Option String
  | excess e => e.message?
  | notNumeral text => some ("could not convert string to float: " ++ Text.shown text)
  | notLiteral v => some ("not a string literal: " ++ v)
  | refused why => some why.message
  | unwritable why => some why.message
  | malformed why => some why.message
  | _ => none

end NovelScript
