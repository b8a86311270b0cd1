/-
The format of saved scripts and the format of settings, as schemas.

A script has a block of statements, and may have an origin with a version. The
rules for a statement are those for all of them, its kind and its identity, and
those for its kind, in a list in which each rule names the kinds that it is for.
Objects of the format are closed where it says so (`closedObject`): scripts,
settings, choices, branches and options have no other members than these, while
statements may have more.

The first branch of a conditional has a rule of its own, which asks for a
condition, and is not looked at by the rule for the others.
-/
import NovelScript.Draft.Kind
import NovelScript.Schema.Check
import NovelScript.Script

namespace NovelScript.Schema

/-- Any text. -/
def text : Schema := [.type .string]

/-- A text that is not empty. -/
def name : Schema := [.type .string, .nonEmpty]

/-- A truth value. -/
def flag : Schema := [.type .boolean]

/-- A number. -/
def number : Schema := [.also [.type .number]]

/-- The number of a line. -/
def line : Schema := [.type .integer, .atLeast 1]

/-- A list of texts. -/
def texts : Schema := [.also [.type .array, .items 0 text]]

/-- A version. -/
def versionText : Schema := [.type .string, .version]

/-- A list of statements. -/
def block : Schema := [.also [.type .array, .itemsOf "node"]]

/-- A sound channel. -/
def channel : Schema := [.also [.oneOf channels]]

/-- An object with some members and no others. -/
def closedObject (required : List String) (ps : List (String × Schema)) : Schema :=
  [.type .object] ++ (if required.isEmpty then [] else [.required required]) ++
    [.properties ps, .closed (ps.map (·.1))]

/-- The clauses of a display statement. -/
def displayOptions : Schema :=
  closedObject [] [("attributes", texts), ("asTag", text), ("atPosition", text), ("behind", text),
    ("layer", text), ("zorder", [.type .integer]), ("transition", text)]

/-- The clauses of a sound statement. -/
def audioOptions : Schema :=
  closedObject [] [("fadeIn", number), ("fadeOut", number), ("volume", number), ("loop", flag),
    ("queue", flag), ("ifChanged", flag)]

/-- A choice of a menu. -/
def choice : Schema :=
  closedObject ["text", "body"]
    [("text", text), ("condition", text), ("body", block), ("line", line)]

/-- A branch of a conditional. -/
def branch : Schema :=
  closedObject ["body"] [("condition", text), ("body", block), ("line", line)]

/-- The rules for the statements of some kinds, beside those for all statements. -/
def kindRules : List (List String × Schema) :=
  [(["label"],
    [.required ["name", "body"],
     .properties [("name", name), ("parameters", texts), ("body", block)]]),
   (["dialogue"],
    [.required ["text"],
     .properties [("speaker", text), ("text", text), ("attributes", texts), ("transition", text),
       ("extend", flag), ("arguments", texts)]]),
   (["menu"],
    [.required ["choices"],
     .properties [("choices", [.type .array, .items 0 choice]), ("prompt", text),
       ("promptSpeaker", text), ("setVar", text), ("screen", text), ("name", text)]]),
   (["scene", "show", "hide"],
    [.required ["image"], .properties [("image", name), ("options", displayOptions)]]),
   (["with"], [.required ["transition"], .properties [("transition", name)]]),
   (["jump"], [.required ["target"], .properties [("target", name), ("expression", flag)]]),
   (["call"],
    [.required ["target"],
     .properties [("target", name), ("arguments", texts), ("expression", flag),
       ("fromLabel", text)]]),
   (["return"], [.properties [("value", text)]]),
   (["if"],
    [.required ["branches"],
     .properties [("branches",
       [.type .array, .nonEmpty, .firstItems [[.required ["condition"]]], .items 1 branch])]]),
   (["set"],
    [.required ["variable", "value"],
     .properties [("variable", name), ("operator", [.oneOf assignOperators]), ("value", text)]]),
   (["python"],
    [.required ["code"],
     .properties [("code", text), ("early", flag), ("hide", flag), ("init", flag)]]),
   (["define"],
    [.required ["name", "value"],
     .properties [("name", name), ("value", text), ("store", text)]]),
   (["default"],
    [.required ["name", "value"], .properties [("name", name), ("value", text)]]),
   (["play"],
    [.required ["channel", "file"],
     .properties [("channel", channel), ("file", text), ("options", audioOptions)]]),
   (["stop"],
    [.required ["channel"], .properties [("channel", channel), ("fadeOut", number)]]),
   (["pause"], [.properties [("duration", number)]]),
   (["nvl"], [.required ["action"], .properties [("action", [.oneOf nvlActions])]]),
   (["raw"], [.required ["content"], .properties [("content", text)]])]

/-- Whether a statement is of one of some kinds. -/
def isOfKind : List String → Schema
  | [k] => [.properties [("type", [.constant k])]]
  | ks => [.properties [("type", [.oneOf ks])]]

/-- A statement. -/
def node : Schema :=
  [.type .object,
   .required ["type", "id"],
   .properties [("type", [.oneOf (StmtKind.all.map StmtKind.word)]), ("id", name), ("line", line)],
   .all (kindRules.map fun (ks, s) => [.implies (isOfKind ks) [.also s]])]

/-- The definitions that schemas refer to. -/
def definitions : String → Schema
  | "node" => [.also node]
  | _ => []

/-- A saved script. -/
def script : Schema :=
  closedObject ["type", "statements"]
    [("type", [.constant "script"]),
     ("metadata", [.also (closedObject []
       [("filePath", text), ("parseTime", text), ("version", versionText)])]),
     ("statements", block)]

/-- Settings. -/
def settings : Schema :=
  closedObject []
    [("tabSize", [.type .integer, .atLeast 1, .atMost 16]),
     ("indentSize", [.type .integer, .atLeast 1, .atMost 16]),
     ("insertBlankLines", flag), ("formatVersion", versionText)]

/-- All violations of the format of saved scripts. -/
def scriptViolations (v : Json) : List Violation := violations definitions [] script v

/-- All violations of the format of settings. -/
def settingsViolations (v : Json) : List Violation := violations definitions [] settings v

end NovelScript.Schema
