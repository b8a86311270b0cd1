/-
The kinds of records in a draft and the fields of each, in the order in which
they are written, shown and compared.

These tables are what saving, loading, comparing and making have in common. A
statement has its identity in front of its own fields and its line behind them.
A field that is not required has a value to begin with: nothing, no statements,
or options that say nothing. A kind has a word by which saved statements tell
it, and a title that messages use; scripts, choices, branches and options are
records as well, without a word, since what they are is told by where they
stand.
-/
namespace NovelScript

/-- The kinds of statements. -/
inductive StmtKind where
  | label | dialogue | menu | scene | reveal | hide | transition | jump | call | giveBack
  | conditional | assign | code | define | default | play | stop | pause | nvl | raw
deriving DecidableEq, Repr, Inhabited

namespace StmtKind

/-- All kinds of statements. -/
def all : List StmtKind :=
  [label, dialogue, menu, scene, reveal, hide, transition, jump, call, giveBack,
   conditional, assign, code, define, default, play, stop, pause, nvl, raw]

/-- The word by which a saved statement tells its kind. -/
def word : StmtKind → String
  | label => "label"
  | dialogue => "dialogue"
  | menu => "menu"
  | scene => "scene"
  | reveal => "show"
  | hide => "hide"
  | transition => "with"
  | jump => "jump"
  | call => "call"
  | giveBack => "return"
  | conditional => "if"
  | assign => "set"
  | code => "python"
  | define => "define"
  | default => "default"
  | play => "play"
  | stop => "stop"
  | pause => "pause"
  | nvl => "nvl"
  | raw => "raw"

/-- The kind with a word. -/
def ofWord? (w : String) : Option StmtKind := all.find? (·.word = w)

/-- The title by which messages call a statement. -/
def title : StmtKind → String
  | label => "LabelStmt"
  | dialogue => "DialogueStmt"
  | menu => "MenuStmt"
  | scene => "SceneStmt"
  | reveal => "ShowStmt"
  | hide => "HideStmt"
  | transition => "WithStmt"
  | jump => "JumpStmt"
  | call => "CallStmt"
  | giveBack => "ReturnStmt"
  | conditional => "IfStmt"
  | assign => "SetStmt"
  | code => "PythonStmt"
  | define => "DefineStmt"
  | default => "DefaultStmt"
  | play => "PlayStmt"
  | stop => "StopStmt"
  | pause => "PauseStmt"
  | nvl => "NvlStmt"
  | raw => "RawStmt"

end StmtKind

/-- The kinds of records. -/
inductive RecordKind where
  /-- A statement. -/
  | stmt (k : StmtKind)
  /-- A choice of a menu. -/
  | choice
  /-- A branch of a conditional. -/
  | branch
  /-- The clauses of a display statement. -/
  | displayOptions
  /-- The clauses of a sound statement. -/
  | audioOptions
  /-- Where a script comes from. -/
  | metadata
  /-- A script. -/
  | script
deriving DecidableEq, Repr, Inhabited

/-- What a field holds if nothing is said. -/
inductive FieldStart where
  /-- It has to be given. -/
  | required
  /-- Nothing. -/
  | absent
  /-- An empty list. -/
  | emptyList
  /-- A text. -/
  | text (s : String)
  /-- A record of options that says nothing. -/
  | options (k : RecordKind)
deriving DecidableEq, Repr

namespace RecordKind

/-- The title by which messages call a record. -/
def title : RecordKind → String
  | stmt k => k.title
  | choice => "MenuChoice"
  | branch => "IfBranch"
  | displayOptions => "DisplayOptions"
  | audioOptions => "AudioOptions"
  | metadata => "ScriptMetadata"
  | script => "Script"

/-- The fields of a statement between its identity and its line. -/
def ownFields : StmtKind → List (String × FieldStart)
  | .label => [("name", .required), ("body", .emptyList), ("parameters", .absent)]
  | .dialogue =>
    [("speaker", .required), ("text", .required), ("attributes", .absent), ("transition", .absent),
     ("extend", .absent), ("arguments", .absent)]
  | .menu =>
    [("choices", .emptyList), ("prompt", .absent), ("prompt_speaker", .absent),
     ("set_var", .absent), ("screen", .absent), ("name", .absent)]
  | .scene | .reveal | .hide => [("image", .required), ("options", .options .displayOptions)]
  | .transition => [("transition", .required)]
  | .jump => [("target", .required), ("expression", .absent)]
  | .call =>
    [("target", .required), ("arguments", .absent), ("expression", .absent),
     ("from_label", .absent)]
  | .giveBack => [("value", .absent)]
  | .conditional => [("branches", .emptyList)]
  | .assign => [("variable", .required), ("value", .required), ("operator", .text "=")]
  | .code => [("code", .required), ("early", .absent), ("hide", .absent), ("init", .absent)]
  | .define => [("name", .required), ("value", .required), ("store", .absent)]
  | .default => [("name", .required), ("value", .required)]
  | .play => [("channel", .required), ("file", .required), ("options", .options .audioOptions)]
  | .stop => [("channel", .required), ("fade_out", .absent)]
  | .pause => [("duration", .absent)]
  | .nvl => [("action", .required)]
  | .raw => [("content", .required)]

/-- The fields of a record, in order. -/
def fields : RecordKind → List (String × FieldStart)
  | stmt k => ("id", .required) :: ownFields k ++ [("line", .absent)]
  | choice =>
    [("text", .required), ("body", .emptyList), ("condition", .absent), ("line", .absent)]
  | branch => [("condition", .required), ("body", .emptyList), ("line", .absent)]
  | displayOptions =>
    [("attributes", .absent), ("as_tag", .absent), ("at_position", .absent), ("behind", .absent),
     ("layer", .absent), ("zorder", .absent), ("transition", .absent)]
  | audioOptions =>
    [("fade_in", .absent), ("fade_out", .absent), ("volume", .absent), ("loop", .absent),
     ("queue", .absent), ("if_changed", .absent)]
  | metadata => [("file_path", .required), ("parse_time", .required), ("version", .required)]
  | script => [("statements", .required), ("metadata", .required)]

/-- Whether records of a kind are statements. -/
def isStmt : RecordKind → Bool
  | stmt _ => true
  | _ => false

end RecordKind

end NovelScript
