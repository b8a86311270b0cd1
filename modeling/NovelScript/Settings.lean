/-
Settings of the engine. A settings file may leave out every key; what it gives
has to keep the format of settings and is held as it was given, so that a size
written with a fraction of zero stays one. Such a size passes the format, but
nothing can be measured or indented by it.

# Two ways in

Settings that are read from an object are checked. Settings that are changed one
by one (`override`) are not: whatever value is given is held, and only using it
shows whether it is good for anything.

# Use

Reading a source takes tab stops that can be measured with, as soon as there is
a line to measure. Writing takes an indentation. If it is a whole number of a
moderate size a script that was read is written directly; else it is written as
a draft, which looks at each indentation before it is made. Both come to the
same text.
-/
import NovelScript.Draft.Basic
import NovelScript.Json.Reader
import NovelScript.Reading.Bound
import NovelScript.Schema.Formats
import NovelScript.Script
import NovelScript.Written.Statement

namespace NovelScript

/-- Why settings cannot be used. -/
inductive SettingsError where
  /-- A value breaks a rule of the format. -/
  | rule (e : Violation)
  /-- There is no such file. -/
  | noFile (path : String)
  /-- A file is no JSON. -/
  | json (path : String) (e : Json.ReadError)
deriving DecidableEq, Repr

/-- The wording of a settings error. -/
def SettingsError.message : SettingsError → String
  | rule e => e.report
  | noFile path => "config file not found: " ++ path
  | json path e => path ++ ": " ++ e.message

/-- Settings of the engine. -/
structure Settings where
  /-- The width of a tab stop in an indentation. -/
  tabSize : Json := .int 4
  /-- Spaces for each level of written text. -/
  indentSize : Json := .int 4
  /-- Whether groups at the margin are set apart by empty lines. -/
  insertBlankLines : Json := .bool true
  /-- The version written into scripts. -/
  formatVersion : Json := .text NovelScript.formatVersion
deriving Inhabited

namespace Settings

/-- The settings as a JSON object. -/
def toJson (s : Settings) : Json :=
  .object [("tabSize", s.tabSize), ("indentSize", s.indentSize),
    ("insertBlankLines", s.insertBlankLines), ("formatVersion", s.formatVersion)]

/-- The settings that a JSON value gives. -/
def ofJson (v : Json) : Except SettingsError Settings :=
  match Schema.foremost? (Schema.settingsViolations v) with
  | some e => .error (.rule e)
  | none =>
    let base : Settings := {}
    .ok {
      tabSize := (v.get? "tabSize").getD base.tabSize
      indentSize := (v.get? "indentSize").getD base.indentSize
      insertBlankLines := (v.get? "insertBlankLines").getD base.insertBlankLines
      formatVersion := (v.get? "formatVersion").getD base.formatVersion }

/-- The settings with one of them changed, if there is one of the name. -/
def change? (s : Settings) (name : String) (v : Json) : Option Settings :=
  match name with
  | "tab_size" => some { s with tabSize := v }
  | "indent_size" => some { s with indentSize := v }
  | "insert_blank_lines" => some { s with insertBlankLines := v }
  | "format_version" => some { s with formatVersion := v }
  | _ => none

/-- The settings with some of them changed; a change to nothing changes nothing. -/
def override (s : Settings) : List (String × Json) → Except Fault Settings
  | [] => .ok s
  | (_, .null) :: more => override s more
  | (name, v) :: more => match s.change? name v with
    | some s' => override s' more
    | none => .error .wrongType

/-- The widest indentation of one level that scripts are laid out with without a further look. -/
def widestIndent : Nat := Nat.pow 2 16

/-- How scripts are laid out, if the indentation is a whole number of a moderate size. -/
def layout? (s : Settings) : Option PageLayout :=
  s.indentSize.size?.bind fun n =>
    if n.natAbs ≤ widestIndent then some ⟨n, Draft.isTruthyJson s.insertBlankLines⟩ else none

/-- The version that is written into scripts. -/
def version (s : Settings) : String :=
  match s.formatVersion with
  | .text "" => NovelScript.formatVersion
  | .text v => v
  | _ => NovelScript.formatVersion

end Settings

-- ============================================================ reading

/-- A script that was read, and what was complained about. -/
structure Parsed where
  /-- The script. -/
  script : Script
  /-- The diagnostics, in the order of their lines. -/
  diagnostics : List Diagnostic

/-- The widest tab stop that can be measured with. -/
def widestTab : Int := (Nat.pow 2 31 : Nat) - 1

/-- The tab stops that a source is measured with. What is no whole number, or one beyond the bounds,
is of no use as soon as there is a line to measure. -/
def tabStops (v : Json) (source : String) : Except Fault Int :=
  if (Source.scan 1 source).1.isEmpty then .ok 1
  else match v.size? with
    | some n => if -widestTab - 1 ≤ n ∧ n ≤ widestTab then .ok n else .error .tooLarge
    | none => .error .wrongType

/-- Reads a script at a point in time, as long as it keeps within the bounds. The numbering goes on
also if it does not. -/
def Settings.parse (s : Settings) (now : Timestamp) (numbering : Numbering) (file source : String) :
    Except Fault Parsed × Numbering :=
  match tabStops s.tabSize source with
  | .error e => (.error e, numbering)
  | .ok tabSize =>
    let (result, after) := Reading.readWithin tabSize numbering source
    ((result.mapError Fault.excess).map fun (statements, diagnostics) =>
      ⟨⟨statements, ⟨file, now, s.version⟩⟩, diagnostics⟩, after)

end NovelScript
