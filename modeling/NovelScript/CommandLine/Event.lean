/-
What a command logs about its work when it is asked to be verbose: the
settings it loaded, what it found in the lines of a script, what it read and
what it wrote. The events of a reading are told from what was read, so logging
never changes the work.
-/
import NovelScript.Json.Writer
import NovelScript.Settings

namespace NovelScript

/-- Something that is logged. -/
inductive Event where
  /-- Settings were loaded from a file. -/
  | loaded (path : String) (settings : Settings)
  /-- A line has an indentation of its own width. -/
  | dedent (line width depth : Nat)
  /-- Lines were told apart. -/
  | scanned (lines diagnostics : Nat)
  /-- A script was read. -/
  | parsed (file : String) (statements diagnostics : Nat)
  /-- A script was written. -/
  | written (lines statements : Nat)

/-- Settings as the log shows them. -/
def Settings.shown (s : Settings) : String :=
  "EngineConfig(tab_size=" ++ s.tabSize.shown ++ ", indent_size=" ++ s.indentSize.shown ++
    ", insert_blank_lines=" ++ s.insertBlankLines.shown ++ ", format_version=" ++
    s.formatVersion.shown ++ ")"

namespace Event

/-- The part of the program that an event comes from. -/
def origin : Event → String
  | loaded .. => "config"
  | dedent .. | scanned .. => "scanner"
  | parsed .. => "parser"
  | written .. => "generator"

/-- The wording of an event. -/
def message : Event → String
  | loaded path settings => "loaded config from " ++ path ++ ": " ++ settings.shown
  | dedent line width depth =>
    "line " ++ toString line ++ ": inconsistent dedent to " ++ toString width ++
      ", kept at depth " ++ toString depth
  | scanned lines diagnostics =>
    "scanned " ++ toString lines ++ " logical lines, " ++ toString diagnostics ++ " diagnostics"
  | parsed file statements diagnostics =>
    "parsed " ++ (if file = "" then "<string>" else file) ++ ": " ++ toString statements ++
      " top-level statements, " ++ toString diagnostics ++ " diagnostics"
  | written lines statements =>
    "generated " ++ toString lines ++ " lines from " ++ toString statements ++
      " top-level statements"

/-- The line of the log. -/
def text (e : Event) : String := "DEBUG rpyscript." ++ e.origin ++ ": " ++ e.message ++ "\n"

/-- The event of a diagnostic of an indentation, among the lines that were told apart. -/
def ofDedent (lines : List Line) (d : Diagnostic) : List Event :=
  (lines.filter (·.number = d.line)).map fun l => dedent l.number l.indent l.depth

/-- The events of reading a script. -/
def ofReading (tabSize : Int) (source : String) (p : Parsed) : List Event :=
  let (lines, odd) := Source.scan tabSize source
  odd.flatMap (ofDedent lines) ++
    [scanned lines.length odd.length,
     parsed p.script.metadata.filePath p.script.statements.length p.diagnostics.length]

end Event

end NovelScript
