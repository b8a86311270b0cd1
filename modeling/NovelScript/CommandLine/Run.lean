/-
The program. It reads its arguments, looks for the file that the command works
on, loads the settings and lets the arguments override them, and then does what
the command says.

# Ends

What it can put into words ends it with a message and the code one; arguments
that cannot be used end it with the code two before anything is done. A check
that finds something wrong is no such end: it says so, and its code is one.

# Commands

Each command is a work, made of few steps: reading a text, reading a script,
writing one, printing, logging and writing to a file. They leave what they have
printed and written when they end early. No command writes to a file before the
text for it is complete, so a file is changed only if everything that makes the
text has gone well.
-/
import NovelScript.CommandLine.Invocation
import NovelScript.CommandLine.Work
import NovelScript.Digest
import NovelScript.Draft.Loaded
import NovelScript.Draft.Saved
import NovelScript.Draft.Written
import NovelScript.Json.Writer

namespace NovelScript

/-- When the program runs, and what the identities that it gives begin with. -/
structure Occasion where
  /-- The point in time. -/
  now : Timestamp
  /-- What identities begin with. -/
  stem : String

/-- What a run of the program comes to. -/
structure Outcome where
  /-- The exit code. -/
  code : Nat
  /-- What was printed. -/
  out : String
  /-- What was logged, or why nothing was done. -/
  err : String
  /-- The files afterwards. -/
  folder : Folder

-- =========================================================== settings

/-- The settings that arguments override. -/
def Settings.overrideBy (s : Settings) (o : GlobalOptions) : Settings :=
  { s with
    indentSize := o.indent.getD s.indentSize
    tabSize := o.tabSize.getD s.tabSize
    insertBlankLines := if o.noBlankLines then .bool false else s.insertBlankLines }

/-- The settings that a run goes by. -/
def GlobalOptions.settings (o : GlobalOptions) : Work Settings := do
  let path := o.config.getD ""
  let s ← Work.ofExcept id (Settings.load (← get).folder path)
  if path ≠ "" then Work.note [.loaded (Path.ofString path).text s]
  pure (s.overrideBy o)

-- =========================================================== commands

namespace Work

/-- Reads a script. -/
def parse (o : Occasion) (s : Settings) (file source : String) : Work Parsed := do
  let p ← ofExcept .fault (s.parse o.now { stem := o.stem } file source).1
  note (Event.ofReading (s.tabSize.size?.getD 1) source p)
  pure p

/-- Writes statements. -/
def write (s : Settings) (statements : List Stmt) : Work String := do
  let lines ← ofExcept .fault (s.lines statements)
  note [.written lines.length statements.length]
  pure (Written.page lines)

/-- Prints diagnostics under the name of a file. -/
def printDiagnostics (file : String) (ds : List Diagnostic) : Work Unit :=
  printLines (ds.map (·.format file))

end Work

namespace Command

open Work

/-- Reads a script and tells what is wrong with it. -/
def runParse (o : Occasion) (s : Settings) (file : String) (saveTo : Option String) : Work Nat := do
  let path := Path.ofString file
  let p ← Work.parse o s path.text (← readText path)
  printDiagnostics path.text p.diagnostics
  printLine ("Parsed " ++ toString p.script.statements.length ++ " top-level statements, " ++
    toString p.diagnostics.length ++ " diagnostics")
  let target := saveTo.getD ""
  if target ≠ "" then
    let text ← ofExcept .fault (Draft.savedText (.int 2) (Draft.ofScript p.script))
    if target = "-" then printLine text
    else
      writeText (Path.ofString target) (text ++ "\n")
      printLine ("Wrote AST: " ++ target)
  pure 0

/-- Writes the script that was saved in a file. -/
def runGenerate (o : Occasion) (s : Settings) (file : String) (writeTo : Option String) :
    Work Nat := do
  let text ← readText (Path.ofString file)
  let d ← ofExcept .fault (Draft.loadText o.now true text)
  let statements ← ofExcept .fault (Draft.statementsOf d)
  let lines ← ofExcept .fault (Draft.topLines .usual s.draftLayout statements)
  note [.written lines.length statements.length]
  let target := writeTo.getD ""
  if target ≠ "" then
    writeText (Path.ofString target) (Written.page lines)
    printLine ("Wrote script: " ++ target)
  else print (Written.page lines)
  pure 0

/-- Writes a script in its normal form. -/
def runFormat (o : Occasion) (s : Settings) (file : String) (inPlace : Bool) : Work Nat := do
  let path := Path.ofString file
  let p ← Work.parse o s path.text (← readText path)
  let text ← Work.write s p.script.statements
  if inPlace then
    printDiagnostics path.text p.diagnostics
    writeText path text
    printLine ("Formatted: " ++ path.text)
  else print text
  pure 0

/-- The events of a round trip. -/
def roundTripEvents (s : Settings) (source : String) (r : RoundTrip) : List Event :=
  let tabSize := s.tabSize.size?.getD 1
  let written (statements : List Stmt) : List Event := match s.lines statements with
    | .ok lines => [.written lines.length statements.length]
    | .error _ => []
  Event.ofReading tabSize source r.first ++ written r.first.script.statements ++
    Event.ofReading tabSize r.text r.second ++ written r.second.script.statements

/-- The line that names a text by its digest. -/
def digestLine (text : String) : String := "sha256:" ++ Digest.ofText text

/-- Makes the round trip. -/
def runCheck (o : Occasion) (s : Settings) (file : String) : Work Nat := do
  let path := Path.ofString file
  let source ← readText path
  let r ← ofExcept .fault (RoundTrip.run s o.now o.stem path.text source)
  note (roundTripEvents s source r)
  printDiagnostics path.text r.first.diagnostics
  printLine (digestLine r.text)
  if r.problems.isEmpty then
    printLine "ROUND TRIP: OK"
    pure 0
  else
    printLine "ROUND TRIP: FAILED"
    printLines (r.problems.map (" - " ++ ·))
    pure 1

/-- Does what a command says. -/
def run (o : Occasion) (s : Settings) : Command → Work Nat
  | parse file saveTo => runParse o s file saveTo
  | generate file writeTo => runGenerate o s file writeTo
  | format file inPlace => runFormat o s file inPlace
  | check file => runCheck o s file

end Command

-- ============================================================ program

namespace Invocation

/-- What a program says that does nothing. Of why the arguments cannot be used it says the last
line. -/
def halted (folder : Folder) : Halt → Outcome
  | .help name => ⟨0, "usage: " ++ name ++ " [options] arguments\n", "", folder⟩
  | .misuse name why => ⟨2, "", Text.lastLine (name ++ ": error: " ++ why.message), folder⟩

/-- What is done once the arguments are read. -/
def work (o : Occasion) (i : Invocation) : Work Nat := do
  let s ← i.options.settings
  i.command.run o s

/-- Does what was asked for. A trouble that the program has no words for is handed on. -/
def perform (o : Occasion) (folder : Folder) (i : Invocation) : Except Trouble Outcome := do
  let file := i.command.file
  let isThere ← (folder.isFile (Path.ofString file)).mapError Trouble.access
  if file ≠ "" && !isThere then .ok (halted folder (.misuse program (.noFile file)))
  else
    match (i.work o).run { folder := folder, verbose := i.options.verbose } with
    | (.ok code, c) => .ok ⟨code, c.out, c.log, c.folder⟩
    | (.error t, c) => match t.report? with
      | some m => .ok ⟨1, c.out ++ "error: " ++ m ++ "\n", c.log, c.folder⟩
      | none => .error t

end Invocation

/-- Runs the program on a folder. -/
def runProgram (o : Occasion) (folder : Folder) (arguments : List String) :
    Except Trouble Outcome :=
  match Invocation.read arguments with
  | .error halt => .ok (Invocation.halted folder halt)
  | .ok i => i.perform o folder

end NovelScript
