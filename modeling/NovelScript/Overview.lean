/-
An overview of a script: one line for each statement, indented by how deep it
is nested, then how often each kind of statement occurs, and then what there is
to complain about.
-/
import NovelScript.CommandLine.Run
import NovelScript.Script

namespace NovelScript.Overview

/-- What a statement is about, if it has a name for it that is not empty: a name of its own, a
label it leads to, a speaker, an image, a channel, a variable or an action. -/
def subject? : Stmt → Option String
  | .label _ name _ _ => Written.present (some name)
  | .menu _ head _ => Written.present head.name
  | .conditional .. => none
  | .simple _ s => Written.present (match s with
    | .define name _ _ | .default name _ => some name
    | .jump target _ => some target
    | .call c => some c.target
    | .say d => d.speaker
    | .display _ image _ => some image
    | .play channel _ _ | .stop channel _ => some channel
    | .assign target _ _ => some target
    | .nvl action => some action
    | .transition _ | .giveBack _ | .code _ | .pause _ | .raw _ => none)

/-- A statement in a few words. Raw text is known by its first line. -/
def describe (s : Stmt) : String :=
  match subject? s, s.rawContent? with
  | some subject, _ => s.kind.word ++ " " ++ subject
  | none, some content => "raw " ++ Text.shown ((Text.splitLines content).headD "")
  | none, none => s.kind.word

/-- A text with spaces in front up to a width. -/
def padStart (width : Nat) (s : String) : String :=
  String.ofList (List.replicate (width - s.length) ' ') ++ s

/-- The line of a statement: its place in the text, and what it is. -/
def row (depth : Nat) (s : Stmt) : String :=
  padStart 4 ((s.tag.line.map toString).getD "?") ++ "  " ++
    String.ofList (List.replicate (2 * depth) ' ') ++ describe s

/-- How often each word occurs, the words in alphabetical order. -/
def tally (words : List String) : List (String × Nat) :=
  (words.eraseDups.mergeSort fun a b => a ≤ b).map fun w => (w, words.count w)

/-- The line that says how often each kind occurs. -/
def tallyLine (statements : List (Nat × Stmt)) : String :=
  "kinds: " ++ String.intercalate ", "
    ((tally (statements.map fun (_, s) => s.kind.word)).map fun (w, n) => w ++ "=" ++ toString n)

/-- The lines of an overview. -/
def lines (file : String) (p : Parsed) : List String :=
  let statements := Walk.ofStmts 0 p.script.statements
  (statements.map fun (depth, s) => row depth s) ++ ["", tallyLine statements] ++
    (p.diagnostics.map fun d => "diagnostic: " ++ d.format file)

/-- What is said if no file is named. -/
def usage : String := "Usage: python scripts/peek_ast.py <script.rpy>\n"

/-- The overview of the script in a file, which is opened by exactly the name it is given. -/
def work (o : Occasion) (file : String) : Work Nat := do
  let source ← if file = "" then throw (.access .missing) else Work.readText (Path.verbatim file)
  let p ← Work.parse o {} file source
  Work.printLines (lines file p)
  pure 0

/-- Runs the overview on a folder. -/
def run (o : Occasion) (folder : Folder) : List String → Except Trouble Outcome
  | [] => .ok ⟨2, usage, "", folder⟩
  | file :: _ => match (work o file).run { folder := folder } with
    | (.ok code, c) => .ok ⟨code, c.out, c.log, c.folder⟩
    | (.error t, _) => .error t

end NovelScript.Overview
