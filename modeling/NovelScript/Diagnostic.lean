/-
What a reader of scripts complains about. A diagnostic never stops the
reading: it names a line and a cause, and the wording of each cause stands in
one place.
-/
import NovelScript.Text.Shown

namespace NovelScript

/-- A header that has to end in a colon. -/
inductive Header where
  /-- The header of a label. -/
  | label (name : String)
  /-- The first header of a conditional. -/
  | ifs
  /-- A later header of a conditional, by its word. -/
  | branch (word : String)
  /-- The header of a menu. -/
  | menu
  /-- The header of a choice. -/
  | choice
deriving DecidableEq, Repr

/-- The words that a message has for a header. -/
def Header.text : Header → String
  | .label name => "'label " ++ name ++ "'"
  | .ifs => "'if' condition"
  | .branch word => "'" ++ word ++ "'"
  | .menu => "'menu'"
  | .choice => "menu choice"

/-- What is wrong with a line. -/
inductive Cause where
  /-- Its indentation is that of no open block: the widths of the next outer block and of the
  block it closed. -/
  | dedent (width outer closed : Nat)
  /-- It is indented, and no header stands above it. -/
  | indentation
  /-- A string in it has no end. -/
  | openLiteral
  /-- Its header has no colon. -/
  | colon (header : Header)
  /-- It is a branch that comes after the last one. -/
  | afterElse (word : String)
  /-- It is a branch of nothing. -/
  | strayBranch (word : String)
  /-- It is no line of a menu. -/
  | menuLine (content : String)
deriving DecidableEq, Repr

namespace Cause

/-- Whether the cause lies in how statements stand to each other, and not in one line. -/
def isStructural : Cause → Bool
  | afterElse _ | strayBranch _ => true
  | _ => false

/-- The wording of a cause. -/
def message : Cause → String
  | dedent width outer closed =>
    "inconsistent dedent: indentation " ++ toString width ++
      " matches no enclosing block (expected " ++ toString outer ++ " or " ++ toString closed ++ ")"
  | indentation => "unexpected indentation"
  | openLiteral => "unterminated string literal"
  | colon header => "expected ':' after " ++ header.text
  | afterElse word => "'" ++ word ++ "' after 'else' in the same if statement"
  | strayBranch word => "'" ++ word ++ "' without a matching 'if'"
  | menuLine content =>
    "unrecognized line in menu, menu kept as raw text: " ++ Text.shown content

end Cause

/-- A complaint about a line. -/
structure Diagnostic where
  /-- The line, from one on. -/
  line : Nat
  /-- What is wrong with it. -/
  cause : Cause
deriving DecidableEq, Repr

namespace Diagnostic

/-- The wording of a diagnostic. -/
def message (d : Diagnostic) : String := d.cause.message

/-- The name of the diagnostic's kind. -/
def kind (d : Diagnostic) : String := if d.cause.isStructural then "structure" else "syntax"

/-- The column; diagnostics speak of whole lines. -/
def column (_ : Diagnostic) : Nat := 1

/-- A diagnostic with the place it speaks of: the file, or only the line if there is none. -/
def format (d : Diagnostic) (file : String) : String :=
  (if file = "" then "line " ++ toString d.line else file ++ ":" ++ toString d.line) ++
    ": " ++ d.message

end Diagnostic

end NovelScript
