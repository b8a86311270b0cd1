/-
What the program is asked to do: settings that hold for every command, and a
command with its own options. A command that is not known, an operand that is
missing and arguments that are left over are refused, in this order.
-/
import NovelScript.CommandLine.Arguments

namespace NovelScript

/-- Options that hold for every command. -/
structure GlobalOptions where
  /-- The file with the settings. -/
  config : Option String := none
  /-- Spaces for each level. -/
  indent : Option Json := none
  /-- The width of a tab stop. -/
  tabSize : Option Json := none
  /-- Whether groups at the margin are not set apart. -/
  noBlankLines : Bool := false
  /-- Whether the work is logged. -/
  verbose : Bool := false
deriving Inhabited

/-- A command with the file it works on. -/
inductive Command where
  /-- Reads a script, tells what is wrong with it, and saves it if that is asked for. -/
  | parse (file : String) (saveTo : Option String)
  /-- Writes the script that was saved in a file. -/
  | generate (file : String) (writeTo : Option String)
  /-- Writes a script in its normal form, back to its file if that is asked for. -/
  | format (file : String) (inPlace : Bool)
  /-- Makes the round trip. -/
  | check (file : String)
deriving DecidableEq, Repr

/-- The file that a command works on. -/
def Command.file : Command → String
  | parse file _ | generate file _ | format file _ | check file => file

/-- What the program is asked to do. -/
structure Invocation where
  /-- Options that hold for every command. -/
  options : GlobalOptions
  /-- The command. -/
  command : Command

namespace Invocation

open Arguments

/-- The name of the program. -/
def program : String := "rpyscript"

/-- The names of the commands. -/
def commandNames : List String := ["parse", "generate", "format", "check"]

/-- The options that hold for every command. -/
def globalRules : List (Rule GlobalOptions) :=
  [helpRule,
   ⟨["--config"], .text fun path o => { o with config := some path }⟩,
   ⟨["--indent"], .integer fun v o => { o with indent := some v }⟩,
   ⟨["--tab-size"], .integer fun v o => { o with tabSize := some v }⟩,
   ⟨["--no-blank-lines"], .flag fun o => { o with noBlankLines := true }⟩,
   ⟨["--verbose", "-v"], .flag fun o => { o with verbose := true }⟩]

/-- The options of reading. -/
def parseRules : List (Rule (Option String)) :=
  [helpRule, ⟨["--emit-ast"], .text fun path _ => some path⟩]

/-- The options of writing. -/
def generateRules : List (Rule (Option String)) :=
  [helpRule, ⟨["-o", "--out"], .text fun path _ => some path⟩]

/-- The options of formatting. -/
def formatRules : List (Rule Bool) := [helpRule, ⟨["--write"], .flag fun _ => true⟩]

/-- The options of the round trip. -/
def checkRules : List (Rule Unit) := [helpRule]

/-- The end of a reading as the program that was read for reports it. -/
def haltOf (program : String) : End → Halt
  | .help => .help program
  | .misuse why => .misuse program why

/-- Reads the arguments of a command with one operand: the operand, the options, and what is left
over. -/
def readCommand {α : Type} (name operand : String) (rules : List (Rule α)) (start : α)
    (arguments : List String) : Except Halt (String × α × List String) :=
  let full := program ++ " " ++ name
  match Arguments.read rules .one start arguments with
  | .error e => .error (haltOf full e)
  | .ok r => match r.operands with
    | some (file :: _) => .ok (file, r.options, r.leftOver)
    | _ => .error (.misuse full (.missing operand))

/-- Reads a command from its name and its arguments, with what is left over. -/
def commandOf (name : String) (arguments : List String) : Except Halt (Command × List String) :=
  match name with
  | "parse" => do
    let (file, saveTo, rest) ← readCommand name "file" parseRules none arguments
    pure (.parse file saveTo, rest)
  | "generate" => do
    let (file, writeTo, rest) ← readCommand name "ast_json" generateRules none arguments
    pure (.generate file writeTo, rest)
  | "format" => do
    let (file, inPlace, rest) ← readCommand name "file" formatRules false arguments
    pure (.format file inPlace, rest)
  | "check" => do
    let (file, _, rest) ← readCommand name "file" checkRules () arguments
    pure (.check file, rest)
  | name => .error (.misuse program (.noCommand name commandNames))

/-- What the arguments of the program ask for. -/
def read (arguments : List String) : Except Halt Invocation :=
  match Arguments.read globalRules .command {} arguments with
  | .error e => .error (haltOf program e)
  | .ok r => match r.operands with
    | some (name :: more) => do
      let (command, rest) ← commandOf name more
      if r.leftOver ++ rest = [] then pure ⟨r.options, command⟩
      else .error (.misuse program (.leftOver (r.leftOver ++ rest)))
    | _ => .error (.misuse program (.missing "command"))

end Invocation

end NovelScript
