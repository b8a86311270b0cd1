/-
The work of a command: it reads and writes files of a folder, prints, and logs.
What was printed and logged before something failed stays.
-/
import NovelScript.CommandLine.Event
import NovelScript.Files.Folder
import NovelScript.RoundTrip

namespace NovelScript

/-- What can go wrong with a command. -/
inductive Trouble where
  /-- Settings cannot be used. -/
  | settings (e : SettingsError)
  /-- A script cannot be read, written or compared. -/
  | fault (f : Fault)
  /-- A file cannot be read or written. -/
  | access (e : AccessError)
deriving DecidableEq, Repr

/-- What the program itself says about a trouble; nothing if the trouble ends the program. -/
def Trouble.report? : Trouble → Option String
  | settings e => some e.message
  | fault (.unwritable .overlong) => none
  | fault (.unwritable why) => some why.message
  | fault (.malformed why) => some why.message
  | _ => none

/-- What a command has done so far. -/
structure Console where
  /-- The files. -/
  folder : Folder
  /-- Whether events are logged. -/
  verbose : Bool := false
  /-- What was printed. -/
  out : String := ""
  /-- What was logged. -/
  log : String := ""

/-- The work of a command. -/
abbrev Work := ExceptT Trouble (StateM Console)

namespace Work

/-- The work that a result without effects is. -/
def ofExcept {ε α : Type} (trouble : ε → Trouble) : Except ε α → Work α
  | .ok a => pure a
  | .error e => throw (trouble e)

/-- Prints a text. -/
def print (s : String) : Work Unit := modify fun c => { c with out := c.out ++ s }

/-- Prints a line. -/
def printLine (s : String) : Work Unit := print (s ++ "\n")

/-- Prints lines. -/
def printLines (lines : List String) : Work Unit := print (String.join (lines.map (· ++ "\n")))

/-- Logs events, if that is asked for. -/
def note (events : List Event) : Work Unit := modify fun c =>
  if c.verbose then { c with log := c.log ++ String.join (events.map Event.text) } else c

/-- The text of a file without a byte order mark. -/
def readText (p : Path) : Work String := do
  ofExcept .access ((← get).folder.readMarkedText p)

/-- Writes a text to a file. -/
def writeText (p : Path) (text : String) : Work Unit := do
  let folder ← ofExcept .access ((← get).folder.writeText p text)
  modify fun c => { c with folder }

end Work

-- =========================================================== settings

/-- The settings that a file of a folder holds; those that hold anyway if no file is named. -/
def Settings.load (f : Folder) (path : String) : Except Trouble Settings :=
  if path = "" then .ok {}
  else
    let p := Path.ofString path
    match f.readText p with
    | .error .missing => .error (.settings (.noFile p.text))
    | .error e => .error (.access e)
    | .ok text => match Json.load text with
      | .error (.malformed e) => .error (.settings (.json p.text e))
      | .error (.excess e) => .error (.fault (.excess e))
      | .ok v => (Settings.ofJson v).mapError .settings

end NovelScript
