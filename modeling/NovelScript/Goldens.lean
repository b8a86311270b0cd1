/-
Golden texts. Beside each script of a folder stands its golden: the text that
the script should be written as. A check writes every script and compares; an
update replaces the goldens. A script that does not survive the round trip has
no text to compare, and its golden is left alone.
-/
import NovelScript.Changes.Hunk
import NovelScript.CommandLine.Run

namespace NovelScript.Goldens

/-- The options of the check. -/
structure Options where
  /-- Whether the goldens are replaced. -/
  update : Bool := false
deriving DecidableEq, Repr, Inhabited

/-- The name of the program. -/
def program : String := "check_goldens.py"

/-- The options by their names. -/
def rules : List (Arguments.Rule Options) :=
  [Arguments.helpRule, ⟨["--update"], .flag fun _ => ⟨true⟩⟩]

/-- The folder that is checked if none is named. -/
def defaultFolder : String := "samples"

/-- What the arguments ask for: the folder, and the options. -/
def read (arguments : List String) : Except Halt (String × Options) :=
  match Arguments.read rules .one {} arguments with
  | .error e => .error (Invocation.haltOf program e)
  | .ok r =>
    if r.leftOver = [] then .ok ((r.operands.bind List.head?).getD defaultFolder, r.options)
    else .error (.misuse program (.leftOver r.leftOver))

/-- The ending of the names of scripts. -/
def scriptEnding : String := ".rpy"

/-- Whether a name is that of a script. -/
def isScriptName (name : String) : Bool := scriptEnding.toList.isSuffixOf name.toList

/-- The scripts of a folder, in alphabetical order. -/
def scriptsIn (f : Folder) (base : Path) : List Path :=
  ((f.children base).filter isScriptName).map base.child

/-- The name of a script's golden. -/
def goldenOf (script : Path) : Path := Path.ofString (script.text ++ ".golden")

/-- Reads the script in a file. -/
def readScript (o : Occasion) (script : Path) : Work Parsed := do
  Work.parse o {} script.text (← Work.readText script)

/-- The text that a script should be written as. -/
def canonical (o : Occasion) (script : Path) : Work String := do
  let p ← readScript o script
  Work.printLines (p.diagnostics.map fun d => "[WARN] " ++ d.format script.text)
  Work.write {} p.script.statements

/-- Compares the golden of a script with the text that it is written as. -/
def compare (script : Path) (text : String) : Work Nat := do
  let golden := goldenOf script
  let folder := (← get).folder
  if !(← Work.ofExcept .access (folder.isThere golden)) then
    Work.printLine ("[ERROR] Missing golden: " ++ golden.text ++
      ". Create via: python scripts/check_goldens.py --update")
    pure 1
  else
    let old ← Work.ofExcept .access (folder.readText golden)
    if old = text then
      Work.printLine ("[OK] " ++ script.name ++ " matches golden.")
      pure 0
    else
      Work.printLine ("[FAIL] canonical output changed for " ++ script.name ++ ":")
      Work.print (Changes.unified golden.name "generated" old text)
      pure 2

/-- Checks one script, or updates its golden. -/
def checkScript (o : Occasion) (update : Bool) (script : Path) : Work Nat := do
  let text ← canonical o script
  let again ← Work.parse o {} "" text
  let first ← readScript o script
  match ← Work.ofExcept .fault (first.script.difference again.script) with
  | some difference =>
    Work.printLine ("[FAIL] " ++ script.name ++ " does not round trip: " ++ difference)
    pure 1
  | none =>
    if update then
      Work.writeText (goldenOf script) text
      Work.printLine ("[OK] wrote " ++ (goldenOf script).name)
      pure 0
    else compare script text

/-- Checks scripts; the code is one if any of them fails. -/
def checkAll (o : Occasion) (update : Bool) : List Path → Work Nat
  | [] => pure 0
  | script :: more => do
    let code ← checkScript o update script
    let rest ← checkAll o update more
    pure (if code = 0 && rest = 0 then 0 else 1)

/-- Checks the scripts of a folder. -/
def work (o : Occasion) (base : String) (options : Options) : Work Nat := do
  let path := Path.ofString base
  let folder := (← get).folder
  if ← Work.ofExcept .access (folder.isFolder path) then checkAll o options.update (scriptsIn folder path)
  else
    Work.printLine ("[ERROR] " ++ path.text ++ " not found.")
    pure 1

/-- Runs the check on a folder. -/
def run (o : Occasion) (folder : Folder) (arguments : List String) : Except Trouble Outcome :=
  match read arguments with
  | .error halt => .ok (Invocation.halted folder halt)
  | .ok (base, options) => match (work o base options).run { folder := folder } with
    | (.ok code, c) => .ok ⟨code, c.out, c.log, c.folder⟩
    | (.error t, _) => .error t

end NovelScript.Goldens
