/-
The program as it is started. It looks at the files and folders that its
arguments name, runs on them, prints, and writes back what has changed.
-/
import NovelScript.CommandLine.Run
import Std.Time.DateTime

namespace NovelScript.Start

/-- The texts in an argument that may name a file: all of it, what stands behind its equals sign,
and what stands behind a short option. -/
def namesIn (argument : String) : List String :=
  let (_, value) := Arguments.cutEquals argument.toList
  argument :: String.ofList (argument.toList.drop 2) :: (value.map String.ofList).toList

/-- The places that a name passes, the last one being where it leads. -/
def placesOf (place : Path) : List String → List Path
  | [] => [place]
  | part :: more => place :: placesOf (place.step part) more

/-- The content of a file, if there is one of the name. -/
def content? (name : String) : IO (Option ByteArray) := do
  try pure (some (← IO.FS.readBinFile name))
  catch _ => pure none

/-- Whether there is a folder of the name. -/
def isFolder (name : String) : IO Bool := do
  try (← IO.FS.realPath name).isDir
  catch _ => pure false

/-- A folder with what is at a place added. -/
def look (f : Folder) (place : Path) : IO Folder := do
  match ← content? place.text with
  | some content => pure { f with files := f.files ++ [(place, content)] }
  | none =>
    if ← isFolder place.text then pure { f with folders := f.folders ++ [place] } else pure f

/-- The files and folders that arguments name. -/
def folderFor (arguments : List String) : IO Folder :=
  let paths := (arguments.flatMap namesIn).map Path.ofString
  let places := paths.flatMap fun p => placesOf p.start p.parts
  places.eraseDups.foldlM look {}

/-- The occasion of this run. -/
def occasion : IO Occasion := do
  let t ← Std.Time.Timestamp.now
  let nanoseconds := t.toNanosecondsSinceUnixEpoch.val.toNat
  let stem ← IO.rand 0 0xffffffff
  pure ⟨.ofEpoch (nanoseconds / 1000000000) (nanoseconds % 1000000000 / 1000),
    String.ofList ('n' :: Text.hexPadded 8 stem)⟩

/-- Writes back what has changed. -/
def writeBack (before after : Folder) : IO Unit :=
  (after.newSince before).forM fun (place, content) => IO.FS.writeBinFile place.text content

/-- What is said about a trouble that the program has no words for. -/
def troubleText : Trouble → String
  | .access .missing => "no such file"
  | .access .isFolder => "the file is a folder"
  | .access .notFolder => "a part of the path is no folder"
  | .access .notText => "the file is no text"
  | .access .nullInName => "a name has a null character in it"
  | .access .tooLong => "a name is too long"
  | _ => "the settings cannot be used"

end NovelScript.Start

open NovelScript in
/-- The program. -/
def main (arguments : List String) : IO UInt32 := do
  let folder ← Start.folderFor arguments
  match runProgram (← Start.occasion) folder arguments with
  | .ok outcome =>
    Start.writeBack folder outcome.folder
    IO.print outcome.out
    if outcome.err ≠ "" then IO.eprint (if outcome.code = 2 then outcome.err ++ "\n" else outcome.err)
    pure outcome.code.toUInt32
  | .error trouble =>
    IO.eprintln (Start.troubleText trouble)
    pure 1
