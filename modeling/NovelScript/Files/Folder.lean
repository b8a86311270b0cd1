/-
The files that a program can see, and how texts are read from them and written
to them.

# Folders

A folder is there as long as a file lies in it; others may be known to be there,
and the folders above always are. Names are followed part by part, so each part
but the last has to be a folder. Two points lead up, by name and not by what is
there: no link is among the files.

# Refusals

A name may lead nowhere, through a file, or to a folder; a part of a name and a
name as a whole may be too long. Each of these is a fault of its own, since
programs tell some of them apart from others. Whatever else can be wrong with
files, such as being kept from reading one, does not occur.

# Texts

A text is read from the bytes of a file by decoding them, and ends of lines are
unified. A byte order mark is dropped where the reader says so.
-/
import NovelScript.Files.Path
import NovelScript.Text.Lines

namespace NovelScript

/-- Why a file cannot be read or written. -/
inductive AccessError where
  /-- There is nothing of the name. -/
  | missing
  /-- The name is that of a folder. -/
  | isFolder
  /-- A part of the name that should be a folder is a file. -/
  | notFolder
  /-- The bytes of the file are no text. -/
  | notText
  /-- The name has a null character in it. -/
  | nullInName
  /-- The name or a part of it is too long. -/
  | tooLong
deriving DecidableEq, Repr

/-- Files by their names, seen from the folder that a program works in. The names have no part that
says nothing, and two points only at their front. -/
structure Folder where
  /-- The files. -/
  files : List (Path × ByteArray) := []
  /-- Folders that may have no files. -/
  folders : List Path := []
deriving Inhabited

/-- What is at a place. -/
inductive Entry where
  /-- A file. -/
  | file (content : ByteArray)
  /-- A folder. -/
  | folder
  /-- Nothing. -/
  | nothing

namespace Folder

/-- The content of a file. -/
def file? (f : Folder) (place : Path) : Option ByteArray := f.files.lookup place

/-- The part of a name that comes next below a place, if the name leads there. -/
def nextBelow? (place name : Path) : Option String :=
  if place.root = name.root && place.parts.isPrefixOf name.parts then
    (name.parts.drop place.parts.length).head?
  else none

/-- Whether a file lies below a place. -/
def hasBelow (f : Folder) (place : Path) : Bool :=
  f.files.any fun (name, _) => (nextBelow? place name).isSome

/-- What is at a place. -/
def entry (f : Folder) (place : Path) : Entry :=
  match f.file? place with
  | some content => .file content
  | none =>
    if place.isUpward || f.hasBelow place || f.folders.contains place then .folder else .nothing

/-- The most bytes that a part of a name may have. -/
def longestPart : Nat := 255

/-- The most bytes that a name may have. -/
def longestName : Nat := 4095

/-- The place that parts lead to from another one, which has to be a folder as long as a part is
left. -/
def follow (f : Folder) (place : Path) : List String → Except AccessError Path
  | [] => .ok place
  | part :: more =>
    match f.entry place with
    | .folder =>
      if longestPart < part.utf8ByteSize then .error .tooLong else follow f (place.step part) more
    | .file _ => .error .notFolder
    | .nothing => .error .missing

/-- The place that a name leads to. -/
def locate (f : Folder) (p : Path) : Except AccessError Path :=
  if p.text.toList.contains (Char.ofNat 0) then .error .nullInName
  else if longestName < p.text.utf8ByteSize then .error .tooLong
  else f.follow p.start p.parts

/-- What a name leads to: nothing, if it cannot be followed to its end. Only a name that is too long
is refused. -/
def found (f : Folder) (p : Path) : Except AccessError Entry :=
  match f.locate p with
  | .ok place => .ok (f.entry place)
  | .error .tooLong => .error .tooLong
  | .error _ => .ok .nothing

/-- Whether there is a file of the name. -/
def isFile (f : Folder) (p : Path) : Except AccessError Bool :=
  (f.found p).map fun
    | .file _ => true
    | _ => false

/-- Whether there is a folder of the name. -/
def isFolder (f : Folder) (p : Path) : Except AccessError Bool :=
  (f.found p).map fun
    | .folder => true
    | _ => false

/-- Whether there is anything of the name. -/
def isThere (f : Folder) (p : Path) : Except AccessError Bool :=
  (f.found p).map fun
    | .nothing => false
    | _ => true

/-- What a folder holds, in alphabetical order. -/
def children (f : Folder) (p : Path) : List String :=
  match f.locate p with
  | .ok place =>
    (f.files.filterMap fun (name, _) => nextBelow? place name).eraseDups.mergeSort fun a b => a ≤ b
  | .error _ => []

-- ============================================================ reading

/-- The bytes of a file. -/
def readBytes (f : Folder) (p : Path) : Except AccessError ByteArray := do
  match f.entry (← f.locate p) with
  | .file content => pure content
  | .folder => .error .isFolder
  | .nothing => .error .missing

/-- The text that bytes are, with its lines ended by line feeds. -/
def textOf (bytes : ByteArray) : Except AccessError String :=
  match String.fromUTF8? bytes with
  | some s => .ok (String.ofList (Text.unifyNewlines s.toList))
  | none => .error .notText

/-- The bytes of a byte order mark. -/
def markBytes : List UInt8 := [0xef, 0xbb, 0xbf]

/-- The text that bytes are, without a byte order mark at their front. Bytes that end inside the
mark are an empty text. -/
def markedTextOf (bytes : ByteArray) : Except AccessError String :=
  if bytes.size < 3 && bytes.data.toList.isPrefixOf markBytes then .ok ""
  else (textOf bytes).map fun s => match s.toList with
    | '\uFEFF' :: cs => String.ofList cs
    | _ => s

/-- The text of a file, a byte order mark included. -/
def readText (f : Folder) (p : Path) : Except AccessError String := do textOf (← f.readBytes p)

/-- The text of a file without a byte order mark. -/
def readMarkedText (f : Folder) (p : Path) : Except AccessError String := do
  markedTextOf (← f.readBytes p)

-- ============================================================ writing

/-- The files with one of them replaced, or added if it was not there. -/
def putFile (place : Path) (content : ByteArray) : List (Path × ByteArray) → List (Path × ByteArray)
  | [] => [(place, content)]
  | (name, old) :: more =>
    if name = place then (name, content) :: more else (name, old) :: putFile place content more

/-- The folder after a text was written to a file. -/
def writeText (f : Folder) (p : Path) (text : String) : Except AccessError Folder := do
  let place ← f.locate p
  match f.entry place with
  | .folder => .error .isFolder
  | .file _ | .nothing => pure { f with files := putFile place text.toUTF8 f.files }

/-- The files that another folder does not have, or has with other content. -/
def newSince (f before : Folder) : List (Path × ByteArray) :=
  f.files.filter fun (name, content) => before.file? name != some content

end Folder

end NovelScript
