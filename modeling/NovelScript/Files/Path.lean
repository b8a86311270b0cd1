/-
Names of files as tools are given them. A name is a row of parts divided by
slashes. A part that is empty or a single point says nothing and is not kept;
a part of two points leads to the folder above and is. A slash in front makes
the name begin at the root; exactly two slashes there stay two.
-/
import NovelScript.Text.Lines

namespace NovelScript

/-- The name of a file or a folder. -/
structure Path where
  /-- The slashes in front. -/
  root : String := ""
  /-- The parts between the slashes. -/
  parts : List String
deriving DecidableEq, Repr, Inhabited

namespace Path

/-- The slashes in front of a name, as they are kept. -/
def rootOf (cs : List Char) : String :=
  match (cs.takeWhile (· = '/')).length with
  | 0 => ""
  | 2 => "//"
  | _ => "/"

/-- The parts of a name between its slashes, those that say nothing among them. -/
def rawParts (s : String) : List String := (Text.splitAt '/' s.toList).map String.ofList

/-- Whether a part says nothing. -/
def saysNothing (part : String) : Bool := part = "" || part = "."

/-- A name with only the parts that say something. -/
def ofString (s : String) : Path := ⟨rootOf s.toList, (rawParts s).filter (!saysNothing ·)⟩

/-- A name with all its parts. -/
def verbatim (s : String) : Path := ⟨rootOf s.toList, rawParts s⟩

/-- The text of a name; a name of nothing is a point. -/
def text (p : Path) : String :=
  if p.root = "" ∧ p.parts = [] then "." else p.root ++ String.intercalate "/" p.parts

/-- The last part of a name. -/
def name (p : Path) : String := p.parts.getLastD ""

/-- The name of something in a folder. -/
def child (p : Path) (part : String) : Path := { p with parts := p.parts ++ [part] }

/-- Whether a name leads to the folder that it begins in, or to one above it. -/
def isUpward (p : Path) : Bool := p.parts.all (· = "..")

/-- The name that one more part leads to: a part of two points takes the last part away, if that is
not itself one of two points. Above the root there is nothing. -/
def step (p : Path) (part : String) : Path :=
  if saysNothing part then p
  else if part = ".." then
    if p.isUpward then if p.root = "" then p.child part else p
    else { p with parts := p.parts.dropLast }
  else p.child part

/-- Where a name begins. -/
def start (p : Path) : Path := ⟨if p.root = "" then "" else "/", []⟩

end Path

end NovelScript
