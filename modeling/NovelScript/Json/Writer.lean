/-
JSON values as texts: those that files hold, and those that messages show.

Without an indentation, JSON text stands on one line; with one, every item has a
line of its own and empty lists and objects stay in one piece. Only quotes,
backslashes and control characters are escaped. A message shows texts in quotes,
the truth values and null by their names, and lists and objects in brackets.
-/
import NovelScript.Json.Value
import NovelScript.Text.Shown

namespace NovelScript.Json

-- ============================================================== JSON text

/-- A character inside a JSON string. -/
def writtenChar (c : Char) : List Char :=
  if c = '"' then ['\\', '"']
  else if c = '\\' then ['\\', '\\']
  else if c = '\n' then ['\\', 'n']
  else if c = '\r' then ['\\', 'r']
  else if c = '\t' then ['\\', 't']
  else if c.toNat = 8 then ['\\', 'b']
  else if c.toNat = 12 then ['\\', 'f']
  else if c.toNat < 0x20 then '\\' :: 'u' :: Text.hexPadded 4 c.toNat
  else [c]

/-- A JSON string. -/
def writtenText (s : String) : String := String.ofList ('"' :: s.toList.flatMap writtenChar ++ ['"'])

/-- A number; the values that are not finite are written by name. -/
def writtenNumber : Number → String
  | .double (.nan _) => "NaN"
  | .double (.infinite n) => if n then "-Infinity" else "Infinity"
  | n => n.text

/-- How items are set apart. -/
inductive Layout where
  /-- All on one line. -/
  | line
  /-- Every item on a line of its own, each level indented by so many spaces. -/
  | block (indent : Nat)

/-- A line break and the indentation of a level. -/
def Layout.lineBreak (indent level : Nat) : String :=
  "\n" ++ String.ofList (List.replicate (indent * level) ' ')

/-- Puts written items between brackets. -/
def Layout.enclose (l : Layout) (level : Nat) (opener closer : String) (items : List String) :
    String :=
  if items.isEmpty then opener ++ closer
  else match l with
    | .line => opener ++ String.intercalate ", " items ++ closer
    | .block indent =>
      opener ++ lineBreak indent (level + 1) ++
        String.intercalate ("," ++ lineBreak indent (level + 1)) items ++
        lineBreak indent level ++ closer

mutual

/-- The text of a value that stands at a level. -/
def writtenAt (l : Layout) (level : Nat) : Json → String
  | .null => "null"
  | .bool b => if b then "true" else "false"
  | .number n => writtenNumber n
  | .text s => writtenText s
  | .list items => l.enclose level "[" "]" (writtenItems l (level + 1) items)
  | .object members => l.enclose level "\x7b" "\x7d" (writtenMembers l (level + 1) members)

/-- The texts of the items of a list. -/
def writtenItems (l : Layout) (level : Nat) : List Json → List String
  | [] => []
  | v :: more => writtenAt l level v :: writtenItems l level more

/-- The texts of the members of an object. -/
def writtenMembers (l : Layout) (level : Nat) : List (String × Json) → List String
  | [] => []
  | (n, v) :: more => (writtenText n ++ ": " ++ writtenAt l level v) :: writtenMembers l level more

end

/-- The text of a value. -/
def written (l : Layout) (v : Json) : String := writtenAt l 0 v

-- =============================================================== messages

/-- How a message names a truth value. -/
def shownBool (b : Bool) : String := if b then "True" else "False"

/-- How a message names null. -/
def shownNull : String := "None"

mutual

/-- A value as a message shows it. -/
def shown : Json → String
  | .null => shownNull
  | .bool b => shownBool b
  | .number n => n.text
  | .text s => Text.shown s
  | .list items => "[" ++ String.intercalate ", " (shownItems items) ++ "]"
  | .object members => "\x7b" ++ String.intercalate ", " (shownMembers members) ++ "\x7d"

/-- The items of a list as a message shows them. -/
def shownItems : List Json → List String
  | [] => []
  | v :: more => shown v :: shownItems more

/-- The members of an object as a message shows them. -/
def shownMembers : List (String × Json) → List String
  | [] => []
  | (n, v) :: more => (Text.shown n ++ ": " ++ shown v) :: shownMembers more

end

end NovelScript.Json
