/-
Lines of a text: cutting a text into them and putting it together again, their
ends, and their margin.

# Ends

A file may end its lines by a line feed, a carriage return or a pair of both; on
reading, all three become a line feed. Where two texts are compared line by
line, more characters end a line, and a line keeps its end, so that nothing of a
text is lost by breaking it.

# Margins

Two rules for the common margin of a block are in use: a written block loses as
many leading blanks as its shallowest line has, whatever they are; compared code
loses the longest beginning of spaces and tabs that all its lines share.
-/
import NovelScript.Text.Classes

namespace NovelScript.Text

-- ================================================================ cutting

/-- The parts between the occurrences of a separator, the first one beginning with what `part` holds
in reverse. -/
def splitFrom (sep : Char) (part : List Char) : List Char → List (List Char)
  | [] => [part.reverse]
  | c :: cs => if c = sep then part.reverse :: splitFrom sep [] cs else splitFrom sep (c :: part) cs

/-- The parts between the occurrences of a separator; one more than there are separators. -/
def splitAt (sep : Char) (cs : List Char) : List (List Char) := splitFrom sep [] cs

/-- The parts of a text joined by a separator. -/
def joined (sep : List Char) : List (List Char) → List Char
  | [] => []
  | [p] => p
  | p :: ps => p ++ sep ++ joined sep ps

/-- The lines of a text that ends its lines by a line feed. -/
def splitLines (s : String) : List String := (splitAt '\n' s.toList).map String.ofList

/-- Lines joined by line feeds. -/
def joinLines (lines : List String) : String := String.intercalate "\n" lines

/-- Whether a text has no line feed. -/
def isOneLine (cs : List Char) : Bool := cs.all (· ≠ '\n')

-- =================================================================== ends

/-- Every end of a line as a line feed. -/
def unifyNewlines : List Char → List Char
  | [] => []
  | '\r' :: '\n' :: cs => '\n' :: unifyNewlines cs
  | c :: cs => (if c = '\r' then '\n' else c) :: unifyNewlines cs

/-- The characters that end a line of any text. -/
def lineBreakRanges : List (Nat × Nat) :=
  [(0x0a, 0x0d), (0x1c, 0x1e), (0x85, 0x85), (0x2028, 0x2029)]

/-- Whether a character ends a line. -/
def isLineBreak (c : Char) : Bool := inRanges c.toNat lineBreakRanges

/-- The lines of a text with their ends, the first one beginning with what `line` holds in
reverse. -/
def brokenFrom (line : List Char) : List Char → List (List Char)
  | [] => if line.isEmpty then [] else [line.reverse]
  | '\r' :: '\n' :: cs => ('\n' :: '\r' :: line).reverse :: brokenFrom [] cs
  | c :: cs =>
    if isLineBreak c then (c :: line).reverse :: brokenFrom [] cs else brokenFrom (c :: line) cs

/-- The lines of a text with their ends; a text that is empty has none. -/
def broken (s : String) : List String := (brokenFrom [] s.toList).map String.ofList

/-- The last line of a text that no white space is left around. -/
def lastLine (s : String) : String :=
  String.ofList ((trim s.toList).reverse.takeWhile (!isLineBreak ·)).reverse

-- ================================================================ margins

/-- How many blanks a line begins with. -/
def leadWidth (line : List Char) : Nat := line.length - (trimStart line).length

/-- The least of some numbers, zero if there are none. -/
def least : List Nat → Nat
  | [] => 0
  | n :: ns => ns.foldl min n

/-- Cuts as many characters off every line as the shallowest one has leading blanks. -/
def cutMargin (lines : List (List Char)) : List (List Char) :=
  let width := least (lines.map leadWidth)
  lines.map (·.drop width)

/-- The longest common beginning of two texts. -/
def commonStart : List Char → List Char → List Char
  | a :: as, b :: bs => if a = b then a :: commonStart as bs else []
  | _, _ => []

/-- The spaces and tabs at the front of a line. -/
def tabbing (line : List Char) : List Char := line.takeWhile fun c => c = ' ' || c = '\t'

/-- The longest beginning of spaces and tabs that all lines share. -/
def commonTabbing : List (List Char) → List Char
  | [] => []
  | line :: lines => lines.foldl (fun margin l => commonStart margin (tabbing l)) (tabbing line)

/-- Code without its layout: no blank lines, no blanks at the end of a line, and no margin that
all lines share. -/
def normalCode (code : List Char) : List Char :=
  let lines := ((splitAt '\n' code).filter fun l => !(trim l).isEmpty).map trimEnd
  let width := (commonTabbing lines).length
  joined ['\n'] (lines.map (·.drop width))

/-- Writes a name of words joined by low lines with capitals instead. -/
def camel : List Char → List Char
  | '_' :: c :: cs => if 'a' ≤ c ∧ c ≤ 'z' then c.toUpper :: camel cs else '_' :: camel (c :: cs)
  | c :: cs => c :: camel cs
  | [] => []

/-- The capitalised form of a name. -/
def camelCase (s : String) : String := String.ofList (camel s.toList)

end NovelScript.Text
