/-
String literals of the script language. A literal stands in single or double
quotes, a backslash hides the character after it, and a literal ends at the
first quote of its own kind that is not hidden. Writing always uses double
quotes and leaves no line break in the result.
-/
import NovelScript.Text.Shown

namespace NovelScript.Text

/-- Whether a character opens a literal. -/
def isQuote (c : Char) : Bool := c = '"' || c = '\''

-- ============================================================ writing

/-- How a character is written inside a literal. -/
def escapedChar (c : Char) : List Char :=
  if c = '\\' then ['\\', '\\']
  else if c = '"' then ['\\', '"']
  else if c = '\n' then ['\\', 'n']
  else if c = '\r' then ['\\', 'r']
  else if c = '\t' then ['\\', 't']
  else [c]

/-- The inside of the literal that stands for a text. -/
def escape (cs : List Char) : List Char := cs.flatMap escapedChar

/-- The literal that stands for a text. -/
def quote (cs : List Char) : List Char := '"' :: escape cs ++ ['"']

/-- The literal that stands for a text. -/
def quoted (s : String) : String := String.ofList (quote s.toList)

-- ============================================================ reading

/-- What a backslash and the character it hides stand for; an unknown pair stands for itself. -/
def hiddenChar (c : Char) : List Char :=
  if c = 'n' then ['\n']
  else if c = 'r' then ['\r']
  else if c = 't' then ['\t']
  else if c = '\\' || c = '"' || c = '\'' then [c]
  else ['\\', c]

/-- The text that the inside of a literal stands for. -/
def unescape : List Char → List Char
  | '\\' :: c :: cs => hiddenChar c ++ unescape cs
  | c :: cs => c :: unescape cs
  | [] => []

/-- The text that a literal stands for; nothing if the quotes are missing or do not agree. -/
def unquote? : List Char → Option (List Char)
  | c :: cs =>
    if isQuote c && cs.getLast? == some c then some (unescape cs.dropLast) else none
  | [] => none

/-- The inside of a literal up to its closing quote, and what follows the quote. -/
def literalInside? (q : Char) : List Char → Option (List Char × List Char)
  | [] => none
  | '\\' :: c :: cs =>
    if c = '\n' then none
    else (literalInside? q cs).map fun (inside, rest) => ('\\' :: c :: inside, rest)
  | c :: cs =>
    if c = q then some ([], cs)
    else if c = '\\' then none
    else (literalInside? q cs).map fun (inside, rest) => (c :: inside, rest)

/-- A literal at the front, with what follows it. -/
def literal? : List Char → Option (List Char × List Char)
  | q :: cs =>
    if isQuote q then
      (literalInside? q cs).map fun (inside, rest) => (q :: inside ++ [q], rest)
    else none
  | [] => none

/-- Whether a text ends inside a literal, when it begins inside the one that `q` opened, if any. -/
def endsInside : Option Char → List Char → Bool
  | q, [] => q.isSome
  | none, c :: cs => endsInside (if isQuote c then some c else none) cs
  | some _, ['\\'] => true
  | some q, '\\' :: _ :: cs => endsInside (some q) cs
  | some q, c :: cs => endsInside (if c = q then none else some q) cs

/-- Whether a text ends inside a literal. -/
def hasOpenLiteral (cs : List Char) : Bool := endsInside none cs

end NovelScript.Text
