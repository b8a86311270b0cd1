/-
One line as a simple statement. The first word decides: a keyword leads to the
one rule of its statement, and every other line can only be something that is
said. A line that its rule refuses is kept as raw text.

The rules know no bounds. Beside them stands what a bounded reader looks for in
a line: an integer of too many digits. Only a line that its rule takes up to the
integer has one, since what stands in a line of another form is text.
-/
import NovelScript.Grammar.Audio
import NovelScript.Grammar.Code
import NovelScript.Grammar.Dialogue
import NovelScript.Grammar.Display
import NovelScript.Grammar.Flow

namespace NovelScript.Grammar

open Text

/-- The word that a line begins with: a name or the dollar sign. -/
def firstWord? : List Char → Option String
  | '$' :: _ => some "$"
  | cs => (name? cs).map fun (w, _) => String.ofList w

/-- What a line is taken for. -/
inductive LineKind where
  /-- A simple statement. -/
  | simple (s : Simple)
  /-- Raw text. -/
  | raw
  /-- Raw text, because a string in it has no end. -/
  | openLiteral
deriving DecidableEq, Repr

/-- A statement if its rule took the line, raw text otherwise. -/
def LineKind.ofOption : Option Simple → LineKind
  | some s => .simple s
  | none => .raw

/-- A line that continues the one before it, or what it is taken for instead. -/
def extendKind (cs : List Char) : LineKind :=
  match extend? cs with
  | some s => .simple s
  | none => if !hasExtendLiteral cs && hasOpenLiteral cs then .openLiteral else .raw

/-- A line that is said, or what it is taken for instead. -/
def sayKind (content : List Char) : LineKind :=
  match say? (trimEnd content) with
  | some s => .simple s
  | none => if looksSaid content && hasOpenLiteral content then .openLiteral else .raw

/-- What a line is taken for that begins with the given word. -/
def keywordKind? (word : String) (content : List Char) : Option LineKind :=
  let cs := trimEnd content
  match word with
  | "scene" => some (.ofOption (display? .scene cs))
  | "show" => some (.ofOption (display? .reveal cs))
  | "hide" => some (.ofOption (display? .hide cs))
  | "with" => some (.ofOption (transition? cs))
  | "jump" => some (.ofOption (jump? cs))
  | "call" => some (.ofOption (call? cs))
  | "return" => some (.ofOption (giveBack? cs))
  | "$" => some (.ofOption (dollar? cs))
  | "define" => some (.ofOption (define? cs))
  | "default" => some (.ofOption (default? cs))
  | "play" => some (.ofOption (play? false cs))
  | "queue" => some (.ofOption (play? true cs))
  | "voice" => some (.ofOption (voice? cs))
  | "stop" => some (.ofOption (stop? cs))
  | "pause" => some (.ofOption (pause? cs))
  | "nvl" => some (.ofOption (nvl? cs))
  | "extend" => some (extendKind cs)
  | "pass" =>
    some (if cs = "pass".toList then .simple (.raw (String.ofList content)) else .raw)
  | _ => none

/-- The words that open a compound statement or a code block, or continue one. -/
def compoundWords : List String := ["label", "menu", "if", "elif", "else", "python", "init"]

/-- What a line is taken for. -/
def lineKind (content : List Char) : LineKind :=
  match firstWord? content with
  | none => sayKind content
  | some word =>
    if compoundWords.contains word then .raw
    else (keywordKind? word content).getD (sayKind content)

-- ================================================================= bounds

/-- The excess of a text that is a numeral. -/
def numeralExcess? (cs : List Char) : Option Excess := (Numeral.read? cs).bind Numeral.excess?

/-- The excess of the first word of sound options that has one. Only if all words up to it are
options is it read. -/
def audioExcess? (cs : List Char) : Option Excess :=
  let ws := fields cs
  (List.range ws.length).findSome? fun i =>
    match numeralExcess? (ws.getD i []) with
    | some e => (audioOptionsFrom {} (ws.take (i + 1))).map fun _ => e
    | none => none

/-- The excess of the place in an order that a change of the picture gives. -/
def displayExcess? (verb : DisplayVerb) (cs : List Char) : Option Excess := do
  let (_, ws) ← displayWords? verb cs
  let clauses ← displayClauses? ws
  let place ← clauses.lookup "zorder"
  numeralExcess? place.toList

/-- The excess of a line. -/
def lineExcess? (content : List Char) : Option Excess :=
  let cs := trimEnd content
  match firstWord? content with
  | some "scene" => displayExcess? .scene cs
  | some "show" => displayExcess? .reveal cs
  | some "hide" => displayExcess? .hide cs
  | some "play" => (sound? false cs).bind fun (_, _, rest) => audioExcess? rest
  | some "queue" => (sound? true cs).bind fun (_, _, rest) => audioExcess? rest
  | some "stop" => (stopParts? cs).bind fun (_, n) => n.bind Numeral.excess?
  | some "pause" => (pauseParts? cs).bind fun n => n.bind Numeral.excess?
  | _ => none

end NovelScript.Grammar
