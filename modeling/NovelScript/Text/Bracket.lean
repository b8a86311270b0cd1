/-
Brackets and what they hold together. A closing bracket has to agree with the
last one that is open; separators count only where no bracket and no literal
is open. Argument lists are cut at commas, clauses of a line at white space.
-/
import NovelScript.Text.Classes
import NovelScript.Text.Literal

namespace NovelScript.Text

/-- The bracket that closes an opening one. -/
def closerOf? (c : Char) : Option Char :=
  if c = '(' then some ')' else if c = '[' then some ']' else if c = '\x7b' then some '\x7d' else none

/-- Whether a character is a closing bracket. -/
def isCloser (c : Char) : Bool := c = ')' || c = ']' || c = '\x7d'

-- ========================================================== matching

/-- The place, counted from `pos`, where the last of the awaited closers stands; nothing if a
closer disagrees with the one awaited or the text ends first. -/
def closingFrom (pos : Nat) (awaited : List Char) (q : Option Char) :
    List Char → Option Nat
  | [] => none
  | c :: cs =>
    match q with
    | some open_ =>
      if c = '\\' then
        match cs with
        | _ :: rest => closingFrom (pos + 2) awaited q rest
        | [] => none
      else closingFrom (pos + 1) awaited (if c = open_ then none else q) cs
    | none =>
      if isQuote c then closingFrom (pos + 1) awaited (some c) cs
      else match closerOf? c with
        | some closer => closingFrom (pos + 1) (closer :: awaited) none cs
        | none =>
          if isCloser c then
            match awaited with
            | [] => none
            | next :: more =>
              if next ≠ c then none
              else if more.isEmpty then some pos
              else closingFrom (pos + 1) more none cs
          else closingFrom (pos + 1) awaited none cs

/-- The place of the bracket that closes the first one of the text. -/
def closing? (cs : List Char) : Option Nat := closingFrom 0 [] none cs

/-- The place of the bracket that closes the first one at or after `start`. A negative start
counts from the end, and reading goes on with the text itself once the end is passed. -/
def matchingBracket? (cs : List Char) (start : Int) : Option Int :=
  let ahead := if start < 0 then cs.drop (cs.length - start.natAbs) ++ cs else cs.drop start.toNat
  (closing? ahead).map fun n => start + n

-- ============================================================ cutting

/-- Cuts a text at every character that `cut` names, at the bracket depth where it stands;
literals are never cut. `piece` is the reversed beginning of the current piece. -/
def piecesFrom (cut : Int → Char → Bool) (depth : Int) (q : Option Char) (piece : List Char) :
    List Char → List (List Char)
  | [] => [piece.reverse]
  | c :: cs =>
    match q with
    | some open_ =>
      if c = '\\' then
        match cs with
        | d :: rest => piecesFrom cut depth q (d :: c :: piece) rest
        | [] => [(c :: piece).reverse]
      else piecesFrom cut depth (if c = open_ then none else q) (c :: piece) cs
    | none =>
      if isQuote c then piecesFrom cut depth (some c) (c :: piece) cs
      else if (closerOf? c).isSome then piecesFrom cut (depth + 1) none (c :: piece) cs
      else if isCloser c then piecesFrom cut (depth - 1) none (c :: piece) cs
      else if cut depth c then piece.reverse :: piecesFrom cut depth none [] cs
      else piecesFrom cut depth none (c :: piece) cs

/-- The arguments of a list: cut at the commas outside all brackets, trimmed, empty ones left
out. -/
def splitArguments (cs : List Char) : List (List Char) :=
  ((piecesFrom (fun depth c => c = ',' && depth = 0) 0 none [] cs).map trim).filter
    (fun a => !a.isEmpty)

/-- Arguments in a row. -/
def joinArguments (args : List String) : String := String.intercalate ", " args

/-- The words of a clause: cut at white space outside brackets, empty ones left out. -/
def words (cs : List Char) : List (List Char) :=
  (piecesFrom (fun depth c => isBlank c && depth ≤ 0) 0 none [] cs).filter (fun w => !w.isEmpty)

/-- The arguments in a bracketed list; nothing unless the bracket that closes the first one ends
the text. -/
def balancedArguments? (cs : List Char) : Option (List (List Char)) :=
  if cs.isEmpty then some []
  else if closing? cs = some (cs.length - 1) then some (splitArguments cs.tail.dropLast)
  else none

end NovelScript.Text
