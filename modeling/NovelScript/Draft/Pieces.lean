/-
What is done with a text can be done with any value that is gone through piece
by piece: a list is a row of pieces, and a piece may be longer than a character
or no text at all. An object has pieces by name only, and none by place.

This is what the functions on literals, brackets and arguments do when they are
given any value. Of a text every character is a piece of its own, so it is what
the functions under `Text` say in simpler terms.

# Marks

A piece counts as a mark if it is a part of the row of such marks, so an empty
piece counts as a quotation mark; the literal that it opens is closed at once. A
piece of two quotation marks in that order is one as well, and awaits itself for
its end.

# Places

The place to begin at is a value too. It has to be a number, a truth value
counts as one, and a negative place counts from the end: then the search goes on
at the front once the end is passed.
-/
import NovelScript.Draft.Written
import NovelScript.Grammar.Simple

namespace NovelScript.Draft

-- ============================================================= pieces

/-- A piece of a value; nothing if it is no text. -/
abbrev Piece := Option String

/-- The text that a value is. -/
def text? : Draft → Piece
  | .text s => some s
  | _ => none

/-- The pieces of a value by their places. -/
def pieces : Draft → Except Fault (List Piece)
  | .text s => .ok (s.toList.map fun c => some (String.singleton c))
  | .list items => .ok (items.map text?)
  | .object [] => .ok []
  | .object _ => .error .noKey
  | _ => .error .wrongType

/-- The pieces of a value by their places, which all have to be texts. -/
def textPieces (d : Draft) : Except Fault (List String) := do
  (← d.pieces).mapM fun
    | some s => .ok s
    | none => .error .wrongType

/-- Whether a piece counts as a quotation mark. -/
def opensLiteral (s : String) : Bool := ["", "\"", "'", "\"'"].contains s

/-- The literal that is open behind a quotation mark. -/
def literalOpenedBy (s : String) : Option String := if s = "" then none else some s

/-- The bracket that closes an opening one. -/
def closerOf? (s : String) : Option String :=
  if s = "(" then some ")" else if s = "[" then some "]" else if s = "\x7b" then some "\x7d" else none

/-- Whether a piece is a closing bracket. -/
def isCloser (s : String) : Bool := [")", "]", "\x7d"].contains s

-- =========================================================== literals

/-- Whether pieces end inside a literal. A literal opened by an empty piece lets everything through,
but if nothing else opens one it counts as open at the end. -/
def endsInside (q : Option String) (ps : List Piece) : Except Fault Bool :=
  match ps with
  | [] => .ok q.isSome
  | p :: more =>
    match q.bind literalOpenedBy with
    | some open_ =>
      if p = some "\\" then endsInside q (more.drop 1)
      else endsInside (if p = some open_ then none else q) more
    | none =>
      match p with
      | some s => endsInside (if opensLiteral s then some s else q) more
      | none => .error .wrongType
termination_by ps.length
decreasing_by
  all_goals simp only [List.length_cons, List.length_drop]; omega

/-- Whether a value ends inside a literal. -/
def hasOpenLiteral (d : Draft) : Except Fault Bool := do endsInside none (← d.pieces)

/-- The text that a literal stands for. -/
def unquoted (d : Draft) : Except Fault String :=
  match d with
  | .text s => match Text.unquote? s.toList with
    | some cs => .ok (String.ofList cs)
    | none => .error (.notLiteral d.shown)
  | .list (first :: second :: more) =>
    if !first.same ((second :: more).getLastD second) then .error (.notLiteral d.shown)
    else match first with
      | .text s => .error (if opensLiteral s then .wrongType else .notLiteral d.shown)
      | _ => .error .wrongType
  | .object (_ :: _ :: _) => .error .noKey
  | .list _ | .object _ => .error (.notLiteral d.shown)
  | _ => .error .wrongType

-- =========================================================== brackets

/-- The place, counted from `pos`, where the last of the awaited closers stands; nothing if a
closer disagrees with the one awaited or the pieces end first. -/
def closingFrom (pos : Nat) (awaited : List String) (q : Option String) (ps : List Piece) :
    Except Fault (Option Nat) :=
  match ps with
  | [] => .ok none
  | p :: more =>
    match q, p with
    | some open_, p =>
      if p = some "\\" then closingFrom (pos + 2) awaited q (more.drop 1)
      else closingFrom (pos + 1) awaited (if p = some open_ then none else q) more
    | none, none => .error .wrongType
    | none, some s =>
      if opensLiteral s then closingFrom (pos + 1) awaited (literalOpenedBy s) more
      else match closerOf? s with
        | some closer => closingFrom (pos + 1) (closer :: awaited) none more
        | none =>
          if isCloser s then
            match awaited with
            | [] => .ok none
            | next :: rest =>
              if next ≠ s then .ok none
              else if rest.isEmpty then .ok (some pos)
              else closingFrom (pos + 1) rest none more
          else closingFrom (pos + 1) awaited none more
termination_by ps.length
decreasing_by
  all_goals simp only [List.length_cons, List.length_drop]; omega

/-- The place of the bracket that closes the first one at or after a place in pieces. A negative
place counts from the end, and reading goes on at the front once the end is passed. -/
def closingAt (ps : List Piece) (start : Int) : Except Fault (Option Int) :=
  let ahead := if start < 0 then ps.drop (ps.length - start.natAbs) ++ ps else ps.drop start.toNat
  (closingFrom 0 [] none ahead).map fun found => found.map fun n => start + n

/-- How many pieces a value has. -/
def pieceCount : Draft → Except Fault Nat
  | .text s => .ok s.length
  | .list items => .ok items.length
  | .object ms => .ok ms.length
  | _ => .error .wrongType

/-- The place of the bracket that closes the first one at or after a place. The place has to be a
number; one that is not whole is only good if it lies behind the end. -/
def matchingBracket? (d start : Draft) : Except Fault (Option Int) := do
  let count ← d.pieceCount
  match start.asNumber? with
  | none => .error .wrongType
  | some n =>
    if !n.isBelow count then pure none
    else match d, n with
      | .object _, _ => .error .noKey
      | _, .double _ => .error .wrongType
      | d, .int i =>
        if i < 0 ∧ count < i.natAbs then .error .noIndex
        else match d with
          | .text s => pure (Text.matchingBracket? s.toList i)
          | d => closingAt (← d.pieces) i

-- ============================================================ cutting

/-- The marks that pieces are cut by. -/
structure Marks where
  /-- Whether a piece opens a bracket. -/
  opens : String → Bool
  /-- Whether a piece closes a bracket. -/
  closes : String → Bool
  /-- Whether pieces are cut at a piece, at the bracket depth where it stands. -/
  cuts : Int → String → Bool

/-- Puts a piece behind those that were put together before. -/
def joinPiece (done : Option String) (s : String) : Option String := some (done.getD "" ++ s)

/-- Puts pieces together and cuts them at marks; nothing stands for a cut with no piece before it. -/
def cutFrom (m : Marks) (depth : Int) (q done : Option String) (ps : List String) :
    List (Option String) :=
  match ps with
  | [] => [done]
  | s :: more =>
    match q with
    | some open_ =>
      if s = "\\" then
        match more with
        | t :: rest => cutFrom m depth q (joinPiece (joinPiece done s) t) rest
        | [] => [joinPiece done s]
      else cutFrom m depth (if s = open_ then none else q) (joinPiece done s) more
    | none =>
      if opensLiteral s then cutFrom m depth (literalOpenedBy s) (joinPiece done s) more
      else if m.opens s then cutFrom m (depth + 1) none (joinPiece done s) more
      else if m.closes s then cutFrom m (depth - 1) none (joinPiece done s) more
      else if m.cuts depth s then done :: cutFrom m depth none none more
      else cutFrom m depth none (joinPiece done s) more

/-- The marks of words: white space cuts them, and brackets may stand in one piece. -/
def wordMarks : Marks where
  opens s := ["(", "[", "\x7b", "([", "[\x7b", "([\x7b"].contains s
  closes s := [")", "]", "\x7d", ")]", "]\x7d", ")]\x7d"].contains s
  cuts depth s := s ≠ "" && s.toList.all Text.isBlank && depth ≤ 0

/-- The marks of arguments: commas cut them. -/
def argumentMarks : Marks where
  opens s := (closerOf? s).isSome
  closes s := isCloser s
  cuts depth s := s = "," && depth = 0

/-- The words of a value. -/
def words : Draft → Except Fault (List String)
  | .text s => .ok ((Text.words s.toList).map String.ofList)
  | d => do pure ((cutFrom wordMarks 0 none none (← d.textPieces)).filterMap id)

/-- The arguments in a row of pieces. -/
def argumentsIn (ps : List String) : List String :=
  ((cutFrom argumentMarks 0 none none ps).map fun a => Text.trimmed (a.getD "")).filter (· ≠ "")

/-- The arguments in a value; one that counts as false has none. -/
def splitArguments (d : Draft) : Except Fault (List String) :=
  if !d.isTruthy then .ok []
  else match d with
    | .text s => .ok ((Text.splitArguments s.toList).map String.ofList)
    | d => do pure (argumentsIn (← d.textPieces))

/-- The arguments in a value that is a bracketed list; nothing unless the bracket that closes the
first one ends it. -/
def balancedArguments? (d : Draft) : Except Fault (Option (List String)) :=
  match d with
  | .null => .ok none
  | .object [] => .error .wrongType
  | .text s => .ok ((Text.balancedArguments? s.toList).map fun args => args.map String.ofList)
  | d => do
    let ps ← d.pieces
    if ps.isEmpty then pure (some [])
    else if (← closingFrom 0 [] none ps) = some (ps.length - 1) then do
      pure (some (argumentsIn (← (ps.tail.dropLast).mapM fun
        | some s => .ok s
        | none => .error .wrongType)))
    else pure none

-- ============================================================ the rest

/-- The lines of a value without the margin that they share. -/
def withoutMargin (d : Draft) : Except Fault (List String) := do
  let lines ← (← d.partsOf).mapM fun
    | .text s => .ok s.toList
    | .list _ | .object _ => .error .noMember
    | _ => .error .wrongType
  pure ((Text.cutMargin lines).map String.ofList)

/-- The number that a text is, as long as it is not too long to be read. -/
def numberRead (d : Draft) : Except Fault Number := do
  let cs := (← d.needText).toList
  match Grammar.numeralExcess? cs, Number.read? cs with
  | some e, _ => .error (.excess e)
  | none, some n => pure n
  | none, none => .error (.notNumeral (String.ofList cs))

/-- The sound options that a text gives, as long as no number in it is too long to be read. -/
def audioOptions? : Draft → Except Fault (Option AudioOptions)
  | .text s => match Grammar.audioExcess? s.toList with
    | some e => .error (.excess e)
    | none => .ok (Grammar.audioOptions? s.toList)
  | _ => .error .noMember

end NovelScript.Draft
