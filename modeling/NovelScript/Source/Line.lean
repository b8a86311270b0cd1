/-
The lines of a script that carry meaning, with their depth. Only line feeds,
carriage returns and pairs of them end a line; blank lines and comments are
left out. The depth of a line comes from the widths of the blocks that are
open above it: a wider line opens a block, a narrower one closes all blocks
that are wider than itself. A line whose width is that of no open block stays
in the block it closed last, which takes over its width.
-/
import NovelScript.Diagnostic
import NovelScript.Text.Classes

namespace NovelScript

/-- A line that carries meaning. -/
structure Line where
  /-- The text after the indentation. -/
  content : String
  /-- The width of the indentation. -/
  indent : Nat
  /-- How many blocks are open around the line. -/
  depth : Nat
  /-- The number of the line, from one on. -/
  number : Nat
deriving DecidableEq, Repr

namespace Source

-- ====================================================== physical lines

/-- The lines of a text, the first one beginning with what `line` holds in reverse. -/
def physicalFrom (line : List Char) : List Char → List (List Char)
  | [] => [line.reverse]
  | '\r' :: '\n' :: cs => line.reverse :: physicalFrom [] cs
  | c :: cs =>
    if c = '\r' ∨ c = '\n' then line.reverse :: physicalFrom [] cs else physicalFrom (c :: line) cs

/-- The lines of a text, without their ends. -/
def physicalLines (cs : List Char) : List (List Char) := physicalFrom [] cs

/-- The text without a byte order mark at its front. -/
def withoutMark : List Char → List Char
  | '\uFEFF' :: cs => cs
  | cs => cs

/-- Whether a character counts as indentation. -/
def isIndent (c : Char) : Bool := c = ' ' || c = '\t'

/-- Whether the text of a line after its indentation carries no meaning. -/
def isTrivia (cs : List Char) : Bool := cs.head? == some '#' || (Text.trim cs).isEmpty

/-- The column after a character of indentation: a tab goes on to the next multiple of the tab
size, or nowhere if there is no such multiple. -/
def advance (tabSize : Int) (column : Nat) (c : Char) : Nat :=
  if c = '\t' then
    if 0 < tabSize then column + (tabSize.toNat - column % tabSize.toNat) else column
  else column + 1

/-- The width of an indentation. -/
def widthOf (tabSize : Int) (lead : List Char) : Nat := lead.foldl (advance tabSize) 0

-- ============================================================== depths

/-- The widths of the open blocks, innermost first, after a line of some width; and the widths of
the next outer block and of the block closed last, if the line's own width was none of theirs. -/
def enter (levels : List Nat) (width : Nat) : List Nat × Option (Nat × Nat) :=
  let kept := levels.dropWhile (width < ·)
  if kept.head? = some width then (kept, none)
  else match (levels.takeWhile (width < ·)).getLast? with
    | none => (width :: kept, none)
    | some closed => (width :: kept, some (kept.headD 0, closed))

/-- The lines that carry meaning among numbered ones, and the diagnostics of their indentation. -/
def scanFrom (tabSize : Int) (levels : List Nat) (number : Nat) :
    List (List Char) → List Line × List Diagnostic
  | [] => ([], [])
  | raw :: more =>
    let content := raw.dropWhile isIndent
    if isTrivia content then scanFrom tabSize levels (number + 1) more
    else
      let width := widthOf tabSize (raw.takeWhile isIndent)
      let (levels', odd) := enter levels width
      let (lines, diagnostics) := scanFrom tabSize levels' (number + 1) more
      (⟨String.ofList content, width, levels'.length - 1, number⟩ :: lines,
        match odd with
        | some (outer, closed) => ⟨number, .dedent width outer closed⟩ :: diagnostics
        | none => diagnostics)

/-- The lines of a script that carry meaning, and the diagnostics of their indentation. -/
def scan (tabSize : Int) (source : String) : List Line × List Diagnostic :=
  scanFrom tabSize [0] 1 (physicalLines (withoutMark source.toList))

end Source

end NovelScript
