/-
Showing how a text has changed. Changes that lie close together are shown in
one hunk with a few lines that stay around them; a hunk begins with the numbers
of the lines that it covers in both texts.
-/
import NovelScript.Changes.Edit
import NovelScript.Text.Lines

namespace NovelScript.Changes

/-- How many lines that stay are shown around a change. -/
def context : Nat := 3

/-- A group of changes. -/
structure Hunk where
  /-- How many lines of the old text stand before it. -/
  old : Nat
  /-- How many lines of the new text stand before it. -/
  new : Nat
  /-- Its pieces. -/
  edits : List Edit
deriving DecidableEq, Repr

/-- Whether a piece changes something. -/
def Edit.isChange : Edit → Bool
  | keep _ => false
  | change _ _ => true

/-- The lines of a piece in the old text. -/
def Edit.oldLines : Edit → List String
  | keep lines => lines
  | change old _ => old

/-- The lines of a piece in the new text. -/
def Edit.newLines : Edit → List String
  | keep lines => lines
  | change _ new => new

/-- A group that is shown: one that changes something. -/
def Hunk.closed (h : Hunk) : List Hunk := if h.edits.any Edit.isChange then [h] else []

/-- The last lines of a list, as many as are shown around a change. -/
def lastLines (lines : List String) : List String := lines.drop (lines.length - context)

/-- Groups pieces. `h` is the group that is open; `old` and `new` count the lines before the next
piece. -/
def grouped (h : Hunk) (old new : Nat) : List Edit → List Hunk
  | [] => h.closed
  | .change a b :: more =>
    grouped { h with edits := h.edits ++ [.change a b] } (old + a.length) (new + b.length) more
  | .keep lines :: more =>
    let n := lines.length
    let kept := lastLines lines
    let skipped := n - kept.length
    if h.edits.isEmpty then
      grouped ⟨old + skipped, new + skipped, [.keep kept]⟩ (old + n) (new + n) more
    else if more.isEmpty then
      Hunk.closed { h with edits := h.edits ++ [.keep (lines.take context)] }
    else if 2 * context < n then
      Hunk.closed { h with edits := h.edits ++ [.keep (lines.take context)] } ++
        grouped ⟨old + skipped, new + skipped, [.keep kept]⟩ (old + n) (new + n) more
    else grouped { h with edits := h.edits ++ [.keep lines] } (old + n) (new + n) more

/-- The hunks of a comparison. -/
def hunks (edits : List Edit) : List Hunk := grouped ⟨0, 0, []⟩ 0 0 edits

/-- The lines that a hunk covers: the number of the first and how many there are. A single line is
given by its number alone, and no lines by the number of the line before them. -/
def rangeText (before size : Nat) : String :=
  if size = 1 then toString (before + 1)
  else toString (if size = 0 then before else before + 1) ++ "," ++ toString size

/-- A piece, each line with a sign in front. -/
def Edit.text : Edit → String
  | keep lines => String.join (lines.map (" " ++ ·))
  | change old new => String.join (old.map ("-" ++ ·)) ++ String.join (new.map ("+" ++ ·))

/-- A hunk. -/
def Hunk.text (h : Hunk) : String :=
  let oldSize := h.edits.foldl (fun n e => n + e.oldLines.length) 0
  let newSize := h.edits.foldl (fun n e => n + e.newLines.length) 0
  "@@ -" ++ rangeText h.old oldSize ++ " +" ++ rangeText h.new newSize ++ " @@\n" ++
    String.join (h.edits.map Edit.text)

/-- How a text has changed, under the names of both; nothing if it has not. -/
def unified (oldName newName old new : String) : String :=
  match hunks (edits (Text.broken old) (Text.broken new)) with
  | [] => ""
  | hs => "--- " ++ oldName ++ "\n+++ " ++ newName ++ "\n" ++ String.join (hs.map Hunk.text)

end NovelScript.Changes
