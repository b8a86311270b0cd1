/-
What comes of writing: an indented outline, or the reason why there is none. An
outline has lines, and headers with an indented body. A header with nothing
below it gets a line that says so, because a block cannot be empty.
-/
import NovelScript.Number.Numeral

namespace NovelScript

-- ================================================================= errors

/-- Why something cannot be written as a script. -/
inductive WriteError where
  /-- The narration with this identity has attributes, and there is no image they could change. -/
  | narration (id : String)
  /-- A value of the named type stands where a statement should. -/
  | notStatement (type : String)
  /-- An integer has more digits than are written out. -/
  | overlong
deriving DecidableEq, Repr

/-- The wording of a writing error. -/
def WriteError.message : WriteError → String
  | narration id => "narration " ++ id ++ " has attributes but no speaker"
  | notStatement type => "no emitter for node " ++ type
  | overlong => "Exceeds the limit (" ++ toString Excess.mostDigits ++
      " digits) for integer string conversion; use sys.set_int_max_str_digits() to increase the limit"

-- =============================================================== outlines

/-- A line, or a header with a body. -/
inductive Outline where
  /-- A line. -/
  | line (text : String)
  /-- A header and what stands below it. -/
  | block (head : String) (body : List Outline)

namespace Outline

/-- The indentation of a depth; none if either factor makes it negative. -/
def pad (indentSize depth : Int) : String := String.ofList (List.replicate (indentSize * depth).toNat ' ')

mutual

/-- The lines of an outline at a depth. -/
def lines (indentSize depth : Int) : Outline → List String
  | line text => [pad indentSize depth ++ text]
  | block head body =>
    (pad indentSize depth ++ head) ::
      (if body.isEmpty then [pad indentSize (depth + 1) ++ "pass"]
       else linesOfAll indentSize (depth + 1) body)

/-- The lines of several outlines at a depth. -/
def linesOfAll (indentSize depth : Int) : List Outline → List String
  | [] => []
  | o :: more => lines indentSize depth o ++ linesOfAll indentSize depth more

end

end Outline

end NovelScript
