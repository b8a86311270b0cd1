/-
The bounds of checking a saved script. Each rule that leads into a part of a
value takes room, and there is only so much of it, so statements can only be
checked down to a certain depth.
-/
import NovelScript.Number.Numeral
import NovelScript.Json.Value

namespace NovelScript.Schema

/-- The room for the statements at the margin of a script. -/
def wholeRoom : Nat := 975

/-- The room that the statements in a label take. -/
def bodyRoom : Nat := 14

/-- The room that the statements in a choice or a branch take. -/
def sectionRoom : Nat := 18

/-- Whether an object counts as a statement of a kind: it does if it tells no kind at all. -/
def mayBe (kind : String) (ms : List (String × Json)) : Bool :=
  match Json.member? "type" ms with
  | some (.text k) => k = kind
  | some _ => false
  | none => true

mutual

/-- Whether there is room for a statement and all that is nested in it. -/
def fits (room : Nat) : Json → Bool
  | .object ms => fieldsFit room (mayBe "label" ms) (mayBe "menu" ms) (mayBe "if" ms) ms
  | _ => true

/-- Whether there is room for what is nested in the members of a statement, which may be a label, a
menu or a conditional. -/
def fieldsFit (room : Nat) (label menu conditional : Bool) : List (String × Json) → Bool
  | [] => true
  | (name, v) :: more =>
    (match v with
      | .list items =>
        if name = "body" && label then blockFits room bodyRoom items
        else if name = "choices" && menu then sectionsFit room items
        else if name = "branches" && conditional then laterFit room items
        else true
      | _ => true) && fieldsFit room label menu conditional more

/-- Whether there is room for the statements of a block that takes a part of it. -/
def blockFits (room part : Nat) : List Json → Bool
  | [] => true
  | v :: more => part ≤ room && fits (room - part) v && blockFits room part more

/-- Whether there is room for what is nested in choices or branches. -/
def sectionsFit (room : Nat) : List Json → Bool
  | [] => true
  | .object ms :: more => bodyFits room ms && sectionsFit room more
  | _ :: more => sectionsFit room more

/-- Whether there is room for what is nested in the branches after the first, which is not followed. -/
def laterFit (room : Nat) : List Json → Bool
  | [] => true
  | _ :: more => sectionsFit room more

/-- Whether there is room for the body among the members of a choice or branch. -/
def bodyFits (room : Nat) : List (String × Json) → Bool
  | [] => true
  | (name, v) :: more =>
    (match v with
      | .list items => if name = "body" then blockFits room sectionRoom items else true
      | _ => true) && bodyFits room more

end

/-- The excess of a saved script, if it is nested too deeply to be checked. -/
def excess? (v : Json) : Option Excess :=
  match v.get? "statements" with
  | some (.list items) => if blockFits wholeRoom 0 items then none else some .depth
  | _ => none

end NovelScript.Schema
