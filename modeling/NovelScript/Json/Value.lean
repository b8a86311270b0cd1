/-
JSON values. An object keeps its members in the order in which they were
written, because that order shows in messages and in saved files; a member
written twice keeps its first place and its last value.
-/
import NovelScript.Number.Numeral

namespace NovelScript

/-- A JSON value. -/
inductive Json where
  /-- The null value. -/
  | null
  /-- A truth value. -/
  | bool (b : Bool)
  /-- A number. -/
  | number (n : Number)
  /-- A text. -/
  | text (s : String)
  /-- A list. -/
  | list (items : List Json)
  /-- An object, its members in order. -/
  | object (members : List (String × Json))
deriving Inhabited

namespace Json

/-- An integer value. -/
def int (i : Int) : Json := .number (.int i)

/-- Puts a member into an object: at the place it already has, or at the end. -/
def put (name : String) (v : Json) : List (String × Json) → List (String × Json)
  | [] => [(name, v)]
  | (n, w) :: more => if n = name then (name, v) :: more else (n, w) :: put name v more

/-- The value of a member. -/
def member? (name : String) : List (String × Json) → Option Json
  | [] => none
  | (n, v) :: more => if n = name then some v else member? name more

/-- A member is smaller than the members it stands among. -/
theorem sizeOf_of_member? {name : String} {ms : List (String × Json)} {v : Json}
    (h : member? name ms = some v) : sizeOf v < sizeOf ms := by
  induction ms with
  | nil => simp [member?] at h
  | cons m more ih =>
    obtain ⟨n, w⟩ := m
    simp only [member?] at h
    split at h
    · simp only [Option.some.injEq] at h
      subst h
      simp only [List.cons.sizeOf_spec, Prod.mk.sizeOf_spec]
      omega
    · have := ih h
      simp only [List.cons.sizeOf_spec]
      omega

/-- A value as a whole number; a truth value counts as one or zero. -/
def size? : Json → Option Int
  | .number (.int i) => some i
  | .bool b => some (if b then 1 else 0)
  | _ => none

/-- The member of a value, if the value is an object that has it. -/
def get? (name : String) : Json → Option Json
  | .object ms => member? name ms
  | _ => none

end Json

end NovelScript
