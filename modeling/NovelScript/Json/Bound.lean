/-
The bounds of reading JSON. A text is read up to the first place where it has
too much of something; what is wrong before that place comes first, what is
wrong behind it is never seen.
-/
import NovelScript.Number.Numeral
import NovelScript.Json.Reader

namespace NovelScript.Json

/-- How many lists and objects may be nested in each other. -/
def deepest : Nat := 990

/-- What follows the inside of a string at the front of a text. -/
def behindString : List Char → List Char
  | [] => []
  | '"' :: s => s
  | '\\' :: _ :: s => behindString s
  | _ :: s => behindString s

theorem length_behindString_le (s : List Char) : (behindString s).length ≤ s.length := by
  fun_induction behindString s with
  | case1 => simp
  | case2 => simp
  | case3 _ _ ih => simp only [List.length_cons]; omega
  | case4 _ _ _ _ ih => simp only [List.length_cons]; omega

/-- What follows a number, behind its first digit. -/
def behindNumber (s : List Char) : List Char := (power (fraction (digitRun s).2).2).2

theorem length_behindNumber_le (s : List Char) : (behindNumber s).length ≤ s.length :=
  Nat.le_trans (length_power_le _) (Nat.le_trans (length_fraction_le _) (length_digitRun_le s))

/-- The excess of a number, from its first digit on. A zero in front is the whole integer. -/
def numberExcess? (c : Char) (s : List Char) : Option Excess :=
  let f := fraction (digitRun s).2
  if c = '0' || f.1.isSome || (power f.2).1.isSome then none
  else Excess.ofDigits? ((digitRun s).1.length + 1)

/-- The first excess of a text at a depth, and how many characters are left where it stands. -/
def excess? (depth : Nat) (s : List Char) : Option (Excess × Nat) :=
  match s with
  | [] => none
  | c :: r =>
    if c = '"' then excess? depth (behindString r)
    else if c = '[' || c = '\x7b' then
      if deepest ≤ depth then some (.depth, r.length + 1) else excess? (depth + 1) r
    else if c = ']' || c = '\x7d' then excess? (depth - 1) r
    else if c.isDigit then
      match numberExcess? c r with
      | some e => some (e, r.length + 1)
      | none => excess? depth (behindNumber r)
    else excess? depth r
termination_by s.length
decreasing_by
  · have := length_behindString_le r; simp only [List.length_cons]; omega
  · simp only [List.length_cons]; omega
  · simp only [List.length_cons]; omega
  · have := length_behindNumber_le r; simp only [List.length_cons]; omega
  · simp only [List.length_cons]; omega

/-- Why a text is not loaded. -/
inductive LoadError where
  /-- The text is no JSON. -/
  | malformed (e : ReadError)
  /-- The text has too much of something. -/
  | excess (e : Excess)
deriving DecidableEq, Repr

/-- Reads a JSON text within the bounds. Of a text that goes beyond them the part is read that ends
with the first character of the excess: only what is wrong before its end counts. -/
def load (text : String) : Except LoadError Json :=
  let s := text.toList
  match excess? 0 s with
  | none => (readFrom s).mapError fun f => .malformed (ReadError.ofFault s f)
  | some (e, left) =>
    let front := s.take (s.length - left + 1)
    match readFrom front with
    | .ok _ => .error (.excess e)
    | .error f =>
      if f.left = 0 then .error (.excess e) else .error (.malformed (ReadError.ofFault front f))

end NovelScript.Json
