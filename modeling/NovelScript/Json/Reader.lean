/-
Reading JSON text. Each reader takes the front of the remaining characters and
gives back a strictly shorter rest, which is why reading ends.

# Rests

The type of a rest carries that it is shorter (`Rest`), so values, lists and
objects can call each other without a bound that is counted down. Where a reader
takes nothing, such as blanks, the rest is only no longer; the lemmas beside
such functions say so, and are used where the recursion has to be seen to end.

# Faults

A fault carries how many characters were left where it arose. With the whole
text at hand this tells the line that messages name. Which fault is found, and
where, is part of what a reader does, since it is what a user is told.

# What is taken

Besides JSON as it is defined, the names of doubles that are not finite are
taken, and half of a pair of codes by itself, which stands for no character and
is replaced. Of members with one name the last one counts, at the place of the
first. Integers have a bound on their digits, and values one on how deep they
are nested, which is looked for beside the reader.
-/
import NovelScript.Json.Value

namespace NovelScript.Json

-- ============================================================= faults

/-- Why a text is no JSON. -/
inductive Trouble where
  /-- A value is missing. -/
  | value
  /-- The name of a member is missing. -/
  | name
  /-- The colon after a name is missing. -/
  | colon
  /-- The comma between two items is missing. -/
  | comma
  /-- Something follows the value. -/
  | extra
  /-- A control character stands in a string. -/
  | control
  /-- A string has no end. -/
  | openString
  /-- A backslash hides a character it cannot hide. -/
  | escape
  /-- The code of a character is not four hexadecimal digits. -/
  | code
  /-- The text begins with a byte order mark. -/
  | mark
deriving DecidableEq, Repr

/-- The wording of a trouble. -/
def Trouble.message : Trouble → String
  | .value => "Expecting value"
  | .name => "Expecting property name enclosed in double quotes"
  | .colon => "Expecting ':' delimiter"
  | .comma => "Expecting ',' delimiter"
  | .extra => "Extra data"
  | .control => "Invalid control character at"
  | .openString => "Unterminated string starting at"
  | .escape => "Invalid \\escape"
  | .code => "Invalid \\uXXXX escape"
  | .mark => "Unexpected UTF-8 BOM (decode using utf-8-sig)"

/-- A trouble and how many characters were left at its place. -/
structure Fault where
  /-- What is wrong. -/
  trouble : Trouble
  /-- How many characters were left. -/
  left : Nat
deriving DecidableEq, Repr

/-- A rest that is shorter than the text it was left by. -/
abbrev Rest (s : List Char) := { r : List Char // r.length < s.length }

/-- The text without the blanks at its front. -/
def skip (s : List Char) : List Char :=
  s.dropWhile fun c => c = ' ' || c = '\t' || c = '\n' || c = '\r'

theorem length_skip_le (s : List Char) : (skip s).length ≤ s.length :=
  (List.dropWhile_sublist _).length_le

-- ============================================================ strings

/-- The value of a hexadecimal digit. -/
def hexDigit? (c : Char) : Option Nat :=
  if '0' ≤ c ∧ c ≤ '9' then some (c.toNat - 48)
  else if 'a' ≤ c ∧ c ≤ 'f' then some (c.toNat - 87)
  else if 'A' ≤ c ∧ c ≤ 'F' then some (c.toNat - 55)
  else none

/-- Four hexadecimal digits that something follows. -/
def fourHex? : List Char → Option (Nat × List Char)
  | a :: b :: c :: d :: e :: rest => do
    let w ← hexDigit? a
    let x ← hexDigit? b
    let y ← hexDigit? c
    let z ← hexDigit? d
    some (((w * 16 + x) * 16 + y) * 16 + z, e :: rest)
  | _ => none

theorem length_of_fourHex? {s : List Char} {n : Nat} {r : List Char}
    (h : fourHex? s = some (n, r)) : r.length < s.length := by
  unfold fourHex? at h
  split at h
  · simp only [bind, Option.bind_eq_some_iff, Option.some.injEq, Prod.mk.injEq] at h
    obtain ⟨w, -, x, -, y, -, z, -, -, rfl⟩ := h
    simp only [List.length_cons]
    omega
  · simp at h

/-- The character of a code; half of a pair stands for no character and is replaced. -/
def charOfCode (n : Nat) : Char :=
  if 0xD800 ≤ n ∧ n < 0xE000 then '\uFFFD' else Char.ofNat n

/-- The character that a backslash hides, other than a code. -/
def plainEscape? (c : Char) : Option Char :=
  if c = '"' ∨ c = '\\' ∨ c = '/' then some c
  else if c = 'b' then some (Char.ofNat 8)
  else if c = 'f' then some (Char.ofNat 12)
  else if c = 'n' then some '\n'
  else if c = 'r' then some '\r'
  else if c = 't' then some '\t'
  else none

/-- The second half of a pair of codes, if the text goes on with one. -/
def lowHalf? : List Char → Option (Nat × List Char)
  | '\\' :: 'u' :: s =>
    match fourHex? s with
    | some (n, r) => if 0xDC00 ≤ n ∧ n < 0xE000 then some (n, r) else none
    | none => none
  | _ => none

theorem length_of_lowHalf? {s : List Char} {n : Nat} {r : List Char}
    (h : lowHalf? s = some (n, r)) : r.length < s.length := by
  unfold lowHalf? at h
  split at h
  · split at h
    · next hf =>
      split at h
      · simp only [Option.some.injEq, Prod.mk.injEq] at h
        have := length_of_fourHex? hf
        simp only [List.length_cons]
        rw [← h.2]
        omega
      · simp at h
    · simp at h
  · simp at h

/-- The second half that belongs to a first one, if a code is a first half. -/
def otherHalf? (code : Nat) (s : List Char) : Option (Nat × List Char) :=
  if 0xD800 ≤ code ∧ code < 0xDC00 then lowHalf? s else none

theorem length_of_otherHalf? {code : Nat} {s : List Char} {n : Nat} {r : List Char}
    (h : otherHalf? code s = some (n, r)) : r.length < s.length := by
  unfold otherHalf? at h
  split at h
  · exact length_of_lowHalf? h
  · simp at h

/-- The inside of a string up to its closing quote: `text` follows its opening quote, `s` is what is
left of it, `done` the reversed characters so far. -/
def stringFrom (text done s : List Char)
    (le : s.length ≤ text.length) : Except Fault (String × Rest text) :=
  match s with
  | [] => .error ⟨.openString, text.length + 1⟩
  | c :: r =>
    if c = '"' then
      .ok (String.ofList done.reverse, ⟨r, by simp only [List.length_cons] at le; omega⟩)
    else if c = '\\' then
      match r with
      | [] => .error ⟨.openString, text.length + 1⟩
      | d :: r₁ =>
        if d = 'u' then
          match h : fourHex? r₁ with
          | none => .error ⟨.code, r₁.length + 1⟩
          | some (n, r₂) =>
            have h₁ := length_of_fourHex? h
            match h' : otherHalf? n r₂ with
            | some (m, r₃) =>
              have h₂ := length_of_otherHalf? h'
              stringFrom text (Char.ofNat (0x10000 + (n - 0xD800) * 0x400 + (m - 0xDC00)) :: done)
                r₃ (by simp only [List.length_cons] at le; omega)
            | none =>
              stringFrom text (charOfCode n :: done) r₂
                (by simp only [List.length_cons] at le; omega)
        else match plainEscape? d with
          | none => .error ⟨.escape, r₁.length + 2⟩
          | some e =>
            stringFrom text (e :: done) r₁ (by simp only [List.length_cons] at le; omega)
    else if c.toNat < 0x20 then .error ⟨.control, r.length + 1⟩
    else stringFrom text (c :: done) r (by simp only [List.length_cons] at le; omega)
termination_by s.length
decreasing_by
  all_goals simp only [List.length_cons]; omega

-- ============================================================ numbers

/-- The digits at the front of a text, with what follows them. -/
def digitRun (s : List Char) : List Char × List Char :=
  (s.takeWhile Char.isDigit, s.dropWhile Char.isDigit)

theorem length_digitRun_le (s : List Char) : (digitRun s).2.length ≤ s.length :=
  (List.dropWhile_sublist _).length_le

/-- The fraction at the front of a text: a point and at least one digit. -/
def fraction : List Char → Option (List Char) × List Char
  | '.' :: s => match digitRun s with
    | ([], _) => (none, '.' :: s)
    | (ds, r) => (some ds, r)
  | s => (none, s)

theorem length_fraction_le (s : List Char) : (fraction s).2.length ≤ s.length := by
  unfold fraction
  split
  · next t =>
    have := length_digitRun_le t
    split
    · simp
    · next heq => rw [heq] at this; simp only [List.length_cons]; simp only at this; omega
  · simp

theorem length_signed_le (s : List Char) : (Number.signed s).2.length ≤ s.length := by
  unfold Number.signed
  split <;> simp

/-- The sign and the digits of a power of ten, after its letter. -/
def powerDigits (s : List Char) : Option ((Bool × List Char) × List Char) :=
  match digitRun (Number.signed s).2 with
  | ([], _) => none
  | (ds, r) => some (((Number.signed s).1, ds), r)

theorem length_of_powerDigits {s : List Char} {p : Bool × List Char} {r : List Char}
    (h : powerDigits s = some (p, r)) : r.length ≤ s.length := by
  unfold powerDigits at h
  have h₁ := length_digitRun_le (Number.signed s).2
  have h₂ := length_signed_le s
  split at h
  · simp at h
  · next heq =>
    rw [heq] at h₁
    simp only [Option.some.injEq, Prod.mk.injEq] at h
    rw [← h.2]
    exact Nat.le_trans h₁ h₂

/-- The power of ten at the front of a text: a letter, an optional sign and at least one digit. -/
def power : List Char → Option (Bool × List Char) × List Char
  | c :: s =>
    if c = 'e' ∨ c = 'E' then
      match powerDigits s with
      | some (p, r) => (some p, r)
      | none => (none, c :: s)
    else (none, c :: s)
  | [] => (none, [])

theorem length_power_le (s : List Char) : (power s).2.length ≤ s.length := by
  unfold power
  split
  · split
    · split
      · next heq => have := length_of_powerDigits heq; simp only [List.length_cons]; omega
      · simp
    · simp
  · simp

/-- The whole part of a number: a zero, or digits that begin with another one. -/
def whole? : List Char → Option (List Char × List Char)
  | '0' :: s => some (['0'], s)
  | c :: s => if c.isDigit then some (c :: (digitRun s).1, (digitRun s).2) else none
  | [] => none

theorem length_of_whole? {s ds r : List Char} (h : whole? s = some (ds, r)) :
    r.length < s.length := by
  unfold whole? at h
  split at h
  · simp only [Option.some.injEq, Prod.mk.injEq] at h
    rw [← h.2]; simp
  · next c t _ =>
    have := length_digitRun_le t
    split at h
    · simp only [Option.some.injEq, Prod.mk.injEq] at h
      rw [← h.2]; simp only [List.length_cons]; omega
    · simp at h
  · simp at h

/-- A number without sign at the front of a text. -/
def unsigned? (negative : Bool) (s : List Char) : Option (Number × Rest s) :=
  match h : whole? s with
  | none => none
  | some (ds, r) =>
    let f := fraction r
    let p := power f.2
    some ((⟨negative, ds, f.1, p.1⟩ : Numeral).toNumber, ⟨p.2, by
      have h₁ := length_of_whole? h
      have h₂ := length_fraction_le r
      have h₃ := length_power_le (fraction r).2
      show (power (fraction r).2).2.length < s.length
      omega⟩)

/-- A fixed word at the front of a text. -/
def word? (w : List Char) (s : List Char) : Option (List Char) :=
  if w.isPrefixOf s then some (s.drop w.length) else none

theorem length_of_word? {w s r : List Char} (hw : w ≠ []) (h : word? w s = some r) :
    r.length < s.length := by
  unfold word? at h
  split at h
  · next hp =>
    have hp := (List.isPrefixOf_iff_prefix.1 hp).length_le
    have : 0 < w.length := List.length_pos_iff.2 hw
    simp only [Option.some.injEq] at h
    rw [← h, List.length_drop]
    omega
  · simp at h

/-- The words that stand for values. -/
def namedValues : List (List Char × Json) :=
  [("null".toList, .null), ("true".toList, .bool true), ("false".toList, .bool false),
   ("NaN".toList, .number (.double (.nan 0))),
   ("Infinity".toList, .number (.double (.infinite false))),
   ("-Infinity".toList, .number (.double (.infinite true)))]

/-- A word that stands for a value, at the front of a text. -/
def named? (s : List Char) : List (List Char × Json) → Option (Json × Rest s)
  | [] => none
  | (w, v) :: more =>
    if hw : w = [] then none
    else match h : word? w s with
      | some r => some (v, ⟨r, length_of_word? hw h⟩)
      | none => named? s more

/-- A value that is neither string, list nor object. -/
def atom (s : List Char) : Except Fault (Json × Rest s) :=
  match named? s namedValues with
  | some found => .ok found
  | none =>
    match s with
    | '-' :: r => match unsigned? true r with
      | some (n, ⟨r₁, h⟩) => .ok (.number n, ⟨r₁, by simp only [List.length_cons]; omega⟩)
      | none => .error ⟨.value, r.length + 1⟩
    | r => match unsigned? false r with
      | some (n, rest) => .ok (.number n, rest)
      | none => .error ⟨.value, r.length⟩

-- ============================================================= values

mutual

/-- The value at the front of a text. -/
def value (s : List Char) : Except Fault (Json × Rest s) :=
  match s with
  | '"' :: r =>
    match stringFrom r [] r (Nat.le_refl _) with
    | .ok (t, ⟨r₁, h⟩) => .ok (.text t, ⟨r₁, by simp only [List.length_cons]; omega⟩)
    | .error e => .error e
  | '[' :: r =>
    have hs := length_skip_le r
    match h : skip r with
    | ']' :: r₁ =>
      .ok (.list [], ⟨r₁, by rw [h] at hs; simp only [List.length_cons] at *; omega⟩)
    | r₁ =>
      have : r₁.length ≤ r.length := by rw [← h]; exact hs
      match items r₁ with
      | .ok (vs, ⟨r₂, h₂⟩) => .ok (.list vs, ⟨r₂, by simp only [List.length_cons]; omega⟩)
      | .error e => .error e
  | '\x7b' :: r =>
    have hs := length_skip_le r
    match h : skip r with
    | '\x7d' :: r₁ =>
      .ok (.object [], ⟨r₁, by rw [h] at hs; simp only [List.length_cons] at *; omega⟩)
    | r₁ =>
      have : r₁.length ≤ r.length := by rw [← h]; exact hs
      match members [] r₁ with
      | .ok (ms, ⟨r₂, h₂⟩) => .ok (.object ms, ⟨r₂, by simp only [List.length_cons]; omega⟩)
      | .error e => .error e
  | r => atom r
termination_by (s.length, 0)
decreasing_by
  all_goals
    simp only [List.length_cons]
    apply Prod.Lex.left
    omega

/-- The items of a list up to its closing bracket. -/
def items (s : List Char) : Except Fault (List Json × Rest s) :=
  match value s with
  | .error e => .error e
  | .ok (v, ⟨r, h⟩) =>
    have hs := length_skip_le r
    match h' : skip r with
    | ']' :: r₁ => .ok ([v], ⟨r₁, by rw [h'] at hs; simp only [List.length_cons] at hs; omega⟩)
    | ',' :: r₁ =>
      have h₁ : (skip r₁).length < s.length := by
        have := length_skip_le r₁
        rw [h'] at hs; simp only [List.length_cons] at hs; omega
      match items (skip r₁) with
      | .ok (vs, ⟨r₂, h₂⟩) => .ok (v :: vs, ⟨r₂, by omega⟩)
      | .error e => .error e
    | r₁ => .error ⟨.comma, r₁.length⟩
termination_by (s.length, 1)
decreasing_by
  · apply Prod.Lex.right; omega
  · apply Prod.Lex.left; omega

/-- The members of an object up to its closing bracket, put into those already read. -/
def members (done : List (String × Json)) (s : List Char) :
    Except Fault (List (String × Json) × Rest s) :=
  match s with
  | '"' :: r =>
    match stringFrom r [] r (Nat.le_refl _) with
    | .error e => .error e
    | .ok (name, ⟨r₁, h₁⟩) =>
      have hs₁ := length_skip_le r₁
      match h' : skip r₁ with
      | ':' :: r₂ =>
        have h₂ : (skip r₂).length < r.length := by
          have := length_skip_le r₂
          rw [h'] at hs₁; simp only [List.length_cons] at hs₁; omega
        match value (skip r₂) with
        | .error e => .error e
        | .ok (v, ⟨r₃, h₃⟩) =>
          have hs₃ := length_skip_le r₃
          match h'' : skip r₃ with
          | '\x7d' :: r₄ =>
            .ok (put name v done, ⟨r₄, by
              rw [h''] at hs₃; simp only [List.length_cons] at *; omega⟩)
          | ',' :: r₄ =>
            have h₄ : (skip r₄).length < r.length := by
              have := length_skip_le r₄
              rw [h''] at hs₃; simp only [List.length_cons] at hs₃; omega
            match members (put name v done) (skip r₄) with
            | .ok (ms, ⟨r₅, h₅⟩) => .ok (ms, ⟨r₅, by simp only [List.length_cons]; omega⟩)
            | .error e => .error e
          | r₄ => .error ⟨.comma, r₄.length⟩
      | r₂ => .error ⟨.colon, r₂.length⟩
  | r => .error ⟨.name, r.length⟩
termination_by (s.length, 1)
decreasing_by
  all_goals
    simp only [List.length_cons]
    apply Prod.Lex.left
    omega

end

-- ============================================================== texts

/-- The value that a whole text stands for. -/
def readFrom (s : List Char) : Except Fault Json :=
  if s.head? = some '\uFEFF' then .error ⟨.mark, s.length⟩
  else match value (skip s) with
    | .error e => .error e
    | .ok (v, ⟨r, _⟩) => if (skip r).isEmpty then .ok v else .error ⟨.extra, (skip r).length⟩

/-- A trouble and the line where it arose. -/
structure ReadError where
  /-- What is wrong. -/
  trouble : Trouble
  /-- The line, from one on. -/
  line : Nat
deriving DecidableEq, Repr

/-- The wording of a reading error. -/
def ReadError.message (e : ReadError) : String :=
  "invalid JSON (" ++ e.trouble.message ++ " at line " ++ toString e.line ++ ")"

/-- A fault of a text as a reading error: its line is told by the line feeds before it. -/
def ReadError.ofFault (s : List Char) (f : Fault) : ReadError :=
  ⟨f.trouble, (s.take (s.length - f.left)).count '\n' + 1⟩

/-- Reads a JSON text. -/
def read (text : String) : Except ReadError Json :=
  (readFrom text.toList).mapError (ReadError.ofFault text.toList)

end NovelScript.Json
