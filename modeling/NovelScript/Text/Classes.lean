/-
Classes of characters. A class is a table of code point ranges, written in
increasing order, so that a look-up stops at the first range that begins beyond
the character.

# Digits

Every script has its ten digits in a row, so a table of the zeros is enough: a
digit is read by its distance from its zero.

# White space

There is one class of white space, with three ways of cutting it off a text.
Everything that a script separates by white space (words of a line, arguments,
the trailing part of a header) is separated by this class; only the indentation
of a line is of spaces and tabs alone.
-/
namespace NovelScript.Text

/-- Whether a code point lies in one of the ranges of an increasing table. -/
def inRanges (n : Nat) : List (Nat × Nat) → Bool
  | [] => false
  | (lo, hi) :: more => if n < lo then false else n ≤ hi || inRanges n more

-- ================================================================= digits

/-- The zeros of all scripts, in increasing order. -/
def digitZeros : List Nat :=
  [0x30, 0x660, 0x6f0, 0x7c0, 0x966, 0x9e6, 0xa66, 0xae6, 0xb66, 0xbe6, 0xc66, 0xce6, 0xd66,
   0xde6, 0xe50, 0xed0, 0xf20, 0x1040, 0x1090, 0x17e0, 0x1810, 0x1946, 0x19d0, 0x1a80, 0x1a90,
   0x1b50, 0x1bb0, 0x1c40, 0x1c50, 0xa620, 0xa8d0, 0xa900, 0xa9d0, 0xa9f0, 0xaa50, 0xabf0,
   0xff10, 0x104a0, 0x10d30, 0x11066, 0x110f0, 0x11136, 0x111d0, 0x112f0, 0x11450, 0x114d0,
   0x11650, 0x116c0, 0x11730, 0x118e0, 0x11950, 0x11c50, 0x11d50, 0x11da0, 0x16a60, 0x16ac0,
   0x16b50, 0x1d7ce, 0x1d7d8, 0x1d7e2, 0x1d7ec, 0x1d7f6, 0x1e140, 0x1e2f0, 0x1e950, 0x1fbf0]

/-- The value of a decimal digit. -/
def digitIn (n : Nat) : List Nat → Option Nat
  | [] => none
  | z :: more =>
    if n < z then none else if n < z + 10 then some (n - z) else digitIn n more

/-- The value of a character that is a decimal digit. -/
def digit? (c : Char) : Option Nat := digitIn c.toNat digitZeros

/-- Whether a character is a decimal digit. -/
def isDigit (c : Char) : Bool := (digit? c).isSome

/-- The number that a row of digits stands for; other characters are skipped. -/
def digitsValue (cs : List Char) : Nat :=
  cs.foldl (fun n c => match digit? c with
    | some d => 10 * n + d
    | none => n) 0

-- ============================================================ white space

/-- The characters that count as white space. -/
def blankRanges : List (Nat × Nat) :=
  [(0x09, 0x0d), (0x1c, 0x20), (0x85, 0x85), (0xa0, 0xa0), (0x1680, 0x1680), (0x2000, 0x200a),
   (0x2028, 0x2029), (0x202f, 0x202f), (0x205f, 0x205f), (0x3000, 0x3000)]

/-- Whether a character is white space. -/
def isBlank (c : Char) : Bool := inRanges c.toNat blankRanges

/-- Cuts the white space at the front. -/
def trimStart (cs : List Char) : List Char := cs.dropWhile isBlank

/-- Cuts the white space at the end. -/
def trimEnd (cs : List Char) : List Char := (cs.reverse.dropWhile isBlank).reverse

/-- Cuts the white space at both ends. -/
def trim (cs : List Char) : List Char := trimEnd (trimStart cs)

/-- The text without white space at its ends. -/
def trimmed (s : String) : String := String.ofList (trim s.toList)

/-- The maximal runs of characters that are not white space. -/
def fieldsFrom (word : List Char) : List Char → List (List Char)
  | [] => if word.isEmpty then [] else [word.reverse]
  | c :: cs =>
    if isBlank c then
      if word.isEmpty then fieldsFrom [] cs else word.reverse :: fieldsFrom [] cs
    else fieldsFrom (c :: word) cs

/-- A text split at white space, with no empty part. -/
def fields (cs : List Char) : List (List Char) := fieldsFrom [] cs

/-- Drops the white space at the front, if there is any. -/
def blanks? : List Char → Option (List Char)
  | c :: cs => if isBlank c then some (trimStart cs) else none
  | [] => none

theorem length_trimStart_le (cs : List Char) : (trimStart cs).length ≤ cs.length :=
  (List.dropWhile_sublist _).length_le

theorem length_of_blanks? {cs rest : List Char} (h : blanks? cs = some rest) :
    rest.length < cs.length := by
  unfold blanks? at h
  split at h
  · next c cs =>
    split at h
    · simp only [Option.some.injEq] at h
      have := length_trimStart_le cs
      rw [← h, List.length_cons]
      omega
    · simp at h
  · simp at h

end NovelScript.Text
