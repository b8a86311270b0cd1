/-
Integers are read as they are written. An integer is written in the digits of
one script behind an optional minus sign; the reader knows the digits of every
script, and these among them.

A common digit is a decimal digit, and its value is how far it stands from zero
(`digit?_of_isDigit`). So the value that the reader gives to a row of common
digits is the one that the library gives to it (`digitsValue_eq`), and for this
the library knows that writing and reading a number in digits are inverse to
each other. No digit is white space, a point or the letter of a power, so the
reader takes the row as a whole and leaves nothing behind.
-/
import NovelScript.Grammar.Simple
import NovelScript.Proofs.Number.Text

namespace NovelScript

open Text

/-- A common digit is a decimal digit, and its value is how far it stands from
zero. -/
theorem digit?_of_isDigit {c : Char} (h : c.isDigit = true) :
    digit? c = some (c.toNat - '0'.toNat) := by
  simp only [Char.isDigit, Bool.and_eq_true, decide_eq_true_eq] at h
  have hlow : 0x30 ≤ c.toNat := h.1
  have hhigh : c.toNat ≤ 0x39 := h.2
  rw [digit?, digitZeros, digitIn, if_neg (by omega), if_pos (by omega)]
  rfl

section

variable {ds : List Char} (h : ∀ c ∈ ds, c.isDigit = true)
include h

theorem isDigit_of_common : ∀ c ∈ ds, isDigit c = true := by
  intro c hc
  rw [isDigit, digit?_of_isDigit (h c hc)]
  rfl

/-- Common digits stand for what they write, by the account of the library. The
reader here knows the digits of every script. -/
theorem digitsValue_eq : digitsValue ds = Nat.ofDigitChars 10 ds 0 := by
  unfold digitsValue
  -- Digits are added to what stands in front of them, whatever it is.
  generalize 0 = n
  induction ds generalizing n with
  | nil => rfl
  | cons c ds ih =>
      obtain ⟨hc, hds⟩ := List.forall_mem_cons.mp h
      rw [List.foldl_cons, digit?_of_isDigit hc, ih hds, Nat.ofDigitChars_cons]

/-- Digits in a row are a numeral without point and power. -/
theorem unsigned?_digits (hne : ds ≠ []) (negative : Bool) :
    Numeral.unsigned? negative ds = some (⟨negative, ds, none, none⟩, []) := by
  have hdigits := isDigit_of_common h
  have htake : ds.takeWhile isDigit = ds := by
    rw [List.takeWhile_eq_self_iff]
    exact hdigits
  have hdrop : ds.dropWhile isDigit = [] := by
    rw [List.dropWhile_eq_nil_iff]
    exact hdigits
  have hempty : ds.isEmpty = false := by simpa using hne
  simp only [Numeral.unsigned?, htake, hdrop, hempty, Bool.false_and,
    Bool.false_eq_true, if_false, Numeral.power?]
  rfl

end

theorem digits_repr (n : Nat) :
    (toString n).toList ≠ [] ∧ ∀ c ∈ (toString n).toList, c.isDigit = true := by
  rw [Nat.toString_eq_repr, Nat.toList_repr]
  exact ⟨by simp, fun c hc =>
    Nat.isDigit_of_mem_toDigits (by decide) (by decide) hc⟩

theorem digitsValue_toString (n : Nat) :
    digitsValue (toString n).toList = n := by
  rw [digitsValue_eq (digits_repr n).2, Nat.toString_eq_repr, Nat.toList_repr,
    Nat.ofDigitChars_toDigits (by decide) (by decide)]

theorem toList_negSucc (n : Nat) : (toString (Int.negSucc n)).toList
    = '-' :: (toString (n + 1)).toList :=
  String.toList_append (s := "-")

/-- An integer is written in digits, perhaps behind a minus sign. -/
theorem chars_int (z : Int) : (toString z).toList ≠ []
    ∧ ∀ c ∈ (toString z).toList, c.isDigit = true ∨ c = '-' := by
  cases z with
  | ofNat n =>
      obtain ⟨hne, hdigits⟩ := digits_repr n
      exact ⟨hne, fun c hc => Or.inl (hdigits c hc)⟩
  | negSucc n =>
      obtain ⟨-, hdigits⟩ := digits_repr (n + 1)
      rw [toList_negSucc]
      exact ⟨by simp, List.forall_mem_cons.mpr
        ⟨Or.inr rfl, fun c hc => Or.inl (hdigits c hc)⟩⟩

/-- A common digit may stand in a name. -/
theorem isWordChar_of_common {c : Char} (h : c.isDigit = true) :
    isWordChar c = true := by
  simp only [Char.isDigit, Bool.and_eq_true, decide_eq_true_eq] at h
  have hlow : 0x30 ≤ c.toNat := h.1
  have hhigh : c.toNat ≤ 0x39 := h.2
  have hrange : inRanges c.toNat alphanumericRanges = true := by
    rw [alphanumericRanges, inRanges, if_neg (by omega), decide_eq_true hhigh]
    rfl
  rw [isWordChar, hrange, Bool.or_true]

/-- A numeral of digits, with or without a minus sign in front, is read. -/
theorem Numeral.read?_digits {ds : List Char} (hne : ds ≠ [])
    (h : ∀ c ∈ ds, c.isDigit = true) :
    Numeral.read? ds = some ⟨false, ds, none, none⟩
      ∧ Numeral.read? ('-' :: ds) = some ⟨true, ds, none, none⟩ := by
  have hunsigned := unsigned?_digits h hne
  constructor
  · have hminus : ∀ r, ds ≠ '-' :: r := by
      rintro r rfl
      exact absurd (h '-' List.mem_cons_self) (by decide)
    simp only [Numeral.read?, hunsigned]
  · simp only [Numeral.read?, hunsigned]

/-- Digits in a row are an integer, and it may have too many of them. -/
theorem Grammar.numeralExcess?_digits {ds : List Char} (hne : ds ≠ [])
    (h : ∀ c ∈ ds, c.isDigit = true) :
    numeralExcess? ds = Excess.ofDigits? ds.length := by
  rw [numeralExcess?, (Numeral.read?_digits hne h).1]
  rfl

/-- An integer is read as it is written. -/
theorem Grammar.integer?_toString (z : Int) :
    integer? (toString z).toList = some z := by
  cases z with
  | ofNat n =>
      obtain ⟨hne, hdigits⟩ := digits_repr n
      have hread := (Numeral.read?_digits hne hdigits).1
      have hvalue := digitsValue_toString n
      show integer? (toString n).toList = some (n : Int)
      simp only [integer?, hread, Numeral.isInteger, Numeral.toNumber, hvalue]
      rfl
  | negSucc n =>
      obtain ⟨hne, hdigits⟩ := digits_repr (n + 1)
      have hread := (Numeral.read?_digits hne hdigits).2
      have hvalue := digitsValue_toString (n + 1)
      rw [toList_negSucc]
      simp only [integer?, hread, Numeral.isInteger, Numeral.toNumber, hvalue]
      rfl

end NovelScript
