/-
Numbers are stable. The text of a number is a numeral again, and stands for the
number; only what is infinite has no numeral.

# Integers

An integer is written in its digits, behind a minus sign or not.

# Doubles

A double is written with the digits of its shortest decimal, around a point or
in front of a power of ten; the reader puts the digits together again whatever
the form is, so the numeral stands for the decimal, and the decimal reads back.
There are three forms with a point, by where the point falls: behind all digits,
with zeros in between; among them; or in front of them. In each the digits with
their zeros have the value of the decimal's digits times a power of ten
(`digitsValue_append_zeros`, `digitsValue_zeros_append`), and the exponent takes
the power back.

A double without fraction is not written like an integer: it keeps a point or a
power, so it is read as a double again.
-/
import NovelScript.Proofs.Number.Shortest
import NovelScript.Proofs.Number.Whole

namespace NovelScript

open Text

-- ============================================================== the digits

namespace Text

/-- Common digits. -/
def Digits (ds : List Char) : Prop := ∀ c ∈ ds, c.isDigit = true

theorem Digits.append {as bs : List Char} (ha : Digits as) (hb : Digits bs) :
    Digits (as ++ bs) :=
  List.forall_mem_append.mpr ⟨ha, hb⟩

theorem digits_zeros (k : Nat) : Digits (List.replicate k '0') := by
  intro c hc
  rw [List.eq_of_mem_replicate hc]
  rfl

theorem digits_toString (n : Nat) : Digits (toString n).toList :=
  (digits_repr n).2

/-- Zeros behind digits are powers of ten. -/
theorem digitsValue_append_zeros {ds : List Char} (h : Digits ds) (k : Nat) :
    digitsValue (ds ++ List.replicate k '0') = digitsValue ds * 10 ^ k := by
  rw [digitsValue_eq (h.append (digits_zeros k)), digitsValue_eq h,
    Nat.ofDigitChars_append, Nat.ofDigitChars_replicate_zero, Nat.mul_comm]

/-- Zeros in front of digits are nothing. -/
theorem digitsValue_zeros_append {ds : List Char} (h : Digits ds) (k : Nat) :
    digitsValue (List.replicate k '0' ++ ds) = digitsValue ds := by
  rw [digitsValue_eq ((digits_zeros k).append h), digitsValue_eq h,
    Nat.ofDigitChars_append, Nat.ofDigitChars_replicate_zero, Nat.mul_zero]

end Text

-- ============================================================= the numeral

namespace Numeral

/-- Digits around a point, with what may follow them. -/
theorem unsigned?_point {w f rest : List Char} (negative : Bool)
    (hw : Digits w) (hf : Digits f) (hne : w ≠ [] ∨ f ≠ [])
    (hrest : ∀ c ∈ rest.head?, isDigit c = false) :
    unsigned? negative (w ++ '.' :: (f ++ rest))
      = (power? rest).map fun p => (⟨negative, w, some f, p.1⟩, p.2) := by
  have hpoint : ∀ c ∈ ('.' :: (f ++ rest)).head?, isDigit c = false := by
    intro c hc
    obtain rfl : '.' = c := by simpa using hc
    decide
  have hempty : (w.isEmpty && f.isEmpty) = false := by
    rcases hne with h | h <;> simp [h]
  rw [unsigned?_eq, takeWhile_stop (isDigit_of_common hw) hpoint,
    dropWhile_stop (isDigit_of_common hw) hpoint]
  simp only [pointPart, takeWhile_stop (isDigit_of_common hf) hrest,
    dropWhile_stop (isDigit_of_common hf) hrest, Option.getD_some, hempty]
  rfl

/-- Digits without a point, with what may follow them. -/
theorem unsigned?_whole {w rest : List Char} (negative : Bool)
    (hw : Digits w) (hne : w ≠ [])
    (hrest : ∀ c ∈ rest.head?, isDigit c = false ∧ c ≠ '.') :
    unsigned? negative (w ++ rest)
      = (power? rest).map fun p => (⟨negative, w, none, p.1⟩, p.2) := by
  have hstop : ∀ c ∈ rest.head?, isDigit c = false :=
    fun c hc => (hrest c hc).1
  have hpart : pointPart rest = (none, rest) := by
    unfold pointPart
    split
    · exact absurd rfl (hrest '.' rfl).2
    · rfl
  have hempty : w.isEmpty = false := by simpa using hne
  rw [unsigned?_eq, takeWhile_stop (isDigit_of_common hw) hstop,
    dropWhile_stop (isDigit_of_common hw) hstop, hpart, hempty]
  rfl

theorem power?_e (cs : List Char) :
    power? ('e' :: cs) = match (powerSign cs).2.takeWhile isDigit with
      | [] => none
      | ds => some (some ((powerSign cs).1, ds),
          (powerSign cs).2.dropWhile isDigit) := by
  unfold power?
  exact if_pos (Or.inl rfl)

/-- A power of ten is a letter, a sign and digits. -/
theorem power?_digits (negative : Bool) {ds : List Char} (h : Digits ds)
    (hne : ds ≠ []) :
    power? ('e' :: (if negative then '-' else '+') :: ds)
      = some (some (negative, ds), []) := by
  have htake : ds.takeWhile isDigit = ds :=
    List.takeWhile_eq_self_iff.mpr (isDigit_of_common h)
  have hdrop : ds.dropWhile isDigit = [] :=
    List.dropWhile_eq_nil_iff.mpr (isDigit_of_common h)
  have hsign : powerSign ((if negative then '-' else '+') :: ds)
      = (negative, ds) := by
    cases negative <;> rfl
  obtain ⟨d, more, rfl⟩ := List.exists_cons_of_ne_nil hne
  rw [power?_e, hsign]
  simp only [htake, hdrop]

/-- The digits of a power of ten, two of them at least. -/
def powerDigits (e : Int) : List Char :=
  (if (toString e.natAbs).length < 2 then "0" ++ toString e.natAbs
    else toString e.natAbs).toList

theorem toList_exponentText (e : Int) : (Decimal.exponentText e).toList
    = 'e' :: (if decide (e < 0) then '-' else '+') :: powerDigits e := by
  have htext : (Decimal.exponentText e).toList
      = (if e < 0 then "e-" else "e+").toList ++ powerDigits e :=
    String.toList_append
  rw [htext]
  by_cases hsign : e < 0
  · rw [if_pos hsign, if_pos (by simpa using hsign)]
    rfl
  · rw [if_neg hsign, if_neg (by simpa using hsign)]
    rfl

theorem powerDigits_spec (e : Int) : Digits (powerDigits e)
    ∧ powerDigits e ≠ [] ∧ digitsValue (powerDigits e) = e.natAbs := by
  have hdigits := digits_toString e.natAbs
  have hvalue := digitsValue_toString e.natAbs
  unfold powerDigits
  split
  · have hzero := digitsValue_zeros_append hdigits 1
    rw [String.toList_append]
    exact ⟨(digits_zeros 1).append hdigits, by simp, hzero.trans hvalue⟩
  · exact ⟨hdigits, (digits_repr e.natAbs).1, hvalue⟩

/-- A power of ten is read as it is written. -/
theorem power?_exponentText (e : Int) :
    power? (Decimal.exponentText e).toList
      = some (some (decide (e < 0), powerDigits e), []) := by
  obtain ⟨hdigits, hne, -⟩ := powerDigits_spec e
  rw [toList_exponentText, power?_digits _ hdigits hne]

/-- A numeral is read behind its sign. -/
theorem read?_signed {negative : Bool} {body : List Char} {m : Numeral}
    (h : unsigned? negative body = some (m, [])) :
    read? ((if negative then ['-'] else []) ++ body) = some m := by
  cases negative with
  | true => simp only [if_true, List.singleton_append, read?, h]
  | false =>
      -- Digits or a point stand in front, so no sign is split off.
      obtain ⟨c, hc, hhead⟩ := (unsigned_of_unsigned? h).head
      have hminus : ∀ r, body ≠ '-' :: r := by
        rintro r rfl
        obtain rfl : '-' = c := by simpa using hc
        revert hhead
        decide
      simp only [Bool.false_eq_true, if_false, List.nil_append, read?, h]

end Numeral

-- ============================================================= the decimal

namespace Decimal

/-- A text that is read as a decimal, by a numeral that is no integer. -/
def Reads (negative : Bool) (cs : List Char) (d : Decimal) : Prop :=
  ∃ m, Numeral.unsigned? negative cs = some (m, []) ∧ m.isInteger = false
    ∧ m.toDouble = toDouble negative d

section

variable (negative : Bool) {w f : List Char} (hw : Digits w) (hf : Digits f)

include hw hf in
/-- Digits around a point. -/
theorem reads_point (hne : w ≠ [] ∨ f ≠ []) :
    Reads negative (w ++ '.' :: f) ⟨digitsValue (w ++ f), -(f.length : Int)⟩ := by
  have hread := @Numeral.unsigned?_point w f [] negative hw hf hne (by simp)
  rw [List.append_nil] at hread
  refine ⟨_, hread, rfl, ?_⟩
  simp only [Numeral.toDouble, Option.getD_some, Int.zero_sub]

/-- The power of ten that its digits and its sign stand for. -/
theorem value_power (e : Int) :
    (if decide (e < 0) then -(digitsValue (Numeral.powerDigits e) : Int)
      else digitsValue (Numeral.powerDigits e)) = e := by
  rw [(Numeral.powerDigits_spec e).2.2]
  by_cases he : e < 0
  · rw [if_pos (by simpa using he)]
    omega
  · rw [if_neg (by simpa using he)]
    omega

theorem head_exponentText (e : Int) :
    ∀ c ∈ (exponentText e).toList.head?, isDigit c = false ∧ c ≠ '.' := by
  intro c hc
  rw [Numeral.toList_exponentText] at hc
  obtain rfl : 'e' = c := by simpa using hc
  decide

include hw hf in
/-- Digits around a point, and a power of ten. -/
theorem reads_point_power (hne : w ≠ [] ∨ f ≠ []) (e : Int) :
    Reads negative (w ++ '.' :: (f ++ (exponentText e).toList))
      ⟨digitsValue (w ++ f), e - f.length⟩ := by
  have hread := Numeral.unsigned?_point negative hw hf hne
    (fun c hc => (head_exponentText e c hc).1)
  rw [Numeral.power?_exponentText] at hread
  refine ⟨_, hread, rfl, ?_⟩
  simp only [Numeral.toDouble, Option.getD_some, value_power]

include hw in
/-- Digits and a power of ten. -/
theorem reads_whole_power (hne : w ≠ []) (e : Int) :
    Reads negative (w ++ (exponentText e).toList) ⟨digitsValue w, e⟩ := by
  have hread := Numeral.unsigned?_whole negative hw hne (head_exponentText e)
  rw [Numeral.power?_exponentText] at hread
  refine ⟨_, hread, rfl, ?_⟩
  simp only [Numeral.toDouble, Option.getD_none, value_power, List.append_nil,
    List.length_nil, Int.natCast_zero, Int.sub_zero]

end

-- ============================================================ its written forms

section

variable (negative : Bool) {cs : List Char} (h : Digits cs)
include h

/-- The point stands in front of the digits, with zeros between them. -/
theorem reads_behind (k : Nat) :
    Reads negative ('0' :: '.' :: (List.replicate k '0' ++ cs))
      ⟨digitsValue cs, -((k + cs.length : Nat) : Int)⟩ := by
  have hf := (digits_zeros k).append h
  have hread := reads_point negative (digits_zeros 1) hf (Or.inl (by simp))
  rw [digitsValue_zeros_append hf, digitsValue_zeros_append h,
    List.length_append, List.length_replicate] at hread
  exact hread

/-- The point stands behind the digits, with zeros between them. -/
theorem reads_before (k : Nat) :
    Reads negative (cs ++ List.replicate k '0' ++ ['.', '0'])
      ⟨digitsValue cs, k⟩ := by
  obtain ⟨m, hread, hint, hvalue⟩ := reads_point negative
    (h.append (digits_zeros k)) (digits_zeros 1) (Or.inr (by simp))
  refine ⟨m, hread, hint, ?_⟩
  rw [hvalue, List.append_assoc, List.replicate_append_replicate,
    digitsValue_append_zeros h, toDouble_zeros, List.length_replicate]
  congr 2
  omega

/-- The point stands among the digits. -/
theorem reads_among {k : Nat} (hk : 0 < k) (hle : k ≤ cs.length) :
    Reads negative (cs.take k ++ '.' :: cs.drop k)
      ⟨digitsValue cs, (k : Int) - cs.length⟩ := by
  have hne : cs.take k ≠ [] := by
    rw [ne_eq, List.take_eq_nil_iff]
    rintro (rfl | rfl)
    · exact absurd hk (Nat.lt_irrefl 0)
    · exact absurd (Nat.lt_of_lt_of_le hk hle) (Nat.lt_irrefl 0)
  have hw : Digits (cs.take k) := fun c hc => h c (List.mem_of_mem_take hc)
  have hf : Digits (cs.drop k) := fun c hc => h c (List.mem_of_mem_drop hc)
  have hread := reads_point negative hw hf (Or.inl hne)
  rw [List.take_append_drop, List.length_drop] at hread
  rwa [show (k : Int) - cs.length = -((cs.length - k : Nat) : Int) by omega]

/-- The point stands behind the first digit, if there are more, and a power
of ten behind the last. -/
theorem reads_scientific (hne : cs ≠ []) (e : Int) :
    Reads negative
      (cs.take 1 ++ ((if (cs.drop 1).isEmpty then [] else '.' :: cs.drop 1)
        ++ (exponentText e).toList))
      ⟨digitsValue cs, e - (cs.length - 1 : Nat)⟩ := by
  obtain ⟨c, more, rfl⟩ := List.exists_cons_of_ne_nil hne
  obtain ⟨hfirst, hmore⟩ := List.forall_mem_cons.mp h
  have hc : Digits [c] := List.forall_mem_singleton.mpr hfirst
  cases more with
  | nil =>
      have hread := reads_whole_power negative hc (by simp) e
      simpa using hread
  | cons d more =>
      have hread := reads_point_power negative hc hmore (Or.inl (by simp)) e
      simpa using hread

end

theorem toList_zeros (k : Nat) :
    (zeros k).toList = List.replicate k '0' :=
  String.toList_ofList

theorem toList_point (cs : List Char) :
    ("." ++ String.ofList cs).toList = '.' :: cs := by
  simp

/-- The text of a decimal is read as the decimal. -/
theorem reads_text (negative : Bool) (d : Decimal) :
    Reads negative d.text.toList d := by
  obtain ⟨n, e⟩ := d
  have hdigits := digits_toString n
  have hvalue := digitsValue_toString n
  have hne := (digits_repr n).1
  have hlength : (toString n).length = (toString n).toList.length :=
    String.length_toList.symm
  unfold text
  simp only
  generalize toString n = ds at *
  rw [hlength]
  -- The point may fall in front of the digits, behind them or among them; if it
  -- would fall too far away a power of ten is written instead.
  have hpos : 0 < ds.toList.length := List.length_pos_of_ne_nil hne
  split
  · split
    · next hpoint =>
      have hread := reads_behind negative hdigits
        (-((ds.toList.length : Int) + e)).toNat
      rw [hvalue, show -(((-((ds.toList.length : Int) + e)).toNat
        + ds.toList.length : Nat) : Int) = e by omega] at hread
      rw [String.toList_append, String.toList_append, toList_zeros]
      exact hread
    · split
      · next hpoint hwhole =>
        have hread := reads_before negative hdigits
          (((ds.toList.length : Int) + e).toNat - ds.toList.length)
        rw [hvalue, show ((((ds.toList.length : Int) + e).toNat
          - ds.toList.length : Nat) : Int) = e by omega] at hread
        rw [String.toList_append, String.toList_append, toList_zeros]
        exact hread
      · next hpoint hwhole =>
        have hread := @reads_among negative _ hdigits
          ((ds.toList.length : Int) + e).toNat (by omega) (by omega)
        rw [hvalue, show ((((ds.toList.length : Int) + e).toNat : Nat) : Int)
          - ds.toList.length = e by omega] at hread
        rw [String.append_assoc, String.toList_append, toList_point,
          String.toList_ofList]
        exact hread
  · have hread := reads_scientific negative hdigits hne
      ((ds.toList.length : Int) + e - 1)
    rw [hvalue, show (ds.toList.length : Int) + e - 1
      - ((ds.toList.length - 1 : Nat) : Int) = e by omega] at hread
    have hpoint : ∀ cs : List Char,
        (if cs.isEmpty then "" else "." ++ String.ofList cs).toList
          = if cs.isEmpty then [] else '.' :: cs := by
      intro cs
      split
      · rfl
      · exact toList_point cs
    rw [String.toList_append, String.toList_append, String.toList_ofList,
      List.append_assoc, hpoint]
    exact hread

end Decimal

-- ============================================================== the number

/-- A finite double in proper form is read as it is written. -/
theorem Double.read?_text {m s : Nat} (h : Double.Proper m s)
    (negative : Bool) :
    ∃ k, Numeral.read? (Double.finite negative m s).text.toList = some k
      ∧ k.toNumber = .double (.finite negative m s) := by
  -- Behind the sign stands a decimal that is read as the double.
  obtain ⟨body, d, htext, hbody, hd⟩ : ∃ body d,
      (Double.finite negative m s).text = (if negative then "-" else "") ++ body
      ∧ Decimal.Reads negative body.toList d
      ∧ d.toDouble negative = .finite negative m s := by
    by_cases hm : m = 0
    · have hs : s = 0 := by
        by_contra hs
        exact absurd (h.full hs) (by rw [hm]; decide)
      subst hm hs
      exact ⟨"0.0", _, rfl, Decimal.reads_point negative (digits_zeros 1)
        (digits_zeros 1) (Or.inl (by simp)), rfl⟩
    · refine ⟨_, Decimal.shortest m s, ?_, Decimal.reads_text negative _,
        Decimal.toDouble_sign negative (Decimal.toDouble_shortest h hm)⟩
      rw [Double.text, if_neg hm]
  obtain ⟨k, hread, hint, hvalue⟩ := hbody
  refine ⟨k, ?_, ?_⟩
  · have hsigned := Numeral.read?_signed hread
    rw [htext, String.toList_append]
    cases negative <;> exact hsigned
  · rw [Numeral.toNumber, hint, if_neg (by decide), hvalue, hd]

/-- An integer is read as it is written. -/
theorem Numeral.read?_toString (i : Int) :
    ∃ k, read? (toString i).toList = some k ∧ k.toNumber = .int i := by
  have hinteger := Grammar.integer?_toString i
  unfold Grammar.integer? at hinteger
  split at hinteger
  · next k hread =>
    split at hinteger
    · next j _ hj =>
      obtain rfl := Option.some.inj hinteger
      exact ⟨k, hread, hj⟩
    · cases hinteger
  · cases hinteger

/-- A numeral stands for an integer, for a double in proper form, or for what
is infinite. -/
theorem Numeral.toNumber_cases (k : Numeral) :
    (∃ i, k.toNumber = .int i)
      ∨ (∃ negative m s, k.toNumber = .double (.finite negative m s)
          ∧ Double.Proper m s)
      ∨ ∃ negative, k.toNumber = .double (.infinite negative) := by
  unfold Numeral.toNumber
  split
  · exact Or.inl ⟨_, rfl⟩
  · unfold Numeral.toDouble
    extract_lets fraction power
    rcases Decimal.toDouble_cases k.negative
      ⟨digitsValue (k.whole ++ fraction), power - fraction.length⟩
      with hinf | ⟨m, s, hfin, hproper⟩
    · exact Or.inr (Or.inr ⟨_, by rw [hinf]⟩)
    · exact Or.inr (Or.inl ⟨_, m, s, by rw [hfin], hproper⟩)

namespace Number

theorem read?_of_numeral {cs : List Char} {k : Numeral}
    (h : Numeral.read? cs = some k) :
    isNumeral cs = true ∧ Number.read? cs = some k.toNumber := by
  rw [isNumeral, Number.read?, h]
  exact ⟨rfl, rfl⟩

/-- The number of a numeral is written as a numeral that stands for it,
except for what is infinite, which is written as none. -/
theorem stable_iff {cs : List Char} (h : isNumeral cs = true) :
    ∃ n, Number.read? cs = some n
      ∧ ((isNumeral n.text.toList = true
          ∧ Number.read? n.text.toList = some n)
        ↔ ∀ negative, n ≠ .double (.infinite negative)) := by
  obtain ⟨k, hk⟩ := Option.isSome_iff_exists.mp h
  refine ⟨k.toNumber, (read?_of_numeral hk).2, ?_⟩
  constructor
  · rintro ⟨hnumeral, -⟩ negative hinf
    rw [hinf] at hnumeral
    revert hnumeral
    cases negative <;> decide
  · intro hfinite
    obtain ⟨k', hread, hnumber⟩ : ∃ k' : Numeral,
        Numeral.read? k.toNumber.text.toList = some k'
          ∧ k'.toNumber = k.toNumber := by
      rcases k.toNumber_cases with ⟨i, hi⟩ | ⟨negative, m, s, hd, hproper⟩
        | ⟨negative, hinf⟩
      · rw [hi]
        exact Numeral.read?_toString i
      · rw [hd]
        exact Double.read?_text hproper negative
      · exact absurd hinf (hfinite negative)
    obtain ⟨hnumeral, hsame⟩ := read?_of_numeral hread
    exact ⟨hnumeral, by rw [hsame, hnumber]⟩

/-- Beyond the largest double, a numeral stands for what has none. -/
theorem not_isNumeral_infinite :
    isNumeral "1e999".toList = true
      ∧ Number.read? "1e999".toList = some (.double (.infinite false))
      ∧ isNumeral (Number.double (.infinite false)).text.toList = false := by
  decide +kernel

end Number

end NovelScript
