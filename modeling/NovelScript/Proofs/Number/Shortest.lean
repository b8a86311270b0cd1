/-
The shortest decimal reads back. A decimal is read by its value: zeros at the
end of its digits may be taken into the exponent, as is done with the decimal
that is written. The search for the shortest one only takes a decimal that reads
back, and if it takes none, all the digits of the double are written, which
stand for the double itself. So nothing has to be known of how many digits the
search needs.

# Reach

A decimal beyond the reach of the doubles is not rounded: it is infinite, or
zero, by the number of its digits and its exponent alone. Zeros at the end
change both of these and not their sum, so they do not matter to this either
(`toDouble_mul_ten`). For the decimal with all digits of a double there is
something to show, since it has many, and their number together with the
exponent has to stay within reach.
-/
import Mathlib.Tactic.NormNum
import NovelScript.Proofs.Number.Rounding

namespace NovelScript

namespace Decimal

open Double

-- ============================================================== the digits

theorem digitCount_le_iff {n k : Nat} (hk : 0 < k) :
    digitCount n ≤ k ↔ n < 10 ^ k :=
  Nat.length_toDigits_le_iff (by decide) hk

/-- A zero at the end is one more digit. -/
theorem digitCount_mul_ten {n : Nat} (hn : n ≠ 0) :
    digitCount (n * 10) = digitCount n + 1 := by
  have happend := Nat.toDigits_append_toDigits (b := 10) (n := n) (d := 0)
    (by decide) (Nat.pos_of_ne_zero hn) (by decide)
  rw [digitCount, digitCount, Nat.mul_comm n 10, ← Nat.add_zero (10 * n),
    ← happend, List.length_append]
  rfl

-- ============================================================== the value

/-- A decimal as a quotient, if it is within reach of the range. -/
theorem toDouble_eq (negative : Bool) {n : Nat} (hn : n ≠ 0) (e : Int) :
    toDouble negative ⟨n, e⟩
      = if 310 < (digitCount n : Int) + e then .infinite negative
        else if (digitCount n : Int) + e < -330 then .finite negative 0 0
        else ofQuotient negative (n * 10 ^ e.toNat) (10 ^ (-e).toNat) := by
  unfold toDouble
  simp only [if_neg hn, Nat.pow_eq]
  congr 2
  by_cases he : 0 ≤ e
  · rw [if_pos he, show (-e).toNat = 0 by omega, Nat.pow_zero]
  · rw [if_neg he, show e.toNat = 0 by omega, Nat.pow_zero, Nat.mul_one]

/-- A zero at the end of the digits belongs to the exponent. -/
theorem toDouble_mul_ten (negative : Bool) {n : Nat} (hn : n ≠ 0) (e : Int) :
    toDouble negative ⟨n * 10, e⟩ = toDouble negative ⟨n, e + 1⟩ := by
  have hquotient : ofQuotient negative (n * 10 * 10 ^ e.toNat)
        (10 ^ (-e).toNat)
      = ofQuotient negative (n * 10 ^ (e + 1).toNat)
          (10 ^ (-(e + 1)).toNat) := by
    by_cases he : 0 ≤ e
    · rw [show (e + 1).toNat = e.toNat + 1 by omega,
        show (-(e + 1)).toNat = (-e).toNat by omega, Nat.pow_succ]
      congr 1
      ring
    · rw [show (-e).toNat = (-(e + 1)).toNat + 1 by omega,
        show e.toNat = (e + 1).toNat by omega, Nat.pow_succ,
        Nat.mul_comm (10 ^ _) 10, ← ofQuotient_mul (k := 10) (by decide)
          negative (n * 10 ^ (e + 1).toNat)]
      congr 1
      ring
  rw [toDouble_eq negative (by omega), toDouble_eq negative hn,
    digitCount_mul_ten hn, hquotient, Int.natCast_add, Int.add_assoc,
    Int.add_comm (1 : Nat) e]
  rfl

/-- Zeros at the end of the digits belong to the exponent. -/
theorem toDouble_zeros (negative : Bool) (n k : Nat) (e : Int) :
    toDouble negative ⟨n * 10 ^ k, e⟩ = toDouble negative ⟨n, e + k⟩ := by
  by_cases hn : n = 0
  · subst hn
    rw [Nat.zero_mul]
    rfl
  · induction k generalizing e with
    | zero => rw [Nat.pow_zero, Nat.mul_one, Int.natCast_zero, Int.add_zero]
    | succ k ih =>
        have hne : n * 10 ^ k ≠ 0 :=
          Nat.mul_ne_zero hn (Nat.ne_of_gt (Nat.pow_pos (by decide)))
        rw [Nat.pow_succ, ← Nat.mul_assoc, toDouble_mul_ten negative hne, ih,
          Int.natCast_succ, Int.add_assoc, Int.add_comm 1]

/-- Without the zeros at its end, a decimal has the same value. -/
theorem toDouble_stripped (negative : Bool) (fuel : Nat) (d : Decimal) :
    toDouble negative (stripped fuel d) = toDouble negative d := by
  induction fuel generalizing d with
  | zero => rfl
  | succ fuel ih =>
      rw [stripped]
      split
      · next h =>
        have hdigits : d.digits = d.digits / 10 * 10 := by omega
        rw [ih, ← toDouble_mul_ten negative (by omega), ← hdigits]
      · rfl

theorem toDouble_strip (negative : Bool) (d : Decimal) :
    toDouble negative d.strip = toDouble negative d :=
  toDouble_stripped negative _ d

/-- What a decimal stands for is infinite, or a number in proper form with the
sign that was asked for. -/
theorem toDouble_cases (negative : Bool) (d : Decimal) :
    toDouble negative d = .infinite negative
      ∨ ∃ m s, toDouble negative d = .finite negative m s ∧ Proper m s := by
  have hzero : Proper 0 0 := ⟨by norm_num, Nat.zero_le _, by simp⟩
  obtain ⟨n, e⟩ := d
  by_cases hn : n = 0
  · subst hn
    exact Or.inr ⟨0, 0, rfl, hzero⟩
  · rw [toDouble_eq negative hn]
    split
    · exact Or.inl rfl
    · split
      · exact Or.inr ⟨0, 0, rfl, hzero⟩
      · exact ofQuotient_cases negative _ _

/-- The sign has no part in the reading. -/
theorem toDouble_sign {d : Decimal} {m s : Nat} (negative : Bool)
    (h : toDouble false d = .finite false m s) :
    toDouble negative d = .finite negative m s := by
  obtain ⟨n, e⟩ := d
  by_cases hn : n = 0
  · subst hn
    obtain ⟨-, rfl, rfl⟩ := finite.inj h
    rfl
  · rw [toDouble_eq _ hn] at h ⊢
    split at h
    · cases h
    · next hlarge =>
      rw [if_neg hlarge]
      split at h
      · next hsmall =>
        obtain ⟨-, rfl, rfl⟩ := finite.inj h
        rw [if_pos hsmall]
      · next hsmall =>
        rw [if_neg hsmall]
        exact ofQuotient_sign negative h

-- =========================================================== the shortest

/-- What the search takes reads back. -/
theorem toDouble_of_readingBack? {m s count : Nat} {d : Decimal}
    (h : readingBack? m s count = some d) :
    toDouble false d = .finite false m s := by
  unfold readingBack? at h
  extract_lets num den at h
  generalize neighbours num den (pointPlace num den - count) = near at h
  have hfound := List.find?_some h
  simpa using hfound

/-- The digits of a double are neither too many nor too few to be read. -/
theorem reach_exactly : 2 ^ 53 * 2 ^ maxScale * 5 ^ unitBits ≤ 10 ^ 1384
    ∧ 10 ^ 743 ≤ 5 ^ unitBits ∧ unitBits = 1074 := by
  decide +kernel

theorem digitCount_exactly {m s : Nat} (h : Proper m s) (hm : m ≠ 0) :
    743 < digitCount (m * 2 ^ s * 5 ^ unitBits)
      ∧ digitCount (m * 2 ^ s * 5 ^ unitBits) ≤ 1384 := by
  obtain ⟨hhigh, hlow, -⟩ := reach_exactly
  have hunits : 0 < m * 2 ^ s :=
    Nat.mul_pos (Nat.pos_of_ne_zero hm) (Nat.two_pow_pos s)
  have hbound : m * 2 ^ s < 2 ^ 53 * 2 ^ maxScale :=
    Nat.mul_lt_mul_of_lt_of_le h.fits
      (Nat.pow_le_pow_right (by decide) h.inRange) (Nat.two_pow_pos _)
  -- of the powers nothing is computed any more
  generalize unitBits = bits at *
  have hfive : 0 < 5 ^ bits := Nat.pow_pos (by decide)
  constructor
  · refine Nat.not_le.mp fun hle => ?_
    have hlt := (digitCount_le_iff (by decide)).mp hle
    exact absurd (lt_of_lt_of_le hlt hlow)
      (Nat.not_lt.mpr (Nat.le_mul_of_pos_left _ hunits))
  · exact (digitCount_le_iff (by decide)).mpr (lt_of_lt_of_le
      (Nat.mul_lt_mul_of_pos_right hbound hfive) hhigh)

/-- All the digits of a number read back. -/
theorem toDouble_exactly {m s : Nat} (h : Proper m s) (hm : m ≠ 0) :
    toDouble false (exactly m s) = .finite false m s := by
  obtain ⟨hlow, hhigh⟩ := digitCount_exactly h hm
  have hquotient := ofQuotient_proper h false
  have hbits := reach_exactly.2.2
  unfold exactly
  simp only [Nat.pow_eq] at hquotient ⊢
  generalize unitBits = bits at *
  have hne : m * 2 ^ s * 5 ^ bits ≠ 0 :=
    Nat.mul_ne_zero (Nat.mul_ne_zero hm (Nat.ne_of_gt (Nat.two_pow_pos s)))
      (Nat.ne_of_gt (Nat.pow_pos (by decide)))
  rw [toDouble_eq false hne, if_neg (by omega), if_neg (by omega), Int.neg_neg,
    Int.toNat_natCast, show (-(bits : Int)).toNat = 0 by omega, Nat.pow_zero,
    Nat.mul_one, show 10 ^ bits = 5 ^ bits * 2 ^ bits by
      rw [← Nat.mul_pow], Nat.mul_comm (m * 2 ^ s),
    ofQuotient_mul (Nat.pow_pos (by decide))]
  exact hquotient

/-- The shortest decimal reads back. -/
theorem toDouble_shortest {m s : Nat} (h : Proper m s) (hm : m ≠ 0) :
    toDouble false (shortest m s) = .finite false m s := by
  rw [shortest, toDouble_strip]
  cases hfound : (List.range 17).findSome? fun i =>
      readingBack? m s (i + 1) with
  | none => exact toDouble_exactly h hm
  | some d =>
      obtain ⟨i, -, hi⟩ := List.exists_of_findSome?_eq_some hfound
      exact toDouble_of_readingBack? hi

end Decimal

end NovelScript
