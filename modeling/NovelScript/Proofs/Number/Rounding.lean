/-
Rounding to doubles. A quotient is rounded by its value alone: numerator and
denominator may have a common factor or not (`ofQuotient_mul`).

# Proper form

What comes out of rounding is in proper form, a mantissa of at most 53 bits that
has all of them unless the scale is the smallest (`ofQuotient_cases`). A
mantissa that is rounded up to the next power of two has one bit too many, and
is halved, which loses nothing. Beyond the largest scale the double is infinite.

# Rounding twice

A double in proper form is what its own value is rounded to
(`ofQuotient_proper`), so rounding twice is rounding once. For this the scale
has to be found again from the value: it is the one at which the integer below
the quotient has 53 bits, and at that scale the quotient is an integer.
-/
import Mathlib.Tactic.Ring
import NovelScript.Number.Decimal

namespace NovelScript

namespace Double

-- ======================================================= integer rounding

/-- A common factor does not matter. -/
theorem roundQuotient_mul {k : Nat} (hk : 0 < k) (a b : Nat) :
    roundQuotient (k * a) (k * b) = roundQuotient a b := by
  have hdouble : 2 * (k * (a % b)) = k * (2 * (a % b)) := by ring
  simp only [roundQuotient, Nat.mul_div_mul_left a b hk,
    Nat.mul_mod_mul_left, hdouble, Nat.mul_lt_mul_left hk]

/-- An integer is rounded to itself. -/
theorem roundQuotient_self (m : Nat) {b : Nat} (hb : 0 < b) :
    roundQuotient (m * b) b = m := by
  rw [roundQuotient, Nat.mul_mod_left, Nat.mul_div_cancel m hb]
  simp [hb]

/-- A quotient is rounded to the integer below or to the one above. -/
theorem roundQuotient_bounds (a b : Nat) :
    a / b ≤ roundQuotient a b ∧ roundQuotient a b ≤ a / b + 1 := by
  unfold roundQuotient
  simp only
  split
  · omega
  · split
    · omega
    · split <;> omega

-- ============================================================ proper form

/-- The one proper form of a finite number: the mantissa has 53 bits, or fewer
at the smallest scale. -/
structure Proper (mantissa scale : Nat) : Prop where
  /-- The mantissa fits. -/
  fits : mantissa < 2 ^ 53
  /-- The scale is in the range. -/
  inRange : scale ≤ maxScale
  /-- No bit is wasted. -/
  full : scale ≠ 0 → 2 ^ 52 ≤ mantissa

theorem normal_eq (negative : Bool) (m s : Nat) :
    normal negative m s
      = if m = 2 ^ 53 then
          if maxScale < s + 1 then infinite negative
          else finite negative (2 ^ 52) (s + 1)
        else if maxScale < s then infinite negative
        else finite negative m s := by
  unfold normal
  simp only [Nat.pow_eq]
  by_cases h : m = 2 ^ 53
  · simp only [if_pos h]
  · simp only [if_neg h]

/-- A mantissa of 53 bits, or the power of two above them, is brought into
proper form, unless it is beyond the range. -/
theorem normal_cases (negative : Bool) {m s : Nat} (hm : m ≤ 2 ^ 53)
    (hs : s ≠ 0 → 2 ^ 52 ≤ m) :
    normal negative m s = infinite negative
      ∨ ∃ m' s', normal negative m s = finite negative m' s'
          ∧ Proper m' s' := by
  rw [normal_eq]
  split
  · split
    · exact Or.inl rfl
    · exact Or.inr ⟨_, _, rfl, Nat.pow_lt_pow_right (by decide) (by decide),
        by omega, fun _ => le_refl _⟩
  · split
    · exact Or.inl rfl
    · exact Or.inr ⟨_, _, rfl, by omega, by omega, hs⟩

/-- What is in proper form stays as it is. -/
theorem Proper.normal {m s : Nat} (h : Proper m s) (negative : Bool) :
    normal negative m s = finite negative m s := by
  rw [normal_eq, if_neg (Nat.ne_of_lt h.fits),
    if_neg (Nat.not_lt.mpr h.inRange)]

-- ============================================================== quotients

/-- The scale at which a number of units has 53 bits before its point. -/
def scaleOf (whole : Nat) : Nat :=
  if whole < 2 ^ 53 then 0 else whole.log2 - 52

theorem ofQuotient_eq (negative : Bool) (a b : Nat) :
    ofQuotient negative a b
      = normal negative
          (roundQuotient (a * Nat.pow 2 unitBits)
            (b * 2 ^ scaleOf (a * Nat.pow 2 unitBits / b)))
          (scaleOf (a * Nat.pow 2 unitBits / b)) := by
  unfold ofQuotient
  generalize a * Nat.pow 2 unitBits = units
  rfl

/-- A quotient is rounded by its value: a common factor of numerator and
denominator does not matter. -/
theorem ofQuotient_mul {k : Nat} (hk : 0 < k) (negative : Bool)
    (a b : Nat) :
    ofQuotient negative (k * a) (k * b) = ofQuotient negative a b := by
  rw [ofQuotient_eq, ofQuotient_eq]
  generalize Nat.pow 2 unitBits = unit
  rw [Nat.mul_assoc, Nat.mul_div_mul_left _ _ hk, Nat.mul_assoc,
    roundQuotient_mul hk]

/-- At its scale, a number of units has 53 bits or less, and no less unless
the scale is the smallest. -/
theorem scaleOf_bounds (whole : Nat) :
    whole / 2 ^ scaleOf whole < 2 ^ 53
      ∧ (scaleOf whole ≠ 0 → 2 ^ 52 ≤ whole / 2 ^ scaleOf whole) := by
  unfold scaleOf
  split
  · next hsmall => simpa using hsmall
  · next hlarge =>
    have hne : whole ≠ 0 := by
      rintro rfl
      norm_num at hlarge
    have hlog : 53 ≤ whole.log2 :=
      (Nat.le_log2 hne).mpr (Nat.not_lt.mp hlarge)
    have hlow := Nat.log2_self_le hne
    have hhigh := Nat.lt_log2_self (n := whole)
    have hpos : 0 < 2 ^ (whole.log2 - 52) := Nat.two_pow_pos _
    constructor
    · rw [Nat.div_lt_iff_lt_mul hpos, ← Nat.pow_add,
        show 53 + (whole.log2 - 52) = whole.log2 + 1 by omega]
      exact hhigh
    · intro _
      rw [Nat.le_div_iff_mul_le hpos, ← Nat.pow_add,
        show 52 + (whole.log2 - 52) = whole.log2 by omega]
      exact hlow

/-- A quotient is rounded to a number in proper form, or is beyond the
range. -/
theorem ofQuotient_cases (negative : Bool) (a b : Nat) :
    ofQuotient negative a b = infinite negative
      ∨ ∃ m s, ofQuotient negative a b = finite negative m s
          ∧ Proper m s := by
  rw [ofQuotient_eq]
  generalize a * Nat.pow 2 unitBits = units
  obtain ⟨hfits, hfull⟩ := scaleOf_bounds (units / b)
  obtain ⟨hlow, hhigh⟩ :=
    roundQuotient_bounds units (b * 2 ^ scaleOf (units / b))
  rw [← Nat.div_div_eq_div_mul] at hlow hhigh
  exact normal_cases negative (by omega)
    (fun hs => le_trans (hfull hs) hlow)

/-- A number in proper form is at its own scale. -/
theorem Proper.scaleOf {m s : Nat} (h : Proper m s) :
    scaleOf (m * 2 ^ s) = s := by
  unfold Double.scaleOf
  by_cases hs : s = 0
  · subst hs
    rw [if_pos (by simpa using h.fits)]
  · have hfull := h.full hs
    have hlarge : 2 ^ (52 + s) ≤ m * 2 ^ s := by
      rw [Nat.pow_add]
      exact Nat.mul_le_mul_right _ hfull
    have hbelow : m * 2 ^ s < 2 ^ (52 + s + 1) := by
      rw [show 52 + s + 1 = 53 + s by omega, Nat.pow_add]
      exact Nat.mul_lt_mul_of_pos_right h.fits (Nat.two_pow_pos s)
    have hlog : (m * 2 ^ s).log2 = 52 + s := by
      refine (Nat.log2_eq_iff ?_).mpr ⟨hlarge, hbelow⟩
      exact Nat.ne_of_gt (lt_of_lt_of_le (Nat.two_pow_pos _) hlarge)
    have hnot : ¬ m * 2 ^ s < 2 ^ 53 := by
      refine Nat.not_lt.mpr (le_trans ?_ hlarge)
      exact Nat.pow_le_pow_right (by decide) (by omega)
    rw [if_neg hnot, hlog]
    omega

/-- A number in proper form is what its value is rounded to. So what was rounded
once is not changed by rounding it again. -/
theorem ofQuotient_proper {m s : Nat} (h : Proper m s) (negative : Bool) :
    ofQuotient negative (m * 2 ^ s) (Nat.pow 2 unitBits)
      = finite negative m s := by
  have hpos : 0 < Nat.pow 2 unitBits := by
    generalize unitBits = bits
    exact Nat.two_pow_pos bits
  rw [ofQuotient_eq]
  generalize Nat.pow 2 unitBits = unit at hpos
  rw [Nat.mul_div_cancel _ hpos, h.scaleOf,
    show m * 2 ^ s * unit = m * (unit * 2 ^ s) by ring,
    roundQuotient_self m (Nat.mul_pos hpos (Nat.two_pow_pos s)), h.normal]

/-- The sign has no part in the rounding. -/
theorem normal_sign {m s m' s' : Nat} (negative : Bool)
    (h : normal false m s = finite false m' s') :
    normal negative m s = finite negative m' s' := by
  rw [normal_eq] at h ⊢
  split at h
  · next hm =>
    rw [if_pos hm]
    split at h
    · cases h
    · next hscale =>
      obtain ⟨-, rfl, rfl⟩ := finite.inj h
      rw [if_neg hscale]
  · next hm =>
    rw [if_neg hm]
    split at h
    · cases h
    · next hscale =>
      obtain ⟨-, rfl, rfl⟩ := finite.inj h
      rw [if_neg hscale]

theorem ofQuotient_sign {a b m s : Nat} (negative : Bool)
    (h : ofQuotient false a b = finite false m s) :
    ofQuotient negative a b = finite negative m s :=
  normal_sign negative h

end Double

end NovelScript
