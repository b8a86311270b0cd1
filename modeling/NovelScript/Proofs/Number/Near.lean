/-
Numbers that count as the same. Being near is symmetric, and every number that
has a double and is a number is near itself. It is not transitive: the tolerance
may be spent once on each side.

An integer is compared by its double, and has none if it is too large; then
there is no answer, which is a third case besides yes and no (`Measurable`).
What is no number is close to nothing, itself included
(`not_isNan_of_closeDoubles`). Two infinite doubles are close if they are equal.
All this is read off the comparison of doubles, in which the distance of two
values is taken in whole units, without rounding.
-/
import Mathlib.Data.Int.Basic
import NovelScript.Number.Numeral

namespace NovelScript

namespace Double

theorem eq_symm (a b : Double) : a.eq b = b.eq a := by
  cases a <;> cases b <;> simp [eq, eq_comm]

theorem distance_symm (u v : Int) : distance u v = distance v u := by
  rw [distance, distance, ← Int.natAbs_neg, Int.neg_sub]

/-- What is no number. -/
def IsNan (d : Double) : Prop := ∃ mark, d = nan mark

/-- Rounding makes a number, or goes beyond the largest one. -/
theorem not_isNan_normal (negative : Bool) (mantissa scale : Nat) :
    ¬ (normal negative mantissa scale).IsNan := by
  rintro ⟨mark, h⟩
  unfold normal at h
  generalize (if mantissa = Nat.pow 2 53 then (Nat.pow 2 52, scale + 1)
    else (mantissa, scale)) = proper at h
  cases proper with
  | mk m s =>
      simp only at h
      split at h <;> cases h

theorem eq_self {d : Double} (h : ¬ d.IsNan) : d.eq d = true := by
  cases d with
  | nan mark => exact absurd ⟨mark, rfl⟩ h
  | infinite n => exact decide_eq_true rfl
  | finite n m s => exact decide_eq_true rfl

end Double

namespace Number

theorem closeDoubles_symm (a b : Double) :
    closeDoubles a b = closeDoubles b a := by
  unfold closeDoubles
  rw [Double.eq_symm]
  cases a.units? with
  | none => cases b.units? <;> rfl
  | some u =>
      cases b.units? with
      | none => rfl
      | some v => simp only [Double.distance_symm]

theorem closeDoubles_self {d : Double} (h : ¬ d.IsNan) :
    closeDoubles d d = true := by
  rw [closeDoubles, Double.eq_self h, Bool.true_or]

/-- What is no number is close to nothing. -/
theorem not_isNan_of_closeDoubles {a b : Double}
    (h : closeDoubles a b = true) : ¬ b.IsNan := by
  rintro ⟨mark, rfl⟩
  cases a <;> cases h

-- ================================================================ near

/-- Two numbers that count as the same. -/
def Near (a b : Number) : Prop := a.close? b = some true

/-- A number that can be compared: it has a double. All doubles can be, and
integers up to the largest double. -/
def Measurable (n : Number) : Prop := ∃ d, n.toDouble? = some d

/-- A number that is none. -/
def IsNan (n : Number) : Prop := ∃ mark, n = .double (.nan mark)

theorem near_iff {a b : Number} :
    Near a b ↔ ∃ x y, a.toDouble? = some x ∧ b.toDouble? = some y
      ∧ closeDoubles x y = true := by
  unfold Near close?
  cases a.toDouble? <;> cases b.toDouble? <;> simp

theorem Near.symm {a b : Number} (h : Near a b) : Near b a := by
  obtain ⟨x, y, hx, hy, hxy⟩ := near_iff.mp h
  exact near_iff.mpr ⟨y, x, hy, hx, by rw [closeDoubles_symm, hxy]⟩

/-- Numbers that can be compared are near or not. -/
theorem close?_of_measurable {a b : Number} (ha : a.Measurable)
    (hb : b.Measurable) : ∃ near, a.close? b = some near := by
  obtain ⟨x, hx⟩ := ha
  obtain ⟨y, hy⟩ := hb
  exact ⟨closeDoubles x y, by rw [close?, hx, hy]⟩

/-- A number that cannot be compared is an integer. -/
theorem exists_int_of_not_measurable {n : Number} (h : ¬ n.Measurable) :
    ∃ i, n = .int i ∧ (Number.int i).toDouble? = none := by
  cases n with
  | double d => exact absurd ⟨d, rfl⟩ h
  | int i =>
      refine ⟨i, rfl, ?_⟩
      cases hd : (Number.int i).toDouble? with
      | none => rfl
      | some d => exact absurd ⟨d, hd⟩ h

theorem not_isNan_ofInt (i : Int) : ¬ (Double.ofInt i).IsNan := by
  rw [Double.ofInt, Double.ofQuotient]
  exact Double.not_isNan_normal _ _ _

theorem not_isNan_of_toDouble? {n : Number} {d : Double}
    (hd : n.toDouble? = some d) (hn : ¬ n.IsNan) : ¬ d.IsNan := by
  revert hd
  fun_cases toDouble? n with
  | case1 i negative hround =>
      intro hd
      cases hd
  | case2 i hround =>
      intro hd
      rw [← Option.some.inj hd]
      exact not_isNan_ofInt i
  | case3 d' =>
      intro hd
      rw [← Option.some.inj hd]
      rintro ⟨mark, rfl⟩
      exact hn ⟨mark, rfl⟩

/-- A number is near itself. -/
theorem near_self {n : Number} (hd : n.Measurable) (hn : ¬ n.IsNan) :
    Near n n := by
  obtain ⟨d, hd⟩ := hd
  exact near_iff.mpr
    ⟨d, d, hd, hd, closeDoubles_self (not_isNan_of_toDouble? hd hn)⟩

/-- What a number is near to is near itself. -/
theorem Near.self_right {a b : Number} (h : Near a b) : Near b b := by
  obtain ⟨x, y, hx, hy, hxy⟩ := near_iff.mp h
  exact near_iff.mpr
    ⟨y, y, hy, hy, closeDoubles_self (not_isNan_of_closeDoubles hxy)⟩

end Number

end NovelScript
