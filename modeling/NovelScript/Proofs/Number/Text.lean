/-
The written form of a number is one word. An integer is written in digits
behind an optional minus sign, and a double in digits, a point, signs and
letters; nowhere is there a blank, so a number stands on a line like a name.
-/
import NovelScript.Number.Numeral
import NovelScript.Proofs.Number.Accepted

namespace NovelScript

open Text

/-- A text without any white space. -/
def Inked (s : String) : Prop := ∀ c ∈ s.toList, isBlank c = false

theorem inked_append {s t : String} :
    Inked (s ++ t) ↔ Inked s ∧ Inked t := by
  unfold Inked
  rw [String.toList_append]
  exact List.forall_mem_append

theorem Inked.of_subset {s : String} (h : Inked s) {cs : List Char}
    (hs : cs ⊆ s.toList) : Inked (String.ofList cs) := by
  intro c hc
  rw [String.toList_ofList] at hc
  exact h c (hs hc)

theorem inked_nat (n : Nat) : Inked (toString n) := by
  intro c hc
  rw [Nat.toString_eq_repr, Nat.toList_repr] at hc
  have hdigit := Nat.isDigit_of_mem_toDigits (by decide) (by decide) hc
  simp only [Char.isDigit, Bool.and_eq_true, decide_eq_true_eq] at hdigit
  have hlow : 0x30 ≤ c.toNat := hdigit.1
  have hhigh : c.toNat ≤ 0x39 := hdigit.2
  have hrange : inRanges c.toNat [(0x30, 0x39)] = true := by
    rw [inRanges, if_neg (Nat.not_lt.mpr hlow), decide_eq_true hhigh]
    rfl
  exact not_inRanges_of_apart (by decide) hrange

theorem inked_int (i : Int) : Inked (toString i) := by
  cases i with
  | ofNat n => exact inked_nat n
  | negSucc n =>
      have hminus : Inked "-" := by
        unfold Inked
        decide
      exact inked_append.mpr ⟨hminus, inked_nat (n + 1)⟩

theorem inked_zeros (n : Nat) : Inked (Decimal.zeros n) := by
  intro c hc
  rw [Decimal.zeros, String.toList_ofList] at hc
  rw [(List.mem_replicate.mp hc).2]
  decide

theorem inked_exponentText (e : Int) : Inked (Decimal.exponentText e) := by
  have hdigits := inked_nat e.natAbs
  have hzero : Inked "0" := by
    unfold Inked
    decide
  unfold Decimal.exponentText
  refine inked_append.mpr ⟨?_, ?_⟩
  · unfold Inked
    split <;> decide
  · split
    · exact inked_append.mpr ⟨hzero, hdigits⟩
    · exact hdigits

theorem inked_decimal (d : Decimal) : Inked d.text := by
  have hdigits := inked_nat d.digits
  have hpoint : Inked "." := by
    unfold Inked
    decide
  have htake : ∀ k, Inked (String.ofList
      ((toString d.digits).toList.take k)) :=
    fun k => hdigits.of_subset (List.take_subset k _)
  have hdrop : ∀ k, Inked (String.ofList
      ((toString d.digits).toList.drop k)) :=
    fun k => hdigits.of_subset (List.drop_subset k _)
  unfold Decimal.text
  simp only
  split
  · split
    · have hzero : Inked "0." := by
        unfold Inked
        decide
      exact inked_append.mpr ⟨inked_append.mpr ⟨hzero, inked_zeros _⟩,
        hdigits⟩
    · split
      · have hzero : Inked ".0" := by
          unfold Inked
          decide
        exact inked_append.mpr ⟨inked_append.mpr ⟨hdigits,
          inked_zeros _⟩, hzero⟩
      · exact inked_append.mpr ⟨inked_append.mpr ⟨htake _, hpoint⟩,
          hdrop _⟩
  · refine inked_append.mpr ⟨inked_append.mpr ⟨htake 1, ?_⟩,
      inked_exponentText _⟩
    split
    · simp [Inked]
    · exact inked_append.mpr ⟨hpoint, hdrop 1⟩

theorem inked_double (d : Double) : Inked d.text := by
  cases d with
  | nan mark =>
      show Inked "nan"
      unfold Inked
      decide
  | infinite negative =>
      unfold Inked
      cases negative <;> decide
  | finite negative mantissa scale =>
      refine inked_append.mpr ⟨?_, ?_⟩
      · unfold Inked
        cases negative <;> decide
      · split
        · unfold Inked
          decide
        · exact inked_decimal _

/-- A number is written without white space. -/
theorem Number.inked_text (n : Number) : Inked n.text := by
  cases n with
  | int i => exact inked_int i
  | double d => exact inked_double d

end NovelScript
