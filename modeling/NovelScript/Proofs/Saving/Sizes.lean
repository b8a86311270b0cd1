/-
The sizes of accepted settings. A tab stop and an indentation that are accepted
are whole numbers from one to sixteen. Such a number may be written with a
fraction of zero, and is then held as a double; with an integer every source can
be measured and every script laid out, and with a double none that has a line.

# Doubles

The rule for sizes asks for a whole number and then compares it with two bounds.
Of a double without fraction it is known which integer it is, and the comparison
with a bound is that of the integers: both are whole numbers of one unit
(`units?_of_toInt?`), in which doubles are compared. A double that is none, or
infinite, has no integer and does not come this far.

# What a size is good for

An integer is a size that a source can be measured with. A double never is,
although it is accepted (`IsSize.int_or_useless`). This is said of values, and
then of settings whose two sizes are such values (`Sized`).
-/
import NovelScript.Proofs.Saving.Settings
import NovelScript.RoundTrip

namespace NovelScript

-- ================================================================ doubles

namespace Double

variable {d e : Double} {u v : Int}

/-- A double without fraction is a whole number of units of one. -/
theorem units?_of_toInt? {i : Int} (h : d.toInt? = some i) :
    d.units? = some (i * (Nat.pow 2 unitBits : Nat)) := by
  cases d with
  | finite n m s =>
      simp only [toInt?] at h
      split at h
      · next hzero =>
        obtain rfl := Option.some.inj h
        have hdvd := Int.dvd_of_emod_eq_zero hzero
        rw [units?, Int.ediv_mul_cancel hdvd]
      · cases h
  | _ => cases h

theorem unit_pos : (0 : Int) < (Nat.pow 2 unitBits : Nat) := by
  -- of the power itself nothing is computed
  generalize unitBits = bits
  exact Int.natCast_pos.mpr (Nat.two_pow_pos bits)

theorem le_of_units? (hd : d.units? = some u) (he : e.units? = some v) :
    d.le e = decide (u ≤ v) := by
  cases d with
  | finite n m s =>
      cases e with
      | finite n' m' s' =>
          obtain rfl := Option.some.inj hd
          obtain rfl := Option.some.inj he
          rfl
      | _ => cases he
  | _ => cases hd

theorem eq_of_units? (hd : d.units? = some u) (he : e.units? = some v) :
    d.eq e = decide (u = v) := by
  cases d with
  | finite n m s =>
      cases e with
      | finite n' m' s' =>
          obtain rfl := Option.some.inj hd
          obtain rfl := Option.some.inj he
          rfl
      | _ => cases he
  | _ => cases hd

end Double

namespace Number

variable {d : Double} {i bound : Int}

/-- Among doubles without fraction the order is that of integers. -/
theorem isBelow_double (hi : d.toInt? = some i)
    (hbound : (Double.ofInt bound).toInt? = some bound) :
    (Number.double d).isBelow bound = decide (i < bound) := by
  have hd := Double.units?_of_toInt? hi
  have hb := Double.units?_of_toInt? hbound
  have hpos := Double.unit_pos
  rw [isBelow, Double.le_of_units? hd hb, Double.eq_of_units? hd hb,
    Bool.eq_iff_iff]
  simp only [Bool.and_eq_true, Bool.not_eq_true', decide_eq_true_eq,
    decide_eq_false_iff_not, Int.mul_le_mul_right hpos,
    Int.mul_eq_mul_right_iff (Int.ne_of_gt hpos)]
  omega

theorem isAbove_double (hi : d.toInt? = some i)
    (hbound : (Double.ofInt bound).toInt? = some bound) :
    (Number.double d).isAbove bound = decide (bound < i) := by
  have hd := Double.units?_of_toInt? hi
  have hb := Double.units?_of_toInt? hbound
  have hpos := Double.unit_pos
  rw [isAbove, Double.le_of_units? hb hd, Double.eq_of_units? hd hb,
    Bool.eq_iff_iff]
  simp only [Bool.and_eq_true, Bool.not_eq_true', decide_eq_true_eq,
    decide_eq_false_iff_not, Int.mul_le_mul_right hpos,
    Int.mul_eq_mul_right_iff (Int.ne_of_gt hpos)]
  omega

end Number

-- =============================================================== one size

namespace Json

/-- A whole number from one to sixteen, with or without a fraction of zero. -/
def IsSize (v : Json) : Prop :=
  ∃ i : Int, 1 ≤ i ∧ i ≤ 16 ∧ ∃ n, v = .number n ∧ (Number.int i).eq n = true

theorem isSize_int {i : Int} : (Json.int i).IsSize ↔ 1 ≤ i ∧ i ≤ 16 := by
  constructor
  · rintro ⟨j, hleast, hmost, n, hn, hj⟩
    obtain rfl : Number.int i = n := Json.number.inj hn
    obtain rfl : j = i := of_decide_eq_true hj
    exact ⟨hleast, hmost⟩
  · rintro ⟨hleast, hmost⟩
    exact ⟨i, hleast, hmost, .int i, rfl, decide_eq_true rfl⟩

/-- A double without fraction that keeps the bounds of sizes is one. -/
theorem isSize_double {d : Double} {i : Int} (hi : d.toInt? = some i)
    (hleast : (Number.double d).isBelow 1 = false)
    (hmost : (Number.double d).isAbove 16 = false) :
    (Json.number (.double d)).IsSize := by
  have hone : (Double.ofInt 1).toInt? = some 1 := by decide +kernel
  have hsixteen : (Double.ofInt 16).toInt? = some 16 := by decide +kernel
  rw [Number.isBelow_double hi hone, decide_eq_false_iff_not] at hleast
  rw [Number.isAbove_double hi hsixteen, decide_eq_false_iff_not] at hmost
  exact ⟨i, Int.not_lt.mp hleast, Int.not_lt.mp hmost, _, rfl,
    decide_eq_true (Double.units?_of_toInt? hi)⟩

/-- What keeps the rule for sizes is one. -/
theorem isSize_of_kept {v : Json} {path : List PathPart}
    (h : Schema.violations Schema.definitions path
      [.type .integer, .atLeast 1, .atMost 16] v = []) : v.IsSize := by
  have htype := Schema.plainMessages_eq_nil h (k := .type .integer)
    (by simp) rfl
  have hleast := Schema.plainMessages_eq_nil h (k := .atLeast 1) (by simp) rfl
  have hmost := Schema.plainMessages_eq_nil h (k := .atMost 16) (by simp) rfl
  cases v with
  | number n =>
      have hleast : n.isBelow 1 = false := by
        simpa [Schema.plainMessages] using hleast
      have hmost : n.isAbove 16 = false := by
        simpa [Schema.plainMessages] using hmost
      cases n with
      | int i =>
          exact isSize_int.mpr
            ⟨by simpa [Number.isBelow] using hleast,
              by simpa [Number.isAbove] using hmost⟩
      | double d =>
          cases hd : d.toInt? with
          | some i => exact isSize_double hd hleast hmost
          | none => simp [Schema.plainMessages, Json.hasType, hd] at htype
  | _ => simp [Schema.plainMessages, Json.hasType] at htype

/-- A size is held as an integer, or it is of no use as a whole number. -/
theorem IsSize.int_or_useless {v : Json} (h : v.IsSize) :
    (∃ i, v = .int i ∧ 1 ≤ i ∧ i ≤ 16) ∨ v.size? = none := by
  obtain ⟨j, hleast, hmost, n, rfl, hj⟩ := h
  cases n with
  | int i =>
      obtain rfl : j = i := of_decide_eq_true hj
      exact .inl ⟨j, rfl, hleast, hmost⟩
  | double d => exact .inr rfl

end Json

-- =============================================================== settings

namespace Settings

/-- Settings whose tab stop and indentation are sizes. -/
structure Sized (s : Settings) : Prop where
  /-- The tab stop is one. -/
  tabSize : s.tabSize.IsSize
  /-- The indentation is one. -/
  indentSize : s.indentSize.IsSize

/-- The settings that hold anyway have sizes. -/
theorem sized_default : Settings.Sized {} :=
  ⟨Json.isSize_int.mpr (by decide), Json.isSize_int.mpr (by decide)⟩

/-- A size that is given keeps the rule, and one that is not is four. -/
theorem isSize_getD {ms : List (String × Json)}
    (h : Schema.violations Schema.definitions [] Schema.settings
      (.object ms) = [])
    {name : String} (hname : name = "tabSize" ∨ name = "indentSize") :
    ((Json.member? name ms).getD (.int 4)).IsSize := by
  cases hv : Json.member? name ms with
  | none => exact Json.isSize_int.mpr (by decide)
  | some v =>
      refine Json.isSize_of_kept (violations_part h
        (p := (name, [.type .integer, .atLeast 1, .atMost 16])) ?_ hv)
      rcases hname with rfl | rfl <;> simp

/-- Accepted settings have sizes. -/
theorem sized_of_ofJson {j : Json} {s : Settings}
    (h : Settings.ofJson j = .ok s) : s.Sized := by
  obtain ⟨ms, hnil, htab, hindent, -⟩ := exists_of_ofJson h
  constructor
  · rw [htab]
    exact isSize_getD hnil (.inl rfl)
  · rw [hindent]
    exact isSize_getD hnil (.inr rfl)

/-- An integer tab stop of accepted settings lies within the bounds of those
that can be measured with. -/
theorem tabSize_le_of_ofJson {j : Json} {settings : Settings}
    (h : Settings.ofJson j = .ok settings) {tabSize : Int}
    (htab : settings.tabSize = .int tabSize) : 1 ≤ tabSize ∧ tabSize ≤ 16 :=
  Json.isSize_int.mp (htab ▸ (sized_of_ofJson h).tabSize)

end Settings

-- =========================================================== consequences

/-- A size measures every source if it is held as an integer. Else it is
refused, unless there is no line to measure. -/
theorem tabStops_of_isSize {v : Json} (h : v.IsSize) (source : String) :
    (∃ stop, tabStops v source = .ok stop ∧ 1 ≤ stop ∧ stop ≤ 16)
      ∨ tabStops v source = .error .wrongType ∧ ∀ i, v ≠ .int i := by
  have hbounds : widestTab = 2147483647 := by decide
  unfold tabStops
  split
  · exact .inl ⟨1, rfl, by decide, by decide⟩
  · rcases h.int_or_useless with ⟨i, rfl, hleast, hmost⟩ | hnone
    · exact .inl ⟨i, if_pos (by omega), hleast, hmost⟩
    · rw [hnone]
      refine .inr ⟨rfl, ?_⟩
      rintro i rfl
      cases hnone

namespace Settings

variable {s : Settings}

/-- Under settings with sizes a script is read, unless it goes beyond the
bounds of reading or the tab stop is not held as an integer. -/
theorem Sized.parse (h : s.Sized) (now : Timestamp) (numbering : Numbering)
    (file source : String) {e : Fault}
    (he : (s.parse now numbering file source).1 = .error e) :
    (∃ x, e = .excess x) ∨ e = .wrongType ∧ ∀ i, s.tabSize ≠ .int i := by
  unfold Settings.parse at he
  rcases tabStops_of_isSize h.tabSize source with ⟨stop, hstop, -⟩ | ⟨hstop, hv⟩
  · rw [hstop] at he
    dsimp only at he
    generalize (Reading.readWithin stop numbering source).1 = result at he
    cases result with
    | error x => exact .inl ⟨x, (Except.error.inj he).symm⟩
    | ok found => cases he
  · rw [hstop] at he
    exact .inr ⟨(Except.error.inj he).symm, hv⟩

/-- Under settings with sizes statements are laid out with one to sixteen
spaces for each level, unless one of them cannot be written or the indentation
is not held as an integer. -/
theorem Sized.lines (h : s.Sized) (ss : List Stmt) :
    (∃ layout : PageLayout, 1 ≤ layout.indentSize ∧ layout.indentSize ≤ 16
        ∧ s.lines ss = (Written.topLines layout ss).mapError .unwritable)
      ∨ (∀ i, s.indentSize ≠ .int i)
        ∧ ∀ depth, s.draftLayout.room depth = .error .wrongType := by
  have hwidest : widestIndent = 65536 := by decide
  rcases h.indentSize.int_or_useless with ⟨i, hi, hleast, hmost⟩ | hnone
  · refine .inl ⟨⟨i, Draft.isTruthyJson s.insertBlankLines⟩, hleast, hmost, ?_⟩
    have hlayout : s.layout?
        = some ⟨i, Draft.isTruthyJson s.insertBlankLines⟩ := by
      rw [layout?, hi]
      exact if_pos (by omega)
    rw [Settings.lines, hlayout]
  · refine .inr ⟨?_, fun depth => ?_⟩
    · intro i hi
      rw [hi] at hnone
      cases hnone
    · rw [draftLayout, Draft.Layout.room, hnone]

end Settings

end NovelScript
