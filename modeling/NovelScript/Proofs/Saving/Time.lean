/-
Points in time that are written and read again. A date, a time of day and the
distance from universal time are written as numbers that are filled up to a
width, with signs in between, and are read part by part, each from so many
digits.

A number that is filled up is read as this number (`digits?_padded`): zeros in
front do not count, and the width is wide enough for the number, so there are as
many digits as the reader asks for. All else is putting parts together. A part
of a time of day has a colon behind it or is the last one, a fraction of a
second is written with six digits if there is one, and the distance from
universal time is zero. Only points of universal time that are valid are asked
about (`read?_text`): their parts are within the bounds of the calendar, which
are within the widths, and reading checks them once more.
-/
import Mathlib.Data.Nat.Digits.Defs
import NovelScript.Timestamp

namespace NovelScript.Timestamp

-- ================================================================ numbers

theorem ofDigitChars_init (ds : List Char) (n : Nat) :
    Nat.ofDigitChars 10 ds n
      = n * 10 ^ ds.length + Nat.ofDigitChars 10 ds 0 := by
  induction ds generalizing n with
  | nil => simp
  | cons c ds ih =>
      rw [Nat.ofDigitChars_cons, Nat.ofDigitChars_cons, ih, ih (10 * 0 + _),
        List.length_cons, Nat.pow_succ]
      ring

/-- A row of digits is read as the number that it writes. -/
theorem digits?_append {ds : List Char} (rest : List Char)
    (h : ∀ c ∈ ds, c.isDigit = true) :
    digits? ds.length (ds ++ rest) = some (Nat.ofDigitChars 10 ds 0, rest) := by
  induction ds with
  | nil => rfl
  | cons c ds ih =>
      obtain ⟨hc, hds⟩ := List.forall_mem_cons.mp h
      rw [List.length_cons, List.cons_append, digits?, if_pos hc, ih hds,
        Option.map_some, Nat.ofDigitChars_cons, ofDigitChars_init ds (10 * 0 + _)]
      simp

theorem toList_padded (width n : Nat) :
    (padded width n).toList
      = List.replicate (width - (Nat.toDigits 10 n).length) '0'
        ++ Nat.toDigits 10 n := by
  rw [padded, String.toList_append, String.toList_ofList, Nat.toString_eq_repr,
    Nat.toList_repr, ← String.length_toList, Nat.toList_repr]

theorem isDigit_of_mem_padded (width n : Nat) :
    ∀ c ∈ (padded width n).toList, c.isDigit = true := by
  intro c hc
  rw [toList_padded] at hc
  rcases List.mem_append.mp hc with hc | hc
  · obtain ⟨-, rfl⟩ := List.mem_replicate.mp hc
    rfl
  · exact Nat.isDigit_of_mem_toDigits (by decide) (by decide) hc

theorem length_padded {width n : Nat} (hwidth : 0 < width)
    (h : n < 10 ^ width) : (padded width n).toList.length = width := by
  have := Nat.toDigits_length 10 n width hwidth h
  rw [toList_padded, List.length_append, List.length_replicate]
  omega

theorem ofDigitChars_padded (width n : Nat) :
    Nat.ofDigitChars 10 (padded width n).toList 0 = n := by
  have hzeros : ∀ k, Nat.ofDigitChars 10 (List.replicate k '0') 0 = 0 := by
    intro k
    induction k with
    | zero => rfl
    | succ k ih =>
        rw [List.replicate_succ, Nat.ofDigitChars_cons]
        exact ih
  rw [toList_padded, Nat.ofDigitChars_append, hzeros,
    Nat.ofDigitChars_toDigits (by decide) (by decide)]

/-- A number that is filled up to a width is read again. -/
theorem digits?_padded {width n : Nat} (hwidth : 0 < width)
    (h : n < 10 ^ width) (rest : List Char) :
    digits? width ((padded width n).toList ++ rest) = some (n, rest) := by
  have hread := digits?_append rest (isDigit_of_mem_padded width n)
  rwa [length_padded hwidth h, ofDigitChars_padded] at hread

theorem exists_digit_padded {width n : Nat} (hwidth : 0 < width)
    (h : n < 10 ^ width) :
    ∃ c cs, (padded width n).toList = c :: cs ∧ c.isDigit = true := by
  have hlength := length_padded hwidth h
  have hdigits := isDigit_of_mem_padded width n
  cases hcs : (padded width n).toList with
  | nil =>
      rw [hcs] at hlength
      simp at hlength
      omega
  | cons c cs => exact ⟨c, cs, rfl, hdigits c (by rw [hcs]; simp)⟩

-- =================================================================== dates

/-- A date is read from year, month and day. -/
theorem date?_padded {year month day : Nat} (hyear : year < 10 ^ 4)
    (hmonth : month < 10 ^ 2) (hday : day < 10 ^ 2) (rest : List Char) :
    date? ((padded 4 year).toList ++ '-' :: ((padded 2 month).toList
        ++ '-' :: ((padded 2 day).toList ++ rest)))
      = some ((year, month, day), rest) := by
  obtain ⟨c, cs, hmonths, hc⟩ := exists_digit_padded (by decide) hmonth
  have hweek : c ≠ 'W' := by
    rintro rfl
    revert hc
    decide
  have hread := digits?_padded (by decide) hmonth
    ('-' :: ((padded 2 day).toList ++ rest))
  rw [hmonths, List.cons_append] at hread ⊢
  rw [date?, digits?_padded (by decide) hyear]
  simp [hweek, hread, @digits?_padded 2 day (by decide) hday]

-- ============================================================ times of day

/-- The time of day that a timestamp writes, as characters. -/
def clockChars (t : Timestamp) : List Char :=
  (padded 2 t.hour).toList ++ ':' :: ((padded 2 t.minute).toList
    ++ ':' :: ((padded 2 t.second).toList
      ++ if t.microsecond = 0 then []
        else '.' :: (padded 6 t.microsecond).toList))

theorem fraction?_padded (parts : List Nat) {n : Nat} (h : n < 10 ^ 6) :
    fraction? parts (padded 6 n).toList = some ⟨parts, n, false⟩ := by
  have hread := digits?_padded (by decide) h []
  rw [List.append_nil] at hread
  simp [fraction?, length_padded (by decide) h, hread, goesOn]

/-- A part of a time of day with a colon behind it. -/
theorem clockFrom_colon {left n : Nat} {colons : Option Bool}
    (hcolons : colons.getD true = true) (parts : List Nat) (h : n < 10 ^ 2)
    {rest : List Char} (hrest : rest ≠ []) :
    clockFrom (left + 1) colons parts ((padded 2 n).toList ++ ':' :: rest)
      = clockFrom left (some true) (parts ++ [n]) rest := by
  rw [clockFrom, digits?_padded (by decide) h]
  simp [hrest, hcolons]

/-- The seconds of a time of day, with the fraction behind them. -/
theorem clockFrom_second {left second microsecond : Nat} (parts : List Nat)
    (hs : second < 10 ^ 2) (hm : microsecond < 10 ^ 6) :
    clockFrom (left + 1) (some true) parts ((padded 2 second).toList
        ++ if microsecond = 0 then [] else '.' :: (padded 6 microsecond).toList)
      = some ⟨parts ++ [second], microsecond, false⟩ := by
  rw [clockFrom, digits?_padded (by decide) hs]
  by_cases hzero : microsecond = 0
  · rw [if_pos hzero, hzero]
  · obtain ⟨c, cs, hcs, -⟩ := @exists_digit_padded 6 _ (by decide) hm
    rw [if_neg hzero]
    simp only [Option.getD_some]
    rw [if_neg (by simp [hcs]), if_neg (by decide), if_pos (by decide)]
    exact fraction?_padded _ hm

theorem clock?_clockChars {t : Timestamp} (hh : t.hour < 10 ^ 2)
    (hm : t.minute < 10 ^ 2) (hs : t.second < 10 ^ 2)
    (hu : t.microsecond < 10 ^ 6) :
    clock? t.clockChars
      = some ⟨[t.hour, t.minute, t.second], t.microsecond, false⟩ := by
  obtain ⟨c, cs, hsecond, -⟩ := @exists_digit_padded 2 _ (by decide) hs
  rw [clock?, clockChars, clockFrom_colon rfl [] hh (by simp),
    clockFrom_colon rfl _ hm (by simp [hsecond]), clockFrom_second _ hs hu]
  rfl

theorem beginsOffset_of_isDigit {c : Char} (h : c.isDigit = true) :
    beginsOffset c = false := by
  have hne : ∀ d : Char, d.isDigit = false → c ≠ d := by
    rintro d hd rfl
    rw [h] at hd
    cases hd
  simp [beginsOffset, hne '+' (by decide), hne '-' (by decide),
    hne 'Z' (by decide)]

/-- A time of day ends where a distance from universal time begins. -/
theorem beginsOffset_of_mem_clockChars (t : Timestamp) :
    ∀ c ∈ t.clockChars, beginsOffset c = false := by
  have hdigits : ∀ width n, ∀ c ∈ (padded width n).toList,
      beginsOffset c = false := fun width n c hc =>
    beginsOffset_of_isDigit (isDigit_of_mem_padded width n c hc)
  have hcolon : beginsOffset ':' = false := by decide
  have hpoint : beginsOffset '.' = false := by decide
  unfold clockChars
  refine List.forall_mem_append.mpr ⟨hdigits _ _, List.forall_mem_cons.mpr
    ⟨hcolon, List.forall_mem_append.mpr ⟨hdigits _ _, List.forall_mem_cons.mpr
      ⟨hcolon, List.forall_mem_append.mpr ⟨hdigits _ _, ?_⟩⟩⟩⟩⟩
  by_cases hzero : t.microsecond = 0
  · rw [if_pos hzero]
    simp
  · rw [if_neg hzero]
    exact List.forall_mem_cons.mpr ⟨hpoint, hdigits _ _⟩

-- ============================================================== timestamps

theorem toList_text {t : Timestamp} (h : t.offset = some 0) :
    t.text.toList = (padded 4 t.year).toList ++ '-' :: ((padded 2 t.month).toList
      ++ '-' :: ((padded 2 t.day).toList
        ++ 'T' :: (t.clockChars ++ ['+', '0', '0', ':', '0', '0']))) := by
  have hoffset : (offsetText 0).toList = ['+', '0', '0', ':', '0', '0'] := by
    decide
  have hfraction : ∀ p : Prop, ∀ _ : Decidable p,
      (if p then "" else "." ++ padded 6 t.microsecond).toList
        = if p then [] else '.' :: (padded 6 t.microsecond).toList := by
    intro p _
    split
    · rfl
    · rw [String.toList_append]
      rfl
  simp [text, textWith, h, String.toList_append, hfraction, hoffset, clockChars]

/-- A valid point of universal time is read as it was written. -/
theorem read?_text {t : Timestamp} (hvalid : t.isValid = true)
    (h : t.offset = some 0) : read? t.text = some t := by
  have hrange := hvalid
  simp only [isValid, Bool.and_eq_true, decide_eq_true_eq] at hrange
  obtain ⟨⟨⟨⟨⟨⟨⟨⟨⟨⟨-, hyear⟩, -⟩, hmonth⟩, -⟩, hday⟩, hhour⟩, hminute⟩,
    hsecond⟩, hmicro⟩, -⟩ := hrange
  have hdays : t.day < 10 ^ 2 := by
    have : daysInMonth t.year t.month ≤ 31 := by
      unfold daysInMonth
      split <;> split <;> omega
    omega
  have hinner := beginsOffset_of_mem_clockChars t
  have hoffset : offset? ['+', '0', '0', ':', '0', '0'] = some (some 0) := by
    decide
  have htime : (t.clockChars ++ ['+', '0', '0', ':', '0', '0']).takeWhile
      (fun c => !beginsOffset c) = t.clockChars := by
    rw [List.takeWhile_append_of_pos (by simpa using hinner)]
    simp [beginsOffset]
  have hzone : (t.clockChars ++ ['+', '0', '0', ':', '0', '0']).dropWhile
      (fun c => !beginsOffset c) = ['+', '0', '0', ':', '0', '0'] := by
    rw [List.dropWhile_append_of_pos (by simpa using hinner)]
    simp [beginsOffset]
  have hclock := clock?_clockChars (t := t) (by omega) (by omega) (by omega)
    (by omega)
  rw [read?, toList_text h, date?_padded (by omega) (by omega) hdays]
  simp only [Option.bind_eq_bind, Option.bind_some, htime, hzone, hclock,
    hoffset]
  obtain ⟨year, month, day, hour, minute, second, microsecond, offset⟩ := t
  subst h
  exact if_pos hvalid

end NovelScript.Timestamp
