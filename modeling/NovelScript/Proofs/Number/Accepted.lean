/-
Every numeral is accepted by the conversions. A rule asks for a numeral first
and converts it afterwards, by a reader that takes integers or by one that takes
doubles, each with a form of its own: margins, signs, grouped digits, names of
values that are not finite. None of this matters for a numeral: its characters
are digits, a point, the letter of a power and signs, and it begins with a digit
or a point, behind a minus sign or not.

# Characters

What is used of a digit is where it stands in the tables: in a row of ten that
begins at a zero. From this it follows that it is none of the other characters
that the readers look for, no white space, and no letter (`ne_of_isDigit`,
`isBlank_of_isDigit`). Digits of every script count, in numerals and in the
readers alike.

# Two readers

A numeral without point and power is taken by the reader of integers, and any
other by the reader of doubles. Each is followed from its first character, where
its other forms branch off, to the digits; there it goes through the same digits
as the rule. Which value comes out is not looked at here, but that it is the one
that the rule gives the numeral.
-/
import NovelScript.Proofs.Text.Word
import NovelScript.Number.Numeral

namespace NovelScript

open Text

namespace Text

/-- A digit stands in the row of ten that begins at a zero. -/
theorem exists_zero_of_isDigit {c : Char} (h : isDigit c = true) :
    ∃ z ∈ digitZeros, z ≤ c.toNat ∧ c.toNat < z + 10 := by
  have key : ∀ {zs : List Nat}, (digitIn c.toNat zs).isSome = true →
      ∃ z ∈ zs, z ≤ c.toNat ∧ c.toNat < z + 10 := by
    intro zs
    induction zs with
    | nil => intro h; cases h
    | cons z more ih =>
        intro h
        unfold digitIn at h
        split at h
        · cases h
        · split at h
          · exact ⟨z, List.mem_cons_self, by omega, by omega⟩
          · obtain ⟨y, hy, hc⟩ := ih h
            exact ⟨y, List.mem_cons_of_mem z hy, hc⟩
  exact key h

/-- No digit is white space. -/
theorem isBlank_of_isDigit {c : Char} (h : isDigit c = true) :
    isBlank c = false := by
  by_contra hb
  obtain ⟨z, hz, hlo, hhi⟩ := exists_zero_of_isDigit h
  obtain ⟨b, hmem, hlo', hhi'⟩ := exists_of_inRanges (Bool.of_not_eq_false hb)
  have hapart : apart (digitZeros.map fun z => (z, z + 9)) blankRanges
      = true := by decide +kernel
  have hzb := List.all_eq_true.mp (List.all_eq_true.mp hapart _
    (List.mem_map_of_mem hz)) b hmem
  simp only [Bool.or_eq_true, decide_eq_true_eq] at hzb
  omega

/-- No digit is one of the other characters that make up numbers. Digits of
every script are meant, so this is decided by the rows of ten that they stand
in. -/
theorem ne_of_isDigit {c d : Char} (h : isDigit c = true)
    (hd : d ∈ ['_', '.', '-', '+', 'e', 'E', 'i', 'n', '\n']) : c ≠ d := by
  rintro rfl
  obtain ⟨z, hz, hlo, hhi⟩ := exists_zero_of_isDigit h
  have key : ∀ d ∈ ['_', '.', '-', '+', 'e', 'E', 'i', 'n', '\n'],
      ∀ z ∈ digitZeros, d.toNat < z ∨ z + 9 < d.toNat := by
    decide +kernel
  have := key c hd z hz
  omega

/-- A digit has no capital form. -/
theorem toLower_of_isDigit {c : Char} (h : isDigit c = true) :
    c.toLower = c := by
  obtain ⟨z, hz, hlo, hhi⟩ := exists_zero_of_isDigit h
  have key : ∀ z ∈ digitZeros, z + 9 < 'A'.toNat ∨ 'Z'.toNat < z := by
    decide +kernel
  have hz := key z hz
  delta Char.toLower
  rw [dif_neg]
  rintro ⟨hA, hZ⟩
  have hA' : 'A'.toNat ≤ c.toNat := hA
  have hZ' : c.toNat ≤ 'Z'.toNat := hZ
  omega

end Text

namespace Numeral

/-- Whether a character may stand in a numeral. -/
def inNumeral (c : Char) : Bool :=
  isDigit c || ['.', 'e', 'E', '-', '+'].contains c

theorem inNumeral_of_isDigit {c : Char} (h : isDigit c = true) :
    inNumeral c = true := by
  rw [inNumeral, h, Bool.true_or]

theorem inNumeral_of_mem_takeWhile {cs : List Char} :
    ∀ c ∈ cs.takeWhile isDigit, inNumeral c = true :=
  fun _ hc => inNumeral_of_isDigit (List.mem_takeWhile_imp hc)

/-- The sign behind the letter of a power, and what follows it. -/
def powerSign : List Char → Bool × List Char
  | '-' :: r => (true, r)
  | '+' :: r => (false, r)
  | r => (false, r)

theorem powerSign_spec (cs : List Char) :
    ∃ sign, cs = sign ++ (powerSign cs).2
      ∧ ∀ d ∈ sign, inNumeral d = true := by
  unfold powerSign
  split
  · next r => exact ⟨['-'], rfl, by decide⟩
  · next r => exact ⟨['+'], rfl, by decide⟩
  · exact ⟨[], rfl, by simp⟩

/-- A power that is there has its digits behind its sign. -/
theorem power?_letter {c : Char} {cs rest : List Char}
    {p : Option (Bool × List Char)} (he : c = 'e' ∨ c = 'E')
    (h : power? (c :: cs) = some (p, rest)) :
    p = some ((powerSign cs).1, (powerSign cs).2.takeWhile isDigit)
      ∧ rest = (powerSign cs).2.dropWhile isDigit := by
  unfold power? at h
  simp only [if_pos he] at h
  split at h
  · cases h
  · obtain ⟨rfl, rfl⟩ := Prod.mk.inj (Option.some.inj h)
    exact ⟨rfl, rfl⟩

/-- Behind the letter of a power there is a sign at most. -/
theorem power?_eq_some {cs rest : List Char}
    {p : Option (Bool × List Char)} (h : power? cs = some (p, rest)) :
    ∃ front, cs = front ++ rest ∧ (∀ c ∈ front, inNumeral c = true)
      ∧ (p = none → front = []) := by
  cases cs with
  | nil =>
      obtain ⟨rfl, rfl⟩ := Prod.mk.inj (Option.some.inj h)
      exact ⟨[], rfl, by simp, fun _ => rfl⟩
  | cons c cs =>
    by_cases he : c = 'e' ∨ c = 'E'
    · obtain ⟨rfl, rfl⟩ := power?_letter he h
      obtain ⟨sign, hcs, hsign⟩ := powerSign_spec cs
      have hletter : inNumeral c = true := by
        rcases he with rfl | rfl <;> decide
      refine ⟨c :: (sign ++ (powerSign cs).2.takeWhile isDigit), ?_, ?_,
        by simp⟩
      · rw [List.cons_append, List.append_assoc,
          List.takeWhile_append_dropWhile, ← hcs]
      · refine List.forall_mem_cons.mpr ⟨hletter, fun d hd => ?_⟩
        rcases List.mem_append.mp hd with hd | hd
        · exact hsign d hd
        · exact inNumeral_of_mem_takeWhile d hd
    · unfold power? at h
      simp only [if_neg he] at h
      obtain ⟨rfl, rfl⟩ := Prod.mk.inj (Option.some.inj h)
      exact ⟨[], rfl, by simp, fun _ => rfl⟩

/-- The point and its digits behind whole digits, and what follows them. -/
def pointPart : List Char → Option (List Char) × List Char
  | '.' :: r => (some (r.takeWhile isDigit), r.dropWhile isDigit)
  | r => (none, r)

theorem unsigned?_eq (negative : Bool) (cs : List Char) :
    unsigned? negative cs
      = if (cs.takeWhile isDigit).isEmpty
          && ((pointPart (cs.dropWhile isDigit)).1.getD []).isEmpty
        then none
        else (power? (pointPart (cs.dropWhile isDigit)).2).map fun p =>
          (⟨negative, cs.takeWhile isDigit,
            (pointPart (cs.dropWhile isDigit)).1, p.1⟩, p.2) :=
  rfl

/-- What follows an unsigned numeral is an end of the text. -/
theorem unsigned?_suffix {negative : Bool} {cs rest : List Char}
    {m : Numeral} (h : unsigned? negative cs = some (m, rest)) :
    rest <:+ cs := by
  unfold unsigned? at h
  simp only at h
  have hdrop : cs.dropWhile isDigit <:+ cs := List.dropWhile_suffix _
  have hpower : ∀ {as : List Char} {k : Option (Bool × List Char) → Numeral},
      (power? as).map (fun p => (k p.1, p.2)) = some (m, rest) →
        rest <:+ as := by
    intro as k h
    obtain ⟨⟨power, rest'⟩, hp, hm⟩ := Option.map_eq_some_iff.mp h
    obtain ⟨-, rfl⟩ := Prod.mk.inj hm
    obtain ⟨front, hfront, -, -⟩ := power?_eq_some hp
    exact ⟨front, hfront.symm⟩
  split at h
  · next r heq =>
    split at h
    · cases h
    · exact (hpower h).trans ((List.dropWhile_suffix _).trans
        ((List.suffix_cons _ _).trans (heq ▸ hdrop)))
  · split at h
    · cases h
    · exact (hpower h).trans hdrop

/-- An unsigned numeral that is a whole text. -/
structure Unsigned (negative : Bool) (body : List Char) (m : Numeral) :
    Prop where
  /-- It is read. -/
  read : unsigned? negative body = some (m, [])
  /-- Its characters are those of numerals. -/
  all : ∀ c ∈ body, inNumeral c = true
  /-- It begins with a digit or with a point. -/
  head : ∃ c ∈ body.head?, isDigit c = true ∨ c = '.'
  /-- It is all digits, if it is an integer. -/
  whole : m.isInteger = true → m.whole = body ∧ ∀ c ∈ body, isDigit c = true
  /-- The sign stands before it. -/
  sign : m.negative = negative

theorem unsigned_of_unsigned? {negative : Bool} {body : List Char}
    {m : Numeral} (h : unsigned? negative body = some (m, [])) :
    Unsigned negative body m := by
  have hread := h
  have hbody := (List.takeWhile_append_dropWhile (p := isDigit)
    (l := body)).symm
  -- What stands behind the whole digits: the point with its digits, if any.
  obtain ⟨point, fraction, rest, hrest, hpoint, hpart, hnone⟩ :
      ∃ point fraction rest, body.dropWhile isDigit = point ++ rest
        ∧ (∀ c ∈ point, inNumeral c = true)
        ∧ pointPart (body.dropWhile isDigit) = (fraction, rest)
        ∧ (fraction = none ∧ point = []
          ∨ fraction ≠ none ∧ point.head? = some '.') := by
    unfold pointPart
    split
    · next r heq =>
      refine ⟨'.' :: r.takeWhile isDigit, _, _, ?_, ?_, rfl, .inr ?_⟩
      · rw [heq, List.cons_append, List.takeWhile_append_dropWhile]
      · exact List.forall_mem_cons.mpr
          ⟨by decide, inNumeral_of_mem_takeWhile⟩
      · simp
    · exact ⟨[], none, _, rfl, by simp, rfl, .inl ⟨rfl, rfl⟩⟩
  rw [unsigned?_eq, hpart] at h
  simp only at h
  split at h
  · cases h
  · next hsome =>
    obtain ⟨⟨power, rest'⟩, hp, hm⟩ := Option.map_eq_some_iff.mp h
    obtain ⟨rfl, rfl⟩ := Prod.mk.inj hm
    obtain ⟨front, hfront, hall, hempty⟩ := power?_eq_some hp
    rw [List.append_nil] at hfront
    subst hfront
    rw [hrest] at hbody
    refine ⟨hread, ?_, ?_, ?_, rfl⟩
    · rw [hbody]
      intro c hc
      rcases List.mem_append.mp hc with hc | hc
      · exact inNumeral_of_mem_takeWhile c hc
      · rcases List.mem_append.mp hc with hc | hc
        · exact hpoint c hc
        · exact hall c hc
    · cases hw : body.takeWhile isDigit with
      | cons c cs =>
          refine ⟨c, ?_, .inl ?_⟩
          · rw [hbody, hw]
            rfl
          · exact List.mem_takeWhile_imp (p := isDigit) (l := body)
              (by rw [hw]; exact List.mem_cons_self)
      | nil =>
          rcases hnone with ⟨rfl, -⟩ | ⟨-, hhead⟩
          · exact absurd (by rw [hw]; rfl) hsome
          · refine ⟨'.', ?_, .inr rfl⟩
            rw [hbody, hw, List.nil_append, List.head?_append, hhead]
            rfl
    · intro hint
      simp only [isInteger, Bool.and_eq_true, Option.isNone_iff_eq_none]
        at hint
      obtain ⟨hf, hp'⟩ := hint
      rcases hnone with ⟨-, rfl⟩ | ⟨hne, -⟩
      · rw [hempty hp', List.append_nil, List.append_nil] at hbody
        refine ⟨hbody.symm, fun c hc => ?_⟩
        rw [hbody] at hc
        exact List.mem_takeWhile_imp hc
      · exact absurd hf hne

end Numeral

namespace Number

-- ========================================================= conversions

/-- A character of a numeral is no margin and does not group digits. -/
theorem plain_of_inNumeral {c : Char} (h : Numeral.inNumeral c = true) :
    isMargin c = false ∧ c ≠ '_' := by
  rcases Bool.or_eq_true _ _ ▸ h with h | h
  · refine ⟨?_, ne_of_isDigit h (by decide)⟩
    rw [isMargin, isBlank_of_isDigit h, Bool.false_and]
  · have : c ∈ ['.', 'e', 'E', '-', '+'] := by simpa using h
    simp only [List.mem_cons, List.not_mem_nil, or_false] at this
    rcases this with rfl | rfl | rfl | rfl | rfl <;> decide

theorem withoutMargins_of_plain {cs : List Char}
    (h : ∀ c ∈ cs, isMargin c = false) : withoutMargins cs = cs := by
  have hdrop : ∀ {as : List Char}, (∀ c ∈ as, isMargin c = false) →
      as.dropWhile isMargin = as := by
    intro as has
    cases as with
    | nil => rfl
    | cons a as =>
        rw [List.dropWhile_cons, has a List.mem_cons_self]
        rfl
  rw [withoutMargins, hdrop h, hdrop (by simpa using h),
    List.reverse_reverse]

theorem ungrouped?_of_plain {cs : List Char} (h : ∀ c ∈ cs, c ≠ '_') :
    ∀ before, ungrouped? before cs = some cs := by
  induction cs with
  | nil => exact fun _ => rfl
  | cons c cs ih =>
      intro before
      rw [ungrouped?, if_neg (h c List.mem_cons_self),
        ih fun d hd => h d (List.mem_cons_of_mem c hd)]
      rfl

/-- The digits of an unsigned numeral, without a sign to split off. -/
theorem signed_of_unsigned {negative : Bool} {body : List Char}
    {m : Numeral} (h : Numeral.Unsigned negative body m) :
    signed body = (false, body) := by
  obtain ⟨c, hc, hhead⟩ := h.head
  cases body with
  | nil => cases hc
  | cons d ds =>
      obtain rfl : d = c := by simpa using hc
      have hne : d ≠ '-' ∧ d ≠ '+' := by
        rcases hhead with hd | rfl
        · exact ⟨ne_of_isDigit hd (by decide), ne_of_isDigit hd (by decide)⟩
        · decide
      unfold signed
      split
      · next heq => exact absurd (List.cons.inj heq).1 hne.1
      · next heq => exact absurd (List.cons.inj heq).1 hne.2
      · rfl

/-- What was read, if it is all of the text up to a line feed. -/
def wholeText? : Option (Numeral × List Char) → Option Numeral
  | some (n, []) => some n
  | some (n, ['\n']) => some n
  | _ => none

/-- A numeral is a sign at most and an unsigned numeral. -/
theorem exists_unsigned_of_read? {cs : List Char} {m : Numeral}
    (hu : Unbroken cs) (h : Numeral.read? cs = some m) :
    ∃ negative body, Numeral.Unsigned negative body m
      ∧ signed cs = (negative, body) ∧ (∀ c ∈ cs, isMargin c = false)
      ∧ ∀ c ∈ cs, c ≠ '_' := by
  -- A line has no line feed, so nothing is left behind the numeral.
  have hwhole : ∀ (negative : Bool) (body : List Char), (∀ c ∈ body, c ∈ cs) →
      wholeText? (Numeral.unsigned? negative body) = some m →
      Numeral.Unsigned negative body m := by
    intro negative body hsub h
    unfold wholeText? at h
    split at h
    · next hr =>
      obtain rfl := Option.some.inj h
      exact Numeral.unsigned_of_unsigned? hr
    · next hr =>
      have hmem : '\n' ∈ body :=
        (Numeral.unsigned?_suffix hr).subset List.mem_cons_self
      exact absurd rfl (hu _ (hsub _ hmem)).1
    · cases h
  by_cases hminus : ∃ r, cs = '-' :: r
  · obtain ⟨r, rfl⟩ := hminus
    have hr := hwhole true r
      (fun c hc => List.mem_cons_of_mem _ hc) h
    have hplain := fun c hc => plain_of_inNumeral (hr.all c hc)
    exact ⟨true, r, hr, rfl,
      List.forall_mem_cons.mpr ⟨by decide, fun c hc => (hplain c hc).1⟩,
      List.forall_mem_cons.mpr ⟨by decide, fun c hc => (hplain c hc).2⟩⟩
  · have hr := hwhole false cs (fun c hc => hc) (by
      unfold Numeral.read? at h
      split at h
      next heq =>
      split at heq
      · next r => exact absurd ⟨r, rfl⟩ hminus
      · obtain ⟨rfl, rfl⟩ := Prod.mk.inj heq
        exact h)
    have hplain := fun c hc => plain_of_inNumeral (hr.all c hc)
    exact ⟨false, cs, hr, signed_of_unsigned hr,
      fun c hc => (hplain c hc).1, fun c hc => (hplain c hc).2⟩

/-- What is not finite has a name that is no numeral. -/
theorem not_named_of_unsigned {negative : Bool} {body : List Char}
    {m : Numeral} (h : Numeral.Unsigned negative body m) {name : String}
    (hname : name ∈ ["inf", "infinity", "nan"]) :
    String.ofList (body.map Char.toLower) ≠ name := by
  obtain ⟨c, hc, hhead⟩ := h.head
  have hlower : c.toLower = c := by
    rcases hhead with hd | rfl
    · exact toLower_of_isDigit hd
    · decide
  cases body with
  | nil => cases hc
  | cons d ds =>
      obtain rfl : d = c := by simpa using hc
      intro heq
      have hlist := congrArg String.toList heq
      rw [String.toList_ofList, List.map_cons, hlower] at hlist
      have hletter : d = 'i' ∨ d = 'n' := by
        simp only [List.mem_cons, List.not_mem_nil, or_false] at hname
        rcases hname with rfl | rfl | rfl
        · exact .inl (List.cons.inj hlist).1
        · exact .inl (List.cons.inj hlist).1
        · exact .inr (List.cons.inj hlist).1
      rcases hletter with rfl | rfl <;> revert hhead <;> decide

/-- The number that a numeral of a line stands for is what the conversion
gives that is asked for it: of an integer that of integers, of every other
numeral that of doubles. -/
theorem accepted_of_read? {cs : List Char} {m : Numeral}
    (hu : Unbroken cs) (h : Numeral.read? cs = some m) :
    some m.toNumber = if m.isInteger then (readInt? cs).map .int
      else (readDouble? cs).map .double := by
  obtain ⟨negative, body, hbody, hsigned, hmargin, hplain⟩ :=
    exists_unsigned_of_read? hu h
  have hdigits : ungrouped? false (withoutMargins cs) = some cs := by
    rw [withoutMargins_of_plain hmargin, ungrouped?_of_plain hplain]
  split
  · next hint =>
    obtain ⟨hwhole, hall⟩ := hbody.whole hint
    have hne : body ≠ [] := by
      obtain ⟨c, hc, -⟩ := hbody.head
      rintro rfl
      cases hc
    have hparts : integerParts? cs = some (negative, body) := by
      unfold integerParts?
      simp only [hdigits, hsigned, Option.bind_eq_bind, Option.bind_some]
      rw [if_neg]
      simpa [hne] using hall
    rw [readInt?, hparts, Numeral.toNumber, if_pos hint, hbody.sign, hwhole]
    rfl
  · next hint =>
    have hdouble : readDouble? cs = some m.toDouble := by
      unfold readDouble?
      simp only [hdigits, hsigned, hbody.read]
      rw [if_neg, if_neg (not_named_of_unsigned hbody (by simp))]
      rintro (hnamed | hnamed)
      · exact not_named_of_unsigned hbody (by simp) hnamed
      · exact not_named_of_unsigned hbody (by simp) hnamed
    rw [hdouble, Numeral.toNumber, if_neg hint]
    rfl

end Number

end NovelScript
