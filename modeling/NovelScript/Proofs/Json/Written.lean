/-
Values that are written and loaded again. The reader of JSON is a recursion that
hands on what is left of the text, with a proof that it is shorter. Here the
rests are named and these proofs are left out: `Takes s v rest` says that the
value `v` is taken off the front of the text `s`, with `rest` behind it. There
is one rule for each kind of value, and of a text that somebody wrote by hand
the value is found by putting rules together.

# What comes back

A text comes back as a value if the value is taken off its front, whatever
follows (`Comes`). What follows must not go on with a number, and what comes
back must not begin like a blank or a closing bracket, for then the reader would
see another text than the one that was written. Every layout only adds blanks
between the parts of a text, and these are skipped (`exists_enclose`), so lists
and objects come back if what they hold does, for all layouts at once.

# Plain values

`Plain` is the class of values of which this is shown (`Plain.comes`, by
induction on the value). Any text is allowed: a character that is not written as
itself is read from its escape. An integer is written without a zero in front,
behind which a reader would stop (`head_toDigits`). A member whose name came
before would take the place of the earlier one, so names must be distinct.

What bounds a text, how deep it is nested and how many digits an integer has, is
looked for beside the reader, and stays a condition (`Plain.load_written`).
-/
import Mathlib.Tactic.IntervalCases
import NovelScript.Json.Bound
import NovelScript.Json.Writer
import NovelScript.Proofs.Number.Whole

namespace NovelScript.Json

variable {s r r₁ r₂ rest : List Char} {v : Json} {t name : String}
  {vs : List Json} {done ms : List (String × Json)}

-- ==================================================== what the reader takes

/-- The inside of a string stands in front of a rest, with its closing quote. -/
def TakesText (s : List Char) (t : String) (rest : List Char) : Prop :=
  ∃ (hle : s.length ≤ s.length) (h : rest.length < s.length),
    stringFrom s [] s hle = .ok (t, ⟨rest, h⟩)

/-- A value stands in front of a rest. -/
def Takes (s : List Char) (v : Json) (rest : List Char) : Prop :=
  ∃ h : rest.length < s.length, value s = .ok (v, ⟨rest, h⟩)

/-- The items of a list stand in front of a rest, with the closing bracket. -/
def TakesItems (s : List Char) (vs : List Json) (rest : List Char) : Prop :=
  ∃ h : rest.length < s.length, items s = .ok (vs, ⟨rest, h⟩)

/-- The members of an object stand in front of a rest, with the closing brace;
together with those that were read before they are the members `ms`. -/
def TakesMembers (done : List (String × Json)) (s : List Char)
    (ms : List (String × Json)) (rest : List Char) : Prop :=
  ∃ h : rest.length < s.length, members done s = .ok (ms, ⟨rest, h⟩)

/-- What the reader of strings gives for one text is found by running it. -/
theorem TakesText.of_run
    (h : ((stringFrom s [] s (Nat.le_refl _)).toOption.map
      fun p => (p.1, p.2.1)) = some (t, rest)) : TakesText s t rest := by
  cases hrun : stringFrom s [] s (Nat.le_refl _) with
  | error e => rw [hrun] at h; cases h
  | ok p =>
      rw [hrun] at h
      cases h
      exact ⟨Nat.le_refl _, p.2.2, hrun⟩

theorem Takes.text (h : TakesText r t rest) :
    Takes ('"' :: r) (.text t) rest := by
  obtain ⟨_, hlt, h⟩ := h
  refine ⟨Nat.lt_succ_of_lt hlt, ?_⟩
  rw [value, h]

theorem Takes.list (hskip : skip r = s) (hopen : s.head? ≠ some ']')
    (h : TakesItems s vs rest) : Takes ('[' :: r) (.list vs) rest := by
  obtain ⟨hlt, h⟩ := h
  have hle := length_skip_le r
  rw [hskip] at hle
  refine ⟨by simp only [List.length_cons]; omega, ?_⟩
  rw [value]
  simp only
  split
  · next heq => simp [← hskip, heq] at hopen
  · subst hskip
    rw [h]

theorem Takes.object (hskip : skip r = s) (hopen : s.head? ≠ some '\x7d')
    (h : TakesMembers [] s ms rest) :
    Takes ('\x7b' :: r) (.object ms) rest := by
  obtain ⟨hlt, h⟩ := h
  have hle := length_skip_le r
  rw [hskip] at hle
  refine ⟨by simp only [List.length_cons]; omega, ?_⟩
  rw [value]
  simp only
  split
  · next heq => simp [← hskip, heq] at hopen
  · subst hskip
    rw [h]

theorem Takes.atom {hlt : rest.length < s.length}
    (hs : s.head? ∉ [some '"', some '[', some '\x7b'])
    (h : Json.atom s = .ok (v, ⟨rest, hlt⟩)) : Takes s v rest := by
  refine ⟨hlt, ?_⟩
  rw [value.eq_def]
  split
  · simp at hs
  · simp at hs
  · simp at hs
  · exact h

theorem TakesItems.cons (hv : Takes s v r)
    (hmore : skip r = ']' :: rest ∧ vs = []
      ∨ ∃ r₁, skip r = ',' :: r₁ ∧ TakesItems (skip r₁) vs rest) :
    TakesItems s (v :: vs) rest := by
  obtain ⟨hlt, hv⟩ := hv
  have hle := length_skip_le r
  have hshorter : ∀ {a : Char} {as : List Char}, skip r = a :: as →
      as.length < s.length := by
    intro a as h
    rw [h, List.length_cons] at hle
    omega
  unfold TakesItems
  rw [items, hv]
  rcases hmore with ⟨hskip, rfl⟩ | ⟨as, hskip, hlt', hitems⟩
  · refine ⟨hshorter hskip, ?_⟩
    simp only
    -- The reader asks for a bracket, a comma or something else; only one of
    -- these is what stands there.
    split
    · next heq =>
      obtain rfl := (List.cons.inj (hskip.symm.trans heq)).2
      rfl
    · next heq => rw [hskip] at heq; cases heq
    · next hno _ => exact absurd hskip (hno _)
  · have hle' := length_skip_le as
    have := hshorter hskip
    refine ⟨by omega, ?_⟩
    simp only
    split
    · next heq => rw [hskip] at heq; cases heq
    · next heq =>
      obtain rfl := (List.cons.inj (hskip.symm.trans heq)).2
      rw [hitems]
    · next _ hno => exact absurd hskip (hno _)

theorem TakesMembers.cons (hname : TakesText r name r₁)
    (hcolon : skip r₁ = ':' :: r₂) (hv : Takes (skip r₂) v s)
    (hmore : skip s = '\x7d' :: rest ∧ ms = put name v done
      ∨ ∃ r₃, skip s = ',' :: r₃
        ∧ TakesMembers (put name v done) (skip r₃) ms rest) :
    TakesMembers done ('"' :: r) ms rest := by
  obtain ⟨_, hlt, hname⟩ := hname
  obtain ⟨hlt', hv⟩ := hv
  have hle := length_skip_le r₁
  have hle₂ := length_skip_le r₂
  have hle' := length_skip_le s
  rw [hcolon, List.length_cons] at hle
  have hshorter : ∀ {a : Char} {as : List Char}, skip s = a :: as →
      as.length < ('"' :: r).length := by
    intro a as h
    rw [h, List.length_cons] at hle'
    rw [List.length_cons]
    omega
  unfold TakesMembers
  rw [members, hname]
  simp only
  split
  · next heq =>
    obtain rfl := (List.cons.inj (hcolon.symm.trans heq)).2
    rw [hv]
    rcases hmore with ⟨hskip, rfl⟩ | ⟨as, hskip, hlt'', hmembers⟩
    · refine ⟨hshorter hskip, ?_⟩
      simp only
      split
      · next heq =>
        obtain rfl := (List.cons.inj (hskip.symm.trans heq)).2
        rfl
      · next heq => rw [hskip] at heq; cases heq
      · next hno _ => exact absurd hskip (hno _)
    · have hle'' := length_skip_le as
      have := hshorter hskip
      refine ⟨by omega, ?_⟩
      simp only
      split
      · next heq => rw [hskip] at heq; cases heq
      · next heq =>
        obtain rfl := (List.cons.inj (hskip.symm.trans heq)).2
        rw [hmembers]
      · next _ hno => exact absurd hskip (hno _)
  · next hno => exact absurd hcolon (hno _)

/-- A text that is a value is loaded as this value, if it is within the
bounds. -/
theorem load_of_takes {text : String} (hexcess : excess? 0 text.toList = none)
    (hmark : text.toList.head? ≠ some '\uFEFF')
    (hv : Takes (skip text.toList) v rest) (hend : skip rest = []) :
    load text = .ok v := by
  obtain ⟨hlt, hv⟩ := hv
  rw [load]
  simp only [hexcess, readFrom, if_neg hmark, hv, hend]
  rfl

-- ============================================================= written texts

section

variable {text ds l : List Char} {c d e : Char} {n : Nat}

theorem stringFrom_plain (hquote : c ≠ '"') (hslash : c ≠ '\\')
    (hlow : ¬ c.toNat < 0x20) (hle : (c :: s).length ≤ text.length) :
    stringFrom text ds (c :: s) hle
      = stringFrom text (c :: ds) s (Nat.le_of_succ_le hle) := by
  rw [stringFrom.eq_def]
  simp only [if_neg hquote, if_neg hslash, if_neg hlow]

theorem stringFrom_escape (hd : d ≠ 'u') (he : plainEscape? d = some e)
    (hle : ('\\' :: d :: s).length ≤ text.length) :
    stringFrom text ds ('\\' :: d :: s) hle
      = stringFrom text (e :: ds) s
          (Nat.le_of_succ_le (Nat.le_of_succ_le hle)) := by
  rw [stringFrom.eq_def]
  simp [hd, he]

theorem stringFrom_code (ds : List Char) (hn : fourHex? r = some (n, s))
    (hhalf : otherHalf? n s = none)
    (hle : ('\\' :: 'u' :: r).length ≤ text.length) :
    ∃ hle', stringFrom text ds ('\\' :: 'u' :: r) hle
      = stringFrom text (charOfCode n :: ds) s hle' := by
  have hlt := length_of_fourHex? hn
  simp only [List.length_cons] at hle
  refine ⟨by omega, ?_⟩
  rw [stringFrom.eq_def]
  simp only [if_neg (by decide : ¬ '\\' = '"'), if_true]
  split
  · next hnone => rw [hn] at hnone; cases hnone
  · next hsome =>
    obtain ⟨rfl, rfl⟩ := Prod.mk.inj (Option.some.inj (hn.symm.trans hsome))
    split
    · next hother => rw [hhalf] at hother; cases hother
    · rfl

theorem fourHex?_hexPadded (hn : n < 32) (c : Char) (s : List Char) :
    fourHex? (Text.hexPadded 4 n ++ c :: s) = some (n, c :: s) := by
  interval_cases n <;> rfl

/-- A character inside a string stands for itself, or is escaped by a letter or
by its code. -/
theorem writtenChar_cases (c : Char) :
    (∃ d, writtenChar c = ['\\', d] ∧ d ≠ 'u' ∧ plainEscape? d = some c)
      ∨ writtenChar c = '\\' :: 'u' :: Text.hexPadded 4 c.toNat
        ∧ c.toNat < 32
      ∨ writtenChar c = [c] ∧ c ≠ '"' ∧ c ≠ '\\' ∧ ¬ c.toNat < 32 := by
  have hofNat : c = Char.ofNat c.toNat := (Char.ofNat_toNat c).symm
  by_cases hquote : c = '"'
  · subst hquote; exact .inl ⟨'"', rfl, by decide, rfl⟩
  by_cases hslash : c = '\\'
  · subst hslash; exact .inl ⟨'\\', rfl, by decide, rfl⟩
  by_cases hfeed : c = '\n'
  · subst hfeed; exact .inl ⟨'n', rfl, by decide, rfl⟩
  by_cases hreturn : c = '\r'
  · subst hreturn; exact .inl ⟨'r', rfl, by decide, rfl⟩
  by_cases htab : c = '\t'
  · subst htab; exact .inl ⟨'t', rfl, by decide, rfl⟩
  by_cases hback : c.toNat = 8
  · rw [hback] at hofNat
    subst hofNat; exact .inl ⟨'b', rfl, by decide, rfl⟩
  by_cases hpage : c.toNat = 12
  · rw [hpage] at hofNat
    subst hofNat; exact .inl ⟨'f', rfl, by decide, rfl⟩
  rw [writtenChar, if_neg hquote, if_neg hslash, if_neg hfeed,
    if_neg hreturn, if_neg htab, if_neg hback, if_neg hpage]
  by_cases hlow : c.toNat < 32
  · exact .inr (.inl ⟨if_pos hlow, hlow⟩)
  · exact .inr (.inr ⟨if_neg hlow, hquote, hslash, hlow⟩)

/-- A character inside a string is read from what it is written as. -/
theorem stringFrom_writtenChar (c : Char) (hs : s ≠ [])
    (hl : writtenChar c ++ s = l) (hle : l.length ≤ text.length) :
    ∃ hle', stringFrom text ds l hle = stringFrom text (c :: ds) s hle' := by
  rcases writtenChar_cases c with
    ⟨d, hc, hd, he⟩ | ⟨hc, hlow⟩ | ⟨hc, hquote, hslash, hlow⟩
  · rw [hc] at hl
    subst hl
    exact ⟨_, stringFrom_escape hd he hle⟩
  · rw [hc] at hl
    subst hl
    obtain ⟨a, as, rfl⟩ := List.exists_cons_of_ne_nil hs
    have hcode : charOfCode c.toNat = c := by
      rw [charOfCode, if_neg (by omega), Char.ofNat_toNat]
    have hhalf : otherHalf? c.toNat (a :: as) = none := by
      rw [otherHalf?, if_neg (by omega)]
    have hstep := stringFrom_code ds
      (fourHex?_hexPadded hlow a as) hhalf hle
    rwa [hcode] at hstep
  · rw [hc] at hl
    subst hl
    exact ⟨_, stringFrom_plain hquote hslash hlow hle⟩

/-- The inside of a string is read one character after the other; those that
were read before are kept in reverse. -/
theorem stringFrom_flatMap (ds cs : List Char)
    (hl : cs.flatMap writtenChar ++ '"' :: s = l)
    (hle : l.length ≤ text.length) :
    ∃ h, stringFrom text ds l hle
      = .ok (String.ofList (ds.reverse ++ cs), ⟨s, h⟩) := by
  induction cs generalizing ds l with
  | nil =>
      obtain rfl : '"' :: s = l := hl
      refine ⟨hle, ?_⟩
      rw [stringFrom.eq_def]
      simp
  | cons c cs ih =>
      rw [List.flatMap_cons, List.append_assoc] at hl
      obtain ⟨hle', hstep⟩ := stringFrom_writtenChar c (by simp) hl hle
      obtain ⟨h, hrun⟩ := ih (c :: ds) rfl hle'
      exact ⟨h, by rw [hstep, hrun]; simp⟩

end

/-- Any text is read from what it is written as. -/
theorem TakesText.written (t : String) (rest : List Char) :
    TakesText (t.toList.flatMap writtenChar ++ '"' :: rest) t rest := by
  obtain ⟨h, hrun⟩ := stringFrom_flatMap [] t.toList rfl
    (Nat.le_refl (t.toList.flatMap writtenChar ++ '"' :: rest).length)
  exact ⟨Nat.le_refl _, h, by rw [hrun]; simp⟩

theorem toList_writtenText (t : String) (s : List Char) :
    (writtenText t).toList ++ s
      = '"' :: (t.toList.flatMap writtenChar ++ '"' :: s) := by
  simp [writtenText]

-- ================================================================== numbers

/-- What follows is no part of a number that stands in front. -/
def Ends (s : List Char) : Prop :=
  ∀ c ∈ s.head?, c.isDigit = false ∧ c ≠ '.' ∧ c ≠ 'e' ∧ c ≠ 'E'

section

variable {ds : List Char} {n : Nat}

theorem digitRun_append (hds : ∀ c ∈ ds, c.isDigit = true) (h : Ends rest) :
    digitRun (ds ++ rest) = (ds, rest) := by
  rw [digitRun, List.takeWhile_append_of_pos hds,
    List.dropWhile_append_of_pos hds]
  cases rest with
  | nil => simp
  | cons c cs => simp [(h c rfl).1]

/-- No number but zero is written with a zero in front. -/
theorem head_toDigits {s : List Char} (h : Nat.toDigits 10 n = '0' :: s) :
    n = 0 := by
  induction n using Nat.strongRecOn generalizing s with
  | _ n ih =>
    by_cases hlt : n < 10
    · rw [Nat.toDigits_of_lt_base hlt, List.cons.injEq] at h
      exact (by decide : ∀ k < 10, k.digitChar = '0' → k = 0) n hlt h.1
    · rw [Nat.toDigits_of_base_le (by decide) (by omega)] at h
      obtain ⟨c, cs, hcs⟩ :=
        List.exists_cons_of_ne_nil (Nat.toDigits_ne_nil (n := n / 10) (b := 10))
      rw [hcs, List.cons_append, List.cons.injEq] at h
      obtain ⟨rfl, -⟩ := h
      have := ih (n / 10) (by omega) hcs
      omega

/-- The digits of a number are taken as a whole. The reader stops behind a zero
that comes first, which is the number zero itself. -/
theorem whole?_toString (n : Nat) (h : Ends rest) :
    whole? ((toString n).toList ++ rest)
      = some ((toString n).toList, rest) := by
  obtain ⟨hne, hdigits⟩ := digits_repr n
  by_cases hn : n = 0
  · subst hn
    rfl
  · rw [Nat.toString_eq_repr, Nat.toList_repr] at *
    obtain ⟨c, cs, hcs⟩ := List.exists_cons_of_ne_nil hne
    rw [hcs] at hdigits ⊢
    obtain ⟨hc, hcs'⟩ := List.forall_mem_cons.mp hdigits
    have hzero : c ≠ '0' := by
      rintro rfl
      exact hn (head_toDigits hcs)
    rw [List.cons_append, whole?, if_pos hc, digitRun_append hcs' h]
    simpa using hzero

theorem unsigned?_toString (negative : Bool) (n : Nat) (h : Ends rest) :
    ∃ hlt, unsigned? negative ((toString n).toList ++ rest)
      = some (.int (if negative then -n else n), ⟨rest, hlt⟩) := by
  have hwhole := whole?_toString n h
  have hfraction : fraction rest = (none, rest) := by
    unfold fraction
    split
    · exact absurd rfl (h _ rfl).2.1
    · rfl
  have hpower : power rest = (none, rest) := by
    unfold power
    split
    · next c s =>
      obtain ⟨-, -, he, hE⟩ := h c rfl
      rw [if_neg (by simp [he, hE])]
    · rfl
  refine ⟨length_of_whole? hwhole, ?_⟩
  rw [unsigned?.eq_def]
  split
  · next hnone => rw [hwhole] at hnone; cases hnone
  · next hsome =>
    obtain ⟨rfl, rfl⟩ := Prod.mk.inj (Option.some.inj (hwhole.symm.trans hsome))
    simp only [hfraction, hpower, Numeral.toNumber, Numeral.isInteger,
      digitsValue_toString]
    rfl

theorem named?_eq_none {ws : List (List Char × Json)}
    (h : ∀ p ∈ ws, p.1.isPrefixOf s = false) (hne : ∀ p ∈ ws, p.1 ≠ []) :
    named? s ws = none := by
  induction ws with
  | nil => rfl
  | cons p ws ih =>
      obtain ⟨hp, hws⟩ := List.forall_mem_cons.mp h
      obtain ⟨hne, hnes⟩ := List.forall_mem_cons.mp hne
      rw [named?, dif_neg hne]
      split
      · next hword => simp [word?, hp] at hword
      · exact ih hws hnes

end

theorem ne_of_digit {c d : Char} (hc : c.isDigit = true)
    (hd : d.isDigit = false) : c ≠ d := by
  rintro rfl
  rw [hc] at hd
  cases hd

/-- No named value begins with a digit, nor with a minus sign and a digit. -/
theorem named?_digit {c : Char} (hc : c.isDigit = true) (s : List Char) :
    named? (c :: s) namedValues = none
      ∧ named? ('-' :: c :: s) namedValues = none := by
  have hletter : ∀ d : Char, d.isDigit = false → (d == c) = false := fun d hd =>
    beq_false_of_ne (ne_of_digit hc hd).symm
  constructor <;>
  · refine named?_eq_none ?_ (by decide)
    simp [namedValues, List.isPrefixOf, hletter]

theorem atom_of_unsigned {n : Number} {hlt : rest.length < s.length}
    (hnamed : named? s namedValues = none) (hminus : ∀ r, s ≠ '-' :: r)
    (h : unsigned? false s = some (n, ⟨rest, hlt⟩)) :
    Json.atom s = .ok (.number n, ⟨rest, hlt⟩) := by
  rw [Json.atom.eq_def, hnamed]
  simp only
  split
  · next heq => rw [h] at heq; cases heq; rfl
  · next heq => rw [h] at heq; cases heq

theorem Takes.natural {c : Char} {n : Number} (hc : c.isDigit = true)
    (h : ∃ hlt, unsigned? false (c :: s) = some (n, ⟨rest, hlt⟩)) :
    Takes (c :: s) (.number n) rest := by
  obtain ⟨hlt, h⟩ := h
  refine .atom (by simp [ne_of_digit hc])
    (atom_of_unsigned (named?_digit hc s).1 ?_ h)
  exact fun r heq => ne_of_digit hc rfl (List.cons.inj heq).1

theorem Takes.negative {c : Char} {n : Number} (hc : c.isDigit = true)
    (h : ∃ hlt, unsigned? true (c :: s) = some (n, ⟨rest, hlt⟩)) :
    Takes ('-' :: c :: s) (.number n) rest := by
  obtain ⟨hlt, h⟩ := h
  have hatom : Json.atom ('-' :: c :: s)
      = .ok (.number n, ⟨rest, Nat.lt_succ_of_lt hlt⟩) := by
    rw [Json.atom.eq_def, (named?_digit hc s).2]
    simp only [h]
  exact .atom (by simp) hatom

theorem exists_digit (n : Nat) :
    ∃ c s, (toString n).toList = c :: s ∧ c.isDigit = true := by
  obtain ⟨hne, hdigits⟩ := digits_repr n
  obtain ⟨c, s, hcs⟩ := List.exists_cons_of_ne_nil hne
  exact ⟨c, s, hcs, hdigits c (hcs ▸ List.mem_cons_self)⟩

-- ======================================================== what comes back

/-- The characters that may stand between the parts of a text. -/
def blanks : List Char := [' ', '\t', '\n', '\r']

theorem skip_append {g : List Char} (hg : g ⊆ blanks) (s : List Char) :
    skip (g ++ s) = skip s :=
  List.dropWhile_append_of_pos fun c hc => by
    simpa [blanks, or_assoc] using hg hc

theorem skip_of_front {c : Char} (hc : c ∉ blanks) (s : List Char) :
    skip (c :: s) = c :: s :=
  List.dropWhile_cons_of_neg (by simpa [blanks, not_or, and_assoc] using hc)

/-- The text `w` is read as the value `v`, whatever stands behind it that does
not go on with a number. -/
structure Comes (w : List Char) (v : Json) : Prop where
  /-- It begins with a character that is neither blank nor a closing bracket. -/
  front : ∃ c s, w = c :: s ∧ c ∉ ']' :: '\uFEFF' :: blanks
  /-- The value is taken off the front of a text. -/
  takes : ∀ rest, Ends rest → Takes (w ++ rest) v rest

theorem Comes.null : Comes "null".toList .null where
  front := ⟨'n', "ull".toList, rfl, by decide⟩
  takes rest _ := .atom (by simp) rfl

theorem Comes.bool (b : Bool) :
    Comes (if b then "true" else "false").toList (.bool b) := by
  cases b with
  | true => exact ⟨⟨'t', "rue".toList, rfl, by decide⟩,
      fun rest _ => .atom (by simp) rfl⟩
  | false => exact ⟨⟨'f', "alse".toList, rfl, by decide⟩,
      fun rest _ => .atom (by simp) rfl⟩

theorem Comes.text (t : String) : Comes (writtenText t).toList (.text t) where
  front := by
    have h := toList_writtenText t []
    rw [List.append_nil] at h
    exact ⟨'"', _, h, by decide⟩
  takes rest _ := toList_writtenText t rest ▸ .text (.written t rest)

theorem Comes.int (z : Int) : Comes (toString z).toList (int z) := by
  cases z with
  | ofNat n =>
      obtain ⟨c, s, hcs, hc⟩ := exists_digit n
      have hfront : c ∉ ']' :: '\uFEFF' :: blanks := fun hmem =>
        absurd hc ((by decide : ∀ d ∈ ']' :: '\uFEFF' :: blanks,
          ¬ d.isDigit = true) c hmem)
      refine ⟨⟨c, s, hcs, hfront⟩, fun rest h => ?_⟩
      have hnumber := unsigned?_toString false n h
      have hw : (toString (Int.ofNat n)).toList = c :: s := hcs
      rw [hcs, List.cons_append] at hnumber
      rw [hw]
      exact .natural hc hnumber
  | negSucc n =>
      obtain ⟨c, s, hcs, hc⟩ := exists_digit (n + 1)
      rw [toList_negSucc]
      refine ⟨⟨'-', _, rfl, by decide⟩, fun rest h => ?_⟩
      have hnumber := unsigned?_toString true (n + 1) h
      rw [hcs, List.cons_append] at hnumber
      rw [hcs]
      exact .negative hc hnumber

-- ===================================================================== rows

section

variable {g g' : List Char} (hg : g ⊆ blanks) (hg' : g' ⊆ blanks)

theorem ends_of_front {c : Char}
    (hc : c.isDigit = false ∧ c ≠ '.' ∧ c ≠ 'e' ∧ c ≠ 'E') :
    Ends (c :: s) := by
  rintro _ ⟨⟩
  exact hc

include hg' in
theorem ends_append (h : Ends s) : Ends (g' ++ s) := by
  cases g' with
  | nil => exact h
  | cons c cs =>
      exact ends_of_front ((by decide : ∀ c ∈ blanks, c.isDigit = false
        ∧ c ≠ '.' ∧ c ≠ 'e' ∧ c ≠ 'E') c (hg' List.mem_cons_self))

theorem Comes.skip {w : List Char} (h : Comes w v) (s : List Char) :
    skip (w ++ s) = w ++ s := by
  obtain ⟨c, w, rfl, hc⟩ := h.front
  exact skip_of_front (fun hmem => hc (.tail _ (.tail _ hmem))) _

/-- Behind its first item, a row goes on with pairs of a comma and an item. -/
theorem intercalate_cons (sep w : List Char) (ws : List (List Char)) :
    sep.intercalate (w :: ws) = w ++ ws.flatMap (sep ++ ·) := by
  induction ws generalizing w with
  | nil => rw [List.intercalate_singleton, List.flatMap_nil, List.append_nil]
  | cons u us ih =>
      rw [List.intercalate_cons_cons, ih, List.flatMap_cons]
      simp only [List.append_assoc]

/-- A member with a new name goes to the end. -/
theorem put_of_nodup {m : String × Json}
    (h : ((done ++ m :: ms).map Prod.fst).Nodup) :
    put m.1 m.2 done = done ++ [m] := by
  induction done with
  | nil => rfl
  | cons d done ih =>
      rw [List.cons_append, List.map_cons, List.nodup_cons] at h
      have hne : d.1 ≠ m.1 := fun heq => h.1 (by simp [heq])
      rw [put, if_neg hne, ih h.2, List.cons_append]

/-- A member as it is written, if its value is written as `w`. -/
def writtenMember (name : String) (w : List Char) : List Char :=
  (writtenText name).toList ++ ':' :: ' ' :: w

theorem skip_writtenMember (name : String) (w s : List Char) :
    skip (writtenMember name w ++ s) = writtenMember name w ++ s := by
  rw [writtenMember, List.append_assoc, toList_writtenText]
  exact skip_of_front (by decide) _

theorem TakesMembers.member {w : List Char} (hv : Comes w v) (hends : Ends s)
    (hmore : skip s = '\x7d' :: rest ∧ ms = put name v done
      ∨ ∃ r₃, skip s = ',' :: r₃
        ∧ TakesMembers (put name v done) (skip r₃) ms rest) :
    TakesMembers done (writtenMember name w ++ s) ms rest := by
  have hvalue : Takes (skip (' ' :: (w ++ s))) v s := by
    have hskip : skip (' ' :: (w ++ s)) = w ++ s :=
      (skip_append (g := [' ']) (by simp [blanks]) _).trans (hv.skip s)
    exact hskip.symm ▸ hv.takes s hends
  rw [writtenMember, List.append_assoc, toList_writtenText]
  exact .cons (.written _ _) (skip_of_front (by decide) _) hvalue hmore

include hg hg'

/-- Items in a row, with blanks around the commas, are the items of a list. -/
theorem takesItems_row {f : Json → List Char} (rest : List Char)
    (hv : Comes (f v) v) (h : ∀ u ∈ vs, Comes (f u) u) :
    TakesItems ((',' :: g).intercalate (f v :: vs.map f) ++ (g' ++ ']' :: rest))
      (v :: vs) rest := by
  rw [intercalate_cons]
  induction vs generalizing v with
  | nil =>
      have hends : Ends (g' ++ ']' :: rest) :=
        ends_append hg' (ends_of_front (by decide))
      rw [List.map_nil, List.flatMap_nil, List.append_nil]
      refine .cons (hv.takes _ hends) (.inl ⟨?_, rfl⟩)
      rw [skip_append hg', skip_of_front (by decide)]
  | cons u us ih =>
      obtain ⟨hu, hus⟩ := List.forall_mem_cons.mp h
      have hmore := ih hu hus
      rw [List.map_cons, List.flatMap_cons]
      simp only [List.cons_append, List.append_assoc] at hmore ⊢
      refine .cons (hv.takes _ (ends_of_front (by decide)))
        (.inr ⟨_, skip_of_front (by decide) _, ?_⟩)
      -- The blanks are skipped up to the next item and no further, since an
      -- item does not begin with one.
      rw [skip_append hg, hu.skip]
      exact hmore

/-- Members in a row are put behind those that were read before, since none of
their names is among the earlier ones. -/
theorem takesMembers_row {f : Json → List Char} {m : String × Json}
    (done : List (String × Json)) (rest : List Char)
    (hm : Comes (f m.2) m.2) (h : ∀ u ∈ ms, Comes (f u.2) u.2)
    (hnames : ((done ++ m :: ms).map Prod.fst).Nodup) :
    TakesMembers done
      ((',' :: g).intercalate (writtenMember m.1 (f m.2)
        :: ms.map fun u => writtenMember u.1 (f u.2)) ++ (g' ++ '\x7d' :: rest))
      (done ++ m :: ms) rest := by
  rw [intercalate_cons]
  induction ms generalizing done m with
  | nil =>
      have hends : Ends (g' ++ '\x7d' :: rest) :=
        ends_append hg' (ends_of_front (by decide))
      rw [List.map_nil, List.flatMap_nil, List.append_nil]
      refine .member hm hends (.inl ⟨?_, (put_of_nodup hnames).symm⟩)
      rw [skip_append hg', skip_of_front (by decide)]
  | cons u us ih =>
      obtain ⟨hu, hus⟩ := List.forall_mem_cons.mp h
      have hmore := ih (done ++ [m]) hu hus (by simpa using hnames)
      rw [List.map_cons, List.flatMap_cons]
      simp only [List.cons_append, List.append_assoc, List.nil_append]
        at hmore ⊢
      refine .member hm (ends_of_front (by decide))
        (.inr ⟨_, skip_of_front (by decide) _, ?_⟩)
      rw [skip_append hg, skip_writtenMember, put_of_nodup hnames]
      exact hmore

variable {g₀ : List Char} (hg₀ : g₀ ⊆ blanks)
include hg₀

theorem Comes.list {f : Json → List Char} (hv : Comes (f v) v)
    (h : ∀ u ∈ vs, Comes (f u) u) :
    Comes ('[' :: (g₀ ++ ((',' :: g).intercalate (f v :: vs.map f)
      ++ (g' ++ [']'])))) (.list (v :: vs)) := by
  refine ⟨⟨'[', _, rfl, by decide⟩, fun rest _ => ?_⟩
  have hitems := takesItems_row hg hg' rest hv h
  rw [intercalate_cons] at hitems ⊢
  simp only [List.cons_append, List.append_assoc, List.nil_append] at hitems ⊢
  refine .list ((skip_append hg₀ _).trans (hv.skip _)) ?_ hitems
  obtain ⟨c, w, hw, hc⟩ := hv.front
  rintro hclose
  rw [hw, List.cons_append, List.head?_cons] at hclose
  exact hc (Option.some.inj hclose ▸ List.mem_cons_self)

theorem Comes.object {f : Json → List Char} {m : String × Json}
    (hm : Comes (f m.2) m.2) (h : ∀ u ∈ ms, Comes (f u.2) u.2)
    (hnames : ((m :: ms).map Prod.fst).Nodup) :
    Comes ('\x7b' :: (g₀ ++ ((',' :: g).intercalate (writtenMember m.1 (f m.2)
        :: ms.map fun u => writtenMember u.1 (f u.2)) ++ (g' ++ ['\x7d']))))
      (.object (m :: ms)) := by
  refine ⟨⟨'\x7b', _, rfl, by decide⟩, fun rest _ => ?_⟩
  have hmembers := takesMembers_row hg hg' [] rest hm h hnames
  rw [intercalate_cons] at hmembers ⊢
  simp only [List.cons_append, List.append_assoc, List.nil_append]
    at hmembers ⊢
  refine .object ((skip_append hg₀ _).trans (skip_writtenMember _ _ _)) ?_
    hmembers
  simp [writtenMember, toList_writtenText]

end

theorem Comes.emptyList : Comes "[]".toList (.list []) := by
  refine ⟨⟨'[', [']'], rfl, by decide⟩,
    fun rest _ => ⟨Nat.lt_succ_of_lt (Nat.lt_succ_self rest.length), ?_⟩⟩
  show value ('[' :: ']' :: rest) = _
  rw [value]
  simp only
  split
  · next heq => cases heq; rfl
  · next hno => exact absurd rfl (hno _)

theorem Comes.emptyObject : Comes "\x7b\x7d".toList (.object []) := by
  refine ⟨⟨'\x7b', ['\x7d'], rfl, by decide⟩,
    fun rest _ => ⟨Nat.lt_succ_of_lt (Nat.lt_succ_self rest.length), ?_⟩⟩
  show value ('\x7b' :: '\x7d' :: rest) = _
  rw [value]
  simp only
  split
  · next heq => cases heq; rfl
  · next hno => exact absurd rfl (hno _)

theorem blanks_lineBreak (indent level : Nat) :
    (Layout.lineBreak indent level).toList ⊆ blanks := by
  intro c hc
  simp only [Layout.lineBreak, String.toList_append, String.toList_ofList,
    List.mem_append, List.mem_replicate] at hc
  obtain hc | ⟨-, rfl⟩ := hc
  · exact (by decide : "\n".toList ⊆ blanks) hc
  · exact List.mem_cons_self

/-- Whatever the layout, it puts commas between the items of a row, and nothing
but blanks beside them and inside the brackets. -/
theorem exists_enclose (l : Layout) (level : Nat) (opener closer : String)
    {items : List String} (hne : items ≠ []) :
    ∃ g₀ g g', g₀ ⊆ blanks ∧ g ⊆ blanks ∧ g' ⊆ blanks
      ∧ (l.enclose level opener closer items).toList
        = opener.toList ++ (g₀ ++ ((',' :: g).intercalate
            (items.map String.toList) ++ (g' ++ closer.toList))) := by
  have hitems : ¬ items.isEmpty = true := by simpa using hne
  rw [Layout.enclose.eq_def, if_neg hitems]
  cases l with
  | line =>
      refine ⟨[], [' '], [], by simp, by simp [blanks], by simp, ?_⟩
      simp
  | block indent =>
      refine ⟨_, _, _, blanks_lineBreak indent (level + 1),
        blanks_lineBreak indent (level + 1), blanks_lineBreak indent level, ?_⟩
      simp

-- ========================================================== whole values

theorem writtenItems_eq (l : Layout) (level : Nat) (vs : List Json) :
    writtenItems l level vs = vs.map (writtenAt l level) := by
  induction vs with
  | nil => rfl
  | cons v vs ih => rw [writtenItems, ih, List.map_cons]

theorem toList_writtenMembers (l : Layout) (level : Nat)
    (ms : List (String × Json)) :
    (writtenMembers l level ms).map String.toList
      = ms.map fun m => writtenMember m.1 (writtenAt l level m.2).toList := by
  induction ms with
  | nil => rfl
  | cons m ms ih =>
      rw [writtenMembers, List.map_cons, ih, List.map_cons]
      simp [writtenMember]

/-- A value in which no object has two members of one name, and of whose numbers
each is an integer. -/
inductive Plain : Json → Prop
  /-- The null value. -/
  | null : Plain .null
  /-- A truth value. -/
  | bool (b : Bool) : Plain (.bool b)
  /-- An integer. -/
  | int (z : Int) : Plain (.int z)
  /-- A text. -/
  | text (t : String) : Plain (.text t)
  /-- A list of plain values. -/
  | list {vs : List Json} (items : ∀ v ∈ vs, Plain v) : Plain (.list vs)
  /-- An object of plain values. -/
  | object {ms : List (String × Json)} (names : (ms.map Prod.fst).Nodup)
      (members : ∀ m ∈ ms, Plain m.2) : Plain (.object ms)

/-- A plain value comes back from its text, at each level of each layout. -/
theorem Plain.comes (h : Plain v) (l : Layout) (level : Nat) :
    Comes (writtenAt l level v).toList v := by
  induction h generalizing level with
  | null => exact .null
  | bool b => exact .bool b
  | int z => exact .int z
  | text t => exact .text t
  | @list vs items ih =>
      rw [writtenAt, writtenItems_eq]
      cases vs with
      | nil => exact .emptyList
      | cons v vs =>
          have hne : (v :: vs).map (writtenAt l (level + 1)) ≠ [] := by simp
          obtain ⟨g₀, g, g', hg₀, hg, hg', hrow⟩ :=
            exists_enclose l level "[" "]" hne
          obtain ⟨hv, hvs⟩ := List.forall_mem_cons.mp ih
          rw [hrow, List.map_map]
          exact .list hg hg' hg₀ (hv (level + 1)) fun u hu =>
            hvs u hu (level + 1)
  | @object ms names members ih =>
      rw [writtenAt]
      cases ms with
      | nil => exact .emptyObject
      | cons m ms =>
          have hne : writtenMembers l (level + 1) (m :: ms) ≠ [] := by
            simp [writtenMembers]
          obtain ⟨g₀, g, g', hg₀, hg, hg', hrow⟩ :=
            exists_enclose l level "\x7b" "\x7d" hne
          rw [hrow, toList_writtenMembers]
          obtain ⟨hm, hms⟩ := List.forall_mem_cons.mp ih
          exact .object hg hg' hg₀
            (f := fun v => (writtenAt l (level + 1) v).toList) (hm (level + 1))
            (fun u hu => hms u hu (level + 1)) names

/-- A plain value is loaded from its text, if this is within the bounds. -/
theorem Plain.load_written (h : Plain v) (l : Layout)
    (hexcess : excess? 0 (v.written l).toList = none) :
    load (v.written l) = .ok v := by
  have hcomes := h.comes l 0
  have hmark : (v.written l).toList.head? ≠ some '\uFEFF' := by
    obtain ⟨c, s, hw, hc⟩ := hcomes.front
    rw [written, hw]
    rintro ⟨⟩
    exact hc (by decide)
  refine load_of_takes hexcess hmark ?_ (rfl : skip [] = [])
  have hskip := hcomes.skip []
  have htakes := hcomes.takes [] (by simp [Ends])
  rw [List.append_nil] at hskip htakes
  exact hskip.symm ▸ htakes

end NovelScript.Json
