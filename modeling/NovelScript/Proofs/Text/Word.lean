/-
What the cutters of words and names take, and what they leave behind. Each of
them is told by an equivalence: a cut succeeds exactly if the text has the named
beginning, and then the rest is what follows it (`after?_eq_some`, `word?`,
`name?` and their likes). The equivalences are what the rules of the grammar
use, from left to right to learn what a line was, and from right to left to read
what was written.

# Classes of characters

Characters fall into classes: white space, those that may begin a name, those
that may stand in a word, with points or without. What is needed of the classes
is how they lie to each other: what begins a name may stand in a word, and
nothing of a word is white space.

The classes are given by tables of ranges of code points. That two of them do
not meet is decided on the tables (`apart`), once for each pair of ranges, and
not for each character.
-/
import NovelScript.Proofs.Text.Ink
import NovelScript.Text.Word

namespace NovelScript.Text

-- ============================================================ classes

/-- A code point that a table has lies in one of its ranges. -/
theorem exists_of_inRanges {n : Nat} {table : List (Nat × Nat)}
    (h : inRanges n table = true) :
    ∃ r ∈ table, r.1 ≤ n ∧ n ≤ r.2 := by
  induction table with
  | nil => cases h
  | cons r more ih =>
      simp only [inRanges] at h
      split at h
      · cases h
      · next hlo =>
        rcases Bool.or_eq_true _ _ ▸ h with hhi | hmore
        · exact ⟨r, List.mem_cons_self, by omega, by simpa using hhi⟩
        · obtain ⟨q, hq, hn⟩ := ih hmore
          exact ⟨q, List.mem_cons_of_mem r hq, hn⟩

/-- Whether no range of one table meets one of another. -/
def apart (as bs : List (Nat × Nat)) : Bool :=
  as.all fun a => bs.all fun b => a.2 < b.1 || b.2 < a.1

theorem not_inRanges_of_apart {n : Nat} {as bs : List (Nat × Nat)}
    (h : apart as bs = true) (ha : inRanges n as = true) :
    inRanges n bs = false := by
  by_contra hb
  obtain ⟨a, hmem, hlo, hhi⟩ := exists_of_inRanges ha
  obtain ⟨b, hmem', hlo', hhi'⟩ := exists_of_inRanges (by simpa using hb)
  have hab := List.all_eq_true.mp (List.all_eq_true.mp h a hmem) b hmem'
  simp only [Bool.or_eq_true, decide_eq_true_eq] at hab
  omega

/-- No word character is white space. -/
theorem isBlank_of_isWordChar {c : Char} (h : isWordChar c = true) :
    isBlank c = false := by
  rcases Bool.or_eq_true _ _ ▸ h with h | h
  · rw [of_decide_eq_true h]
    decide
  · exact not_inRanges_of_apart (by decide +kernel) h

theorem isBlank_of_isDottedChar {c : Char} (h : isDottedChar c = true) :
    isBlank c = false := by
  rcases Bool.or_eq_true _ _ ▸ h with h | h
  · rw [of_decide_eq_true h]
    decide
  · exact isBlank_of_isWordChar h

/-- The letters of the basic alphabet stand early in the table. -/
private theorem inRanges_letters (n : Nat) (rest : List (Nat × Nat))
    (h : (0x41 ≤ n ∧ n ≤ 0x5a) ∨ (0x61 ≤ n ∧ n ≤ 0x7a)) :
    inRanges n ((0x30, 0x39) :: (0x41, 0x5a) :: (0x61, 0x7a) :: rest)
      = true := by
  simp only [inRanges]
  rcases h with h | h
  · rw [if_neg (by omega), if_neg (by omega)]
    simp [h.2]
  · rw [if_neg (by omega), if_neg (by omega), if_neg (by omega)]
    simp [h.2]

/-- A character that may begin a name may stand inside one. -/
theorem isWordChar_of_isNameStart {c : Char} (h : isNameStart c = true) :
    isWordChar c = true := by
  rcases Bool.or_eq_true _ _ ▸ h with h | h
  · exact Bool.or_eq_true _ _ ▸ Or.inl h
  · have hn : (0x41 ≤ c.toNat ∧ c.toNat ≤ 0x5a)
        ∨ (0x61 ≤ c.toNat ∧ c.toNat ≤ 0x7a) := by
      delta Char.isAlpha Char.isUpper Char.isLower at h
      simp only [Bool.or_eq_true, Bool.and_eq_true, decide_eq_true_eq,
        ge_iff_le, UInt32.le_iff_toNat_le] at h
      exact h
    exact Bool.or_eq_true _ _ ▸ Or.inr (inRanges_letters c.toNat _ hn)

theorem isDottedChar_of_isWordChar {c : Char} (h : isWordChar c = true) :
    isDottedChar c = true := by
  simp [isDottedChar, h]

-- ============================================================= fixed texts

/-- A fixed beginning is cut off exactly where it stands. -/
theorem after?_eq_some {ps cs rest : List Char} :
    after? ps cs = some rest ↔ cs = ps ++ rest := by
  induction ps generalizing cs with
  | nil => simp [after?]
  | cons p ps ih =>
      cases cs with
      | nil => simp [after?]
      | cons c cs =>
          simp only [after?, List.cons_append, List.cons.injEq]
          split
          · next hpc => simp [ih, hpc]
          · next hpc =>
            simp only [reduceCtorEq, false_iff, not_and]
            exact fun h => absurd h.symm hpc

theorem after?_append (ps rest : List Char) :
    after? ps (ps ++ rest) = some rest :=
  after?_eq_some.mpr rfl

/-- A keyword is followed by white space, and that by the rest. -/
theorem keyword?_eq_some {word : String} {cs rest : List Char} :
    keyword? word cs = some rest
      ↔ ∃ bs, bs ≠ [] ∧ Blanks bs ∧ StartsInk rest
          ∧ cs = word.toList ++ (bs ++ rest) := by
  unfold keyword?
  rw [Option.bind_eq_some_iff]
  constructor
  · rintro ⟨after, ha, hb⟩
    obtain ⟨bs, hne, hbs, hrest, rfl⟩ := blanks?_eq_some.mp hb
    exact ⟨bs, hne, hbs, hrest, after?_eq_some.mp ha⟩
  · rintro ⟨bs, hne, hbs, hrest, rfl⟩
    exact ⟨bs ++ rest, after?_append _ _,
      blanks?_eq_some.mpr ⟨bs, hne, hbs, hrest, rfl⟩⟩

/-- A keyword and one space in front of a text. -/
theorem keyword?_space (word : String) {rest : List Char}
    (h : StartsInk rest) :
    keyword? word (word.toList ++ ' ' :: rest) = some rest :=
  keyword?_eq_some.mpr ⟨[' '], by simp, by simp [Blanks, isBlank, inRanges,
    blankRanges], h, rfl⟩

theorem after?_suffix {ps cs rest : List Char}
    (h : after? ps cs = some rest) : rest <:+ cs :=
  ⟨ps, (after?_eq_some.mp h).symm⟩

theorem keyword?_suffix {word : String} {cs rest : List Char}
    (h : keyword? word cs = some rest) : rest <:+ cs := by
  obtain ⟨bs, -, -, -, rfl⟩ := keyword?_eq_some.mp h
  rw [← List.append_assoc]
  exact List.suffix_append _ rest

/-- At the end of a line something follows a keyword and white space. -/
theorem LineEnd.inline_of_keyword? {word : String} {cs rest : List Char}
    (hl : LineEnd cs) (h : keyword? word cs = some rest) : Inline rest := by
  obtain ⟨after, ha, hb⟩ := Option.bind_eq_some_iff.mp h
  exact (hl.of_suffix (after?_suffix ha)).inline_of_blanks? hb

-- ================================================================ names

/-- A name: a letter or low line, and word characters. -/
def Name (cs : List Char) : Prop :=
  ∃ c ws, cs = c :: ws ∧ isNameStart c = true ∧ ∀ w ∈ ws, isWordChar w = true

/-- A dotted name: a letter or low line, and word characters or dots. -/
def Dotted (cs : List Char) : Prop :=
  ∃ c ws, cs = c :: ws ∧ isNameStart c = true
    ∧ ∀ w ∈ ws, isDottedChar w = true

/-- A label's name: a dotted name that may begin with one more dot. -/
def LabelName (cs : List Char) : Prop :=
  Dotted cs ∨ ∃ ds, cs = '.' :: ds ∧ Dotted ds

/-- A text that does not go on with a character of a kind. -/
def Stops (p : Char → Bool) (cs : List Char) : Prop :=
  ∀ c ∈ cs.head?, p c = false

theorem stops_nil (p : Char → Bool) : Stops p [] := fun _ h => by simp at h

/-- Where no word character can follow white space does. -/
theorem stops_of_blank {c : Char} {cs : List Char} (h : isBlank c = true) :
    Stops isDottedChar (c :: cs) := by
  intro d hd
  obtain rfl : c = d := by simpa using hd
  by_contra hc
  have := isBlank_of_isDottedChar (c := c) (by simpa using hc)
  rw [h] at this
  cases this

theorem Stops.word {cs : List Char} (h : Stops isDottedChar cs) :
    Stops isWordChar cs := by
  intro c hc
  by_contra hw
  have := h c hc
  rw [isDottedChar_of_isWordChar (by simpa using hw)] at this
  cases this

theorem name?_eq_some {cs w rest : List Char} :
    name? cs = some (w, rest)
      ↔ Name w ∧ Stops isWordChar rest ∧ cs = w ++ rest := by
  constructor
  · intro h
    unfold name? at h
    split at h
    · next c cs =>
      split at h
      · next hc =>
        obtain ⟨rfl, rfl⟩ : c :: cs.takeWhile isWordChar = w
            ∧ cs.dropWhile isWordChar = rest := by simpa using h
        refine ⟨⟨c, _, rfl, hc, fun d hd => List.mem_takeWhile_imp hd⟩,
          head_dropWhile _ _, ?_⟩
        rw [List.cons_append, List.takeWhile_append_dropWhile]
      · simp at h
    · simp at h
  · rintro ⟨⟨c, ws, rfl, hc, hws⟩, hrest, rfl⟩
    rw [List.cons_append, name?, if_pos hc, takeWhile_stop hws hrest,
      dropWhile_stop hws hrest]

theorem dotted?_eq_some {cs w rest : List Char} :
    dotted? cs = some (w, rest)
      ↔ Dotted w ∧ Stops isDottedChar rest ∧ cs = w ++ rest := by
  constructor
  · intro h
    unfold dotted? at h
    split at h
    · next c cs =>
      split at h
      · next hc =>
        obtain ⟨rfl, rfl⟩ : c :: cs.takeWhile isDottedChar = w
            ∧ cs.dropWhile isDottedChar = rest := by simpa using h
        refine ⟨⟨c, _, rfl, hc, fun d hd => List.mem_takeWhile_imp hd⟩,
          head_dropWhile _ _, ?_⟩
        rw [List.cons_append, List.takeWhile_append_dropWhile]
      · simp at h
    · simp at h
  · rintro ⟨⟨c, ws, rfl, hc, hws⟩, hrest, rfl⟩
    rw [List.cons_append, dotted?, if_pos hc, takeWhile_stop hws hrest,
      dropWhile_stop hws hrest]

theorem labelName?_eq_some {cs w rest : List Char} :
    labelName? cs = some (w, rest)
      ↔ LabelName w ∧ Stops isDottedChar rest ∧ cs = w ++ rest := by
  constructor
  · intro h
    unfold labelName? at h
    split at h
    · next cs =>
      rw [Option.map_eq_some_iff] at h
      obtain ⟨⟨d, r⟩, hd, he⟩ := h
      obtain ⟨rfl, rfl⟩ : '.' :: d = w ∧ r = rest := by simpa using he
      obtain ⟨hdot, hstop, rfl⟩ := dotted?_eq_some.mp hd
      exact ⟨Or.inr ⟨d, rfl, hdot⟩, hstop, rfl⟩
    · obtain ⟨hdot, hstop, rfl⟩ := dotted?_eq_some.mp h
      exact ⟨Or.inl hdot, hstop, rfl⟩
  · rintro ⟨hw, hstop, rfl⟩
    rcases hw with hw | ⟨ds, rfl, hds⟩
    · unfold labelName?
      split
      · next cs he =>
        obtain ⟨c, ws, rfl, hc, hws⟩ := hw
        obtain ⟨rfl, -⟩ := List.cons.inj he
        exact absurd hc (by decide)
      · exact dotted?_eq_some.mpr ⟨hw, hstop, rfl⟩
    · rw [List.cons_append, labelName?,
        dotted?_eq_some.mpr ⟨hds, hstop, rfl⟩]
      rfl

theorem wordRun?_eq_some {cs w rest : List Char} :
    wordRun? cs = some (w, rest)
      ↔ w ≠ [] ∧ (∀ c ∈ w, isWordChar c = true) ∧ Stops isWordChar rest
          ∧ cs = w ++ rest := by
  constructor
  · intro h
    unfold wordRun? at h
    split at h
    · simp at h
    · next hne =>
      obtain ⟨rfl, rfl⟩ : cs.takeWhile isWordChar = w
          ∧ cs.dropWhile isWordChar = rest := by simpa using h
      exact ⟨fun h => hne h, fun c hc => List.mem_takeWhile_imp hc,
        head_dropWhile _ _, List.takeWhile_append_dropWhile.symm⟩
  · rintro ⟨hne, hw, hstop, rfl⟩
    unfold wordRun?
    rw [takeWhile_stop hw hstop, dropWhile_stop hw hstop]
    cases w with
    | nil => exact absurd rfl hne
    | cons c w => rfl

theorem name?_suffix {cs w rest : List Char}
    (h : name? cs = some (w, rest)) : rest <:+ cs :=
  ⟨w, (name?_eq_some.mp h).2.2.symm⟩

theorem dotted?_suffix {cs w rest : List Char}
    (h : dotted? cs = some (w, rest)) : rest <:+ cs :=
  ⟨w, (dotted?_eq_some.mp h).2.2.symm⟩

theorem wordRun?_suffix {cs w rest : List Char}
    (h : wordRun? cs = some (w, rest)) : rest <:+ cs :=
  ⟨w, (wordRun?_eq_some.mp h).2.2.2.symm⟩

-- ============================================================== as texts

theorem Name.all {cs : List Char} (h : Name cs) :
    ∀ c ∈ cs, isWordChar c = true := by
  obtain ⟨c, ws, rfl, hc, hws⟩ := h
  intro d hd
  rcases List.mem_cons.mp hd with rfl | hd
  · exact isWordChar_of_isNameStart hc
  · exact hws d hd

theorem Name.dotted {cs : List Char} (h : Name cs) : Dotted cs := by
  obtain ⟨c, ws, rfl, hc, hws⟩ := h
  exact ⟨c, ws, rfl, hc, fun w hw => isDottedChar_of_isWordChar (hws w hw)⟩

theorem Dotted.all {cs : List Char} (h : Dotted cs) :
    ∀ c ∈ cs, isDottedChar c = true := by
  obtain ⟨c, ws, rfl, hc, hws⟩ := h
  intro d hd
  rcases List.mem_cons.mp hd with rfl | hd
  · exact isDottedChar_of_isWordChar (isWordChar_of_isNameStart hc)
  · exact hws d hd

theorem LabelName.all {cs : List Char} (h : LabelName cs) :
    ∀ c ∈ cs, isDottedChar c = true := by
  rcases h with h | ⟨ds, rfl, h⟩
  · exact h.all
  · intro c hc
    rcases List.mem_cons.mp hc with rfl | hc
    · decide
    · exact h.all c hc

theorem Dotted.tidy {cs : List Char} (h : Dotted cs) : Tidy cs := by
  refine tidy_of_all ?_ fun c hc => isBlank_of_isDottedChar (h.all c hc)
  obtain ⟨c, ws, rfl, -, -⟩ := h
  simp

theorem Name.tidy {cs : List Char} (h : Name cs) : Tidy cs := h.dotted.tidy

theorem LabelName.tidy {cs : List Char} (h : LabelName cs) : Tidy cs := by
  refine tidy_of_all ?_ fun c hc => isBlank_of_isDottedChar (h.all c hc)
  rcases h with ⟨c, ws, rfl, -, -⟩ | ⟨ds, rfl, -⟩
  · simp
  · simp

end NovelScript.Text
