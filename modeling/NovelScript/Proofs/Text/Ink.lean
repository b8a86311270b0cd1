/-
Blanks at the ends of a text. A text is *tidy* when it is there and has no white
space at either end; that is what trimming gives and what trimming leaves alone.

# Cuts

Every rule of the grammar cuts its line into a blank here and a piece there, so
the facts below are stated for what a cut leaves behind: a suffix keeps the end
of the text it comes from, and a prefix its beginning. The two ends are
properties of their own, `StartsInk` and `EndsInk`, which the empty text has; it
is tidy only if it is not empty.

# Lines

`Unbroken` is a text on one line, `Inline` a tidy one, and `LineEnd` what the
rules see of a line behind what was cut off: it ends tidily and stands on one
line. A rule that takes the rest of a line behind white space takes something
`Inline`, or there is nothing left. White space includes line breaks, so a tidy
text need not stand on one line, and a text on one line may have other white
space in it.
-/
import Mathlib.Data.List.Basic
import NovelScript.Proofs.Text.Run
import NovelScript.Text.Classes

namespace NovelScript.Text

-- ================================================================ ends

/-- A text that does not begin with white space. -/
def StartsInk (cs : List Char) : Prop := ∀ c ∈ cs.head?, isBlank c = false

/-- A text that does not end in white space. -/
def EndsInk (cs : List Char) : Prop := ∀ c ∈ cs.getLast?, isBlank c = false

/-- A text that is there and has no white space at its ends. -/
structure Tidy (cs : List Char) : Prop where
  /-- It is there. -/
  ne_nil : cs ≠ []
  /-- It begins with something. -/
  starts : StartsInk cs
  /-- It ends in something. -/
  ends : EndsInk cs

/-- A text of white space only. -/
def Blanks (cs : List Char) : Prop := ∀ c ∈ cs, isBlank c = true

theorem startsInk_nil : StartsInk [] := fun _ h => by simp at h

theorem endsInk_nil : EndsInk [] := fun _ h => by simp at h

theorem blanks_nil : Blanks [] := fun _ h => by simp at h

theorem startsInk_cons {c : Char} {cs : List Char} :
    StartsInk (c :: cs) ↔ isBlank c = false := by
  simp [StartsInk]

theorem endsInk_cons {c : Char} {cs : List Char} :
    EndsInk (c :: cs) ↔ (cs = [] → isBlank c = false) ∧ EndsInk cs := by
  cases cs with
  | nil => simp [EndsInk]
  | cons d ds => simp [EndsInk, List.getLast?_cons_cons]

theorem StartsInk.append {as bs : List Char} (h : StartsInk as)
    (hne : as ≠ []) : StartsInk (as ++ bs) := by
  cases as with
  | nil => exact absurd rfl hne
  | cons a as => exact startsInk_cons.mpr (startsInk_cons.mp h)

/-- A text keeps its end whatever stands in front of it. -/
theorem EndsInk.append {as bs : List Char} (h : EndsInk bs) (hne : bs ≠ []) :
    EndsInk (as ++ bs) := by
  intro c hc
  rw [List.getLast?_append_of_ne_nil as hne] at hc
  exact h c hc

theorem endsInk_concat (cs : List Char) {c : Char} (h : isBlank c = false) :
    EndsInk (cs ++ [c]) := by
  intro d hd
  obtain rfl : c = d := by simpa using hd
  exact h

/-- What is left behind a cut ends as the whole text does. -/
theorem EndsInk.of_append {as bs : List Char} (h : EndsInk (as ++ bs)) :
    EndsInk bs := by
  intro c hc
  refine h c ?_
  have hne : bs ≠ [] := by
    rintro rfl
    simp at hc
  rw [List.getLast?_append_of_ne_nil as hne]
  exact hc

theorem EndsInk.of_suffix {as bs : List Char} (h : EndsInk bs)
    (hs : as <:+ bs) : EndsInk as := by
  obtain ⟨front, rfl⟩ := hs
  exact h.of_append

theorem StartsInk.of_isPrefix {as bs : List Char} (h : StartsInk bs)
    (hs : as <+: bs) : StartsInk as := by
  obtain ⟨back, rfl⟩ := hs
  cases as with
  | nil => exact startsInk_nil
  | cons a as => exact startsInk_cons.mpr (startsInk_cons.mp h)

theorem endsInk_reverse {cs : List Char} :
    EndsInk cs.reverse ↔ StartsInk cs := by
  unfold EndsInk StartsInk
  rw [List.getLast?_reverse]

theorem startsInk_reverse {cs : List Char} :
    StartsInk cs.reverse ↔ EndsInk cs := by
  rw [← endsInk_reverse, List.reverse_reverse]

/-- A text in which nothing is blank is tidy. -/
theorem tidy_of_all {cs : List Char} (hne : cs ≠ [])
    (h : ∀ c ∈ cs, isBlank c = false) : Tidy cs :=
  ⟨hne, fun c hc => h c (List.mem_of_mem_head? hc),
    fun c hc => h c (List.mem_of_mem_getLast? hc)⟩

/-- A tidy text behind a text that begins tidily. -/
theorem Tidy.append {as bs : List Char} (ha : StartsInk as) (hne : as ≠ [])
    (hb : Tidy bs) : Tidy (as ++ bs) :=
  ⟨by simp [hne], ha.append hne, hb.ends.append hb.ne_nil⟩

-- ========================================================== trimming

theorem startsInk_trimStart (cs : List Char) : StartsInk (trimStart cs) :=
  head_dropWhile isBlank cs

theorem trimStart_of_ink {cs : List Char} (h : StartsInk cs) :
    trimStart cs = cs := by
  have hnone : ∀ c ∈ ([] : List Char), isBlank c = true := by simp
  exact dropWhile_stop hnone h

theorem trimStart_suffix (cs : List Char) : trimStart cs <:+ cs :=
  List.dropWhile_suffix _

theorem trimStart_append {bs cs : List Char} (hb : Blanks bs)
    (hc : StartsInk cs) : trimStart (bs ++ cs) = cs :=
  dropWhile_stop hb hc

/-- A text is some white space and what is left of it. -/
theorem blanks_append_trimStart (cs : List Char) :
    ∃ bs, Blanks bs ∧ cs = bs ++ trimStart cs :=
  ⟨cs.takeWhile isBlank, fun _ hb => List.mem_takeWhile_imp hb,
    List.takeWhile_append_dropWhile.symm⟩

theorem trimEnd_eq (cs : List Char) :
    trimEnd cs = (trimStart cs.reverse).reverse :=
  rfl

theorem endsInk_trimEnd (cs : List Char) : EndsInk (trimEnd cs) := by
  rw [trimEnd_eq, endsInk_reverse]
  exact startsInk_trimStart _

theorem trimEnd_of_ink {cs : List Char} (h : EndsInk cs) :
    trimEnd cs = cs := by
  rw [trimEnd_eq, trimStart_of_ink (startsInk_reverse.mpr h),
    List.reverse_reverse]

theorem trimEnd_isPrefix (cs : List Char) : trimEnd cs <+: cs := by
  have h := List.reverse_prefix.mpr (trimStart_suffix cs.reverse)
  rwa [List.reverse_reverse] at h

theorem Blanks.reverse {bs : List Char} (h : Blanks bs) :
    Blanks bs.reverse := fun c hc => h c (List.mem_reverse.mp hc)

theorem trimEnd_append {cs bs : List Char} (hc : EndsInk cs)
    (hb : Blanks bs) : trimEnd (cs ++ bs) = cs := by
  rw [trimEnd_eq, List.reverse_append,
    trimStart_append hb.reverse (startsInk_reverse.mpr hc),
    List.reverse_reverse]

/-- A text is what is left of it and some white space. -/
theorem trimEnd_append_blanks (cs : List Char) :
    ∃ bs, Blanks bs ∧ cs = trimEnd cs ++ bs := by
  obtain ⟨bs, hb, h⟩ := blanks_append_trimStart cs.reverse
  refine ⟨bs.reverse, hb.reverse, ?_⟩
  rw [trimEnd_eq, ← List.reverse_append, ← h, List.reverse_reverse]

/-- Blanks at the end do not count. -/
theorem trimEnd_append_of_blanks (cs : List Char) {bs : List Char}
    (hb : Blanks bs) : trimEnd (cs ++ bs) = trimEnd cs := by
  obtain ⟨ds, hd, h⟩ := trimEnd_append_blanks cs
  conv => lhs; rw [h]
  rw [List.append_assoc]
  refine trimEnd_append (endsInk_trimEnd cs) ?_
  intro c hc
  rcases List.mem_append.mp hc with hc | hc
  · exact hd c hc
  · exact hb c hc

/-- Only the last part of a text is trimmed at the end. -/
theorem trimEnd_append_right (as : List Char) {bs : List Char}
    (h : trimEnd bs ≠ []) : trimEnd (as ++ bs) = as ++ trimEnd bs := by
  obtain ⟨ds, hd, hb⟩ := trimEnd_append_blanks bs
  conv => lhs; rw [hb, ← List.append_assoc]
  exact trimEnd_append ((endsInk_trimEnd bs).append h) hd

theorem trimStart_eq_nil {cs : List Char} :
    trimStart cs = [] ↔ Blanks cs :=
  List.dropWhile_eq_nil_iff

theorem trimEnd_eq_nil {cs : List Char} : trimEnd cs = [] ↔ Blanks cs := by
  rw [trimEnd_eq, List.reverse_eq_nil_iff, trimStart_eq_nil]
  exact ⟨fun h => by simpa using h.reverse, Blanks.reverse⟩

theorem trim_eq_nil {cs : List Char} : trim cs = [] ↔ Blanks cs := by
  unfold trim
  rw [trimEnd_eq_nil]
  constructor
  · intro h
    obtain ⟨bs, hb, hcs⟩ := blanks_append_trimStart cs
    rw [hcs]
    intro c hc
    rcases List.mem_append.mp hc with hc | hc
    · exact hb c hc
    · exact h c hc
  · exact fun h c hc => h c ((trimStart_suffix cs).subset hc)

/-- Trimming gives a tidy text, or nothing. -/
theorem tidy_trim {cs : List Char} (h : trim cs ≠ []) : Tidy (trim cs) :=
  ⟨h, (startsInk_trimStart cs).of_isPrefix (trimEnd_isPrefix _),
    endsInk_trimEnd _⟩

theorem Tidy.trim_eq {cs : List Char} (h : Tidy cs) : trim cs = cs := by
  unfold trim
  rw [trimStart_of_ink h.starts, trimEnd_of_ink h.ends]

theorem tidy_iff {cs : List Char} : Tidy cs ↔ cs ≠ [] ∧ trim cs = cs :=
  ⟨fun h => ⟨h.ne_nil, h.trim_eq⟩, fun ⟨hne, h⟩ => by
    have htidy : Tidy (trim cs) := tidy_trim (by rwa [h])
    rwa [h] at htidy⟩

theorem trim_trim (cs : List Char) : trim (trim cs) = trim cs := by
  by_cases h : trim cs = []
  · rw [h]; rfl
  · exact (tidy_trim h).trim_eq

theorem trim_append_of_blanks {as bs : List Char} (cs : List Char)
    (ha : Blanks as) (hb : Blanks bs) : trim (as ++ cs ++ bs) = trim cs := by
  unfold trim
  by_cases hc : Blanks cs
  · rw [trimEnd_eq_nil.mpr, trimEnd_eq_nil.mpr]
    · exact fun c h => hc c ((trimStart_suffix _).subset h)
    · intro c h
      have h := (trimStart_suffix _).subset h
      simp only [List.mem_append] at h
      rcases h with (h | h) | h
      · exact ha c h
      · exact hc c h
      · exact hb c h
  · have hne : trimStart cs ≠ [] := fun h => hc (trimStart_eq_nil.mp h)
    obtain ⟨ds, hd, h⟩ := blanks_append_trimStart cs
    have hstart : trimStart (as ++ cs ++ bs) = trimStart cs ++ bs := by
      conv => lhs; rw [h, List.append_assoc, List.append_assoc,
        ← List.append_assoc as]
      refine trimStart_append ?_ ((startsInk_trimStart cs).append hne)
      intro c hc
      rcases List.mem_append.mp hc with hc | hc
      · exact ha c hc
      · exact hd c hc
    rw [hstart, trimEnd_append_of_blanks _ hb]

-- ============================================================ cutting

/-- White space is dropped where there is some. -/
theorem blanks?_eq_some {cs rest : List Char} :
    blanks? cs = some rest
      ↔ ∃ bs, bs ≠ [] ∧ Blanks bs ∧ StartsInk rest ∧ cs = bs ++ rest := by
  constructor
  · intro h
    unfold blanks? at h
    split at h
    · next c cs =>
      split at h
      · next hc =>
        obtain rfl : trimStart cs = rest := by simpa using h
        obtain ⟨bs, hb, hcs⟩ := blanks_append_trimStart cs
        refine ⟨c :: bs, by simp, ?_, startsInk_trimStart cs, ?_⟩
        · intro d hd
          rcases List.mem_cons.mp hd with rfl | hd
          · exact hc
          · exact hb d hd
        · rw [List.cons_append, ← hcs]
      · simp at h
    · simp at h
  · rintro ⟨bs, hne, hb, hrest, rfl⟩
    cases bs with
    | nil => exact absurd rfl hne
    | cons b bs =>
        have hbb : isBlank b = true := hb b List.mem_cons_self
        rw [List.cons_append, blanks?, if_pos hbb, trimStart_append
          (fun c hc => hb c (List.mem_cons_of_mem b hc)) hrest]

theorem blanks?_space {rest : List Char} (h : StartsInk rest) :
    blanks? (' ' :: rest) = some rest :=
  blanks?_eq_some.mpr ⟨[' '], by simp, by simp [Blanks, isBlank, inRanges,
    blankRanges], h, rfl⟩

theorem blanks?_of_ink {cs : List Char} (h : StartsInk cs) :
    blanks? cs = none := by
  cases cs with
  | nil => rfl
  | cons c cs =>
      have hc : isBlank c = false := startsInk_cons.mp h
      simp [blanks?, hc]

-- ============================================================ one line

/-- A text without line breaks. -/
def Unbroken (cs : List Char) : Prop := ∀ c ∈ cs, c ≠ '\n' ∧ c ≠ '\r'

/-- A tidy text without line breaks. -/
structure Inline (cs : List Char) : Prop where
  /-- It is there and trimmed. -/
  tidy : Tidy cs
  /-- It stands on one line. -/
  unbroken : Unbroken cs

theorem Unbroken.subset {as bs : List Char} (h : Unbroken bs)
    (hs : ∀ a ∈ as, a ∈ bs) : Unbroken as := fun a ha => h a (hs a ha)

theorem unbroken_append {as bs : List Char} :
    Unbroken (as ++ bs) ↔ Unbroken as ∧ Unbroken bs := by
  unfold Unbroken
  simp only [List.mem_append]
  exact ⟨fun h => ⟨fun c hc => h c (Or.inl hc), fun c hc => h c (Or.inr hc)⟩,
    fun h c hc => hc.elim (h.1 c) (h.2 c)⟩

theorem unbroken_of_ink {cs : List Char}
    (h : ∀ c ∈ cs, isBlank c = false) : Unbroken cs := by
  intro c hc
  have hb := h c hc
  constructor
  · rintro rfl
    exact absurd hb (by decide)
  · rintro rfl
    exact absurd hb (by decide)

theorem inline_of_all {cs : List Char} (hne : cs ≠ [])
    (h : ∀ c ∈ cs, isBlank c = false) : Inline cs :=
  ⟨tidy_of_all hne h, unbroken_of_ink h⟩

/-- The end of a line as the rules see it: trimmed, without line breaks. -/
structure LineEnd (cs : List Char) : Prop where
  /-- It ends tidily. -/
  ends : EndsInk cs
  /-- It stands on one line. -/
  unbroken : Unbroken cs

theorem LineEnd.of_append {as bs : List Char} (h : LineEnd (as ++ bs)) :
    LineEnd bs :=
  ⟨h.ends.of_append, (unbroken_append.mp h.unbroken).2⟩

theorem LineEnd.of_suffix {as bs : List Char} (h : LineEnd bs)
    (hs : as <:+ bs) : LineEnd as := by
  obtain ⟨front, rfl⟩ := hs
  exact h.of_append

theorem LineEnd.inline {cs : List Char} (h : LineEnd cs) (hne : cs ≠ [])
    (hstart : StartsInk cs) : Inline cs :=
  ⟨⟨hne, hstart, h.ends⟩, h.unbroken⟩

theorem LineEnd.trim {cs : List Char} (h : LineEnd cs) :
    LineEnd (trim cs) :=
  ⟨endsInk_trimEnd _, h.unbroken.subset fun _ hc =>
    (trimStart_suffix cs).subset ((trimEnd_isPrefix _).subset hc)⟩

theorem blanks?_suffix {cs rest : List Char} (h : blanks? cs = some rest) :
    rest <:+ cs := by
  obtain ⟨bs, -, -, -, rfl⟩ := blanks?_eq_some.mp h
  exact List.suffix_append bs rest

theorem startsInk_of_blanks? {cs rest : List Char}
    (h : blanks? cs = some rest) : StartsInk rest := by
  obtain ⟨bs, -, -, hstart, -⟩ := blanks?_eq_some.mp h
  exact hstart

/-- At the end of a line something follows white space. -/
theorem LineEnd.inline_of_blanks? {cs rest : List Char} (hl : LineEnd cs)
    (h : blanks? cs = some rest) : Inline rest := by
  refine (hl.of_suffix (blanks?_suffix h)).inline ?_ (startsInk_of_blanks? h)
  rintro rfl
  obtain ⟨bs, hne, hbs, -, rfl⟩ := blanks?_eq_some.mp h
  have hends := hl.ends
  rw [List.append_nil] at hends
  have hlast := hends _ (List.getLast?_eq_some_getLast hne)
  rw [hbs _ (List.getLast_mem hne)] at hlast
  cases hlast

-- =============================================================== fields

/-- A text without white space is one field. -/
theorem fieldsFrom_of_ink {word cs : List Char}
    (h : ∀ c ∈ cs, isBlank c = false) (hne : word ++ cs ≠ []) :
    fieldsFrom word cs = [word.reverse ++ cs] := by
  induction cs generalizing word with
  | nil =>
      rw [List.append_nil] at hne
      rw [fieldsFrom, if_neg (by simpa using hne), List.append_nil]
  | cons c cs ih =>
      have hc := h c List.mem_cons_self
      rw [fieldsFrom, hc, if_neg (by simp),
        ih (fun d hd => h d (List.mem_cons_of_mem c hd)) (by simp)]
      simp

end NovelScript.Text
