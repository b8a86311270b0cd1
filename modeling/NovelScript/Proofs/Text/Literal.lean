/-
Literals that the rules cut off a line. A literal is a quote, what may stand
inside it, and the same quote again; inside stand plain characters, and
backslashes with the character that each of them hides.

# Cutting

No literal is the beginning of another one, so a text begins with one literal at
most, and the cutter cuts off this one. Whatever is cut has its two quotes, so
taking the text out of it never fails.

# Writing

What is written for a text is a literal without line breaks or tabs, and it
stands for the text. A quote and a backslash are hidden by a backslash, and so
are line breaks and tabs, under other letters; every other character stands as
it is. So it does not matter which characters the text has, how many backslashes
it ends in, or what follows the literal: the literal ends where it was meant to,
and gives back what went in.

Two rules take a backslash apart, one that looks for the end of the literal and
one that reads what is inside. They are not the same function, since a line
break may not be hidden for the first and may be for the second; on what is
written both agree.
-/
import NovelScript.Proofs.Text.Ink
import NovelScript.Text.Literal

namespace NovelScript.Text

-- ========================================================== the language

/-- What may stand inside a literal between quotes of a kind. -/
inductive Inside (q : Char) : List Char → Prop where
  /-- Nothing. -/
  | nil : Inside q []
  /-- A character that stands for itself. -/
  | plain {c : Char} {cs : List Char} (hq : c ≠ q) (hc : c ≠ '\\')
      (h : Inside q cs) : Inside q (c :: cs)
  /-- A backslash and the character that it hides, which ends no line. -/
  | hidden {c : Char} {cs : List Char} (hc : c ≠ '\n') (h : Inside q cs) :
      Inside q ('\\' :: c :: cs)

/-- A literal between quotes of either kind. -/
inductive IsLiteral : List Char → Prop where
  /-- The quotes with what stands between them. -/
  | mk {q : Char} {inside : List Char} (hq : isQuote q = true)
      (h : Inside q inside) : IsLiteral (q :: inside ++ [q])

theorem ne_backslash_of_isQuote {q : Char} (hq : isQuote q = true) :
    q ≠ '\\' := by
  rintro rfl
  exact absurd hq (by decide)

-- ============================================================ the inside

theorem literalInside?_hidden {q c : Char} {cs : List Char} (hc : c ≠ '\n') :
    literalInside? q ('\\' :: c :: cs)
      = (literalInside? q cs).map fun (inside, rest) =>
          ('\\' :: c :: inside, rest) := by
  rw [literalInside?, if_neg hc]

theorem literalInside?_plain {q c : Char} {cs : List Char} (hq : c ≠ q)
    (hc : c ≠ '\\') :
    literalInside? q (c :: cs)
      = (literalInside? q cs).map fun (inside, rest) =>
          (c :: inside, rest) := by
  rw [literalInside?.eq_def]
  split
  · next h => cases h
  · next h => exact absurd (List.cons.inj h).1 hc
  · next h =>
    obtain ⟨rfl, rfl⟩ := List.cons.inj h
    rw [if_neg hq, if_neg hc]

theorem literalInside?_quote {q : Char} {cs : List Char} (hq : q ≠ '\\') :
    literalInside? q (q :: cs) = some ([], cs) := by
  rw [literalInside?.eq_def]
  split
  · next h => cases h
  · next h => exact absurd (List.cons.inj h).1 hq
  · next h =>
    obtain ⟨rfl, rfl⟩ := List.cons.inj h
    rw [if_pos rfl]

/-- What is cut off is the inside up to the quote. -/
theorem literalInside?_eq_some {q : Char} {cs inside rest : List Char}
    (h : literalInside? q cs = some (inside, rest)) :
    Inside q inside ∧ cs = inside ++ q :: rest := by
  induction cs using literalInside?.induct q generalizing inside with
  | case1 => simp [literalInside?] at h
  | case2 cs => simp [literalInside?] at h
  | case3 c cs hc ih =>
      rw [literalInside?_hidden hc, Option.map_eq_some_iff] at h
      obtain ⟨⟨i, r⟩, hi, he⟩ := h
      obtain ⟨rfl, rfl⟩ : '\\' :: c :: i = inside ∧ r = rest := by
        simpa using he
      obtain ⟨hinside, rfl⟩ := ih hi
      exact ⟨.hidden hc hinside, rfl⟩
  | case4 cs hns =>
      rw [literalInside?.eq_3 _ _ _ hns, if_pos rfl] at h
      obtain ⟨rfl, rfl⟩ : [] = inside ∧ cs = rest := by simpa using h
      exact ⟨.nil, rfl⟩
  | case5 cs hns hne =>
      rw [literalInside?.eq_3 _ _ _ hns, if_neg hne, if_pos rfl] at h
      cases h
  | case6 c cs hns hne hc ih =>
      rw [literalInside?_plain hne hc, Option.map_eq_some_iff] at h
      obtain ⟨⟨i, r⟩, hi, he⟩ := h
      obtain ⟨rfl, rfl⟩ : c :: i = inside ∧ r = rest := by simpa using he
      obtain ⟨hinside, rfl⟩ := ih hi
      exact ⟨.plain hne hc hinside, rfl⟩

/-- What may stand inside a literal is cut off at the quote behind it. -/
theorem Inside.cut {q : Char} {inside : List Char} (h : Inside q inside)
    (hq : q ≠ '\\') (rest : List Char) :
    literalInside? q (inside ++ q :: rest) = some (inside, rest) := by
  induction h with
  | nil => exact literalInside?_quote hq
  | plain hne hc _ ih =>
      rw [List.cons_append, literalInside?_plain hne hc, ih]
      rfl
  | hidden hc _ ih =>
      rw [List.cons_append, List.cons_append, literalInside?_hidden hc, ih]
      rfl

-- =========================================================== the literal

/-- A literal that is cut off has its quotes, and behind it is the rest. -/
theorem literal?_eq_some {cs l rest : List Char}
    (h : literal? cs = some (l, rest)) : IsLiteral l ∧ cs = l ++ rest := by
  cases cs with
  | nil => cases h
  | cons q cs =>
      rw [literal?] at h
      split at h
      · next hq =>
        rw [Option.map_eq_some_iff] at h
        obtain ⟨⟨inside, r⟩, hi, he⟩ := h
        obtain ⟨rfl, rfl⟩ : q :: inside ++ [q] = l ∧ r = rest := by
          simpa using he
        obtain ⟨hinside, rfl⟩ := literalInside?_eq_some hi
        exact ⟨.mk hq hinside, by simp⟩
      · cases h

/-- A literal in front of a text is cut off. -/
theorem IsLiteral.cut {l : List Char} (h : IsLiteral l) (rest : List Char) :
    literal? (l ++ rest) = some (l, rest) := by
  obtain ⟨hq, hinside⟩ := h
  rw [List.cons_append, List.cons_append, List.append_assoc, literal?,
    if_pos hq, List.singleton_append,
    hinside.cut (ne_backslash_of_isQuote hq)]
  rfl

/-- A text begins with one literal at most. -/
theorem IsLiteral.unique {l m rest behind : List Char} (hl : IsLiteral l)
    (hm : IsLiteral m) (h : l ++ rest = m ++ behind) : l = m ∧ rest = behind := by
  have hcut := hl.cut rest
  rw [h, hm.cut behind, Option.some.injEq, Prod.mk.injEq] at hcut
  exact ⟨hcut.1.symm, hcut.2.symm⟩

theorem literal?_suffix {cs l rest : List Char}
    (h : literal? cs = some (l, rest)) : rest <:+ cs := by
  obtain ⟨-, rfl⟩ := literal?_eq_some h
  exact List.suffix_append l rest

theorem unquote?_literal {q : Char} (inside : List Char)
    (hq : isQuote q = true) :
    unquote? (q :: inside ++ [q]) = some (unescape inside) := by
  rw [List.cons_append, unquote?]
  simp [hq]

/-- Taking the text out of a literal that was cut off never fails. -/
theorem exists_unquote?_of_literal? {cs l rest : List Char}
    (h : literal? cs = some (l, rest)) : ∃ text, unquote? l = some text := by
  obtain ⟨⟨hq, -⟩, -⟩ := literal?_eq_some h
  exact ⟨_, unquote?_literal _ hq⟩

theorem literal?_of_not_quote {cs : List Char}
    (h : ∀ c ∈ cs.head?, isQuote c = false) : literal? cs = none := by
  cases cs with
  | nil => rfl
  | cons c cs =>
      have hc : isQuote c = false := h c rfl
      rw [literal?, if_neg (by simp [hc])]

-- ============================================================= writing

theorem escape_cons (c : Char) (cs : List Char) :
    escape (c :: cs) = escapedChar c ++ escape cs :=
  List.flatMap_cons

/-- A character that is written with a backslash, and how. -/
theorem escapedChar_cases (c : Char) :
    (∃ d, escapedChar c = ['\\', d] ∧ hiddenChar d = [c] ∧ d ≠ '\n')
      ∨ (escapedChar c = [c] ∧ c ≠ '\\' ∧ c ≠ '"' ∧ c ≠ '\n' ∧ c ≠ '\r'
          ∧ c ≠ '\t') := by
  by_cases h1 : c = '\\'
  · subst h1
    exact Or.inl ⟨'\\', by decide, by decide, by decide⟩
  by_cases h2 : c = '"'
  · subst h2
    exact Or.inl ⟨'"', by decide, by decide, by decide⟩
  by_cases h3 : c = '\n'
  · subst h3
    exact Or.inl ⟨'n', by decide, by decide, by decide⟩
  by_cases h4 : c = '\r'
  · subst h4
    exact Or.inl ⟨'r', by decide, by decide, by decide⟩
  by_cases h5 : c = '\t'
  · subst h5
    exact Or.inl ⟨'t', by decide, by decide, by decide⟩
  exact Or.inr ⟨by simp [escapedChar, h1, h2, h3, h4, h5], h1, h2, h3, h4,
    h5⟩

theorem unescape_plain {c : Char} (cs : List Char) (hc : c ≠ '\\') :
    unescape (c :: cs) = c :: unescape cs := by
  rw [unescape.eq_def]
  split
  · next h => exact absurd (List.cons.inj h).1 hc
  · next h =>
    obtain ⟨rfl, rfl⟩ := List.cons.inj h
    rfl
  · next h => cases h

/-- What is written for a text stands for it. -/
theorem unescape_escape (cs : List Char) : unescape (escape cs) = cs := by
  induction cs with
  | nil => rfl
  | cons c cs ih =>
      rw [escape_cons]
      rcases escapedChar_cases c with ⟨d, he, hd, -⟩ | ⟨he, hc, -⟩
      · rw [he]
        show unescape ('\\' :: d :: escape cs) = _
        rw [unescape, hd, ih]
        rfl
      · rw [he]
        show unescape (c :: escape cs) = _
        rw [unescape_plain _ hc, ih]

theorem inside_escape (cs : List Char) : Inside '"' (escape cs) := by
  induction cs with
  | nil => exact .nil
  | cons c cs ih =>
      rw [escape_cons]
      rcases escapedChar_cases c with ⟨d, he, -, hd⟩ | ⟨he, hc, hq, -⟩
      · rw [he]
        exact .hidden hd ih
      · rw [he]
        exact .plain hq hc ih

/-- What is written for a text is a literal. -/
theorem isLiteral_quote (cs : List Char) : IsLiteral (quote cs) :=
  .mk (by decide) (inside_escape cs)

/-- A written literal is cut off at its own end. -/
theorem literal?_quote (cs rest : List Char) :
    literal? (quote cs ++ rest) = some (quote cs, rest) :=
  (isLiteral_quote cs).cut rest

/-- A written literal gives its text back. -/
theorem unquote?_quote (cs : List Char) : unquote? (quote cs) = some cs := by
  rw [quote, unquote?_literal _ (by decide), unescape_escape]

theorem head_quote (cs rest : List Char) :
    (quote cs ++ rest).head? = some '"' :=
  rfl

/-- A written literal has no line breaks and no tabs. -/
theorem ne_of_mem_quote {c : Char} {cs : List Char} (h : c ∈ quote cs) :
    c ≠ '\n' ∧ c ≠ '\r' ∧ c ≠ '\t' := by
  have hescape : ∀ d ∈ cs, ∀ c ∈ escapedChar d,
      c ≠ '\n' ∧ c ≠ '\r' ∧ c ≠ '\t' := by
    intro d _ c hc
    unfold escapedChar at hc
    grind
  unfold quote at h
  rcases List.mem_append.mp h with h | h
  · rcases List.mem_cons.mp h with rfl | h
    · decide
    · obtain ⟨d, hd, hc⟩ := List.mem_flatMap.mp h
      exact hescape d hd c hc
  · obtain rfl : c = '"' := by simpa using h
    decide

-- ================================================== written and read again

/-- What is written for a text is the one literal in front of whatever follows
it, is cut off there, stays on its line, and gives the text back; and what any
literal stands for is given back by the literal that is written for it. -/
theorem delimited_quote :
    (∀ s rest : List Char,
      literal? (quote s ++ rest) = some (quote s, rest)
        ∧ (∀ l behind, IsLiteral l → quote s ++ rest = l ++ behind →
            l = quote s ∧ behind = rest)
        ∧ (∀ c ∈ quote s, c ≠ '\n' ∧ c ≠ '\r' ∧ c ≠ '\t')
        ∧ unquote? (quote s) = some s)
      ∧ ∀ l, IsLiteral l → literal? l = some (l, [])
        ∧ ∃ text, unquote? l = some text
          ∧ unquote? (quote text) = some text := by
  refine ⟨fun s rest => ⟨literal?_quote s rest, ?_,
    fun c hc => ne_of_mem_quote hc, unquote?_quote s⟩, ?_⟩
  · intro l behind hl h
    exact hl.unique (isLiteral_quote s) h.symm
  · intro l hl
    have hcut := hl.cut []
    rw [List.append_nil] at hcut
    obtain ⟨text, htext⟩ := exists_unquote?_of_literal? hcut
    exact ⟨hcut, text, htext, unquote?_quote text⟩

/-- A text that ends in a backslash, with a quote behind its literal; and a
literal in single quotes that hides its own quote, a line break, and a letter
that stands for nothing else. -/
theorem delimited_quote_backslash :
    literal? (quote ['a', '"', '\\'] ++ ['"', 'b'])
        = some (quote ['a', '"', '\\'], ['"', 'b'])
      ∧ IsLiteral ['\'', '"', '\\', '\'', '\\', 'n', '\\', 'q', '\'']
      ∧ ∃ text, unquote?
            ['\'', '"', '\\', '\'', '\\', 'n', '\\', 'q', '\''] = some text
          ∧ unquote? (quote text) = some text := by
  have hinside : Inside '\'' ['"', '\\', '\'', '\\', 'n', '\\', 'q'] :=
    .plain (by decide) (by decide) (.hidden (by decide) (.hidden (by decide)
      (.hidden (by decide) .nil)))
  have hliteral : IsLiteral
      ['\'', '"', '\\', '\'', '\\', 'n', '\\', 'q', '\''] :=
    .mk (by decide) hinside
  exact ⟨(delimited_quote.1 _ _).1, hliteral,
    (delimited_quote.2 _ hliteral).2⟩

end NovelScript.Text
