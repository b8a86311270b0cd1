/-
Texts that leave no literal open. The test is a small machine: it remembers the
quote of the literal it is in and steps over whatever stands behind a backslash
there. What it passes has a form that can be said without it: a row of
characters that are no quotes and of whole literals, in either style
(`Terminated`).

# One line

A literal of the rules hides no line break, while the machine steps over
anything. So the two agree on one line, and only the way from the machine to the
form needs the text to be one.

# Both ways

From the form to the machine it goes by the parts of the row: the machine passes
a literal as a whole, from its quote to the end of it (`IsLiteral.endsInside`).
The other way, a text on which the machine ends outside is taken apart at its
first quote, if it has one. Then the machine is inside, and since it does not
end there it has come out at the quote that closes the literal; what is left is
shorter.
-/
import NovelScript.Proofs.Text.Literal

namespace NovelScript.Text

-- ============================================================= the form

/-- A text that leaves no literal open, by its form: a row of characters that
are no quotes and of whole literals. -/
def Terminated (cs : List Char) : Prop :=
  ∃ ps : List (List Char), cs = ps.flatten
    ∧ ∀ p ∈ ps, (∃ c, p = [c] ∧ isQuote c = false) ∨ IsLiteral p

theorem terminated_nil : Terminated [] :=
  ⟨[], rfl, by simp⟩

theorem Terminated.plain {c : Char} {cs : List Char}
    (hc : isQuote c = false) (h : Terminated cs) : Terminated (c :: cs) := by
  obtain ⟨ps, rfl, hps⟩ := h
  exact ⟨[c] :: ps, rfl,
    List.forall_mem_cons.mpr ⟨Or.inl ⟨c, rfl, hc⟩, hps⟩⟩

theorem Terminated.literal {l cs : List Char} (hl : IsLiteral l)
    (h : Terminated cs) : Terminated (l ++ cs) := by
  obtain ⟨ps, rfl, hps⟩ := h
  exact ⟨l :: ps, rfl, List.forall_mem_cons.mpr ⟨Or.inr hl, hps⟩⟩

-- ========================================================== the machine

theorem endsInside_hidden (q c : Char) (cs : List Char) :
    endsInside (some q) ('\\' :: c :: cs) = endsInside (some q) cs := by
  rw [endsInside]

theorem endsInside_plain {q c : Char} {cs : List Char} (hc : c ≠ '\\') :
    endsInside (some q) (c :: cs)
      = endsInside (if c = q then none else some q) cs :=
  endsInside.eq_5 q c cs (fun h _ => absurd h hc) (fun _ _ h _ => absurd h hc)

/-- The machine leaves a literal at its end. -/
theorem Inside.endsInside {q : Char} {inside : List Char}
    (h : Inside q inside) (hq : q ≠ '\\') (rest : List Char) :
    endsInside (some q) (inside ++ q :: rest) = endsInside none rest := by
  induction h with
  | nil => rw [List.nil_append, endsInside_plain hq, if_pos rfl]
  | plain hne hc _ ih =>
      rw [List.cons_append, endsInside_plain hc, if_neg hne, ih]
  | hidden _ _ ih =>
      rw [List.cons_append, List.cons_append, endsInside_hidden, ih]

/-- The machine passes a literal as a whole. -/
theorem IsLiteral.endsInside {l : List Char} (h : IsLiteral l)
    (rest : List Char) : endsInside none (l ++ rest) = endsInside none rest := by
  obtain ⟨hq, hi⟩ := h
  rw [List.cons_append, List.cons_append, List.append_assoc,
    Text.endsInside, if_pos hq]
  exact hi.endsInside (ne_backslash_of_isQuote hq) rest

/-- What has the form is passed. -/
theorem Terminated.not_open {cs : List Char} (h : Terminated cs) :
    hasOpenLiteral cs = false := by
  obtain ⟨ps, rfl, hps⟩ := h
  induction ps with
  | nil => rfl
  | cons p ps ih =>
      obtain ⟨hp, hmore⟩ := List.forall_mem_cons.mp hps
      rw [List.flatten_cons]
      rcases hp with ⟨c, rfl, hc⟩ | hp
      · rw [List.singleton_append, hasOpenLiteral, endsInside,
          if_neg (by simp [hc])]
        exact ih hmore
      · rw [hasOpenLiteral, hp.endsInside]
        exact ih hmore

/-- What is left to the machine that ends outside: in a literal, first the
rest of the literal. -/
def Leaves : Option Char → List Char → Prop
  | none, cs => Terminated cs
  | some q, cs =>
    ∃ i rest, cs = i ++ q :: rest ∧ Inside q i ∧ Terminated rest

/-- On one line, what the machine passes has the form. -/
theorem leaves_of_endsInside {q : Option Char} {cs : List Char}
    (hq : ∀ d ∈ q, isQuote d = true) (hn : '\n' ∉ cs)
    (h : endsInside q cs = false) : Leaves q cs := by
  induction q, cs using endsInside.induct with
  | case1 q =>
      cases q with
      | none => exact terminated_nil
      | some q => cases h
  | case2 c cs ih =>
      have hrest := ih (by split <;> simp_all)
        (fun hmem => hn (List.mem_cons_of_mem c hmem)) h
      split at hrest
      · next hc =>
        obtain ⟨i, rest, rfl, hi, hterm⟩ := hrest
        have hall := hterm.literal (.mk hc hi)
        rwa [List.append_assoc, List.cons_append, List.singleton_append]
          at hall
      · next hc => exact Terminated.plain (by simpa using hc) hrest
  | case3 q => cases h
  | case4 q c cs ih =>
      rw [endsInside_hidden] at h
      simp only [List.mem_cons, not_or] at hn
      obtain ⟨i, rest, rfl, hi, hterm⟩ := ih hq hn.2.2 h
      exact ⟨'\\' :: c :: i, rest, rfl, .hidden (Ne.symm hn.2.1) hi, hterm⟩
  | case5 q c cs hend hslash ih =>
      -- A backslash at the end is case 3, and one in front of more case 4.
      have hc : c ≠ '\\' := by
        rintro rfl
        cases cs with
        | nil => exact hend rfl rfl
        | cons d ds => exact hslash d ds rfl rfl
      rw [endsInside_plain hc] at h
      have hrest := ih (by split <;> simp_all)
        (fun hmem => hn (List.mem_cons_of_mem c hmem)) h
      split at hrest
      · next hcq => exact ⟨[], cs, by rw [hcq]; rfl, .nil, hrest⟩
      · next hcq =>
        obtain ⟨i, rest, rfl, hi, hterm⟩ := hrest
        exact ⟨c :: i, rest, rfl, .plain hcq hc hi, hterm⟩

/-- On one line, the test for an open literal fails exactly on rows of
characters that are no quotes and of whole literals. The machine of the test
plays no part in the form on the right. -/
theorem not_open_iff_terminated {cs : List Char} (hn : '\n' ∉ cs) :
    hasOpenLiteral cs = false ↔ Terminated cs := by
  constructor
  · exact leaves_of_endsInside (by simp) hn
  · exact Terminated.not_open

/-- A quote of the other kind and a hidden one inside a literal, behind a
backslash that hides nothing; and a literal whose quote is hidden. -/
theorem not_open_iff_terminated_mixed :
    ('\n' ∉ ['\\', '\'', '"', '\\', '\'', '\'', 'a']
        ∧ Terminated ['\\', '\'', '"', '\\', '\'', '\'', 'a'])
      ∧ ('\n' ∉ ['"', 'a', '\\', '"'] ∧ ¬ Terminated ['"', 'a', '\\', '"']) := by
  have hpassed : hasOpenLiteral ['\\', '\'', '"', '\\', '\'', '\'', 'a']
      = false := by decide
  have hstopped : hasOpenLiteral ['"', 'a', '\\', '"'] = true := by decide
  refine ⟨⟨by decide, (not_open_iff_terminated (by decide)).mp hpassed⟩,
    by decide, fun h => ?_⟩
  rw [(not_open_iff_terminated (by decide)).mpr h] at hstopped
  cases hstopped

end NovelScript.Text
