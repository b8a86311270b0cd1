/-
Sound options as a text gives them. The rule takes a row of clauses in any order
(`Proofs/Grammar/Audio`), but whoever reads has a bound: an integer of too many
digits is not read, and then there are no options at all, not even the refusal.

# Where the bound is met

The bound is looked for beside the rule, at each word that is such an integer
and that the rule comes to. The rule stops at the first word it does not take,
so it does not come to every numeral of every text. In a row of clauses of
different kinds it does, for the row up to a numeral is such a row too
(`audioExcess?_eq_none`).

# What a text gives

A text gives options exactly if its words are those of a row of clauses of
different kinds whose integers can all be read, and what it gives is what the
clauses say (`Says`), in whatever order they stand. That the order does not
matter is not shown by moving clauses about: options are known by what the
clauses of a row say, kind by kind, and rows with the same clauses say the same.
-/
import NovelScript.Draft.Pieces
import NovelScript.Proofs.Grammar.Audio
import NovelScript.Proofs.Number.Whole
import NovelScript.Proofs.Text.Ink

namespace NovelScript

open Text Grammar

-- ============================================================== bounds

/-- What a clause has too much of: the digits of its numeral. -/
def AudioClause.excess? : AudioClause → Option Excess
  | measure _ n => numeralExcess? n.word
  | loop _ | ifChanged => none

/-- Only the numeral of a clause can have too many digits. -/
theorem AudioClause.excess?_eq_none {c : AudioClause} :
    c.excess? = none ↔ ∀ w ∈ c.words, numeralExcess? w = none := by
  cases c with
  | measure m n =>
      have hword : numeralExcess? m.word.toList = none := by
        cases m <;> decide
      simp [excess?, words, hword]
  | loop on =>
      have hword : numeralExcess? (if on then "loop" else "noloop").toList
          = none := by
        cases on <;> decide
      simp [excess?, words, hword]
  | ifChanged =>
      have hword : numeralExcess? "if_changed".toList = none := by decide
      simpa [excess?, words] using hword

namespace Grammar

/-- A numeral of too many digits is found if the rule reads the words up to
it. -/
theorem audioExcess?_ne_none {text word : List Char}
    {before after : List (List Char)}
    (hfields : fields text = before ++ [word] ++ after)
    (hword : numeralExcess? word ≠ none)
    (hread : audioOptionsFrom {} (before ++ [word]) ≠ none) :
    audioExcess? text ≠ none := by
  intro hnone
  have hlt : before.length < (fields text).length := by
    simp [hfields]
  have hat := List.findSome?_eq_none_iff.mp hnone before.length
    (List.mem_range.mpr hlt)
  have hget : (fields text).getD before.length [] = word := by
    simp [hfields]
  have htake : (fields text).take (before.length + 1) = before ++ [word] := by
    rw [hfields, List.take_left' (by simp)]
  rw [hget, htake] at hat
  obtain ⟨e, he⟩ := Option.ne_none_iff_exists'.mp hword
  rw [he] at hat
  exact hread (Option.map_eq_none_iff.mp hat)

/-- What is found is the excess of a word. -/
theorem exists_word_of_audioExcess? {text : List Char} {e : Excess}
    (h : audioExcess? text = some e) :
    ∃ w ∈ fields text, numeralExcess? w = some e := by
  obtain ⟨i, hi, hat⟩ := List.exists_of_findSome?_eq_some h
  have hlt := List.mem_range.mp hi
  have hget : (fields text).getD i [] = (fields text)[i] := by
    simp [hlt]
  rw [hget] at hat
  split at hat
  · next e' he =>
    obtain ⟨-, -, rfl⟩ := Option.map_eq_some_iff.mp hat
    exact ⟨_, List.getElem_mem hlt, he⟩
  · cases hat

/-- Clauses of different kinds are within the bounds if each of them is: the
rule comes to every numeral, since the row up to it is one that it reads. -/
theorem audioExcess?_eq_none {text : List Char} {cs : List AudioClause}
    (hfields : fields text = cs.flatMap AudioClause.words)
    (hnodup : (cs.map AudioClause.kind).Nodup) :
    audioExcess? text = none ↔ ∀ c ∈ cs, c.excess? = none := by
  constructor
  · intro hnone c hc
    by_contra hexcess
    obtain ⟨done, more, rfl⟩ := List.append_of_mem hc
    cases c with
    | loop on => exact hexcess rfl
    | ifChanged => exact hexcess rfl
    | measure m n =>
        -- The clauses up to this one are of different kinds too.
        have hkinds : ((done ++ [AudioClause.measure m n]).map
            AudioClause.kind).Nodup := by
          refine hnodup.sublist (List.Sublist.map _ ?_)
          simp
        have hwords :
            (done ++ [AudioClause.measure m n]).flatMap AudioClause.words
              = done.flatMap AudioClause.words ++ [m.word.toList]
                ++ [n.word] := by
          simp [AudioClause.words]
        have htext : fields text = done.flatMap AudioClause.words
            ++ [m.word.toList] ++ [n.word]
            ++ more.flatMap AudioClause.words := by
          rw [hfields, ← hwords]
          simp
        have hread := audioOptionsFrom_clauses.mpr
          ⟨AudioOptions.fits_empty.mpr hkinds, rfl⟩
        rw [hwords] at hread
        exact audioExcess?_ne_none htext hexcess
          (by rw [hread]; exact Option.some_ne_none _) hnone
  · intro hclauses
    rw [Option.eq_none_iff_forall_ne_some]
    intro e he
    obtain ⟨w, hw, hexcess⟩ := exists_word_of_audioExcess? he
    rw [hfields, List.mem_flatMap] at hw
    obtain ⟨c, hc, hw⟩ := hw
    rw [AudioClause.excess?_eq_none.mp (hclauses c hc) w hw] at hexcess
    cases hexcess

end Grammar

-- ============================================================= reading

namespace Draft

theorem audioOptions?_eq_ok {text : String} {o : AudioOptions} :
    audioOptions? (.text text) = .ok (some o)
      ↔ Grammar.audioExcess? text.toList = none
        ∧ Grammar.audioOptions? text.toList = some o := by
  rw [audioOptions?]
  split
  · next e he => simp [he]
  · next he => simp [he]

/-- Clauses in any order give options if they are of different kinds and
within the bounds, and the options say what the clauses say. -/
theorem audioOptions?_clauses {text : String} {cs : List AudioClause}
    (h : fields text.toList = cs.flatMap AudioClause.words)
    {o : AudioOptions} :
    audioOptions? (.text text) = .ok (some o)
      ↔ (cs.map AudioClause.kind).Nodup ∧ (∀ c ∈ cs, c.excess? = none)
        ∧ o.Says cs := by
  rw [audioOptions?_eq_ok, Grammar.audioOptions?_clauses h]
  constructor
  · rintro ⟨hbound, hnodup, hsays⟩
    exact ⟨hnodup, (audioExcess?_eq_none h hnodup).mp hbound, hsays⟩
  · rintro ⟨hnodup, hbound, hsays⟩
    exact ⟨(audioExcess?_eq_none h hnodup).mpr hbound, hnodup, hsays⟩

/-- A text gives sound options exactly if its words are those of clauses of
different kinds, in any order, none with an integer of too many digits. The
options say what the clauses say and nothing else, and they are the same for
the clauses in every other order. Only at an integer of too many digits does
the reading stop without an answer. -/
theorem audioOptions_unordered (text : String) :
    ((∃ o, audioOptions? (.text text) = .ok (some o))
      ↔ ∃ cs : List AudioClause,
          fields text.toList = cs.flatMap AudioClause.words
          ∧ (cs.map AudioClause.kind).Nodup ∧ ∀ c ∈ cs, c.excess? = none)
      ∧ (∀ (cs : List AudioClause) (o : AudioOptions),
          fields text.toList = cs.flatMap AudioClause.words →
          audioOptions? (.text text) = .ok (some o) → o.Says cs)
      ∧ (∀ (cs cs' : List AudioClause) (other : String), cs.Perm cs' →
          fields text.toList = cs.flatMap AudioClause.words →
          fields other.toList = cs'.flatMap AudioClause.words →
          ∀ o, audioOptions? (.text text) = .ok (some o)
            ↔ audioOptions? (.text other) = .ok (some o))
      ∧ ∀ f, audioOptions? (.text text) = .error f →
          ∃ e, f = .excess e
            ∧ ∃ w ∈ fields text.toList, numeralExcess? w = some e := by
  refine ⟨⟨?_, ?_⟩, ?_, ?_, ?_⟩
  · -- What is read is cut into clauses, and of clauses it is known what they
    -- say.
    rintro ⟨o, ho⟩
    obtain ⟨cs, hcs⟩ := exists_clauses (audioOptions?_eq_ok.mp ho).2
    obtain ⟨hnodup, hbound, -⟩ := (audioOptions?_clauses hcs).mp ho
    exact ⟨cs, hcs, hnodup, hbound⟩
  · rintro ⟨cs, hcs, hnodup, hbound⟩
    have hsays := (AudioOptions.says_iff hnodup).mpr rfl
    exact ⟨_, (audioOptions?_clauses hcs).mpr ⟨hnodup, hbound, hsays⟩⟩
  · intro cs o hcs ho
    exact ((audioOptions?_clauses hcs).mp ho).2.2
  · intro cs cs' other hperm hcs hcs' o
    have hsays : o.Says cs ↔ o.Says cs' :=
      ⟨fun h => h.perm hperm, fun h => h.perm hperm.symm⟩
    rw [audioOptions?_clauses hcs, audioOptions?_clauses hcs',
      (hperm.map AudioClause.kind).nodup_iff, hsays]
    simp only [hperm.mem_iff]
  · intro f hf
    rw [audioOptions?] at hf
    split at hf
    · next e he =>
      exact ⟨e, (Except.error.inj hf).symm, exists_word_of_audioExcess? he⟩
    · cases hf

/-- A numeral that begins with its point. -/
def halfWord : NumberWord where
  word := ".5".toList
  number := .double (.finite false 4503599627370496 1021)
  isNumeral := by decide +kernel
  read := by decide +kernel

/-- A numeral that is an integer. -/
def twoWord : NumberWord where
  word := "2".toList
  number := .int 2
  isNumeral := by decide +kernel
  read := by decide +kernel

/-- Four clauses, one of each size and shape. -/
def mixedClauses : List AudioClause :=
  [.measure .volume halfWord, .loop false, .measure .fadeIn twoWord, .ifChanged]

/-- Four clauses in two orders, with more white space in the second. -/
theorem audioOptions_unordered_mixed :
    fields "volume .5 noloop fadein 2 if_changed".toList
        = mixedClauses.flatMap AudioClause.words
      ∧ fields "if_changed\tfadein 2 noloop  volume .5".toList
        = mixedClauses.reverse.flatMap AudioClause.words
      ∧ ∃ o, audioOptions? (.text "volume .5 noloop fadein 2 if_changed")
          = .ok (some o)
        ∧ audioOptions? (.text "if_changed\tfadein 2 noloop  volume .5")
          = .ok (some o)
        ∧ o.Says mixedClauses := by
  have hfields : fields "volume .5 noloop fadein 2 if_changed".toList
      = mixedClauses.flatMap AudioClause.words := by decide +kernel
  have hback : fields "if_changed\tfadein 2 noloop  volume .5".toList
      = mixedClauses.reverse.flatMap AudioClause.words := by decide +kernel
  have hbound : ∀ c ∈ mixedClauses, c.excess? = none := by
    simp only [mixedClauses, List.forall_mem_cons]
    decide +kernel
  obtain ⟨hgiven, hsays, hsame, -⟩ :=
    audioOptions_unordered "volume .5 noloop fadein 2 if_changed"
  obtain ⟨o, ho⟩ := hgiven.mpr ⟨mixedClauses, hfields, by decide, hbound⟩
  have hreverse := mixedClauses.reverse_perm.symm
  exact ⟨hfields, hback, o, ho,
    (hsame _ _ _ hreverse hfields hback o).mp ho, hsays _ o hfields ho⟩

/-- One digit more than an integer is read with. -/
def manyOnes : List Char := List.replicate 4301 '1'

/-- A clause whose numeral has more digits than an integer is read with. -/
def longFade : List Char := "fadein ".toList ++ manyOnes

theorem manyOnes_ne_nil : manyOnes ≠ [] := List.cons_ne_nil _ _

theorem eq_one_of_mem_manyOnes {c : Char} (h : c ∈ manyOnes) : c = '1' :=
  List.eq_of_mem_replicate h

theorem isDigit_manyOnes : ∀ c ∈ manyOnes, c.isDigit = true := by
  intro c hc
  rw [eq_one_of_mem_manyOnes hc]
  rfl

theorem fields_longFade : fields longFade = ["fadein".toList, manyOnes] := by
  have hink : ∀ c ∈ manyOnes, isBlank c = false := by
    intro c hc
    rw [eq_one_of_mem_manyOnes hc]
    decide
  have hlast : fieldsFrom [] manyOnes = [manyOnes] :=
    fieldsFrom_of_ink hink manyOnes_ne_nil
  calc fields longFade
      = "fadein".toList :: fieldsFrom [] manyOnes := rfl
    _ = ["fadein".toList, manyOnes] := by rw [hlast]

theorem numeralExcess?_manyOnes :
    numeralExcess? manyOnes = some (.digits 4301) := by
  rw [numeralExcess?_digits manyOnes_ne_nil isDigit_manyOnes, manyOnes,
    List.length_replicate]
  rfl

/-- The words of a clause that give no options: the integer is too long. -/
theorem fails_on_long_fade :
    ¬ ((∃ o, audioOptions? (.text (String.ofList longFade)) = .ok (some o))
        ↔ ∃ cs : List AudioClause,
            fields (String.ofList longFade).toList
              = cs.flatMap AudioClause.words
            ∧ (cs.map AudioClause.kind).Nodup)
      ∧ audioOptions? (.text (String.ofList longFade))
        = .error (.excess (.digits 4301)) := by
  have hnumeral : Number.isNumeral manyOnes = true := by
    rw [Number.isNumeral,
      (Numeral.read?_digits manyOnes_ne_nil isDigit_manyOnes).1]
    rfl
  obtain ⟨n, hn⟩ := NumberWord.exists_of_isNumeral hnumeral
  -- The line is well formed: one clause, with a numeral that is one by the
  -- grammar.
  have hclauses : fields longFade
      = [AudioClause.measure .fadeIn n].flatMap AudioClause.words := by
    rw [fields_longFade, ← hn]
    rfl
  have hnodup : ([AudioClause.measure .fadeIn n].map
      AudioClause.kind).Nodup := List.nodup_singleton _
  -- But of its two words the numeral is longer than a number may be when it is
  -- read.
  have hexcess : Grammar.audioExcess? longFade = some (.digits 4301) := by
    have hsome : Grammar.audioExcess? longFade ≠ none := by
      rw [ne_eq, audioExcess?_eq_none hclauses hnodup]
      intro hnone
      have := hnone _ List.mem_cons_self
      rw [AudioClause.excess?, hn, numeralExcess?_manyOnes] at this
      cases this
    obtain ⟨e, he⟩ := Option.ne_none_iff_exists'.mp hsome
    obtain ⟨w, hw, hexcess⟩ := exists_word_of_audioExcess? he
    rw [fields_longFade, List.mem_pair] at hw
    rcases hw with rfl | rfl
    · cases hexcess.symm.trans (by decide :
        numeralExcess? "fadein".toList = none)
    · rw [he, ← hexcess, numeralExcess?_manyOnes]
  have hstop : audioOptions? (.text (String.ofList longFade))
      = .error (.excess (.digits 4301)) := by
    rw [audioOptions?, String.toList_ofList, hexcess]
  refine ⟨fun h => ?_, hstop⟩
  obtain ⟨o, ho⟩ := h.mpr ⟨[.measure .fadeIn n], by
    rw [String.toList_ofList, hclauses], hnodup⟩
  rw [hstop] at ho
  cases ho

end Draft

end NovelScript
