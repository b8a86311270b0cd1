/-
The words of a clause. They are cut at white space outside brackets and
literals, so a word may hold white space, but never at its ends: white space
only gets into a word behind a quote or a bracket, and only a quote or a bracket
leads out again. The one exception is a word that the text ends in the middle
of, and there the end of the text stands in.

`InHand` is what holds at every character of the cutter's walk: the piece that
was begun does not begin with white space, it ends with none if the cutter is
outside of everything, and what is left of the text ends with none. There are
two ways of taking a character, by what it is (`InHand.take`) and by where it
stands (`InHand.takeInside`). A piece is put down at white space outside, or at
the end of the text, and in both places it is tidy. Below a depth of zero,
behind closers that nothing opened, the cutter cuts as well.
-/
import Mathlib.Tactic.Tauto
import NovelScript.Proofs.Text.Bracket

namespace NovelScript.Text

/-- Where words are cut. -/
def atBlank (depth : Int) (c : Char) : Bool := isBlank c && depth ≤ 0

/-- The walk of the cutter has a tidy piece in hand: `q` is the quote of the
literal it is in, `piece` what it has taken, in reverse, and `cs` what is
left of the text. -/
structure InHand (depth : Int) (q : Option Char) (piece cs : List Char) :
    Prop where
  /-- The piece does not begin with white space. -/
  starts : EndsInk piece
  /-- Inside a literal or a bracket there is a piece. -/
  ne_nil : q.isSome = true ∨ 0 < depth → piece ≠ []
  /-- Outside of both the piece does not end in white space, -/
  ends : q = none → depth ≤ 0 → StartsInk piece
  /-- and it does not where the text ends. -/
  done : cs = [] → StartsInk piece
  /-- What is left ends tidily. -/
  rest : EndsInk cs
  /-- A quote is no white space. -/
  quoted : ∀ c ∈ q, isBlank c = false

theorem InHand.tail_ink {depth : Int} {q : Option Char} {c : Char}
    {piece cs : List Char} (h : InHand depth q piece (c :: cs)) :
    EndsInk cs ∧ (cs = [] → isBlank c = false) :=
  ⟨(endsInk_cons.mp h.rest).2, (endsInk_cons.mp h.rest).1⟩

/-- Taking one more character that is not white space. -/
theorem InHand.take {depth depth' : Int} {q q' : Option Char} {c : Char}
    {piece cs : List Char} (h : InHand depth q piece (c :: cs))
    (hc : isBlank c = false) (hq : ∀ c ∈ q', isBlank c = false) :
    InHand depth' q' (c :: piece) cs :=
  ⟨endsInk_cons.mpr ⟨fun _ => hc, h.starts⟩, by simp,
    fun _ _ => startsInk_cons.mpr hc, fun _ => startsInk_cons.mpr hc,
    h.tail_ink.1, hq⟩

/-- Taking one more character, whatever it is, inside a literal or a
bracket. -/
theorem InHand.takeInside {depth : Int} {q : Option Char} {c : Char}
    {piece cs : List Char} (h : InHand depth q piece (c :: cs))
    (hin : q.isSome = true ∨ 0 < depth) : InHand depth q (c :: piece) cs := by
  have hne := h.ne_nil hin
  refine ⟨endsInk_cons.mpr ⟨fun h => absurd h hne, h.starts⟩, by simp,
    ?_, fun hnil => startsInk_cons.mpr (h.tail_ink.2 hnil), h.tail_ink.1,
    h.quoted⟩
  rintro rfl hdepth
  rcases hin with hin | hin
  · simp at hin
  · omega

theorem isBlank_of_closerOf? {c : Char}
    (h : (closerOf? c).isSome = true) : isBlank c = false := by
  unfold closerOf? at h
  split at h
  · next hc => rw [hc]; decide
  · split at h
    · next hc => rw [hc]; decide
    · split at h
      · next hc => rw [hc]; decide
      · simp at h

theorem isBlank_of_isCloser {c : Char} (h : isCloser c = true) :
    isBlank c = false := by
  unfold isCloser at h
  simp only [Bool.or_eq_true, decide_eq_true_eq] at h
  rcases h with (h | h) | h
  · rw [h]; decide
  · rw [h]; decide
  · rw [h]; decide

theorem tidy_of_mem_pieces {depth : Int} {q : Option Char}
    {piece cs : List Char} (h : InHand depth q piece cs) :
    ∀ w ∈ piecesFrom atBlank depth q piece cs, w ≠ [] → Tidy w := by
  have hdone : ∀ {depth : Int} {q : Option Char} {piece : List Char},
      InHand depth q piece [] → piece ≠ [] → Tidy piece.reverse :=
    fun h hne => ⟨by simpa using hne, startsInk_reverse.mpr h.starts,
      endsInk_reverse.mpr (h.done rfl)⟩
  -- The induction is that of the cutter. Only two cases put a piece down: the
  -- end of the text, and white space outside.
  induction depth, q, piece, cs using piecesFrom.induct atBlank with
  | case1 depth q piece =>
      intro w hw hne
      rw [piecesFrom_nil] at hw
      obtain rfl : w = piece.reverse := by simpa using hw
      exact hdone h (by simpa using hne)
  | case2 depth piece q c cs ih =>
      rw [piecesFrom_hidden]
      exact ih ((h.take (by decide) h.quoted).takeInside (Or.inl rfl))
  | case3 depth piece q =>
      intro w hw hne
      rw [piecesFrom_slash] at hw
      obtain rfl : w = ('\\' :: piece).reverse := by simpa using hw
      have htaken : InHand depth (some q) ('\\' :: piece) [] :=
        h.take (by decide) h.quoted
      exact hdone htaken (by simp)
  | case4 depth piece c cs q hslash ih =>
      rw [piecesFrom_inside hslash]
      refine ih ?_
      split
      · next hq => exact h.take (by rw [hq]; exact h.quoted q rfl) (by simp)
      · exact h.takeInside (Or.inl rfl)
  | case5 depth piece c cs hq ih =>
      rw [piecesFrom_out, if_pos hq]
      refine ih (h.take (isBlank_of_isQuote hq) fun d hd => ?_)
      obtain rfl : c = d := by simpa using hd
      exact isBlank_of_isQuote hq
  | case6 depth piece c cs hq hopen ih =>
      rw [piecesFrom_out, if_neg hq, if_pos hopen]
      exact ih (h.take (isBlank_of_closerOf? hopen) (by simp))
  | case7 depth piece c cs hq hopen hclose ih =>
      rw [piecesFrom_out, if_neg hq, if_neg hopen, if_pos hclose]
      exact ih (h.take (isBlank_of_isCloser hclose) (by simp))
  | case8 depth piece c cs hq hopen hclose hcut ih =>
      rw [piecesFrom_out, if_neg hq, if_neg hopen, if_neg hclose, if_pos hcut]
      have hdepth : isBlank c = true ∧ depth ≤ 0 := by
        simpa [atBlank] using hcut
      intro w hw hne
      rcases List.mem_cons.mp hw with rfl | hw
      · exact ⟨hne, startsInk_reverse.mpr h.starts,
          endsInk_reverse.mpr (h.ends rfl hdepth.2)⟩
      · refine ih ⟨endsInk_nil, ?_, fun _ _ => startsInk_nil,
          fun _ => startsInk_nil, h.tail_ink.1, by simp⟩ w hw hne
        rintro (hq | hpos)
        · simp at hq
        · omega
  | case9 depth piece c cs hq hopen hclose hcut ih =>
      rw [piecesFrom_out, if_neg hq, if_neg hopen, if_neg hclose, if_neg hcut]
      refine ih ?_
      by_cases hc : isBlank c = true
      · -- White space that is not cut stands inside a bracket.
        refine h.takeInside (Or.inr ?_)
        have : ¬ (isBlank c = true ∧ depth ≤ 0) := by
          simpa [atBlank] using hcut
        by_contra hdepth
        exact this ⟨hc, by omega⟩
      · exact h.take (by simpa using hc) (by simp)

/-- The words of a text that ends tidily are tidy. -/
theorem tidy_of_mem_words {cs w : List Char} (hcs : EndsInk cs)
    (h : w ∈ words cs) : Tidy w := by
  obtain ⟨hmem, hne⟩ := List.mem_filter.mp h
  refine tidy_of_mem_pieces ⟨endsInk_nil, ?_, fun _ _ => startsInk_nil,
    fun _ => startsInk_nil, hcs, by simp⟩ w hmem (by simpa using hne)
  rintro (hq | hpos)
  · simp at hq
  · omega

/-- Tidy words with single spaces between them are a tidy text. -/
theorem tidy_intercalate {ws : List (List Char)} (hne : ws ≠ [])
    (h : ∀ w ∈ ws, Tidy w) : Tidy ([' '].intercalate ws) := by
  induction ws with
  | nil => exact absurd rfl hne
  | cons w more ih =>
      have hw := h w List.mem_cons_self
      by_cases hmore : more = []
      · subst hmore
        rw [List.intercalate_singleton]
        exact hw
      · have hrest := ih hmore fun v hv => h v (List.mem_cons_of_mem w hv)
        rw [List.intercalate_cons_of_ne_nil hmore, List.append_assoc]
        exact ⟨by simp [hw.ne_nil], hw.starts.append hw.ne_nil,
          (hrest.ends.append hrest.ne_nil).append (by simp)⟩

/-- Nothing but the characters of a text is in its pieces. -/
theorem subset_of_mem_pieces {cut : Int → Char → Bool} {depth : Int}
    {q : Option Char} {piece cs : List Char} :
    ∀ w ∈ piecesFrom cut depth q piece cs, ∀ c ∈ w, c ∈ piece ∨ c ∈ cs := by
  have htaken : ∀ {c : Char} {piece cs w : List Char},
      (∀ d ∈ w, d ∈ c :: piece ∨ d ∈ cs) →
        ∀ d ∈ w, d ∈ piece ∨ d ∈ c :: cs := by
    intro c piece cs w h d hd
    have := h d hd
    simp only [List.mem_cons] at this ⊢
    tauto
  -- The induction is that of the cutter, which in each step takes a character
  -- over from the text, or drops one.
  induction depth, q, piece, cs using piecesFrom.induct cut with
  | case1 depth q piece =>
      rw [piecesFrom_nil]
      intro w hw c hc
      obtain rfl : w = piece.reverse := by simpa using hw
      exact Or.inl (by simpa using hc)
  | case2 depth piece q c cs ih =>
      rw [piecesFrom_hidden]
      exact fun w hw => htaken (htaken (ih w hw))
  | case3 depth piece q =>
      rw [piecesFrom_slash]
      intro w hw c hc
      obtain rfl : w = ('\\' :: piece).reverse := by simpa using hw
      simpa [or_comm] using hc
  | case4 depth piece c cs q hslash ih =>
      rw [piecesFrom_inside hslash]
      exact fun w hw => htaken (ih w hw)
  | case5 depth piece c cs hq ih =>
      rw [piecesFrom_out, if_pos hq]
      exact fun w hw => htaken (ih w hw)
  | case6 depth piece c cs hq hopen ih =>
      rw [piecesFrom_out, if_neg hq, if_pos hopen]
      exact fun w hw => htaken (ih w hw)
  | case7 depth piece c cs hq hopen hclose ih =>
      rw [piecesFrom_out, if_neg hq, if_neg hopen, if_pos hclose]
      exact fun w hw => htaken (ih w hw)
  | case8 depth piece c cs hq hopen hclose hcut ih =>
      rw [piecesFrom_out, if_neg hq, if_neg hopen, if_neg hclose, if_pos hcut]
      intro w hw d hd
      rcases List.mem_cons.mp hw with rfl | hw
      · exact Or.inl (by simpa using hd)
      · have := ih w hw d hd
        simp only [List.not_mem_nil, false_or] at this
        exact Or.inr (List.mem_cons_of_mem c this)
  | case9 depth piece c cs hq hopen hclose hcut ih =>
      rw [piecesFrom_out, if_neg hq, if_neg hopen, if_neg hclose, if_neg hcut]
      exact fun w hw => htaken (ih w hw)

theorem subset_of_mem_words {cs w : List Char} (h : w ∈ words cs) :
    ∀ c ∈ w, c ∈ cs := by
  obtain ⟨hmem, -⟩ := List.mem_filter.mp h
  intro c hc
  simpa using subset_of_mem_pieces w hmem c hc

theorem subset_of_mem_splitArguments {cs a : List Char}
    (h : a ∈ splitArguments cs) : ∀ c ∈ a, c ∈ cs := by
  obtain ⟨hmem, -⟩ := List.mem_filter.mp h
  obtain ⟨p, hp, rfl⟩ := List.mem_map.mp hmem
  intro c hc
  have hc := (trimStart_suffix p).subset ((trimEnd_isPrefix _).subset hc)
  simpa using subset_of_mem_pieces p hp c hc

end NovelScript.Text
