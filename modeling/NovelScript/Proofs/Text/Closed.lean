/-
Words that stand for themselves. The cutter reads a text in a state: how many
brackets are open, and which literal it is in. A word is closed if the cutter
takes it for one word and is outside of everything behind it. Then a space
behind it ends it, whatever follows, so closed words with single spaces between
them are cut apart where they were put together.

This is what the writer needs of the words it puts in a row. `endsAt` is the
state that the cutter is in at the end of a text, stated without the words that
were cut on the way, and `Settled` says of a tidy text that nothing is left open
in it. A settled text may be several words; then each of them stands, and
settled texts in a row are settled again (`words_intercalate`).

Unlike the search for a closing bracket, the cutter does not ask which bracket a
closer belongs to. It counts, and the count may fall below zero; a text is
settled only if it comes back to zero at the end.
-/
import NovelScript.Proofs.Text.Phrase
import NovelScript.Proofs.Text.Word

namespace NovelScript.Text

-- ============================================================ the state

/-- Where the cutter is at the end of a text: at which depth of brackets, and
in which literal. -/
def endsAt (depth : Int) (q : Option Char) : List Char → Int × Option Char
  | [] => (depth, q)
  | c :: cs =>
    match q with
    | some open_ =>
      if c = '\\' then
        match cs with
        | _ :: rest => endsAt depth q rest
        | [] => (depth, q)
      else endsAt depth (if c = open_ then none else q) cs
    | none =>
      if isQuote c then endsAt depth (some c) cs
      else if (closerOf? c).isSome then endsAt (depth + 1) none cs
      else if isCloser c then endsAt (depth - 1) none cs
      else endsAt depth none cs

/-- Behind a text that ends outside of literals, the cutter goes on as if it
began there, if it is at once told to cut. -/
theorem piecesFrom_append {cut : Int → Char → Bool} {depth depth' : Int}
    {q : Option Char} {piece as bs : List Char} {c : Char}
    (h : endsAt depth q as = (depth', none)) (hblank : isBlank c = true)
    (hcut : cut depth' c = true) :
    piecesFrom cut depth q piece (as ++ c :: bs)
      = piecesFrom cut depth q piece as ++ piecesFrom cut depth' none [] bs := by
  -- The induction is on the front, as the cutter reads it. Only its end is
  -- about the two halves; in each other case both sides take the same step.
  induction depth, q, piece, as using piecesFrom.induct cut with
  | case1 depth q piece =>
      obtain ⟨rfl, rfl⟩ := Prod.mk.inj h
      obtain ⟨hquote, hopen, hclose, -, -⟩ := not_special_of_isBlank hblank
      simp [piecesFrom_nil, piecesFrom_out, hquote, hopen, hclose, hcut]
  | case2 depth piece q d as ih =>
      rw [endsAt, if_pos rfl] at h
      rw [List.cons_append, List.cons_append, piecesFrom_hidden, ih h]
      conv_rhs => rw [piecesFrom_hidden]
  | case3 depth piece q =>
      rw [endsAt, if_pos rfl] at h
      cases h
  | case4 depth piece d as q hslash ih =>
      rw [endsAt.eq_def] at h
      simp only [if_neg hslash] at h
      rw [List.cons_append, piecesFrom_inside hslash, piecesFrom_inside hslash]
      exact ih h
  | case5 depth piece d as hq ih =>
      rw [endsAt, if_pos hq] at h
      rw [List.cons_append, piecesFrom_out, if_pos hq, ih h]
      conv_rhs => rw [piecesFrom_out, if_pos hq]
  | case6 depth piece d as hq hopen ih =>
      rw [endsAt, if_neg hq, if_pos hopen] at h
      rw [List.cons_append, piecesFrom_out, if_neg hq, if_pos hopen, ih h]
      conv_rhs => rw [piecesFrom_out, if_neg hq, if_pos hopen]
  | case7 depth piece d as hq hopen hclose ih =>
      rw [endsAt, if_neg hq, if_neg hopen, if_pos hclose] at h
      rw [List.cons_append, piecesFrom_out, if_neg hq, if_neg hopen,
        if_pos hclose, ih h]
      conv_rhs => rw [piecesFrom_out, if_neg hq, if_neg hopen, if_pos hclose]
  | case8 depth piece d as hq hopen hclose hd ih =>
      rw [endsAt, if_neg hq, if_neg hopen, if_neg hclose] at h
      rw [List.cons_append, piecesFrom_out, if_neg hq, if_neg hopen,
        if_neg hclose, if_pos hd, ih h]
      conv_rhs => rw [piecesFrom_out, if_neg hq, if_neg hopen, if_neg hclose,
        if_pos hd, List.cons_append]
  | case9 depth piece d as hq hopen hclose hd ih =>
      rw [endsAt, if_neg hq, if_neg hopen, if_neg hclose] at h
      rw [List.cons_append, piecesFrom_out, if_neg hq, if_neg hopen,
        if_neg hclose, if_neg hd, ih h]
      conv_rhs => rw [piecesFrom_out, if_neg hq, if_neg hopen, if_neg hclose,
        if_neg hd]

/-- Behind a text that ends outside of literals the state is that of what
follows it. -/
theorem endsAt_append {depth depth' : Int} {q : Option Char} {as bs : List Char}
    (h : endsAt depth q as = (depth', none)) :
    endsAt depth q (as ++ bs) = endsAt depth' none bs := by
  induction depth, q, as using endsAt.induct with
  | case1 depth q =>
      obtain ⟨rfl, rfl⟩ := Prod.mk.inj h
      rfl
  | case2 depth q d as ih =>
      rw [endsAt, if_pos rfl] at h
      rw [List.cons_append, List.cons_append, endsAt, if_pos rfl, ih h]
  | case3 depth q =>
      rw [endsAt, if_pos rfl] at h
      cases h
  | case4 depth c as q hslash ih =>
      rw [endsAt.eq_def] at h
      simp only [if_neg hslash] at h
      rw [List.cons_append, endsAt.eq_def]
      simp only [if_neg hslash]
      exact ih h
  | case5 depth c as hq ih =>
      rw [endsAt, if_pos hq] at h
      rw [List.cons_append, endsAt, if_pos hq, ih h]
  | case6 depth c as hq hopen ih =>
      rw [endsAt, if_neg hq, if_pos hopen] at h
      rw [List.cons_append, endsAt, if_neg hq, if_pos hopen, ih h]
  | case7 depth c as hq hopen hclose ih =>
      rw [endsAt, if_neg hq, if_neg hopen, if_pos hclose] at h
      rw [List.cons_append, endsAt, if_neg hq, if_neg hopen, if_pos hclose, ih h]
  | case8 depth c as hq hopen hclose ih =>
      rw [endsAt, if_neg hq, if_neg hopen, if_neg hclose] at h
      rw [List.cons_append, endsAt, if_neg hq, if_neg hopen, if_neg hclose, ih h]

/-- A text that is tidy and leaves no bracket and no literal open. -/
structure Settled (cs : List Char) : Prop where
  /-- It is tidy. -/
  tidy : Tidy cs
  /-- It leaves nothing open. -/
  neutral : endsAt 0 none cs = (0, none)

/-- A text that leaves nothing open is cut from what follows a space. -/
theorem words_append_space {as : List Char} (h : endsAt 0 none as = (0, none))
    (bs : List Char) : words (as ++ ' ' :: bs) = words as ++ words bs := by
  have hcut : (isBlank ' ' && decide ((0 : Int) ≤ 0)) = true := by decide
  unfold words
  rw [piecesFrom_append h (by decide) hcut, List.filter_append]

section

variable {as : List (List Char)} (hne : as ≠ []) (h : ∀ a ∈ as, Settled a)
include h

/-- Settled texts with single spaces between them have the words that each
has. -/
theorem words_intercalate :
    words ([' '].intercalate as) = as.flatMap words := by
  induction as with
  | nil => rfl
  | cons a more ih =>
      have ha := h a List.mem_cons_self
      by_cases hmore : more = []
      · rw [hmore, List.intercalate_singleton, List.flatMap_singleton]
      · rw [List.intercalate_cons_of_ne_nil hmore, List.append_assoc,
          List.singleton_append, words_append_space ha.neutral,
          ih fun b hb => h b (List.mem_cons_of_mem a hb), List.flatMap_cons]

include hne

/-- Settled texts with single spaces between them are settled together. -/
theorem settled_intercalate : Settled ([' '].intercalate as) := by
  refine ⟨tidy_intercalate hne fun a ha => (h a ha).tidy, ?_⟩
  clear hne
  induction as with
  | nil => rfl
  | cons a more ih =>
      have ha := h a List.mem_cons_self
      by_cases hmore : more = []
      · rw [hmore, List.intercalate_singleton, ha.neutral]
      · rw [List.intercalate_cons_of_ne_nil hmore, List.append_assoc,
          endsAt_append ha.neutral]
        exact ih fun b hb => h b (List.mem_cons_of_mem a hb)

end

-- ========================================================= closed words

/-- A word on one line that is one word, itself, and leaves nothing open. -/
structure Closed (w : List Char) : Prop where
  /-- It is on one line. -/
  unbroken : Unbroken w
  /-- It is one word. -/
  alone : words w = [w]
  /-- It leaves no bracket and no literal open. -/
  neutral : endsAt 0 none w = (0, none)

instance (w : List Char) : Decidable (Closed w) :=
  decidable_of_iff ((∀ c ∈ w, c ≠ '\n' ∧ c ≠ '\r') ∧ words w = [w]
      ∧ endsAt 0 none w = (0, none))
    ⟨fun ⟨hu, halone, hneutral⟩ => ⟨hu, halone, hneutral⟩,
      fun h => ⟨h.unbroken, h.alone, h.neutral⟩⟩

/-- A closed word is tidy: with something behind it, it is still cut off, and
what is cut off is tidy. -/
theorem Closed.tidy {w : List Char} (h : Closed w) : Tidy w := by
  have hends : EndsInk (w ++ ' ' :: ['x']) := by
    rw [← List.singleton_append, ← List.append_assoc]
    exact endsInk_concat _ (by decide)
  refine tidy_of_mem_words hends ?_
  rw [words_append_space h.neutral, h.alone]
  exact List.mem_append_left _ List.mem_cons_self

theorem Closed.settled {w : List Char} (h : Closed w) : Settled w :=
  ⟨h.tidy, h.neutral⟩

-- ===================================================== plain characters

/-- A character that the cutter takes for nothing but itself. -/
structure Plain (c : Char) : Prop where
  /-- It is no quote. -/
  quote : isQuote c = false
  /-- It opens no bracket. -/
  opener : closerOf? c = none
  /-- It closes no bracket. -/
  closer : isCloser c = false
  /-- It is no white space. -/
  ink : isBlank c = false

/-- Word characters, dots and minus signs are plain. -/
theorem plain_of_isDottedChar {c : Char} (h : isDottedChar c = true ∨ c = '-') :
    Plain c := by
  have hne : ∀ d : Char, isDottedChar d = false → d ≠ '-' → c ≠ d := by
    rintro d hd hminus rfl
    rcases h with h | h
    · rw [h] at hd
      cases hd
    · exact hminus h
  have h1 := hne '"' (by decide) (by decide)
  have h2 := hne '\'' (by decide) (by decide)
  have h3 := hne '(' (by decide) (by decide)
  have h4 := hne '[' (by decide) (by decide)
  have h5 := hne '\x7b' (by decide) (by decide)
  have h6 := hne ')' (by decide) (by decide)
  have h7 := hne ']' (by decide) (by decide)
  have h8 := hne '\x7d' (by decide) (by decide)
  refine ⟨?_, ?_, ?_, ?_⟩
  · simp [isQuote, h1, h2]
  · simp [closerOf?, h3, h4, h5]
  · simp [isCloser, h6, h7, h8]
  · rcases h with h | rfl
    · exact isBlank_of_isDottedChar h
    · decide

/-- Plain characters are all taken. -/
theorem piecesFrom_plain {w : List Char} (h : ∀ c ∈ w, Plain c)
    (depth : Int) (piece : List Char) :
    piecesFrom atBlank depth none piece w = [piece.reverse ++ w]
      ∧ endsAt depth none w = (depth, none) := by
  induction w generalizing piece with
  | nil => simp [piecesFrom_nil, endsAt]
  | cons c w ih =>
      obtain ⟨hquote, hopen, hclose, hink⟩ := h c List.mem_cons_self
      obtain ⟨hpieces, hends⟩ :=
        ih (fun d hd => h d (List.mem_cons_of_mem c hd)) (c :: piece)
      have hcut : ¬ atBlank depth c = true := by simp [atBlank, hink]
      constructor
      · rw [piecesFrom_out, if_neg (by simp [hquote]), if_neg (by simp [hopen]),
          if_neg (by simp [hclose]), if_neg hcut, hpieces, List.reverse_cons,
          List.append_assoc, List.singleton_append]
      · rw [endsAt, if_neg (by simp [hquote]), if_neg (by simp [hopen]),
          if_neg (by simp [hclose]), hends]

/-- A word of plain characters is closed. -/
theorem closed_of_plain {w : List Char} (hne : w ≠ [])
    (h : ∀ c ∈ w, Plain c) : Closed w := by
  obtain ⟨hpieces, hends⟩ := piecesFrom_plain h 0 []
  refine ⟨unbroken_of_ink fun c hc => (h c hc).ink, ?_, hends⟩
  have hwords : words w
      = (piecesFrom atBlank 0 none [] w).filter (fun w => !w.isEmpty) := rfl
  rw [hwords, hpieces]
  simp [hne]

end NovelScript.Text
