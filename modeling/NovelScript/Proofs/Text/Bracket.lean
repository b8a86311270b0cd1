/-
Brackets as an automaton. Both scanners of the grammar, the one that looks for a
closing bracket and the one that cuts arguments at commas, go through a text
with the same three modes: outside of literals with some closers awaited, inside
a literal, and behind a backslash inside a literal.

# Walks

`run` is that walk, and a text is balanced if the walk comes back to where it
began. `argRun` is the walk that a comma stops where no bracket is open, which
is what a single argument survives. What one character can do is said once, by
`step_out` and `step_inside`; every invariant of a walk is taken from there. In
particular a walk does not look at the closers that were awaited before it set
out, as long as it does not come to them, so a balanced text is balanced
wherever it stands.

# Arguments

What is cut from a balanced text are arguments: trimmed, not empty, and each
survives the walk for itself. Arguments in a row, with commas in between, are
cut into themselves. Together these say that lists of arguments are stable
(`arguments_stable`): a text has a list of arguments exactly if it is balanced,
and the list, written in a row, has itself. The induction is on the text, with
the argument that was begun carried along in reverse, as the cutter has it.
-/
import NovelScript.Proofs.Text.Ink
import NovelScript.Text.Bracket

namespace NovelScript.Text

-- ========================================================== the walk

/-- Where a walk through a text stands: the closers it awaits, innermost
first, and the quote of the literal it is in. -/
inductive Mode where
  /-- Outside of literals. -/
  | out (awaited : List Char)
  /-- Inside a literal. -/
  | inside (awaited : List Char) (q : Char)
  /-- Behind a backslash inside a literal. -/
  | hidden (awaited : List Char) (q : Char)
deriving DecidableEq

namespace Mode

/-- One character of a walk; a closer that is not awaited ends it. -/
def step : Mode → Char → Option Mode
  | hidden aw q, _ => some (inside aw q)
  | inside aw q, c =>
    if c = '\\' then some (hidden aw q)
    else if c = q then some (out aw)
    else some (inside aw q)
  | out aw, c =>
    if isQuote c then some (inside aw c)
    else match closerOf? c with
      | some closer => some (out (closer :: aw))
      | none =>
        if isCloser c then
          match aw with
          | [] => none
          | next :: more => if next = c then some (out more) else none
        else some (out aw)

/-- A walk through a text. -/
def run (m : Mode) : List Char → Option Mode
  | [] => some m
  | c :: cs => (m.step c).bind fun m => run m cs

/-- One character of a walk through an argument: a comma where nothing is
open ends it. -/
def argStep (m : Mode) (c : Char) : Option Mode :=
  if m = out [] ∧ c = ',' then none else m.step c

/-- A walk through an argument. -/
def argRun (m : Mode) : List Char → Option Mode
  | [] => some m
  | c :: cs => (m.argStep c).bind fun m => argRun m cs

end Mode

open Mode

-- =========================================================== one step

/-- Whether a character is neither a quote nor a bracket. -/
def isPlain (c : Char) : Bool :=
  !isQuote c && (closerOf? c).isNone && !isCloser c

theorem isPlain_iff {c : Char} :
    isPlain c = true
      ↔ isQuote c = false ∧ closerOf? c = none ∧ isCloser c = false := by
  simp [isPlain, and_assoc]

/-- An opening bracket and its closer are no quotes, and the closer opens
nothing. -/
theorem closerOf?_eq_some {o k : Char} (h : closerOf? o = some k) :
    isQuote o = false ∧ isQuote k = false ∧ closerOf? k = none
      ∧ isCloser k = true := by
  unfold closerOf? at h
  split at h
  · next ho =>
    obtain rfl := Option.some.inj h
    rw [ho]
    decide
  · split at h
    · next ho =>
      obtain rfl := Option.some.inj h
      rw [ho]
      decide
    · split at h
      · next ho =>
        obtain rfl := Option.some.inj h
        rw [ho]
        decide
      · cases h

/-- A closing bracket is no quote and opens nothing. -/
theorem not_opening_of_isCloser {c : Char} (h : isCloser c = true) :
    isQuote c = false ∧ closerOf? c = none := by
  simp only [isCloser, Bool.or_eq_true, decide_eq_true_eq] at h
  rcases h with (rfl | rfl) | rfl
  · decide
  · decide
  · decide

/-- What one character does outside of literals: it opens a literal, opens a
bracket, closes the one awaited next, or does nothing. -/
theorem step_out {aw : List Char} {c : Char} {m : Mode}
    (h : (out aw).step c = some m) :
    (isQuote c = true ∧ m = inside aw c)
      ∨ (∃ k, closerOf? c = some k ∧ m = out (k :: aw))
      ∨ (∃ more, isCloser c = true ∧ aw = c :: more ∧ m = out more)
      ∨ (isPlain c = true ∧ m = out aw) := by
  simp only [step] at h
  split at h
  · next hq => exact .inl ⟨hq, (Option.some.inj h).symm⟩
  · next hq =>
    split at h
    · next k ho => exact .inr (.inl ⟨k, ho, (Option.some.inj h).symm⟩)
    · next ho =>
      split at h
      · next hclose =>
        cases aw with
        | nil => cases h
        | cons next more =>
            obtain ⟨rfl, hm⟩ : next = c ∧ out more = m := by simpa using h
            exact .inr (.inr (.inl ⟨more, hclose, rfl, hm.symm⟩))
      · next hclose =>
        have hplain : isPlain c = true :=
          isPlain_iff.mpr ⟨by simpa using hq, ho, by simpa using hclose⟩
        exact .inr (.inr (.inr ⟨hplain, (Option.some.inj h).symm⟩))

/-- What one character does inside a literal: it hides the next one, ends the
literal, or does nothing. -/
theorem step_inside {aw : List Char} {q c : Char} {m : Mode}
    (h : (inside aw q).step c = some m) :
    (c = '\\' ∧ m = hidden aw q)
      ∨ (c ≠ '\\' ∧ c = q ∧ m = out aw)
      ∨ (c ≠ '\\' ∧ c ≠ q ∧ m = inside aw q) := by
  simp only [step] at h
  split at h
  · next hslash => exact .inl ⟨hslash, (Option.some.inj h).symm⟩
  · next hslash =>
    split at h
    · next hq => exact .inr (.inl ⟨hslash, hq, (Option.some.inj h).symm⟩)
    · next hq => exact .inr (.inr ⟨hslash, hq, (Option.some.inj h).symm⟩)

/-- Only a backslash leads behind a backslash. -/
theorem slash_of_step_hidden {m : Mode} {aw : List Char} {q c : Char}
    (h : m.step c = some (hidden aw q)) : c = '\\' := by
  cases m with
  | out aw' =>
      rcases step_out h with ⟨-, h⟩ | ⟨_, -, h⟩ | ⟨_, -, -, h⟩ | ⟨-, h⟩ <;>
        cases h
  | inside aw' q' =>
      rcases step_inside h with ⟨hc, -⟩ | ⟨-, -, h⟩ | ⟨-, -, h⟩
      · exact hc
      · cases h
      · cases h
  | hidden aw' q' => cases h

/-- A walk only ends at a closer that is not awaited. -/
theorem step_eq_none {m : Mode} {c : Char} (h : m.step c = none) :
    ∃ aw, m = out aw ∧ isCloser c = true ∧ aw.head? ≠ some c := by
  cases m with
  | out aw =>
      refine ⟨aw, rfl, ?_⟩
      simp only [step] at h
      split at h
      · cases h
      · split at h
        · cases h
        · split at h
          · next hclose =>
            refine ⟨hclose, ?_⟩
            cases aw with
            | nil => simp
            | cons next more => simpa using h
          · cases h
  | inside aw q =>
      simp only [step] at h
      split at h
      · cases h
      · split at h <;> cases h
  | hidden aw q => cases h

-- ============================================================ walks

/-- A text that leaves no bracket and no literal open, and closes none that
it has not opened. -/
def Balanced (cs : List Char) : Prop := run (out []) cs = some (out [])

/-- A balanced text without commas outside all brackets. -/
def Solid (cs : List Char) : Prop := argRun (out []) cs = some (out [])

/-- An argument: a solid text without white space at its ends. -/
structure Argument (cs : List Char) : Prop where
  /-- It is there and trimmed. -/
  tidy : Tidy cs
  /-- It is in one piece. -/
  solid : Solid cs

theorem run_append (m : Mode) (as bs : List Char) :
    run m (as ++ bs) = (run m as).bind fun m => run m bs := by
  induction as generalizing m with
  | nil => rfl
  | cons a as ih =>
      rw [List.cons_append, run, run]
      cases m.step a with
      | none => rfl
      | some m' => exact ih m'

theorem argRun_append (m : Mode) (as bs : List Char) :
    argRun m (as ++ bs) = (argRun m as).bind fun m => argRun m bs := by
  induction as generalizing m with
  | nil => rfl
  | cons a as ih =>
      rw [List.cons_append, argRun, argRun]
      cases m.argStep a with
      | none => rfl
      | some m' => exact ih m'

theorem argStep_eq_some {m m' : Mode} {c : Char} (h : m.argStep c = some m') :
    ¬ (m = out [] ∧ c = ',') ∧ m.step c = some m' := by
  unfold argStep at h
  split at h
  · cases h
  · next hcomma => exact ⟨hcomma, h⟩

/-- A walk through an argument is a walk. -/
theorem run_of_argRun {m m' : Mode} {cs : List Char}
    (h : argRun m cs = some m') : run m cs = some m' := by
  induction cs generalizing m with
  | nil => exact h
  | cons c cs ih =>
      rw [argRun] at h
      obtain ⟨m'', hstep, hrest⟩ := Option.bind_eq_some_iff.mp h
      rw [run, (argStep_eq_some hstep).2]
      exact ih hrest

theorem Solid.balanced {cs : List Char} (h : Solid cs) : Balanced cs :=
  run_of_argRun h

/-- A walk goes through an argument, or up to the first comma that stops
it. -/
theorem argRun_or_comma {m m' : Mode} {cs : List Char}
    (h : run m cs = some m') :
    argRun m cs = some m'
      ∨ ∃ as bs, cs = as ++ ',' :: bs ∧ argRun m as = some (out [])
          ∧ run (out []) bs = some m' := by
  induction cs generalizing m with
  | nil => exact Or.inl h
  | cons c cs ih =>
      rw [run] at h
      obtain ⟨m'', hstep, hrest⟩ := Option.bind_eq_some_iff.mp h
      by_cases hc : m = out [] ∧ c = ','
      · obtain ⟨rfl, rfl⟩ := hc
        obtain rfl : out [] = m'' := Option.some.inj hstep
        exact Or.inr ⟨[], cs, rfl, rfl, hrest⟩
      · have hstep' : m.argStep c = some m'' := by
          rw [argStep, if_neg hc, hstep]
        rcases ih hrest with hin | ⟨as, bs, rfl, has, hbs⟩
        · exact Or.inl (by rw [argRun, hstep']; exact hin)
        · refine Or.inr ⟨c :: as, bs, rfl, ?_, hbs⟩
          rw [argRun, hstep']
          exact has

-- ============================================================ blanks

theorem not_special_of_isBlank {c : Char} (h : isBlank c = true) :
    isQuote c = false ∧ closerOf? c = none ∧ isCloser c = false
      ∧ c ≠ ',' ∧ c ≠ '\\' := by
  have hne : ∀ d : Char, isBlank d = false → c ≠ d := by
    rintro d hd rfl
    rw [h] at hd
    cases hd
  have h1 := hne '"' (by decide)
  have h2 := hne '\'' (by decide)
  have h3 := hne '(' (by decide)
  have h4 := hne '[' (by decide)
  have h5 := hne '\x7b' (by decide)
  have h6 := hne ')' (by decide)
  have h7 := hne ']' (by decide)
  have h8 := hne '\x7d' (by decide)
  refine ⟨?_, ?_, ?_, hne ',' (by decide), hne '\\' (by decide)⟩
  · simp [isQuote, h1, h2]
  · simp [closerOf?, h3, h4, h5]
  · simp [isCloser, h6, h7, h8]

theorem argStep_out_of_isBlank {c : Char} (aw : List Char)
    (h : isBlank c = true) : argStep (out aw) c = some (out aw) := by
  obtain ⟨hq, hopen, hclose, hcomma, -⟩ := not_special_of_isBlank h
  rw [argStep, if_neg fun hc => hcomma hc.2]
  simp only [step, hq, hopen, hclose]
  rfl

theorem argRun_out_of_blanks {bs : List Char} (aw : List Char)
    (h : Blanks bs) : argRun (out aw) bs = some (out aw) := by
  induction bs with
  | nil => rfl
  | cons b bs ih =>
      rw [argRun, argStep_out_of_isBlank aw (h b List.mem_cons_self)]
      exact ih fun c hc => h c (List.mem_cons_of_mem b hc)

/-- White space does not end a literal. -/
theorem argRun_inside_of_blanks {bs : List Char} (aw : List Char) (q : Char)
    (hq : isBlank q = false) (h : Blanks bs) :
    argRun (inside aw q) bs = some (inside aw q) := by
  induction bs with
  | nil => rfl
  | cons b bs ih =>
      have hb := h b List.mem_cons_self
      obtain ⟨-, -, -, -, hslash⟩ := not_special_of_isBlank hb
      have hne : b ≠ q := by
        rintro rfl
        rw [hb] at hq
        cases hq
      rw [argRun, argStep, if_neg (by simp)]
      simp only [step, if_neg hslash, if_neg hne]
      exact ih fun c hc => h c (List.mem_cons_of_mem b hc)

/-- The modes that a walk from outside can be in: its literals stand in
quotes. -/
def Mode.Quoted : Mode → Prop
  | out _ => True
  | inside _ q | hidden _ q => isQuote q = true

theorem Mode.Quoted.step {m m' : Mode} {c : Char} (h : m.Quoted)
    (hs : m.step c = some m') : m'.Quoted := by
  cases m with
  | out aw =>
      rcases step_out hs with ⟨hq, rfl⟩ | ⟨k, -, rfl⟩ | ⟨more, -, -, rfl⟩
        | ⟨-, rfl⟩
      · exact hq
      · trivial
      · trivial
      · trivial
  | inside aw q =>
      rcases step_inside hs with ⟨-, rfl⟩ | ⟨-, -, rfl⟩ | ⟨-, -, rfl⟩
      · exact h
      · trivial
      · exact h
  | hidden aw q => cases hs; exact h

theorem Mode.Quoted.run {m m' : Mode} {cs : List Char} (h : m.Quoted)
    (hr : run m cs = some m') : m'.Quoted := by
  induction cs generalizing m with
  | nil => cases hr; exact h
  | cons c cs ih =>
      obtain ⟨m'', hstep, hrest⟩ := Option.bind_eq_some_iff.mp hr
      exact ih (h.step hstep) hrest

theorem isBlank_of_isQuote {q : Char} (h : isQuote q = true) :
    isBlank q = false := by
  rcases Bool.or_eq_true _ _ ▸ h with h | h
  · rw [of_decide_eq_true h]; decide
  · rw [of_decide_eq_true h]; decide

/-- Where white space ends a walk outside of literals, the walk was there
before it. -/
theorem argRun_of_append_blanks {cs bs : List Char} (hb : Blanks bs)
    (h : Solid (cs ++ bs)) : Solid cs := by
  unfold Solid at h
  rw [argRun_append] at h
  obtain ⟨m, hm, hrest⟩ := Option.bind_eq_some_iff.mp h
  have hquoted : m.Quoted :=
    Mode.Quoted.run (m := out []) trivial (run_of_argRun hm)
  cases m with
  | out aw =>
      rw [argRun_out_of_blanks aw hb] at hrest
      rw [Solid, hm, hrest]
  | inside aw q =>
      rw [argRun_inside_of_blanks aw q (isBlank_of_isQuote hquoted) hb]
        at hrest
      cases hrest
  | hidden aw q =>
      cases bs with
      | nil => cases hrest
      | cons b bs =>
          have hin : argRun (inside aw q) bs = _ :=
            argRun_inside_of_blanks aw q (isBlank_of_isQuote hquoted)
            (fun c hc => hb c (List.mem_cons_of_mem b hc))
          rw [argRun, argStep, if_neg (by simp)] at hrest
          change argRun (inside aw q) bs = _ at hrest
          rw [hin] at hrest
          cases hrest

theorem solid_blanks_append {bs cs : List Char} (hb : Blanks bs) :
    Solid (bs ++ cs) ↔ Solid cs := by
  unfold Solid
  rw [argRun_append, argRun_out_of_blanks [] hb]
  rfl

theorem Solid.trim {cs : List Char} (h : Solid cs) : Solid (trim cs) := by
  obtain ⟨as, ha, hcs⟩ := blanks_append_trimStart cs
  obtain ⟨bs, hb, hts⟩ := trimEnd_append_blanks (trimStart cs)
  rw [hcs, solid_blanks_append ha, hts] at h
  exact argRun_of_append_blanks hb h

-- ============================================================ cutting

/-- Where arguments are cut. -/
def atComma (depth : Int) (c : Char) : Bool := c = ',' && depth = 0

-- What the cutter does at the front of a text, outside and inside of
-- literals. Proofs about it go by these equations and by its own induction.

section

variable {cut : Int → Char → Bool} {depth : Int} {piece cs : List Char}
  {c q : Char}

theorem piecesFrom_nil {q : Option Char} :
    piecesFrom cut depth q piece [] = [piece.reverse] := rfl

theorem piecesFrom_out : piecesFrom cut depth none piece (c :: cs)
    = if isQuote c then piecesFrom cut depth (some c) (c :: piece) cs
      else if (closerOf? c).isSome then
        piecesFrom cut (depth + 1) none (c :: piece) cs
      else if isCloser c then piecesFrom cut (depth - 1) none (c :: piece) cs
      else if cut depth c then
        piece.reverse :: piecesFrom cut depth none [] cs
      else piecesFrom cut depth none (c :: piece) cs := rfl

theorem piecesFrom_inside (h : c ≠ '\\') :
    piecesFrom cut depth (some q) piece (c :: cs)
      = piecesFrom cut depth (if c = q then none else some q) (c :: piece)
          cs := by
  rw [piecesFrom.eq_def]
  exact if_neg h

theorem piecesFrom_slash : piecesFrom cut depth (some q) piece ['\\']
    = [('\\' :: piece).reverse] := rfl

theorem piecesFrom_hidden :
    piecesFrom cut depth (some q) piece ('\\' :: c :: cs)
      = piecesFrom cut depth (some q) (c :: '\\' :: piece) cs := rfl

end

/-- The pieces of a text that a walk has come to: a mode stands for the
depth and the quote that the cutter keeps, and for the backslash that it
takes together with the next character. -/
def Mode.pieces (piece : List Char) (cs : List Char) :
    Mode → List (List Char)
  | out aw => piecesFrom atComma aw.length none piece cs
  | inside aw q => piecesFrom atComma aw.length (some q) piece cs
  | hidden aw q =>
    piecesFrom atComma aw.length (some q) piece.tail ('\\' :: cs)

/-- The cutter takes the characters of an argument into its piece. -/
theorem pieces_step {m m' : Mode} {c : Char} {piece cs : List Char}
    (hm : m.argStep c = some m')
    (hp : ∀ aw q, m = hidden aw q → piece.head? = some '\\') :
    m.pieces piece (c :: cs) = m'.pieces (c :: piece) cs := by
  obtain ⟨hcomma, hstep⟩ := argStep_eq_some hm
  -- The two machines agree on what they are in: outside all quotes, inside one,
  -- or behind a backslash there.
  cases m with
  | out aw =>
      simp only [Mode.pieces]
      rw [piecesFrom_out]
      rcases step_out hstep with ⟨hq, rfl⟩ | ⟨k, ho, rfl⟩
        | ⟨more, hclose, rfl, rfl⟩ | ⟨hplain, rfl⟩
      · rw [if_pos hq]
      · rw [if_neg (by simp [(closerOf?_eq_some ho).1]), ho]
        rfl
      · obtain ⟨hq, ho⟩ := not_opening_of_isCloser hclose
        rw [if_neg (by simp [hq]), if_neg (by simp [ho]), if_pos hclose]
        simp only [List.length_cons]
        congr 1
        omega
      · obtain ⟨hq, ho, hclose⟩ := isPlain_iff.mp hplain
        have hcut : atComma aw.length c = false := by
          by_contra h
          have h : c = ',' ∧ aw = [] := by simpa [atComma] using h
          exact hcomma ⟨by rw [h.2], h.1⟩
        rw [if_neg (by simp [hq]), if_neg (by simp [ho]),
          if_neg (by simp [hclose]), if_neg (by simp [hcut])]
  | inside aw q =>
      rcases step_inside hstep with ⟨rfl, rfl⟩ | ⟨hslash, hq, rfl⟩
        | ⟨hslash, hq, rfl⟩
      · rfl
      · simp only [Mode.pieces]
        rw [piecesFrom_inside hslash, if_pos hq]
      · simp only [Mode.pieces]
        rw [piecesFrom_inside hslash, if_neg hq]
  | hidden aw q =>
      obtain rfl := Option.some.inj hstep
      have hhead := hp aw q rfl
      cases piece with
      | nil => simp at hhead
      | cons d piece =>
          obtain rfl : d = '\\' := by simpa using hhead
          exact piecesFrom_hidden

/-- The cutter takes an argument into its piece as a whole. -/
theorem pieces_walk {m m' : Mode} {as : List Char} (rest : List Char)
    (h : argRun m as = some m') (piece : List Char)
    (hp : ∀ aw q, m = hidden aw q → piece.head? = some '\\') :
    m.pieces piece (as ++ rest) = m'.pieces (as.reverse ++ piece) rest := by
  induction as generalizing m piece with
  | nil => obtain rfl := Option.some.inj h; rfl
  | cons a as ih =>
      obtain ⟨m'', hstep, hrest⟩ := Option.bind_eq_some_iff.mp h
      rw [List.cons_append, pieces_step hstep hp, ih hrest]
      · simp only [List.reverse_cons, List.append_assoc, List.singleton_append]
      · rintro aw q rfl
        obtain ⟨-, hstep⟩ := argStep_eq_some hstep
        rw [slash_of_step_hidden hstep]
        rfl

/-- A solid text is one piece. -/
theorem pieces_solid {as : List Char} (h : Solid as) :
    piecesFrom atComma 0 none [] as = [as] := by
  have hw := pieces_walk (m := out []) [] h [] (by simp)
  simp only [List.append_nil, Mode.pieces] at hw
  rw [show ((0 : Int)) = (([] : List Char).length : Int) from rfl, hw,
    piecesFrom_nil, List.reverse_reverse]

/-- A solid text and a comma are cut between them. -/
theorem pieces_solid_comma {as : List Char} (bs : List Char)
    (h : Solid as) : piecesFrom atComma 0 none [] (as ++ ',' :: bs)
      = as :: piecesFrom atComma 0 none [] bs := by
  have hw := pieces_walk (m := out []) (',' :: bs) h [] (by simp)
  simp only [Mode.pieces] at hw
  rw [show ((0 : Int)) = (([] : List Char).length : Int) from rfl, hw,
    piecesFrom_out]
  simp [isQuote, closerOf?, isCloser, atComma]

/-- The pieces of a balanced text are solid. -/
theorem solid_of_mem_pieces : ∀ (n : Nat) {cs : List Char},
    cs.length ≤ n → Balanced cs →
      ∀ p ∈ piecesFrom atComma 0 none [] cs, Solid p := by
  intro n
  induction n with
  | zero =>
      intro cs hn _ p hp
      obtain rfl : cs = [] := List.eq_nil_of_length_eq_zero (by omega)
      obtain rfl : p = [] := by simpa [piecesFrom_nil] using hp
      exact rfl
  | succ n ih =>
      intro cs hn hcs p hp
      rcases argRun_or_comma hcs with h | ⟨as, bs, rfl, has, hbs⟩
      · rw [pieces_solid h] at hp
        obtain rfl : p = cs := by simpa using hp
        exact h
      · rw [pieces_solid_comma bs has] at hp
        rcases List.mem_cons.mp hp with rfl | hp
        · exact has
        · refine ih ?_ hbs p hp
          simp only [List.length_append, List.length_cons] at hn
          omega

-- ========================================================== arguments

theorem splitArguments_eq (cs : List Char) :
    splitArguments cs
      = ((piecesFrom atComma 0 none [] cs).map trim).filter
          (fun a => !a.isEmpty) :=
  rfl

/-- What is cut from any text is tidy. -/
theorem tidy_of_mem_splitArguments {cs a : List Char}
    (h : a ∈ splitArguments cs) : Tidy a := by
  obtain ⟨hmem, hne⟩ := List.mem_filter.mp h
  obtain ⟨p, -, rfl⟩ := List.mem_map.mp hmem
  exact tidy_trim (by simpa using hne)

/-- What is cut from a balanced text are arguments. -/
theorem argument_of_mem_splitArguments {cs a : List Char}
    (hcs : Balanced cs) (h : a ∈ splitArguments cs) : Argument a := by
  refine ⟨tidy_of_mem_splitArguments h, ?_⟩
  obtain ⟨hmem, -⟩ := List.mem_filter.mp h
  obtain ⟨p, hp, rfl⟩ := List.mem_map.mp hmem
  exact (solid_of_mem_pieces _ (le_refl _) hcs p hp).trim

/-- Arguments in a row, as they are written. -/
def row (as : List (List Char)) : List Char := [',', ' '].intercalate as

theorem row_singleton (a : List Char) : row [a] = a :=
  List.intercalate_singleton

theorem row_cons {a : List Char} {more : List (List Char)}
    (h : more ≠ []) : row (a :: more) = a ++ ',' :: ' ' :: row more := by
  rw [row, List.intercalate_cons_of_ne_nil h, List.append_assoc]
  rfl

/-- The writer puts arguments in a row. -/
theorem toList_joinArguments (as : List String) :
    (joinArguments as).toList = row (as.map String.toList) :=
  String.toList_intercalate

theorem blanks_space : Blanks [' '] := by
  intro c hc
  obtain rfl : c = ' ' := by simpa using hc
  decide

/-- A row of arguments is cut into these, whatever white space stands in
front of it. -/
theorem map_trim_pieces_row {as : List (List Char)} (hne : as ≠ [])
    (h : ∀ a ∈ as, Argument a) : ∀ {bs : List Char}, Blanks bs →
      (piecesFrom atComma 0 none [] (bs ++ row as)).map trim = as := by
  induction as with
  | nil => exact absurd rfl hne
  | cons a more ih =>
      intro bs hb
      have ha := h a List.mem_cons_self
      have hsolid : Solid (bs ++ a) := (solid_blanks_append hb).mpr ha.solid
      have htrim : trim (bs ++ a) = a := by
        have := trim_append_of_blanks a hb blanks_nil
        rw [List.append_nil] at this
        rw [this, ha.tidy.trim_eq]
      by_cases hmore : more = []
      · subst hmore
        rw [row_singleton, pieces_solid hsolid, List.map_singleton, htrim]
      · rw [row_cons hmore, ← List.append_assoc,
          pieces_solid_comma _ hsolid, List.map_cons, htrim]
        congr 1
        exact ih hmore (fun b hb => h b (List.mem_cons_of_mem a hb))
          blanks_space

theorem splitArguments_row {as : List (List Char)}
    (h : ∀ a ∈ as, Argument a) : splitArguments (row as) = as := by
  rw [splitArguments_eq]
  by_cases hne : as = []
  · subst hne
    rfl
  · have hmap := map_trim_pieces_row hne h blanks_nil
    rw [List.nil_append] at hmap
    rw [hmap, List.filter_eq_self]
    intro a ha
    have := (h a ha).tidy.ne_nil
    simpa using this

theorem balanced_append {as bs : List Char} (ha : Balanced as)
    (hb : Balanced bs) : Balanced (as ++ bs) := by
  rw [Balanced, run_append, ha]
  exact hb

theorem balanced_row {as : List (List Char)}
    (h : ∀ a ∈ as, Argument a) : Balanced (row as) := by
  induction as with
  | nil => exact rfl
  | cons a more ih =>
      have ha := (h a List.mem_cons_self).solid.balanced
      by_cases hmore : more = []
      · subst hmore
        rw [row_singleton]
        exact ha
      · rw [row_cons hmore]
        have hcomma : Balanced [',', ' '] := rfl
        exact balanced_append ha (balanced_append hcomma
          (ih fun b hb => h b (List.mem_cons_of_mem a hb)))

-- ============================================================ closing

-- What the search does at the front of a text.

section

variable {pos : Nat} {aw cs : List Char} {c q : Char}

theorem closingFrom_nil {q : Option Char} : closingFrom pos aw q [] = none :=
  rfl

theorem closingFrom_out : closingFrom pos aw none (c :: cs)
    = if isQuote c then closingFrom (pos + 1) aw (some c) cs
      else match closerOf? c with
        | some closer => closingFrom (pos + 1) (closer :: aw) none cs
        | none =>
          if isCloser c then
            match aw with
            | [] => none
            | next :: more =>
              if next ≠ c then none
              else if more.isEmpty then some pos
              else closingFrom (pos + 1) more none cs
          else closingFrom (pos + 1) aw none cs := rfl

theorem closingFrom_inside (h : c ≠ '\\') :
    closingFrom pos aw (some q) (c :: cs)
      = closingFrom (pos + 1) aw (if c = q then none else some q) cs := by
  rw [closingFrom.eq_def]
  exact if_neg h

theorem closingFrom_slash : closingFrom pos aw (some q) ['\\'] = none := rfl

theorem closingFrom_hidden :
    closingFrom pos aw (some q) ('\\' :: c :: cs)
      = closingFrom (pos + 2) aw (some q) cs := rfl

end

/-- The place of the closer that a walk looks for: a mode stands for what
the search keeps, and for the backslash that it takes together with the next
character. -/
def Mode.place (pos : Nat) (k : Char) (cs : List Char) :
    Mode → Option Nat
  | out aw => closingFrom pos (aw ++ [k]) none cs
  | inside aw q => closingFrom pos (aw ++ [k]) (some q) cs
  | hidden aw q => closingFrom (pos - 1) (aw ++ [k]) (some q) ('\\' :: cs)

/-- The search goes along with a walk. -/
theorem place_step {m m' : Mode} {c k : Char} {pos : Nat} (cs : List Char)
    (hm : m.step c = some m') (hp : ∀ aw q, m = hidden aw q → 0 < pos) :
    m.place pos k (c :: cs) = m'.place (pos + 1) k cs := by
  cases m with
  | out aw =>
      simp only [Mode.place]
      rw [closingFrom_out]
      rcases step_out hm with ⟨hq, rfl⟩ | ⟨closer, ho, rfl⟩
        | ⟨more, hclose, rfl, rfl⟩ | ⟨hplain, rfl⟩
      · rw [if_pos hq]
      · rw [if_neg (by simp [(closerOf?_eq_some ho).1]), ho]
        rfl
      · obtain ⟨hq, ho⟩ := not_opening_of_isCloser hclose
        rw [if_neg (by simp [hq]), ho]
        simp [hclose]
      · obtain ⟨hq, ho, hclose⟩ := isPlain_iff.mp hplain
        rw [if_neg (by simp [hq]), ho]
        simp [hclose]
  | inside aw q =>
      rcases step_inside hm with ⟨rfl, rfl⟩ | ⟨hslash, hq, rfl⟩
        | ⟨hslash, hq, rfl⟩
      · rfl
      · simp only [Mode.place]
        rw [closingFrom_inside hslash, if_pos hq]
      · simp only [Mode.place]
        rw [closingFrom_inside hslash, if_neg hq]
  | hidden aw q =>
      obtain rfl := Option.some.inj hm
      have := hp aw q rfl
      simp only [Mode.place]
      rw [closingFrom_hidden, show pos - 1 + 2 = pos + 1 by omega]

theorem place_walk {m m' : Mode} {as : List Char} {k : Char} {pos : Nat}
    (rest : List Char) (h : run m as = some m')
    (hp : ∀ aw q, m = hidden aw q → 0 < pos) :
    m.place pos k (as ++ rest) = m'.place (pos + as.length) k rest := by
  induction as generalizing m pos with
  | nil => obtain rfl := Option.some.inj h; rfl
  | cons a as ih =>
      obtain ⟨m'', hstep, hrest⟩ := Option.bind_eq_some_iff.mp h
      rw [List.cons_append, place_step (as ++ rest) hstep hp,
        ih hrest (fun _ _ _ => Nat.succ_pos pos), List.length_cons]
      congr 1
      omega

/-- Where the search succeeds, a walk leads up to the closer. -/
theorem exists_walk_of_place {k : Char} :
    ∀ {cs : List Char} {m : Mode} {pos n : Nat},
      (∀ aw q, m = hidden aw q → 0 < pos) → m.place pos k cs = some n →
      ∃ as rest, cs = as ++ k :: rest ∧ n = pos + as.length
        ∧ run m as = some (out []) := by
  intro cs
  induction cs with
  | nil =>
      intro m pos n hp h
      cases m <;>
        simp [Mode.place, closingFrom_nil, closingFrom_slash] at h
  | cons c cs ih =>
      intro m pos n hp h
      cases hm : m.step c with
      | some m' =>
          rw [place_step cs hm hp] at h
          obtain ⟨as, rest, rfl, rfl, hrun⟩ :=
            ih (fun _ _ _ => Nat.succ_pos pos) h
          refine ⟨c :: as, rest, rfl, ?_, ?_⟩
          · simp only [List.length_cons]
            omega
          · rw [run, hm]
            exact hrun
      | none =>
          -- The search goes on at a closer only if it is the one it looks
          -- for, and nothing else is awaited.
          obtain ⟨aw, rfl, hclose, hhead⟩ := step_eq_none hm
          obtain ⟨hq, ho⟩ := not_opening_of_isCloser hclose
          simp only [Mode.place] at h
          rw [closingFrom_out, if_neg (by simp [hq]), ho] at h
          simp only [hclose, if_true] at h
          cases aw with
          | nil =>
              simp only [List.nil_append] at h
              split at h
              · cases h
              · next hk =>
                obtain rfl : k = c := by simpa using hk
                obtain rfl : pos = n := by simpa using h
                exact ⟨[], cs, rfl, rfl, rfl⟩
          | cons next more =>
              have hnext : next ≠ c := by simpa using hhead
              simp [hnext] at h

/-- A bracket is closed behind a balanced text. -/
theorem closing?_opened {o k : Char} {cs : List Char} {n : Nat}
    (ho : closerOf? o = some k) :
    closing? (o :: cs) = some n
      ↔ ∃ as rest, cs = as ++ k :: rest ∧ n = as.length + 1
          ∧ Balanced as := by
  obtain ⟨hoq, hkq, hkopen, hkclose⟩ := closerOf?_eq_some ho
  have hplace : closing? (o :: cs) = (out []).place 1 k cs := by
    rw [closing?, closingFrom_out, if_neg (by simp [hoq]), ho]
    rfl
  rw [hplace]
  constructor
  · intro h
    obtain ⟨as, rest, rfl, rfl, hrun⟩ := exists_walk_of_place (by simp) h
    exact ⟨as, rest, rfl, Nat.add_comm 1 _, hrun⟩
  · rintro ⟨as, rest, rfl, rfl, hrun⟩
    rw [place_walk (m := out []) (k :: rest) hrun (by simp),
      Nat.add_comm 1]
    simp [Mode.place, closingFrom_out, hkq, hkopen, hkclose]

/-- A parenthesis is closed behind a balanced text. -/
theorem closing?_paren_eq_some {cs : List Char} {n : Nat} :
    closing? ('(' :: cs) = some n
      ↔ ∃ as rest, cs = as ++ ')' :: rest ∧ n = as.length + 1
          ∧ Balanced as :=
  closing?_opened (by decide)

/-- An argument list is a balanced text in parentheses. -/
theorem balancedArguments?_paren {cs : List Char}
    {as : List (List Char)} :
    balancedArguments? ('(' :: cs) = some as
      ↔ ∃ inner, cs = inner ++ [')'] ∧ Balanced inner
          ∧ splitArguments inner = as := by
  rw [balancedArguments?, if_neg (by simp)]
  constructor
  · intro h
    split at h
    · next hclose =>
      obtain ⟨inner, rest, rfl, hn, hbal⟩ :=
        closing?_paren_eq_some.mp hclose
      have hrest : rest = [] := by
        refine List.eq_nil_of_length_eq_zero ?_
        simp only [List.length_cons, List.length_append] at hn
        omega
      subst hrest
      refine ⟨inner, rfl, hbal, ?_⟩
      simpa using h
    · cases h
  · rintro ⟨inner, rfl, hbal, rfl⟩
    rw [if_pos]
    · simp
    · refine closing?_paren_eq_some.mpr ⟨inner, [], rfl, ?_, hbal⟩
      simp

/-- Arguments in a row and in parentheses are read as these arguments. -/
theorem balancedArguments?_row {as : List (List Char)}
    (h : ∀ a ∈ as, Argument a) :
    balancedArguments? ('(' :: (row as ++ [')'])) = some as :=
  balancedArguments?_paren.mpr
    ⟨row as, rfl, balanced_row h, splitArguments_row h⟩

/-- A text that is read as one argument, itself, is one. -/
theorem argument_of_balancedArguments? {a : List Char}
    (h : balancedArguments? ('(' :: (a ++ [')'])) = some [a]) :
    Argument a := by
  obtain ⟨inner, he, hbal, hsplit⟩ := balancedArguments?_paren.mp h
  obtain rfl : a = inner := List.append_cancel_right he
  exact argument_of_mem_splitArguments hbal (by rw [hsplit]; simp)

-- ==================================================== split and joined

/-- A text that is read as these arguments once it stands in parentheses. -/
def ReadsAs (cs : List Char) (as : List (List Char)) : Prop :=
  balancedArguments? ('(' :: (cs ++ [')'])) = some as

/-- The text of arguments that the writer joined. -/
def joinedArguments (as : List (List Char)) : List Char :=
  (joinArguments (as.map String.ofList)).toList

theorem joinedArguments_eq (as : List (List Char)) :
    joinedArguments as = row as := by
  have hback : String.toList ∘ String.ofList = id := funext fun cs => by simp
  rw [joinedArguments, toList_joinArguments, List.map_map, hback, List.map_id]

/-- What is read as itself is an argument, and the other way round. -/
theorem readsAs_self {a : List Char} : ReadsAs a [a] ↔ Argument a := by
  constructor
  · exact argument_of_balancedArguments?
  · intro ha
    have hrow := @balancedArguments?_row [a] (by simpa using ha)
    rwa [row_singleton] at hrow

/-- The parts of a text in parentheses are arguments. -/
theorem ReadsAs.argument {cs : List Char} {as : List (List Char)}
    (h : ReadsAs cs as) : ∀ a ∈ as, Argument a := by
  obtain ⟨inner, he, hbal, rfl⟩ := balancedArguments?_paren.mp h
  obtain rfl : cs = inner := List.append_cancel_right he
  exact fun a ha => argument_of_mem_splitArguments hbal ha

/-- Arguments that are joined are read as these. -/
theorem readsAs_joinedArguments {as : List (List Char)}
    (h : ∀ a ∈ as, Argument a) : ReadsAs (joinedArguments as) as := by
  rw [joinedArguments_eq]
  exact balancedArguments?_row h

/-- Reading and joining agree on what an argument is: what a text was read as
is read again from its parts joined, each part is read as itself, and whatever
parts are read as themselves are read again when they are joined. -/
theorem arguments_stable :
    (∀ (t : List Char) (as : List (List Char)), ReadsAs t as →
      ReadsAs (joinedArguments as) as ∧ ∀ a ∈ as, ReadsAs a [a])
      ∧ ∀ as : List (List Char), (∀ a ∈ as, ReadsAs a [a]) →
        ReadsAs (joinedArguments as) as := by
  constructor
  · intro t as h
    exact ⟨readsAs_joinedArguments h.argument,
      fun a ha => readsAs_self.mpr (h.argument a ha)⟩
  · intro as h
    exact readsAs_joinedArguments fun a ha => readsAs_self.mp (h a ha)

/-- A comma and a bracket in a literal, a comma in brackets, and an argument
that is not there. -/
theorem arguments_stable_nested :
    ReadsAs "x=\"a,(\", [b,(c)] ,, '\\''".toList
        ["x=\"a,(\"".toList, "[b,(c)]".toList, "'\\''".toList]
      ∧ ReadsAs (joinedArguments
          ["x=\"a,(\"".toList, "[b,(c)]".toList, "'\\''".toList])
        ["x=\"a,(\"".toList, "[b,(c)]".toList, "'\\''".toList]
      ∧ ReadsAs "[b,(c)]".toList ["[b,(c)]".toList] := by
  have hread : ReadsAs "x=\"a,(\", [b,(c)] ,, '\\''".toList
      ["x=\"a,(\"".toList, "[b,(c)]".toList, "'\\''".toList] := by
    unfold ReadsAs
    decide +kernel
  have hagain := arguments_stable.1 _ _ hread
  exact ⟨hread, hagain.1, hagain.2 _ (by simp)⟩

end NovelScript.Text
