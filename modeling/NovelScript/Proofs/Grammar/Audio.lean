/-
The clauses of a sound. The rule goes through the words behind the file, one or
two at a time, with a record of what it has read, and gives up at a kind that
the record holds already. Said without it: the words are those of a row of
clauses in any order, no two of one kind, and the record holds what the clauses
say and nothing else.

# One step

All of this comes from one step. In front of a clause the rule gives up if the
kind is taken, and otherwise goes on with the clause noted
(`audioOptionsFrom_clause`); in front of anything else it gives up
(`exists_clause`). So it reads a row of clauses by noting them one after the
other (`audioOptionsFrom_clauses`), and it reads nothing but such rows
(`exists_clauses`).

# Kinds and values

A clause is told by its kind and says a value of it. That a sound is repeated
and that it is not are two values of one kind, so a row cannot say both. The
record holds at most one value of each kind, which is all that is used of it
(`value?`, `value?_note`). What a row says (`Says`) is a statement about its
members, so their order is forgotten as soon as the record is known by what it
says.
-/
import NovelScript.Grammar.Audio
import Mathlib.Data.List.Nodup

namespace NovelScript

open Grammar

-- ============================================================ clauses

/-- What a clause can measure. -/
inductive AudioMeasure where
  /-- The seconds of fading in. -/
  | fadeIn
  /-- The seconds of fading out what played before. -/
  | fadeOut
  /-- The relative volume. -/
  | volume
deriving DecidableEq, Repr

/-- The word in front of a measure. -/
def AudioMeasure.word : AudioMeasure → String
  | fadeIn => "fadein"
  | fadeOut => "fadeout"
  | volume => "volume"

/-- A word that is a numeral, with the number that is read from it. -/
structure NumberWord where
  /-- The word. -/
  word : List Char
  /-- The number. -/
  number : Number
  /-- The word is a numeral. -/
  isNumeral : Number.isNumeral word = true
  /-- The number is read from it. -/
  read : Number.read? word = some number

/-- One clause. -/
inductive AudioClause where
  /-- A measure and its numeral. -/
  | measure (m : AudioMeasure) (n : NumberWord)
  /-- The sound is repeated, or is not. -/
  | loop (on : Bool)
  /-- A sound that already plays goes on. -/
  | ifChanged

/-- The kinds of clauses. Saying that a sound is repeated and saying that it
is not are of one kind. -/
inductive AudioKind where
  /-- A measure. -/
  | measure (m : AudioMeasure)
  /-- Whether the sound is repeated. -/
  | loop
  /-- Whether a sound that already plays goes on. -/
  | ifChanged
deriving DecidableEq, Repr

/-- What a clause says of its kind. -/
inductive AudioValue where
  /-- A number. -/
  | number (n : Number)
  /-- Yes or no. -/
  | flag (b : Bool)
deriving DecidableEq, Repr

namespace AudioClause

/-- The words of a clause. -/
def words : AudioClause → List (List Char)
  | measure m n => [m.word.toList, n.word]
  | loop on => [(if on then "loop" else "noloop").toList]
  | ifChanged => ["if_changed".toList]

/-- The kind of a clause. -/
def kind : AudioClause → AudioKind
  | measure m _ => .measure m
  | loop _ => .loop
  | ifChanged => .ifChanged

/-- What a clause says of its kind. -/
def value : AudioClause → AudioValue
  | measure _ n => .number n.number
  | loop on => .flag on
  | ifChanged => .flag true

theorem length_words_pos (c : AudioClause) : 0 < c.words.length := by
  cases c <;> exact Nat.succ_pos _

end AudioClause

/-- A numeral stands for a number. -/
theorem NumberWord.exists_of_isNumeral {cs : List Char}
    (h : Number.isNumeral cs = true) : ∃ n : NumberWord, n.word = cs := by
  obtain ⟨k, hk⟩ := Option.isSome_iff_exists.mp h
  exact ⟨⟨cs, k.toNumber, h, by rw [Number.read?, hk]⟩, rfl⟩

-- ========================================================== the record

namespace AudioOptions

/-- What the record holds of a kind, as a value that a clause may say. Two kinds
are flags and three are numbers. -/
def value? (o : AudioOptions) : AudioKind → Option AudioValue
  | .measure .fadeIn => o.fadeIn.map .number
  | .measure .fadeOut => o.fadeOut.map .number
  | .measure .volume => o.volume.map .number
  | .loop => o.loop.map .flag
  | .ifChanged => o.ifChanged.map .flag

/-- The record with one clause more. -/
def note (o : AudioOptions) : AudioClause → AudioOptions
  | .measure .fadeIn n => { o with fadeIn := some n.number }
  | .measure .fadeOut n => { o with fadeOut := some n.number }
  | .measure .volume n => { o with volume := some n.number }
  | .loop on => { o with loop := some on }
  | .ifChanged => { o with ifChanged := some true }

/-- The clauses can be noted: they are of different kinds, and none of the
kinds is taken. -/
def Fits (o : AudioOptions) (cs : List AudioClause) : Prop :=
  (cs.map AudioClause.kind).Nodup ∧ ∀ c ∈ cs, o.value? c.kind = none

/-- The record holds what the clauses say, each of its kind, and nothing
else. -/
structure Says (o : AudioOptions) (cs : List AudioClause) : Prop where
  /-- What is held of a kind is what a clause of the kind says. -/
  value? : ∀ k v, o.value? k = some v ↔ ∃ c ∈ cs, c.kind = k ∧ c.value = v
  /-- No clause says whether the sound waits. -/
  queue : o.queue = none

theorem value?_empty (k : AudioKind) : ({} : AudioOptions).value? k = none := by
  rcases k with (_ | _ | _) | _ | _ <;> rfl

/-- A note changes what is held of the kind of the clause and of no other. -/
theorem value?_note (o : AudioOptions) (c : AudioClause) (k : AudioKind) :
    (o.note c).value? k = if c.kind = k then some c.value else o.value? k := by
  rcases c with ⟨_ | _ | _, n⟩ | on | _ <;>
    rcases k with (_ | _ | _) | _ | _ <;> rfl

theorem value?_note_eq_none {o : AudioOptions} {c : AudioClause}
    {k : AudioKind} :
    (o.note c).value? k = none ↔ c.kind ≠ k ∧ o.value? k = none := by
  rw [value?_note]
  split
  · next hk => simp [hk]
  · next hk => simp [hk]

theorem queue_note (o : AudioOptions) (c : AudioClause) :
    (o.note c).queue = o.queue := by
  rcases c with ⟨_ | _ | _, n⟩ | on | _ <;> rfl

/-- A record is known by what it holds of each kind. -/
theorem eq_of_value? {o o' : AudioOptions} (h : ∀ k, o.value? k = o'.value? k)
    (hq : o.queue = o'.queue) : o = o' := by
  have hnumber : Function.Injective AudioValue.number :=
    fun _ _ h => AudioValue.number.inj h
  have hflag : Function.Injective AudioValue.flag :=
    fun _ _ h => AudioValue.flag.inj h
  have hin := Option.map_injective hnumber (h (.measure .fadeIn))
  have hout := Option.map_injective hnumber (h (.measure .fadeOut))
  have hvolume := Option.map_injective hnumber (h (.measure .volume))
  have hloop := Option.map_injective hflag (h .loop)
  have hchanged := Option.map_injective hflag (h .ifChanged)
  cases o
  cases o'
  cases hin
  cases hout
  cases hvolume
  cases hloop
  cases hchanged
  cases hq
  rfl

theorem fits_empty {cs : List AudioClause} :
    ({} : AudioOptions).Fits cs ↔ (cs.map AudioClause.kind).Nodup :=
  ⟨And.left, fun h => ⟨h, fun c _ => value?_empty c.kind⟩⟩

/-- Clauses can be noted if the first can, and then the others. -/
theorem fits_cons {o : AudioOptions} {c : AudioClause}
    {cs : List AudioClause} :
    o.Fits (c :: cs) ↔ o.value? c.kind = none ∧ (o.note c).Fits cs := by
  have hnoted : (∀ d ∈ cs, (o.note c).value? d.kind = none)
      ↔ c.kind ∉ cs.map AudioClause.kind
        ∧ ∀ d ∈ cs, o.value? d.kind = none := by
    simp only [value?_note_eq_none, forall_and, List.mem_map, not_exists,
      not_and, ne_comm]
  rw [Fits, Fits, hnoted, List.map_cons, List.nodup_cons,
    List.forall_mem_cons]
  tauto

/-- After clauses are noted the record holds what they say, beside what it
held before. -/
theorem value?_foldl_note {o : AudioOptions} {cs : List AudioClause}
    (h : o.Fits cs) {k : AudioKind} {v : AudioValue} :
    (cs.foldl note o).value? k = some v
      ↔ o.value? k = some v ∨ ∃ c ∈ cs, c.kind = k ∧ c.value = v := by
  induction cs generalizing o with
  | nil => simp
  | cons c cs ih =>
      obtain ⟨hfree, hfits⟩ := fits_cons.mp h
      rw [List.foldl_cons, ih hfits, value?_note]
      by_cases hk : c.kind = k
      · have hnone : o.value? k = none := hk ▸ hfree
        simp [hk, hnone]
      · simp [hk]

theorem queue_foldl_note (cs : List AudioClause) (o : AudioOptions) :
    (cs.foldl note o).queue = o.queue := by
  induction cs generalizing o with
  | nil => rfl
  | cons c cs ih => rw [List.foldl_cons, ih, queue_note]

/-- Of clauses of different kinds there is one record that says them: the one
that has noted them. -/
theorem says_iff {o : AudioOptions} {cs : List AudioClause}
    (h : (cs.map AudioClause.kind).Nodup) :
    o.Says cs ↔ cs.foldl note {} = o := by
  have hnoted : (cs.foldl note {}).Says cs := by
    refine ⟨fun k v => ?_, queue_foldl_note cs {}⟩
    rw [value?_foldl_note (fits_empty.mpr h), value?_empty]
    simp
  constructor
  · intro ho
    refine eq_of_value? (fun k => Option.ext fun v => ?_)
      (hnoted.queue.trans ho.queue.symm)
    exact (hnoted.value? k v).trans (ho.value? k v).symm
  · rintro rfl
    exact hnoted

/-- What clauses say does not depend on their order. -/
theorem Says.perm {o : AudioOptions} {cs cs' : List AudioClause}
    (h : o.Says cs) (hperm : cs.Perm cs') : o.Says cs' := by
  refine ⟨fun k v => (h.value? k v).trans ?_, h.queue⟩
  simp only [hperm.mem_iff]

end AudioOptions

-- ============================================================ the step

namespace Grammar

/-- In front of a clause, the rule gives up if the kind is taken and
otherwise notes the clause. -/
theorem audioOptionsFrom_clause (o : AudioOptions) (c : AudioClause)
    (rest : List (List Char)) :
    audioOptionsFrom o (c.words ++ rest)
      = if (o.value? c.kind).isSome then none
        else audioOptionsFrom (o.note c) rest := by
  cases c with
  | measure m n =>
      have hnumeral := n.isNumeral
      have hread := n.read
      cases m <;>
        simp [AudioClause.words, AudioMeasure.word, audioOptionsFrom,
          hnumeral, hread, AudioOptions.value?, AudioClause.kind,
          AudioOptions.note]
  | loop on =>
      rw [audioOptionsFrom.eq_def]
      cases on <;>
        simp [AudioClause.words, AudioOptions.value?, AudioClause.kind,
          AudioOptions.note]
  | ifChanged =>
      rw [audioOptionsFrom.eq_def]
      simp [AudioClause.words, AudioOptions.value?, AudioClause.kind,
        AudioOptions.note]

/-- What the rule reads begins with a clause. The first word tells its kind, and
the rule would have given up at a word that begins none. -/
theorem exists_clause {o o' : AudioOptions} {word : List Char}
    {more : List (List Char)}
    (h : audioOptionsFrom o (word :: more) = some o') :
    ∃ (c : AudioClause) (rest : List (List Char)),
      word :: more = c.words ++ rest := by
  rw [audioOptionsFrom.eq_def] at h
  simp only at h
  split at h
  · next hword =>
    -- One of the three measures, with its numeral.
    obtain ⟨m, hm⟩ : ∃ m : AudioMeasure, m.word = String.ofList word := by
      rcases hword with h | h | h
      · exact ⟨.fadeIn, h.symm⟩
      · exact ⟨.fadeOut, h.symm⟩
      · exact ⟨.volume, h.symm⟩
    cases more with
    | nil => cases h
    | cons number more =>
        simp only at h
        split at h
        · cases h
        · next hnumeral =>
          obtain ⟨n, rfl⟩ :=
            NumberWord.exists_of_isNumeral (by simpa using hnumeral)
          refine ⟨.measure m n, more, ?_⟩
          rw [AudioClause.words, hm, String.toList_ofList]
          rfl
  · split at h
    · next hword =>
      obtain ⟨on, hon⟩ : ∃ on : Bool,
          (if on then "loop" else "noloop") = String.ofList word := by
        rcases hword with h | h
        · exact ⟨true, h.symm⟩
        · exact ⟨false, h.symm⟩
      refine ⟨.loop on, more, ?_⟩
      rw [AudioClause.words, hon, String.toList_ofList]
      rfl
    · split at h
      · next hword =>
        refine ⟨.ifChanged, more, ?_⟩
        rw [AudioClause.words, ← hword, String.toList_ofList]
        rfl
      · cases h

-- ============================================================= the run

/-- A row of clauses is read if they can be noted, and each is, in order. That
the order does not matter follows from what a record holds of them. -/
theorem audioOptionsFrom_clauses {o o' : AudioOptions}
    {cs : List AudioClause} :
    audioOptionsFrom o (cs.flatMap AudioClause.words) = some o'
      ↔ o.Fits cs ∧ cs.foldl AudioOptions.note o = o' := by
  induction cs generalizing o with
  | nil => simp [audioOptionsFrom, AudioOptions.Fits]
  | cons c cs ih =>
      rw [List.flatMap_cons, audioOptionsFrom_clause,
        AudioOptions.fits_cons, List.foldl_cons]
      split
      · next htaken =>
        constructor
        · intro h
          cases h
        · rintro ⟨⟨hfree, -⟩, -⟩
          rw [hfree] at htaken
          cases htaken
      · next hfree =>
        have hfree : o.value? c.kind = none := by simpa using hfree
        rw [ih, and_iff_right hfree]

/-- What the rule reads is a row of clauses. -/
theorem exists_clauses {o o' : AudioOptions} {ws : List (List Char)}
    (h : audioOptionsFrom o ws = some o') :
    ∃ cs : List AudioClause, ws = cs.flatMap AudioClause.words := by
  induction hn : ws.length using Nat.strongRecOn generalizing o ws with
  | ind n ih =>
      cases ws with
      | nil => exact ⟨[], rfl⟩
      | cons word more =>
          obtain ⟨c, rest, hwords⟩ := exists_clause h
          rw [hwords, audioOptionsFrom_clause] at h
          split at h
          · cases h
          · have hlt : rest.length < n := by
              rw [← hn, hwords, List.length_append]
              have := c.length_words_pos
              omega
            obtain ⟨cs, rfl⟩ := ih _ hlt h rfl
            exact ⟨c :: cs, by rw [hwords, List.flatMap_cons]⟩

/-- Clauses in any order are read if they are of different kinds, and give
the record that says what they say. -/
theorem audioOptions?_clauses {text : List Char} {cs : List AudioClause}
    (h : Text.fields text = cs.flatMap AudioClause.words) {o : AudioOptions} :
    audioOptions? text = some o
      ↔ (cs.map AudioClause.kind).Nodup ∧ o.Says cs := by
  rw [audioOptions?, h, audioOptionsFrom_clauses, AudioOptions.fits_empty]
  exact and_congr_right fun hnodup => (AudioOptions.says_iff hnodup).symm

end Grammar

end NovelScript
