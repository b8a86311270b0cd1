/-
How long the integers of a line are. The bound on the digits of an integer is
looked for beside the rules of lines (`lineExcess?`): it follows each rule up to
the numerals that the rule takes. So a line in which nothing is found gives a
simple statement whose integers are all short (`short_lineKind`).

An integer of so many digits, in whatever script, is below that power of ten.
Four rules take numerals, and of each the statement is put together from the
numerals that the bound was looked for in: a pause and an end of a sound have
one, a change of the picture may have one among its clauses, and the options of
a sound have those of its clauses. The other rules take none, whatever they
read, and that is a matter of the form of their results alone (`Numberless`).
-/
import NovelScript.Proofs.Draft.Audio
import NovelScript.Proofs.Draft.Phrases
import NovelScript.Proofs.Grammar.Spoken
import Mathlib.Data.List.Induction

namespace NovelScript

open Grammar Text

-- ================================================================ numerals

theorem Text.digit?_lt {c : Char} {d : Nat} (h : digit? c = some d) : d < 10 := by
  unfold digit? at h
  generalize digitZeros = zeros at h
  induction zeros with
  | nil => cases h
  | cons z more ih =>
      rw [digitIn] at h
      split at h
      · cases h
      · split at h
        · obtain rfl := Option.some.inj h
          omega
        · exact ih h

/-- A row of digits stands for a number below the power of ten of its
length. -/
theorem Text.digitsValue_lt (cs : List Char) :
    digitsValue cs < 10 ^ cs.length := by
  induction cs using List.reverseRecOn with
  | nil => exact Nat.one_pos
  | append_singleton cs c ih =>
      rw [digitsValue, List.foldl_append, List.length_append,
        List.length_singleton, Nat.pow_succ]
      rw [digitsValue] at ih
      simp only [List.foldl_cons, List.foldl_nil]
      split
      · next d hd =>
        have := digit?_lt hd
        omega
      · omega

/-- A number that is no integer of too many digits. -/
def Number.IsShort (n : Number) : Prop :=
  ∀ i, n = .int i → i.natAbs < 10 ^ Excess.mostDigits

/-- A simple statement none of whose integers has too many digits. -/
def Simple.IsShort (s : Simple) : Prop :=
  ∀ i ∈ s.integers, i.natAbs < 10 ^ Excess.mostDigits

theorem Number.mem_integersOf {ns : List (Option Number)} {i : Int} :
    i ∈ integersOf ns ↔ some (.int i) ∈ ns := by
  rw [integersOf, List.mem_filterMap]
  constructor
  · rintro ⟨n, hn, hi⟩
    split at hi
    · obtain rfl := Option.some.inj hi
      exact hn
    · cases hi
  · exact fun h => ⟨_, h, rfl⟩

/-- The integers among short numbers are short. -/
theorem Number.short_integersOf {ns : List (Option Number)}
    (h : ∀ o ∈ ns, ∀ n ∈ o, n.IsShort) :
    ∀ i ∈ integersOf ns, i.natAbs < 10 ^ Excess.mostDigits :=
  fun i hi => h _ (mem_integersOf.mp hi) _ rfl i rfl

theorem Numeral.isShort_toNumber {n : Numeral} (h : n.excess? = none) :
    n.toNumber.IsShort := by
  intro i hi
  unfold Numeral.toNumber at hi
  unfold Numeral.excess? at h
  split at hi
  · next hinteger =>
    have hlength : n.whole.length ≤ Excess.mostDigits := by
      rw [if_pos hinteger, Excess.ofDigits?] at h
      split at h
      · cases h
      · next hle => exact Nat.not_lt.mp hle
    have habs : i.natAbs = digitsValue n.whole := by
      obtain rfl := Number.int.inj hi
      split <;> simp
    rw [habs]
    exact (digitsValue_lt _).trans_le (Nat.pow_le_pow_right (by decide) hlength)
  · cases hi

/-- A numeral within the bound, if there is one. -/
theorem Numeral.isShort_map {n : Option Numeral}
    (h : n.bind Numeral.excess? = none) :
    ∀ k ∈ n.map Numeral.toNumber, k.IsShort := by
  intro k hk
  obtain ⟨m, rfl, rfl⟩ := Option.map_eq_some_iff.mp hk
  exact isShort_toNumber h

theorem NumberWord.isShort {n : NumberWord} (h : numeralExcess? n.word = none) :
    n.number.IsShort := by
  obtain ⟨m, hm⟩ := Option.isSome_iff_exists.mp n.isNumeral
  have hread := n.read
  rw [Number.read?, hm] at hread
  rw [numeralExcess?, hm, Option.bind_some] at h
  have hnumber : m.toNumber = n.number := Option.some.inj hread
  exact hnumber ▸ Numeral.isShort_toNumber h

namespace Grammar

variable {cs : List Char} {s : Simple}

-- ======================================================= rules with numerals

theorem short_pause? (h : pause? cs = some s)
    (hexcess : ((pauseParts? cs).bind fun n => n.bind Numeral.excess?) = none) :
    s.IsShort := by
  rw [pause?, Option.map_eq_some_iff] at h
  obtain ⟨n, hn, rfl⟩ := h
  rw [hn, Option.bind_some] at hexcess
  refine Number.short_integersOf fun o ho => ?_
  obtain rfl := List.mem_singleton.mp ho
  exact Numeral.isShort_map hexcess

theorem short_stop? (h : stop? cs = some s)
    (hexcess : ((stopParts? cs).bind fun (_, n) => n.bind Numeral.excess?)
      = none) : s.IsShort := by
  rw [stop?, Option.map_eq_some_iff] at h
  obtain ⟨⟨channel, n⟩, hn, rfl⟩ := h
  rw [hn, Option.bind_some] at hexcess
  refine Number.short_integersOf fun o ho => ?_
  obtain rfl := List.mem_singleton.mp ho
  exact Numeral.isShort_map hexcess

/-- What clauses say is short if their numerals are. -/
theorem short_audioOptions? {text : List Char} {o : AudioOptions}
    (h : audioOptions? text = some o) (hexcess : audioExcess? text = none) :
    ∀ n ∈ [o.fadeIn, o.fadeOut, o.volume], ∀ k ∈ n, k.IsShort := by
  obtain ⟨cs, hfields⟩ := exists_clauses h
  obtain ⟨hnodup, hsaid⟩ := (audioOptions?_clauses hfields).mp h
  have hclauses := (audioExcess?_eq_none hfields hnodup).mp hexcess
  have hvalue : ∀ (m : AudioMeasure) (k : Number),
      o.value? (.measure m) = some (.number k) → k.IsShort := by
    intro m k hk
    obtain ⟨c, hc, hkind, hvalue⟩ := (hsaid.value? _ _).mp hk
    cases c with
    | measure m' n =>
        obtain rfl := AudioValue.number.inj hvalue
        exact NumberWord.isShort (hclauses _ hc)
    | loop on => cases hkind
    | ifChanged => cases hkind
  simp only [List.forall_mem_cons]
  exact ⟨fun k hk => hvalue .fadeIn k (Option.map_eq_some_iff.mpr ⟨k, hk, rfl⟩),
    fun k hk => hvalue .fadeOut k (Option.map_eq_some_iff.mpr ⟨k, hk, rfl⟩),
    fun k hk => hvalue .volume k (Option.map_eq_some_iff.mpr ⟨k, hk, rfl⟩),
    fun n hn => absurd hn List.not_mem_nil⟩

theorem short_play? {queue : Bool} (h : play? queue cs = some s)
    (hexcess : ((sound? queue cs).bind fun (_, _, rest) => audioExcess? rest)
      = none) : s.IsShort := by
  simp only [play?, Option.bind_eq_bind, Option.bind_eq_some_iff, Prod.exists,
    Option.some.injEq] at h
  obtain ⟨channel, file, rest, hsound, o, ho, rfl⟩ := h
  rw [hsound, Option.bind_some] at hexcess
  have hshort := short_audioOptions? ho hexcess
  exact Number.short_integersOf hshort

theorem short_display? {verb : DisplayVerb} (h : display? verb cs = some s)
    (hexcess : displayExcess? verb cs = none) : s.IsShort := by
  simp only [display?, displayOptions?, Option.bind_eq_bind,
    Option.bind_eq_some_iff, Prod.exists, Option.some.injEq] at h
  obtain ⟨image, ws, hwords, o, ⟨clauses, hclauses, zorder, hzorder, rfl⟩,
    rfl⟩ := h
  simp only [displayExcess?, Option.bind_eq_bind, hwords, Option.bind_some,
    hclauses] at hexcess
  intro i hi
  obtain rfl := Option.mem_toList.mp hi
  rw [zorder?] at hzorder
  cases hlookup : clauses.lookup "zorder" with
  | none =>
      rw [hlookup] at hzorder
      cases hzorder
  | some word =>
      rw [hlookup] at hzorder hexcess
      obtain ⟨j, hj, hsame⟩ := Option.map_eq_some_iff.mp hzorder
      obtain rfl := Option.some.inj hsame
      unfold integer? at hj
      split at hj
      · next n hn =>
        rw [Option.bind_some, numeralExcess?, hn, Option.bind_some] at hexcess
        split at hj
        · next hnumber =>
          obtain rfl := Option.some.inj hj
          exact Numeral.isShort_toNumber hexcess _ hnumber
        · cases hj
      · cases hj

-- ==================================================== rules without numerals

/-- A rule whose statement, if there is one, has no integers. Such a rule has
nothing to do with the bound on digits. -/
def Numberless (r : Option Simple) : Prop := ∀ s ∈ r, s.integers = []

namespace Numberless

theorem none : Numberless Option.none := fun s hs => by
  cases hs

theorem some (h : s.integers = []) : Numberless (Option.some s) := fun _ hs => by
  obtain rfl := Option.some.inj hs
  exact h

theorem bind {α : Type} {r : Option α} {f : α → Option Simple}
    (h : ∀ a, Numberless (f a)) : Numberless (r >>= f) := fun s hs => by
  obtain ⟨a, -, hs⟩ := Option.bind_eq_some_iff.mp hs
  exact h a s hs

theorem map {α : Type} {r : Option α} {f : α → Simple}
    (h : ∀ a, (f a).integers = []) : Numberless (r.map f) := fun s hs => by
  obtain ⟨a, -, rfl⟩ := Option.map_eq_some_iff.mp hs
  exact h a

theorem short {r : Option Simple} (h : Numberless r) (hs : r = Option.some s) :
    s.IsShort := fun i hi => by
  rw [h s hs] at hi
  cases hi

end Numberless

theorem numberless_transition? : Numberless (transition? cs) := .map fun _ => rfl

theorem numberless_jump? : Numberless (jump? cs) := by
  refine .bind fun rest => ?_
  split
  · exact .some rfl
  · split
    · exact .some rfl
    · exact .none

theorem numberless_call? : Numberless (call? cs) := by
  refine .bind fun rest => ?_
  split
  · unfold callExpression?
    simp only
    split
    · exact .map fun _ => rfl
    · exact .some rfl
  · exact .bind fun _ => .bind fun _ => .some rfl

theorem numberless_giveBack? : Numberless (giveBack? cs) := by
  refine .bind fun rest => ?_
  split
  · exact .some rfl
  · exact .bind fun _ => .some rfl

theorem numberless_dollar? : Numberless (dollar? cs) := by
  unfold dollar?
  split
  · exact .none
  · split
    · exact .some rfl
    · exact .some rfl

theorem numberless_define? : Numberless (define? cs) := by
  unfold define?
  repeat refine .bind fun _ => ?_
  exact .some rfl

theorem numberless_default? : Numberless (default? cs) := by
  unfold default?
  repeat refine .bind fun _ => ?_
  exact .some rfl

theorem numberless_voice? : Numberless (voice? cs) := by
  refine .bind fun rest => ?_
  split
  · exact .map fun _ => rfl
  · exact .none

theorem numberless_nvl? : Numberless (nvl? cs) := by
  refine .bind fun rest => ?_
  simp only
  split
  · exact .some rfl
  · exact .none

theorem numberless_sayFrom? {speaker : Option String}
    {attributes : List (List Char)} {extend : Option Bool} :
    Numberless (sayFrom? speaker attributes extend cs) :=
  .bind fun _ => .bind fun _ => .bind fun _ => .some rfl

theorem numberless_say? : Numberless (say? cs) := by
  unfold say?
  split
  · exact numberless_sayFrom?
  · exact .bind fun _ => .bind fun _ => numberless_sayFrom?

theorem numberless_extend? : Numberless (extend? cs) :=
  .bind fun _ => .bind fun _ => numberless_sayFrom?

-- =================================================================== lines

theorem short_sayKind {content : List Char}
    (h : sayKind content = .simple s) : s.IsShort := by
  unfold sayKind at h
  split at h
  · next t ht =>
    cases h
    exact numberless_say?.short ht
  · split at h <;> cases h

theorem short_extendKind (h : extendKind cs = .simple s) : s.IsShort := by
  unfold extendKind at h
  split at h
  · next t ht =>
    cases h
    exact numberless_extend?.short ht
  · split at h <;> cases h

/-- Where nothing is found in a line, the rule of its first word takes no
integer of too many digits. -/
theorem short_keywordKind? {word : String} {content : List Char}
    (hword : firstWord? content = some word) (hexcess : lineExcess? content = none)
    (h : keywordKind? word content = some (.simple s)) : s.IsShort := by
  have hrule : ∀ {o : Option Simple},
      some (LineKind.ofOption o) = some (.simple s) → o = some s :=
    fun h => simple_of_ofOption (Option.some.inj h)
  unfold lineExcess? at hexcess
  rw [hword] at hexcess
  -- The words with which a number may be read have a bound to use; behind the
  -- others no number is ever read.
  unfold keywordKind? at h
  simp only at h
  split at h
  · exact short_display? (hrule h) hexcess
  · exact short_display? (hrule h) hexcess
  · exact short_display? (hrule h) hexcess
  · exact numberless_transition?.short (hrule h)
  · exact numberless_jump?.short (hrule h)
  · exact numberless_call?.short (hrule h)
  · exact numberless_giveBack?.short (hrule h)
  · exact numberless_dollar?.short (hrule h)
  · exact numberless_define?.short (hrule h)
  · exact numberless_default?.short (hrule h)
  · exact short_play? (hrule h) hexcess
  · exact short_play? (hrule h) hexcess
  · exact numberless_voice?.short (hrule h)
  · exact short_stop? (hrule h) hexcess
  · exact short_pause? (hrule h) hexcess
  · exact numberless_nvl?.short (hrule h)
  · exact short_extendKind (Option.some.inj h)
  · have h := Option.some.inj h
    split at h
    · cases h
      exact fun i hi => absurd hi List.not_mem_nil
    · cases h
  · cases h

/-- A line in which no integer of too many digits is found is taken for a
statement without one. -/
theorem short_lineKind {content : List Char} (hexcess : lineExcess? content = none)
    (h : lineKind content = .simple s) : s.IsShort := by
  unfold lineKind at h
  split at h
  · exact short_sayKind h
  · next word hword =>
    split at h
    · cases h
    · cases hkind : keywordKind? word content with
      | some kind =>
          rw [hkind] at h
          obtain rfl : kind = .simple s := h
          exact short_keywordKind? hword hexcess hkind
      | none =>
          rw [hkind] at h
          exact short_sayKind h

-- ======================================================== what is found

/-- The excess of an integer of too many digits. -/
def OverDigits (e : Excess) : Prop :=
  ∃ count, e = .digits count ∧ Excess.mostDigits < count

theorem overDigits_excess? {n : Numeral} {e : Excess} (h : n.excess? = some e) :
    OverDigits e := by
  unfold Numeral.excess? Excess.ofDigits? at h
  split at h
  · split at h
    · next hlong =>
      obtain rfl := Option.some.inj h
      exact ⟨_, rfl, hlong⟩
    · cases h
  · cases h

theorem overDigits_numeralExcess? {e : Excess} (h : numeralExcess? cs = some e) :
    OverDigits e := by
  obtain ⟨n, -, h⟩ := Option.bind_eq_some_iff.mp h
  exact overDigits_excess? h

theorem overDigits_displayExcess? {verb : DisplayVerb} {e : Excess}
    (h : displayExcess? verb cs = some e) : OverDigits e := by
  simp only [displayExcess?, Option.bind_eq_bind, Option.bind_eq_some_iff] at h
  obtain ⟨_, -, _, -, _, -, h⟩ := h
  exact overDigits_numeralExcess? h

theorem overDigits_audioExcess? {e : Excess} (h : audioExcess? cs = some e) :
    OverDigits e := by
  obtain ⟨w, -, h⟩ := exists_word_of_audioExcess? h
  exact overDigits_numeralExcess? h

/-- All that is found in a line are integers of too many digits. -/
theorem overDigits_lineExcess? {e : Excess} (h : lineExcess? cs = some e) :
    OverDigits e := by
  unfold lineExcess? at h
  simp only at h
  split at h
  · exact overDigits_displayExcess? h
  · exact overDigits_displayExcess? h
  · exact overDigits_displayExcess? h
  · obtain ⟨_, -, h⟩ := Option.bind_eq_some_iff.mp h
    exact overDigits_audioExcess? h
  · obtain ⟨_, -, h⟩ := Option.bind_eq_some_iff.mp h
    exact overDigits_audioExcess? h
  · obtain ⟨_, -, h⟩ := Option.bind_eq_some_iff.mp h
    obtain ⟨_, -, h⟩ := Option.bind_eq_some_iff.mp h
    exact overDigits_excess? h
  · obtain ⟨_, -, h⟩ := Option.bind_eq_some_iff.mp h
    obtain ⟨_, -, h⟩ := Option.bind_eq_some_iff.mp h
    exact overDigits_excess? h
  · cases h

end Grammar

end NovelScript
