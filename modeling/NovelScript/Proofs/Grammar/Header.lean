/-
Headers without their colon, and the pieces that the rules of several statements
share: what follows a keyword, the arguments behind a name, and the headers of
labels, menus and conditionals.

A header is trimmed at its end, so the last piece of a rule is tidy wherever the
rule begins it behind white space. Two properties are carried through all of the
rules for that. `LineEnd` says of what is left of a line that it ends tidily and
stands on one line; it passes from a text to each of its endings. `Unbroken` is
the second half alone, and passes to every piece. What a rule takes for a
condition or a name follows from one of the two, and from the place in the line
where the rule cuts.

The lemmas come in two directions. Some, like `label?_eq_some`, say what was
there if a rule takes a line, and the reading uses them; those about texts that
are put together say what the rule makes of them, and the round trip does.
-/
import NovelScript.Grammar.Header
import NovelScript.Proofs.Text.Bracket
import NovelScript.Proofs.Text.Literal
import NovelScript.Proofs.Text.Phrase
import NovelScript.Proofs.Text.Word

namespace NovelScript.Grammar

open Text

-- ============================================================ the colon

/-- A header without its colon ends tidily. -/
theorem endsInk_splitHeader (cs : List Char) :
    EndsInk (splitHeader cs).1 := by
  simp only [splitHeader]
  split
  · exact endsInk_trimEnd _
  · exact endsInk_trimEnd _

theorem splitHeader_isPrefix (cs : List Char) : (splitHeader cs).1 <+: cs := by
  simp only [splitHeader]
  split
  · exact (trimEnd_isPrefix _).trans
      ((List.dropLast_prefix _).trans (trimEnd_isPrefix cs))
  · exact trimEnd_isPrefix cs

theorem endsInk_headOf (l : Line) : EndsInk (headOf l) :=
  endsInk_splitHeader _

theorem headOf_isPrefix (l : Line) : headOf l <+: l.content.toList :=
  splitHeader_isPrefix _

/-- A header that was written with its colon is split into both. -/
theorem splitHeader_colon {cs : List Char} (h : EndsInk cs) :
    splitHeader (cs ++ [':']) = (cs, true) := by
  have hend : EndsInk (cs ++ [':']) := endsInk_concat cs (by decide)
  simp only [splitHeader, trimEnd_of_ink hend]
  rw [if_pos (by simp), List.dropLast_concat, trimEnd_of_ink h]

-- ============================================================= keywords

theorem afterKeyword?_eq_some {word : String} {cs rest : List Char} :
    afterKeyword? word cs = some rest
      ↔ keyword? word cs = some rest ∧ rest ≠ [] := by
  unfold afterKeyword?
  split
  · next c more h => rw [h]; aesop
  · next hne =>
    constructor
    · intro h
      cases h
    · rintro ⟨h, hrest⟩
      cases rest with
      | nil => exact absurd rfl hrest
      | cons c more => exact absurd h (hne c more)

theorem afterKeyword?_suffix {word : String} {cs rest : List Char}
    (h : afterKeyword? word cs = some rest) : rest <:+ cs :=
  keyword?_suffix (afterKeyword?_eq_some.mp h).1

theorem inline_of_afterKeyword? {word : String} {cs rest : List Char}
    (hl : LineEnd cs) (h : afterKeyword? word cs = some rest) :
    Inline rest :=
  hl.inline_of_keyword? (afterKeyword?_eq_some.mp h).1

theorem afterKeyword?_space (word : String) {rest : List Char}
    (h : Tidy rest) :
    afterKeyword? word (word.toList ++ ' ' :: rest) = some rest :=
  afterKeyword?_eq_some.mpr ⟨keyword?_space word h.starts, h.ne_nil⟩

-- ============================================================ arguments

/-- A list of arguments on one line, absent when it is empty. -/
def Arguments (as : Option (List String)) : Prop :=
  ∀ ts ∈ as, ts ≠ [] ∧ ∀ t ∈ ts, Argument t.toList ∧ Unbroken t.toList

theorem arguments_presentList {as : List (List Char)}
    (h : ∀ a ∈ as, Argument a ∧ Unbroken a) : Arguments (presentList as) := by
  intro ts hts
  unfold presentList at hts
  split at hts
  · cases hts
  · next hne =>
    obtain rfl := Option.some.inj hts
    refine ⟨by simpa using hne, ?_⟩
    intro t ht
    obtain ⟨a, ha, rfl⟩ := List.mem_map.mp ht
    rw [String.toList_ofList]
    exact h a ha

/-- What a balanced argument list holds. -/
theorem argument_of_mem_balancedArguments? {cs : List Char}
    {as : List (List Char)} (hu : Unbroken cs)
    (h : balancedArguments? ('(' :: cs) = some as) :
    ∀ a ∈ as, Argument a ∧ Unbroken a := by
  obtain ⟨inner, rfl, hbal, rfl⟩ := balancedArguments?_paren.mp h
  exact fun a ha => ⟨argument_of_mem_splitArguments hbal ha,
    (unbroken_append.mp hu).1.subset (subset_of_mem_splitArguments ha)⟩

theorem isBracketed_eq_true {cs : List Char} (h : isBracketed cs = true) :
    ∃ inner, cs = '(' :: (inner ++ [')']) := by
  unfold isBracketed at h
  simp only [Bool.and_eq_true, decide_eq_true_eq, beq_iff_eq] at h
  obtain ⟨⟨hlen, hhead⟩, hlast⟩ := h
  cases cs with
  | nil => simp at hhead
  | cons c cs =>
      obtain rfl : c = '(' := by simpa using hhead
      cases cs with
      | nil => simp at hlen
      | cons d ds =>
          refine ⟨(d :: ds).dropLast, ?_⟩
          rw [List.getLast?_cons_cons] at hlast
          rw [List.dropLast_append_getLast? _ hlast]

theorem isBracketed_paren (inner : List Char) :
    isBracketed ('(' :: (inner ++ [')'])) = true := by
  have hlast : ('(' :: (inner ++ [')'])).getLast? = some ')' :=
    List.getLast?_append_cons ('(' :: inner) ')' []
  simp [isBracketed, hlast]

theorem arguments_of_arguments? {cs : List Char}
    {as : Option (List String)} (hu : Unbroken cs)
    (h : arguments? cs = some as) : Arguments as := by
  unfold arguments? at h
  split at h
  · obtain rfl := Option.some.inj h
    intro ts hts
    cases hts
  · split at h
    · next hb =>
      obtain ⟨inner, rfl⟩ := isBracketed_eq_true hb
      rw [Option.map_eq_some_iff] at h
      obtain ⟨args, hargs, rfl⟩ := h
      exact arguments_presentList (argument_of_mem_balancedArguments?
        (hu.subset (fun c hc => List.mem_cons_of_mem _ hc)) hargs)
    · cases h

-- ============================================================= headers

/-- What the header of a label says: a name, and parameters on one line. -/
theorem label?_eq_some {head : List Char} {name : String}
    {parameters : Option (List String)} (hu : Unbroken head)
    (h : label? head = some (name, parameters)) :
    LabelName name.toList ∧ Arguments parameters := by
  unfold label? at h
  simp only [Option.bind_eq_bind, Option.bind_eq_some_iff, Prod.exists,
    Option.some.injEq, Prod.mk.injEq] at h
  obtain ⟨rest, hk, n, rest', hn, ps, hps, rfl, rfl⟩ := h
  obtain ⟨bs, -, -, -, rfl⟩ := keyword?_eq_some.mp hk
  obtain ⟨hname, -, rfl⟩ := labelName?_eq_some.mp hn
  rw [String.toList_ofList]
  refine ⟨hname, arguments_of_arguments? (hu.subset fun c hc => ?_) hps⟩
  have := (trimStart_suffix rest').subset hc
  simp [this]

theorem ifCondition?_eq_some {head : List Char} {condition : String}
    (hl : LineEnd head) (h : ifCondition? head = some condition) :
    Inline condition.toList := by
  obtain ⟨cs, hcs, rfl⟩ := Option.map_eq_some_iff.mp h
  rw [String.toList_ofList]
  exact inline_of_afterKeyword? hl hcs

theorem branchCondition?_eq_some {head : List Char}
    {condition : Option String} (hl : LineEnd head)
    (h : branchCondition? head = some condition) :
    ∀ c ∈ condition, Inline c.toList := by
  unfold branchCondition? at h
  split at h
  · next cond hcond =>
    obtain rfl := Option.some.inj h
    intro c hc
    obtain rfl := Option.some.inj hc
    rw [String.toList_ofList]
    exact inline_of_afterKeyword? hl hcond
  · split at h
    · obtain rfl := Option.some.inj h
      intro c hc
      cases hc
    · cases h

theorem choice?_eq_some {head text : List Char} {condition : Option String}
    (hl : LineEnd head) (h : choice? head = some (text, condition)) :
    ∀ c ∈ condition, Inline c.toList := by
  unfold choice? at h
  simp only [Option.bind_eq_bind, Option.bind_eq_some_iff, Prod.exists] at h
  obtain ⟨literal, rest, hlit, text', -, h⟩ := h
  split at h
  · obtain ⟨-, rfl⟩ := Prod.mk.inj (Option.some.inj h)
    intro c hc
    cases hc
  · simp only [Option.bind_eq_some_iff] at h
    obtain ⟨rest', hb, cond, hcond, h⟩ := h
    obtain ⟨-, rfl⟩ := Prod.mk.inj (Option.some.inj h)
    intro c hc
    obtain rfl := Option.some.inj hc
    rw [String.toList_ofList]
    exact inline_of_afterKeyword?
      (hl.of_suffix ((blanks?_suffix hb).trans (literal?_suffix hlit))) hcond

theorem menuSet?_eq_some {head : List Char} {var : String}
    (h : menuSet? head = some var) : Dotted var.toList := by
  unfold menuSet? at h
  simp only [Option.bind_eq_bind, Option.bind_eq_some_iff] at h
  obtain ⟨rest, -, h⟩ := h
  split at h
  · next name hname =>
    obtain rfl := Option.some.inj h
    rw [String.toList_ofList]
    exact (dotted?_eq_some.mp hname).1
  · cases h

theorem menuPrompt?_eq_some {head text : List Char} {speaker : String}
    (h : menuPrompt? head = some (speaker, text)) : Name speaker.toList := by
  unfold menuPrompt? at h
  simp only [Option.bind_eq_bind, Option.bind_eq_some_iff, Prod.exists] at h
  obtain ⟨name, rest, hname, rest', -, h⟩ := h
  split at h
  · obtain ⟨text', -, h⟩ := Option.map_eq_some_iff.mp h
    obtain ⟨rfl, -⟩ := Prod.mk.inj h
    rw [String.toList_ofList]
    exact (name?_eq_some.mp hname).1
  · cases h

theorem menu?_eq_some {head : List Char} {name screen : Option String}
    (h : menu? head = some (name, screen)) : ∀ n ∈ name, Name n.toList := by
  unfold menu? at h
  simp only [Option.bind_eq_bind, Option.bind_eq_some_iff] at h
  obtain ⟨rest, -, h⟩ := h
  have hname : ∀ n ∈ (menuName rest).1.map String.ofList,
      Name n.toList := by
    intro n hn
    obtain ⟨cs, hcs, rfl⟩ := Option.map_eq_some_iff.mp hn
    rw [String.toList_ofList]
    unfold menuName at hcs
    split at hcs
    · next name rest' hb =>
      obtain rfl := Option.some.inj hcs
      obtain ⟨_, -, hname⟩ := Option.bind_eq_some_iff.mp hb
      exact (name?_eq_some.mp hname).1
    · cases hcs
  split at h
  · obtain ⟨rfl, -⟩ := Prod.mk.inj (Option.some.inj h)
    exact hname
  · split at h
    · simp only [Option.bind_eq_some_iff] at h
      obtain ⟨_, -, h⟩ := h
      obtain ⟨rfl, -⟩ := Prod.mk.inj (Option.some.inj h)
      exact hname
    · cases h

end NovelScript.Grammar
