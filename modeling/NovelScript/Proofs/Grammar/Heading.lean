/-
Headers as they are written. Each kind of header is put together from its parts
by one function and taken apart by another; this file says that the parts come
out as they went in. What the parts have to be for that is stated with each
header: names that are names, conditions that end tidily, parameters that are
read as they are.

# First words

A line is first told by its first word. The two words that matter to blocks are
the one that opens a conditional and those that continue one, so no other header
can be mistaken for either (`opensConditional_of_firstWord?`,
`continuesConditional_of_firstWord?`). The first word is that of the whole line,
while the rules for headers look at the line without its colon. That both are
the same word is `firstWord?_of_keyword?`: behind the header there are only
white space and the colon, and neither goes on with a word.

# Where a part ends

A header is taken apart from the front, and every part but the last ends where
the next begins: a name at what is no letter of a name, a literal at its quote,
a list of parameters at the bracket that closes it. The last part ends with the
line, and so it must not end in white space or in the colon.
-/
import NovelScript.Grammar.Simple
import NovelScript.Proofs.Grammar.Header
import NovelScript.Written.Statement

namespace NovelScript

open Text

/-- A list of texts, absent when it is empty. -/
def presentItems (o : Option (List String)) : Option (List String) :=
  if (Written.items o).isEmpty then none else some (Written.items o)

namespace Grammar

-- =========================================================== first words

/-- The first word of a line that begins with a name is that name. -/
theorem firstWord?_name {w rest : List Char} (hw : Name w)
    (hstop : Stops isWordChar rest) :
    firstWord? (w ++ rest) = some (String.ofList w) := by
  have hname := name?_eq_some.mpr ⟨hw, hstop, rfl⟩
  obtain ⟨c, ws, rfl, hc, -⟩ := hw
  have hdollar : c ≠ '$' := by
    rintro rfl
    exact absurd hc (by decide)
  rw [List.cons_append] at hname ⊢
  unfold firstWord?
  split
  · next heq => exact absurd (List.cons.inj heq).1 hdollar
  · rw [hname]
    rfl

theorem stops_space (cs : List Char) : Stops isWordChar (' ' :: cs) :=
  (stops_of_blank (by decide)).word

/-- Behind the header of a line there are only white space and the colon. -/
theorem splitHeader_tail (cs : List Char) :
    ∃ tail, cs = (splitHeader cs).1 ++ tail
      ∧ ∀ c ∈ tail, isBlank c = true ∨ c = ':' := by
  obtain ⟨bs, hbs, hcs⟩ := trimEnd_append_blanks cs
  simp only [splitHeader]
  split
  · next hcolon =>
    obtain ⟨front, hfront⟩ := List.getLast?_eq_some_iff.mp hcolon
    obtain ⟨bs', hbs', hfront'⟩ := trimEnd_append_blanks front
    rw [hfront, List.dropLast_concat]
    refine ⟨bs' ++ (':' :: bs), ?_, fun c hc => ?_⟩
    · rw [← List.append_assoc, ← hfront', ← List.singleton_append,
        ← List.append_assoc, ← hfront]
      exact hcs
    · rcases List.mem_append.mp hc with hc | hc
      · exact Or.inl (hbs' c hc)
      · rcases List.mem_cons.mp hc with rfl | hc
        · exact Or.inr rfl
        · exact Or.inl (hbs c hc)
  · exact ⟨bs, hcs, fun c hc => Or.inl (hbs c hc)⟩

/-- A word at the end of a header goes no further on the line. -/
theorem stops_splitHeader (cs : List Char) :
    ∃ tail, cs = (splitHeader cs).1 ++ tail ∧ Stops isWordChar tail := by
  obtain ⟨tail, hcs, htail⟩ := splitHeader_tail cs
  refine ⟨tail, hcs, fun c hc => ?_⟩
  rcases htail c (List.mem_of_head? hc) with hb | rfl
  · by_contra hw
    have := isBlank_of_isWordChar (c := c) (by simpa using hw)
    rw [hb] at this
    cases this
  · decide

/-- A keyword that the header of a line begins with is its first word. The rules
look at the header without its colon, and the first word is that of the whole
line. -/
theorem firstWord?_of_keyword? {cs rest : List Char} {word : String}
    (hword : Name word.toList)
    (h : keyword? word (splitHeader cs).1 = some rest) :
    firstWord? cs = some word := by
  obtain ⟨bs, hne, hbs, -, hhead⟩ := keyword?_eq_some.mp h
  obtain ⟨after, hafter⟩ := splitHeader_isPrefix cs
  rw [← hafter, hhead, List.append_assoc]
  have hstop : Stops isWordChar (bs ++ rest ++ after) := by
    cases bs with
    | nil => exact absurd rfl hne
    | cons b bs => exact (stops_of_blank (hbs b List.mem_cons_self)).word
  rw [firstWord?_name hword hstop, String.ofList_toList]

theorem name_if : Name "if".toList := ⟨'i', ['f'], rfl, by decide, by decide⟩

theorem name_elif : Name "elif".toList :=
  ⟨'e', ['l', 'i', 'f'], rfl, by decide, by decide⟩

theorem name_else : Name "else".toList :=
  ⟨'e', ['l', 's', 'e'], rfl, by decide, by decide⟩

/-- A line that opens a conditional begins with the word for it. -/
theorem firstWord?_of_opens {l : Line} (h : opensConditional l = true) :
    firstWord? l.content.toList = some "if" := by
  obtain ⟨condition, hcond⟩ := Option.isSome_iff_exists.mp h
  obtain ⟨rest, hrest, -⟩ := Option.map_eq_some_iff.mp hcond
  exact firstWord?_of_keyword? name_if (afterKeyword?_eq_some.mp hrest).1

/-- A line that continues a conditional begins with one of two words. -/
theorem firstWord?_of_continues {l : Line}
    (h : continuesConditional l = true) :
    firstWord? l.content.toList = some "elif"
      ∨ firstWord? l.content.toList = some "else" := by
  obtain ⟨condition, hcond⟩ := Option.isSome_iff_exists.mp h
  unfold branchCondition? at hcond
  split at hcond
  · next rest hrest =>
    exact Or.inl (firstWord?_of_keyword? name_elif
      (afterKeyword?_eq_some.mp hrest).1)
  · split at hcond
    · next helse =>
      obtain ⟨tail, hcs, hstop⟩ := stops_splitHeader l.content.toList
      have hhead : (splitHeader l.content.toList).1 = "else".toList := helse
      right
      rw [hcs, hhead, firstWord?_name name_else hstop, String.ofList_toList]
    · cases hcond

theorem name_menu : Name "menu".toList :=
  ⟨'m', ['e', 'n', 'u'], rfl, by decide, by decide⟩

/-- What may follow the word of a menu's header does not go on with it. -/
theorem stops_of_menu? {rest : List Char} {head : Option String × Option String}
    (h : menu? ("menu".toList ++ rest) = some head) :
    Stops isWordChar rest := by
  intro c hc
  by_contra hword
  have hword : isWordChar c = true := by simpa using hword
  have hblank : isBlank c = false := isBlank_of_isWordChar hword
  obtain ⟨cs, rfl⟩ := List.head?_eq_some_iff.mp hc
  -- No name is split off, so brackets would have to follow at once.
  have hname : menuName (c :: cs) = (none, c :: cs) := by
    simp [menuName, blanks?, hblank]
  have htrim : trimStart (c :: cs) = c :: cs := by
    simp [trimStart, hblank]
  simp only [menu?, after?_append, Option.bind_eq_bind, Option.bind_some, hname,
    htrim, List.isEmpty_cons, Bool.false_eq_true, if_false] at h
  split at h
  · next hbracket =>
    obtain ⟨inner, hinner⟩ := isBracketed_eq_true hbracket
    obtain ⟨rfl, -⟩ := List.cons.inj hinner
    exact absurd hword (by decide)
  · cases h

/-- A line with the header of a menu begins with the word for it. -/
theorem firstWord?_of_menu? {l : Line} {head : Option String × Option String}
    (h : menu? (headOf l) = some head) :
    firstWord? l.content.toList = some "menu" := by
  have hmenu : ∃ rest, headOf l = "menu".toList ++ rest := by
    unfold menu? at h
    obtain ⟨rest, hrest, -⟩ := Option.bind_eq_some_iff.mp h
    exact ⟨rest, after?_eq_some.mp hrest⟩
  obtain ⟨rest, hrest⟩ := hmenu
  rw [hrest] at h
  obtain ⟨tail, hcs, htail⟩ := stops_splitHeader l.content.toList
  have hstop : Stops isWordChar (rest ++ tail) := by
    cases rest with
    | nil => exact htail
    | cons c cs =>
        have hstop : Stops isWordChar (c :: cs) := stops_of_menu? h
        exact hstop
  rw [hcs, ← headOf, hrest, List.append_assoc, firstWord?_name name_menu hstop,
    String.ofList_toList]

/-- A line with another first word opens no conditional, whatever else is on it.
-/
theorem opensConditional_of_firstWord? {l : Line}
    (h : firstWord? l.content.toList ≠ some "if") :
    opensConditional l = false := by
  by_contra hopens
  exact h (firstWord?_of_opens (by simpa using hopens))

/-- A line with another first word continues no conditional, whatever else is on
it. -/
theorem continuesConditional_of_firstWord? {l : Line}
    (helif : firstWord? l.content.toList ≠ some "elif")
    (helse : firstWord? l.content.toList ≠ some "else") :
    continuesConditional l = false := by
  by_contra hcont
  rcases firstWord?_of_continues (l := l) (by simpa using hcont) with h | h
  · exact helif h
  · exact helse h

-- ============================================================ arguments

/-- Arguments in parentheses, or nothing. -/
def bracketed (as : List (List Char)) : List Char :=
  if as.isEmpty then [] else '(' :: (row as ++ [')'])

theorem map_ofList_toList (ss : List String) :
    (ss.map String.toList).map String.ofList = ss := by
  rw [List.map_map]
  exact (List.map_congr_left fun s _ => String.ofList_toList).trans
    (List.map_id ss)

/-- Arguments in parentheses are read as these arguments. -/
theorem arguments?_bracketed {as : List (List Char)}
    (h : ∀ a ∈ as, Argument a) :
    arguments? (bracketed as) = some (presentList as) := by
  unfold bracketed presentList
  split
  · rfl
  · next hne =>
    rw [arguments?, if_neg (by simp), if_pos (isBracketed_paren _),
      balancedArguments?_row h, Option.map_some, presentList, if_neg hne]

/-- Parameters that are read as they are: each alone in parentheses is one
argument, itself. -/
def Parameters (parameters : Option (List String)) : Prop :=
  ∀ p ∈ Written.items parameters, Unbroken p.toList
    ∧ balancedArguments? ('(' :: (p.toList ++ [')'])) = some [p.toList]

theorem Parameters.argument {o : Option (List String)} (h : Parameters o) :
    ∀ a ∈ (Written.items o).map String.toList, Argument a := by
  intro a ha
  obtain ⟨p, hp, rfl⟩ := List.mem_map.mp ha
  exact argument_of_balancedArguments? (h p hp).2

/-- Texts on one line stay on one line when they are put together. -/
theorem unbroken_intercalate {sep : List Char} {as : List (List Char)}
    (hsep : Unbroken sep) (h : ∀ a ∈ as, Unbroken a) :
    Unbroken (sep.intercalate as) := by
  induction as with
  | nil => simp [Unbroken]
  | cons a as ih =>
      have ha := h a List.mem_cons_self
      have hmore := ih fun b hb => h b (List.mem_cons_of_mem a hb)
      cases as with
      | nil => rwa [List.intercalate_singleton]
      | cons b bs =>
          rw [List.intercalate_cons_of_ne_nil (by simp)]
          exact unbroken_append.mpr
            ⟨unbroken_append.mpr ⟨ha, hsep⟩, hmore⟩

theorem unbroken_row {as : List (List Char)}
    (h : ∀ a ∈ as, Unbroken a) : Unbroken (row as) := by
  have hcomma : Unbroken [',', ' '] := by
    unfold Unbroken
    decide
  exact unbroken_intercalate hcomma h

theorem unbroken_cons {c : Char} {cs : List Char} :
    Unbroken (c :: cs) ↔ (c ≠ '\n' ∧ c ≠ '\r') ∧ Unbroken cs := by
  unfold Unbroken
  exact List.forall_mem_cons

theorem unbroken_bracketed {as : List (List Char)}
    (h : ∀ a ∈ as, Unbroken a) : Unbroken (bracketed as) := by
  have hclose : Unbroken [')'] := by
    unfold Unbroken
    decide
  unfold bracketed
  split
  · simp [Unbroken]
  · exact unbroken_cons.mpr ⟨by decide,
      unbroken_append.mpr ⟨unbroken_row h, hclose⟩⟩

theorem Parameters.unbroken {o : Option (List String)} (h : Parameters o) :
    Unbroken (bracketed ((Written.items o).map String.toList)) := by
  refine unbroken_bracketed fun a ha => ?_
  obtain ⟨p, hp, rfl⟩ := List.mem_map.mp ha
  exact (h p hp).1

/-- Behind a name, arguments begin with their parenthesis or not at all. -/
theorem stops_bracketed (as : List (List Char)) :
    Stops isDottedChar (bracketed as) ∧ StartsInk (bracketed as) := by
  unfold bracketed
  split
  · exact ⟨stops_nil _, startsInk_nil⟩
  · refine ⟨fun c hc => ?_, startsInk_cons.mpr (by decide)⟩
    obtain rfl : '(' = c := by simpa using hc
    decide

theorem endsInk_bracketed (as : List (List Char)) :
    EndsInk (bracketed as) := by
  unfold bracketed
  split
  · exact endsInk_nil
  · exact endsInk_concat ('(' :: row as) (by decide)

/-- A word and a space in front of something tidy end tidily. -/
theorem endsInk_word (w : List Char) {rest : List Char} (h : EndsInk rest)
    (hne : rest ≠ []) : EndsInk (w ++ ' ' :: rest) := by
  have hcut : w ++ ' ' :: rest = (w ++ [' ']) ++ rest := by simp
  rw [hcut]
  exact h.append hne

/-- A word and a space in front of something on one line are on it. -/
theorem unbroken_word {w rest : List Char} (hw : Unbroken w)
    (h : Unbroken rest) : Unbroken (w ++ ' ' :: rest) :=
  unbroken_append.mpr ⟨hw, unbroken_cons.mpr ⟨by decide, h⟩⟩

-- =============================================================== labels

/-- The header of a label. -/
theorem toList_labelHead (name : String) (o : Option (List String)) :
    (Phrase.labelHead name (Written.argumentRow o)).toList
      = "label".toList ++ ' ' :: (name.toList
          ++ bracketed ((Written.items o).map String.toList)) ++ [':'] := by
  unfold Phrase.labelHead Written.argumentRow bracketed
  rw [List.isEmpty_map]
  by_cases hempty : (Written.items o).isEmpty = true
  · simp [hempty]
  · simp [hempty, toList_joinArguments]

theorem lineEnd_label {name : String} {o : Option (List String)}
    (hname : LabelName name.toList) (hparameters : Parameters o) :
    LineEnd ("label".toList ++ ' ' :: (name.toList
      ++ bracketed ((Written.items o).map String.toList))) := by
  have hends : EndsInk (name.toList
      ++ bracketed ((Written.items o).map String.toList)) := by
    cases hb : bracketed ((Written.items o).map String.toList) with
    | nil =>
        rw [List.append_nil]
        exact hname.tidy.ends
    | cons c cs =>
        rw [← hb]
        exact (endsInk_bracketed _).append (by rw [hb]; simp)
  have hu : Unbroken name.toList := unbroken_of_ink fun c hc =>
    isBlank_of_isDottedChar (hname.all c hc)
  refine ⟨endsInk_word _ hends ?_, unbroken_word ?_
    (unbroken_append.mpr ⟨hu, hparameters.unbroken⟩)⟩
  · simp [hname.tidy.ne_nil]
  · exact unbroken_of_ink (by decide)

/-- A label's name and parameters are read as they are written. -/
theorem label?_written {name : String} {o : Option (List String)}
    (hname : LabelName name.toList) (hparameters : Parameters o) :
    label? ("label".toList ++ ' ' :: (name.toList
        ++ bracketed ((Written.items o).map String.toList)))
      = some (name, presentItems o) := by
  obtain ⟨hstop, hink⟩ := stops_bracketed
    ((Written.items o).map String.toList)
  have hstart : StartsInk (name.toList
      ++ bracketed ((Written.items o).map String.toList)) :=
    hname.tidy.starts.append hname.tidy.ne_nil
  have hlist : presentList ((Written.items o).map String.toList)
      = presentItems o := by
    unfold presentList presentItems
    rw [List.isEmpty_map, map_ofList_toList]
  simp only [label?, keyword?_space "label" hstart,
    labelName?_eq_some.mpr ⟨hname, hstop, rfl⟩, trimStart_of_ink hink,
    arguments?_bracketed hparameters.argument, hlist, String.ofList_toList,
    Option.bind_eq_bind, Option.bind_some]

-- ======================================================== conditionals

theorem ifCondition?_written {c : String} (h : Tidy c.toList) :
    ifCondition? ("if".toList ++ ' ' :: c.toList) = some c := by
  rw [ifCondition?, afterKeyword?_space "if" h, Option.map_some,
    String.ofList_toList]

theorem branchCondition?_elif {c : String} (h : Tidy c.toList) :
    branchCondition? ("elif".toList ++ ' ' :: c.toList) = some (some c) := by
  simp only [branchCondition?, afterKeyword?_space "elif" h,
    String.ofList_toList]

theorem branchCondition?_else :
    branchCondition? "else".toList = some none := by
  decide

-- ================================================================ menus

/-- A screen in parentheses, or nothing. -/
def screenPart (screen : Option String) : List Char :=
  match screen with
  | some s => '(' :: ("screen=".toList ++ quote s.toList ++ [')'])
  | none => []

/-- A space and a name, or nothing. -/
def namePart (name : Option String) : List Char :=
  match name with
  | some n => ' ' :: n.toList
  | none => []

/-- The header of a menu. -/
theorem toList_menuHead (name screen : Option String) :
    (Phrase.menuHead name (screen.map quoted)).toList
      = "menu".toList ++ (namePart name ++ screenPart screen) ++ [':'] := by
  unfold Phrase.menuHead namePart screenPart quoted
  cases name <;> cases screen <;> simp

theorem unbroken_quote (cs : List Char) : Unbroken (quote cs) :=
  fun _ hc => ⟨(ne_of_mem_quote hc).1, (ne_of_mem_quote hc).2.1⟩

theorem unbroken_screenPart (screen : Option String) :
    Unbroken (screenPart screen) := by
  have hopen : Unbroken ('(' :: "screen=".toList) :=
    unbroken_of_ink (by decide)
  have hclose : Unbroken [')'] := unbroken_of_ink (by decide)
  cases screen with
  | none => simp [screenPart, Unbroken]
  | some s =>
      exact unbroken_append.mpr
        ⟨unbroken_append.mpr ⟨hopen, unbroken_quote s.toList⟩, hclose⟩

theorem lineEnd_menu {name : Option String}
    (hname : ∀ n ∈ name, Name n.toList) (screen : Option String) :
    LineEnd ("menu".toList ++ (namePart name ++ screenPart screen)) := by
  have hmenu : Unbroken "menu".toList := unbroken_of_ink (by decide)
  constructor
  · cases screen with
    | some s =>
        have hends : EndsInk (screenPart (some s)) :=
          endsInk_concat ('(' :: ("screen=".toList ++ quote s.toList))
            (by decide)
        rw [← List.append_assoc]
        exact hends.append (by simp [screenPart])
    | none =>
        rw [screenPart, List.append_nil]
        cases name with
        | none => exact endsInk_concat ['m', 'e', 'n'] (by decide)
        | some n =>
            exact endsInk_word _ (hname n rfl).tidy.ends
              (hname n rfl).tidy.ne_nil
  · refine unbroken_append.mpr ⟨hmenu, unbroken_append.mpr
      ⟨?_, unbroken_screenPart screen⟩⟩
    cases name with
    | none => simp [namePart, Unbroken]
    | some n =>
        exact unbroken_cons.mpr ⟨by decide, unbroken_of_ink fun c hc =>
          isBlank_of_isWordChar ((hname n rfl).all c hc)⟩

theorem stops_screenPart (screen : Option String) :
    Stops isDottedChar (screenPart screen) := by
  cases screen with
  | none => exact stops_nil _
  | some s =>
      intro c hc
      obtain rfl : '(' = c := by simpa [screenPart] using hc
      decide

theorem menuName_written {name : Option String}
    (hname : ∀ n ∈ name, Name n.toList) (screen : Option String) :
    menuName (namePart name ++ screenPart screen)
      = (name.map String.toList, screenPart screen) := by
  cases name with
  | none =>
      have hink : StartsInk (screenPart screen) := by
        cases screen with
        | none => exact startsInk_nil
        | some s => exact startsInk_cons.mpr (by decide)
      simp only [namePart, List.nil_append, menuName, blanks?_of_ink hink]
      rfl
  | some n =>
      have hn := hname n rfl
      have hink : StartsInk (n.toList ++ screenPart screen) :=
        hn.tidy.starts.append hn.tidy.ne_nil
      simp only [namePart, List.cons_append, menuName, blanks?_space hink,
        Option.bind_some, name?_eq_some.mpr
          ⟨hn, (stops_screenPart screen).word, rfl⟩]
      rfl

theorem startsInk_quote (cs rest : List Char) :
    StartsInk (quote cs ++ rest) := by
  intro c hc
  rw [head_quote] at hc
  obtain rfl : '"' = c := Option.some.inj hc
  decide

theorem endsInk_quote (cs : List Char) : EndsInk (quote cs) :=
  endsInk_concat _ (by decide)

/-- A written literal for itself is the whole of a text. -/
theorem literal?_quote_self (cs : List Char) :
    literal? (quote cs) = some (quote cs, []) := by
  have h := literal?_quote cs []
  rwa [List.append_nil] at h

theorem menuScreen?_written (s : String) :
    menuScreen? ("screen=".toList ++ quote s.toList) = some s := by
  have htidy : Tidy ("screen=".toList ++ quote s.toList) :=
    ⟨by simp, startsInk_cons.mpr (by decide),
      (endsInk_quote s.toList).append (by simp [quote])⟩
  have hcut : "screen=".toList ++ quote s.toList
      = "screen".toList ++ ('=' :: quote s.toList) := rfl
  have hequals : StartsInk ('=' :: quote s.toList) :=
    startsInk_cons.mpr (by decide)
  have hafter : after? ['='] ('=' :: quote s.toList) = some (quote s.toList) :=
    after?_append ['='] _
  have hquote : StartsInk (quote s.toList) := by
    have h := startsInk_quote s.toList []
    rwa [List.append_nil] at h
  have htrim := htidy.trim_eq
  rw [hcut] at htrim
  simp only [menuScreen?, hcut, htrim, after?_append,
    Option.bind_eq_bind, Option.bind_some, trimStart_of_ink hequals, hafter,
    trimStart_of_ink hquote, literal?_quote_self, unquote?_quote,
    Option.map_some, String.ofList_toList]

/-- A menu's name and screen are read as they are written. -/
theorem menu?_written {name : Option String}
    (hname : ∀ n ∈ name, Name n.toList) (screen : Option String) :
    menu? ("menu".toList ++ (namePart name ++ screenPart screen))
      = some (name, screen) := by
  have hback : (name.map String.toList).map String.ofList = name := by
    cases name <;> simp
  simp only [menu?, after?_append, Option.bind_eq_bind, Option.bind_some,
    menuName_written hname, hback]
  cases screen with
  | none => rfl
  | some s =>
      have hink : StartsInk (screenPart (some s)) :=
        startsInk_cons.mpr (by decide)
      have hbracketed : isBracketed (screenPart (some s)) = true :=
        isBracketed_paren _
      have hinner : (screenPart (some s)).tail.dropLast
          = "screen=".toList ++ quote s.toList := List.dropLast_concat
      have hne : (screenPart (some s)).isEmpty = false := rfl
      rw [trimStart_of_ink hink, if_neg (by rw [hne]; decide),
        if_pos hbracketed, hinner, menuScreen?_written, Option.bind_some]

/-- The header of a choice without its colon. -/
def choicePart (said : String) (condition : Option String) : List Char :=
  quote said.toList ++ (match condition with
    | some c => ' ' :: ("if".toList ++ ' ' :: c.toList)
    | none => [])

/-- The header of a choice. -/
theorem toList_choiceHead (said : String) (condition : Option String) :
    (Phrase.choiceHead (quoted said) condition).toList
      = choicePart said condition ++ [':'] := by
  unfold Phrase.choiceHead choicePart quoted
  cases condition <;> simp

/-- A choice's text and condition are read as they are written. -/
theorem choice?_written (said : String) {condition : Option String}
    (h : ∀ c ∈ condition, Tidy c.toList) :
    choice? (choicePart said condition) = some (said.toList, condition) := by
  unfold choicePart
  cases condition with
  | none =>
      simp only [choice?, literal?_quote, unquote?_quote, Option.bind_eq_bind,
        Option.bind_some]
      rfl
  | some c =>
      have hc := h c rfl
      have hink : StartsInk ("if".toList ++ ' ' :: c.toList) := by
        intro d hd
        obtain rfl : 'i' = d := by simpa using hd
        decide
      simp only [choice?, literal?_quote, unquote?_quote, Option.bind_eq_bind,
        Option.bind_some, List.isEmpty_cons, Bool.false_eq_true, if_false,
        blanks?_space hink, afterKeyword?_space "if" hc,
        String.ofList_toList]

/-- The first word of a choice is no name. -/
theorem firstWord?_choicePart (said : String) (condition : Option String)
    (rest : List Char) :
    firstWord? (choicePart said condition ++ rest) = none :=
  rfl

/-- A line that does not end in a colon is its own header. -/
theorem splitHeader_plain {cs : List Char} (h : EndsInk cs)
    (hcolon : cs.getLast? ≠ some ':') : splitHeader cs = (cs, false) := by
  simp only [splitHeader, trimEnd_of_ink h]
  rw [if_neg hcolon]

/-- What does not begin with a literal is no choice. -/
theorem choice?_of_not_quote {head : List Char}
    (h : ∀ c ∈ head.head?, isQuote c = false) : choice? head = none := by
  rw [choice?, literal?_of_not_quote h]
  rfl

/-- What asks a question, and the space behind it. -/
def speakerPart (speaker : Option String) : List Char :=
  match speaker with
  | some s => s.toList ++ [' ']
  | none => []

/-- A menu's question. -/
theorem toList_menuPrompt (speaker : Option String) (prompt : String) :
    (Phrase.menuPrompt speaker (quoted prompt)).toList
      = speakerPart speaker ++ quote prompt.toList := by
  unfold Phrase.menuPrompt speakerPart quoted
  cases speaker <;> simp

theorem menuPrompt?_written {speaker : String} (h : Name speaker.toList)
    (prompt : String) :
    menuPrompt? (speaker.toList ++ ' ' :: quote prompt.toList)
      = some (speaker, prompt.toList) := by
  have hquote : StartsInk (quote prompt.toList) := by
    have h := startsInk_quote prompt.toList []
    rwa [List.append_nil] at h
  simp only [menuPrompt?, name?_eq_some.mpr ⟨h, stops_space _, rfl⟩,
    Option.bind_eq_bind, Option.bind_some, blanks?_space hquote,
    literal?_quote_self, unquote?_quote, Option.map_some,
    String.ofList_toList]

/-- A question is no set line, whoever asks it. -/
theorem menuSet?_of_quote (before : List Char) (prompt : String) :
    menuSet? (before ++ quote prompt.toList) = none := by
  have hlast : (before ++ quote prompt.toList).getLast? = some '"' := by
    rw [quote, ← List.append_assoc, List.getLast?_concat]
  by_contra hsome
  obtain ⟨var, hvar⟩ := Option.ne_none_iff_exists'.mp hsome
  unfold menuSet? at hvar
  simp only [Option.bind_eq_bind, Option.bind_eq_some_iff] at hvar
  obtain ⟨rest, hrest, hvar⟩ := hvar
  split at hvar
  · next name hname =>
    obtain ⟨hdotted, -, hall⟩ := dotted?_eq_some.mp hname
    rw [List.append_nil] at hall
    obtain ⟨front, hfront⟩ := keyword?_suffix hrest
    rw [← hfront, hall, List.getLast?_append_of_ne_nil _ hdotted.tidy.ne_nil]
      at hlast
    exact absurd (hdotted.all _ (List.mem_of_getLast? hlast)) (by decide)
  · cases hvar

/-- A menu's set line. -/
theorem toList_menuSet (var : String) :
    (Phrase.menuSet var).toList = "set".toList ++ ' ' :: var.toList := by
  simp [Phrase.menuSet]

theorem menuSet?_written {var : String} (h : Dotted var.toList) :
    menuSet? ("set".toList ++ ' ' :: var.toList) = some var := by
  have hdotted : dotted? var.toList = some (var.toList, []) :=
    dotted?_eq_some.mpr ⟨h, stops_nil _, (List.append_nil _).symm⟩
  simp only [menuSet?, keyword?_space "set" h.tidy.starts, hdotted,
    Option.bind_eq_bind, Option.bind_some, String.ofList_toList]

end Grammar

end NovelScript
