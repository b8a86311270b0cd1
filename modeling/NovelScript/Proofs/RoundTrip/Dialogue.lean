/-
Lines that are said come back as they were said. The line is put together from
the speaker with attributes, the literal, arguments in parentheses and a
transition; it is taken apart from the left, and each part ends where the writer
ended it.

# The parts

* Attributes end at the quote of the literal: no character of an attribute is a
  quote, and each has a space behind it (`attributes?_written`).
* The literal ends at its own last quote, for quotes inside it are escaped. The
  text is never looked into, so it may be any text at all.
* The arguments end at the parenthesis that closes the first one, since none of
  them leaves a bracket or a literal open (`Parameters`).
* The transition is what is left (`sayTransition?_written`).

# The line

What a line says is decided by how it begins: with a literal, with a name, or
with the word for going on with the line before. There is one lemma for each of
them (`lineKind_narrated`, `lineKind_spoken`, `lineKind_extended`), and all
three lead to the same tail (`sayFrom?_written`). What can be said (`Sayable`)
has a field for each part, and one for the narrator, who has no attributes.
-/
import NovelScript.Proofs.RoundTrip.ReadBack
import NovelScript.Proofs.Text.Closed

namespace NovelScript

open Grammar Reading Text
open Written (argumentRow isSet items present)

-- ============================================================== the parts

namespace Grammar

/-- Words, each with a space behind it. -/
def ahead (ws : List String) : List Char :=
  ws.flatMap fun w => w.toList ++ [' ']

/-- A space and arguments in parentheses, or nothing. -/
def argumentPart (o : Option (List String)) : List Char :=
  if (items o).isEmpty then []
  else ' ' :: '(' :: (row ((items o).map String.toList) ++ [')'])

/-- A transition behind the word for it, or nothing. -/
def withPart (transition : Option String) : List Char :=
  match transition with
  | some t => ' ' :: ("with".toList ++ ' ' :: t.toList)
  | none => []

theorem ahead_cons (w : String) (ws : List String) (rest : List Char) :
    ahead (w :: ws) ++ rest = w.toList ++ ' ' :: (ahead ws ++ rest) := by
  rw [ahead, ahead, List.flatMap_cons, List.append_assoc, List.append_assoc]
  rfl

/-- Words in a row in front of others. -/
theorem toList_row_ahead (ws : List String) (w : String) (more : List String) :
    (Phrase.row (ws ++ w :: more)).toList
      = ahead ws ++ (Phrase.row (w :: more)).toList := by
  induction ws with
  | nil => rfl
  | cons v ws ih =>
      have hcons : Phrase.row (v :: (ws ++ w :: more))
          = v ++ " " ++ Phrase.row (ws ++ w :: more) := by
        cases ws <;> exact String.intercalate_cons_cons
      rw [List.cons_append, hcons, String.toList_append, String.toList_append,
        ih, ahead_cons, List.append_assoc]
      rfl

/-- A line that is said. -/
theorem toList_say (who : List String) (said : String)
    (o : Option (List String)) (transition : Option String) :
    (Phrase.say who (quoted said) (argumentRow o) transition).toList
      = ahead who ++ (quote said.toList
          ++ (argumentPart o ++ withPart transition)) := by
  have hsay : Phrase.say who (quoted said) (argumentRow o) transition
      = Phrase.row (who ++ (quoted said
          ++ (argumentRow o).elim "" (" (" ++ · ++ ")"))
        :: Phrase.clause "with" transition) := by
    cases argumentRow o <;>
      exact congrArg Phrase.row (List.append_assoc who [_] _)
  have harguments : ((argumentRow o).elim "" (" (" ++ · ++ ")")).toList
      = argumentPart o := by
    unfold argumentRow argumentPart
    by_cases hempty : (items o).isEmpty = true
    · simp [hempty]
    · simp [hempty, toList_joinArguments]
  rw [hsay, toList_row_ahead]
  cases transition <;>
    simp [Phrase.clause, Phrase.row, withPart, String.intercalate_cons_cons,
      harguments, quoted]

theorem endsInk_withPart {transition : Option String}
    (h : ∀ t ∈ transition, Inline t.toList) :
    EndsInk (withPart transition) := by
  cases transition with
  | none => exact endsInk_nil
  | some t =>
      have ht := (h t rfl).tidy
      exact endsInk_word (' ' :: "with".toList) ht.ends ht.ne_nil

/-- What is said and what stands behind it end tidily. -/
theorem endsInk_said (said : String) (o : Option (List String))
    {transition : Option String} (h : ∀ t ∈ transition, Inline t.toList) :
    EndsInk (quote said.toList ++ (argumentPart o ++ withPart transition)) := by
  cases transition with
  | some t =>
      rw [← List.append_assoc]
      exact (endsInk_withPart h).append (by simp [withPart])
  | none =>
      rw [withPart, List.append_nil, argumentPart]
      split
      · rw [List.append_nil]
        exact endsInk_quote _
      · exact (endsInk_concat (' ' :: '(' :: row _) (by decide)).append
          (by simp)

-- =============================================================== the tail

/-- The space in front of what begins and ends tidily is cut. -/
theorem trim_space {cs : List Char} (hstarts : StartsInk cs)
    (hends : EndsInk cs) : trim (' ' :: cs) = cs := by
  have hstart : trimStart ([' '] ++ cs) = cs :=
    trimStart_append blanks_space hstarts
  rw [trim, ← List.singleton_append, hstart, trimEnd_of_ink hends]

/-- A transition behind its word is read as it was written, and so is none. -/
theorem sayTransition?_written {transition : Option String}
    (h : ∀ t ∈ transition, Inline t.toList) :
    sayTransition? (trim (withPart transition))
      = some (transition.map String.toList) := by
  cases transition with
  | none => rfl
  | some t =>
      obtain ⟨ht, hone⟩ := h t rfl
      have htrim : trim (withPart (some t))
          = "with".toList ++ ' ' :: t.toList :=
        trim_space (startsInk_cons.mpr (by decide))
          (endsInk_word "with".toList ht.ends ht.ne_nil)
      have hline : isOneLine t.toList = true :=
        List.all_eq_true.mpr fun c hc => by simpa using (hone c hc).1
      rw [htrim, sayTransition?, if_neg (by simp)]
      simp only [afterKeyword?_space "with" ht, hline, if_true, ht.trim_eq]
      rfl

/-- What stands behind the literal is read as it is written. -/
theorem sayTail?_written {o : Option (List String)}
    {transition : Option String} (ho : Parameters o)
    (h : ∀ t ∈ transition, Inline t.toList) :
    ∃ as, sayTail? (argumentPart o ++ withPart transition)
        = some (as, transition.map String.toList)
      ∧ as.bind presentList = presentItems o := by
  have htransition := sayTransition?_written h
  unfold argumentPart presentItems
  by_cases hempty : (items o).isEmpty = true
  · -- Without arguments the tail is the transition, which is a word or nothing.
    have hparen : (trim (withPart transition)).head? ≠ some '(' := by
      intro hparen
      rw [sayTransition?] at htransition
      cases hcs : trim (withPart transition) with
      | nil =>
          rw [hcs] at hparen
          cases hparen
      | cons c cs =>
          rw [hcs] at hparen htransition
          obtain rfl : c = '(' := Option.some.inj hparen
          cases htransition
    refine ⟨none, ?_, by rw [if_pos hempty]; rfl⟩
    rw [if_pos hempty, List.nil_append, sayTail?]
    simp only [if_neg hparen, htransition]
    rfl
  · -- With arguments the bracket is found again, and what stands in it is cut
    -- into the same arguments.
    have hargs := ho.argument
    generalize has : (items o).map String.toList = as at hargs
    have hends : EndsInk ('(' :: (row as ++ ')' :: withPart transition)) := by
      cases transition with
      | none => exact endsInk_concat ('(' :: row as) (by decide)
      | some t =>
          have hcut : '(' :: (row as ++ ')' :: withPart (some t))
              = '(' :: (row as ++ [')']) ++ withPart (some t) := by simp
          rw [hcut]
          exact (endsInk_withPart h).append (by simp [withPart])
    refine ⟨some as, ?_, ?_⟩
    · have htail : ' ' :: '(' :: (row as ++ [')']) ++ withPart transition
          = ' ' :: '(' :: (row as ++ ')' :: withPart transition) := by
        simp
      have hclose : closing? ('(' :: (row as ++ ')' :: withPart transition))
          = some ((row as).length + 1) :=
        closing?_paren_eq_some.mpr ⟨_, _, rfl, rfl, balanced_row hargs⟩
      rw [if_neg hempty, htail, sayTail?,
        trim_space (startsInk_cons.mpr (by decide)) hends]
      simp only [List.head?_cons, if_true, hclose]
      simp [htransition, splitArguments_row hargs]
    · rw [if_neg hempty, Option.bind_some, presentList, ← has,
        List.isEmpty_map, if_neg hempty, map_ofList_toList]

-- ============================================================== the whole

/-- From the literal on, a line is said as it was written. Arguments stand
behind the literal at once, and the transition behind its word. -/
theorem sayFrom?_written (speaker : Option String) (as : List String)
    (extend : Option Bool) (said : String) {o : Option (List String)}
    {transition : Option String} (ho : Parameters o)
    (h : ∀ t ∈ transition, Inline t.toList) :
    sayFrom? speaker (as.map String.toList) extend
        (quote said.toList ++ (argumentPart o ++ withPart transition))
      = some (.say
        { speaker := speaker, text := said, attributes := presentItems (some as)
          transition := transition, extend := extend
          arguments := presentItems o }) := by
  obtain ⟨args, htail, hargs⟩ := sayTail?_written ho h
  have hback : (transition.map String.toList).map String.ofList
      = transition := by
    cases transition <;> simp
  have hattributes : presentList (as.map String.toList)
      = presentItems (some as) := by
    rw [presentList, presentItems, List.isEmpty_map, map_ofList_toList]
    rfl
  simp only [sayFrom?, literal?_quote, unquote?_quote, htail,
    Option.bind_eq_bind, Option.bind_some, hback, hargs, hattributes,
    String.ofList_toList]

/-- An attribute is read up to what does not go on with it. -/
theorem attribute?_written {a rest : List Char} (h : Attribute a)
    (hstop : Stops isWordChar rest) :
    attribute? (a ++ rest) = some (a, rest) := by
  obtain ⟨w, ha, hne, hw⟩ := h
  have hrun : wordRun? (w ++ rest) = some (w, rest) :=
    wordRun?_eq_some.mpr ⟨hne, hw, hstop, rfl⟩
  rcases ha with rfl | rfl
  · unfold attribute?
    split
    · next cs heq =>
      obtain ⟨c, w, rfl⟩ := List.exists_cons_of_ne_nil hne
      obtain ⟨rfl, -⟩ := List.cons.inj heq
      exact absurd (hw '-' List.mem_cons_self) (by decide)
    · exact hrun
  · rw [List.cons_append, attribute?, hrun]
    rfl

/-- The characters of an attribute are plain. -/
theorem plain_of_attribute {a : List Char} (h : Attribute a) :
    a ≠ [] ∧ ∀ c ∈ a, Plain c := by
  obtain ⟨w, ha, hne, hw⟩ := h
  have hplain : ∀ c ∈ w, Plain c := fun c hc =>
    plain_of_isDottedChar (Or.inl (isDottedChar_of_isWordChar (hw c hc)))
  rcases ha with rfl | rfl
  · exact ⟨hne, hplain⟩
  · exact ⟨by simp, List.forall_mem_cons.mpr
      ⟨plain_of_isDottedChar (Or.inr rfl), hplain⟩⟩

/-- Attributes are read up to the quote behind them: none of them has one, and
the quote begins no attribute. -/
theorem attributes?_written {as : List String}
    (h : ∀ a ∈ as, Attribute a.toList) (said rest : List Char) :
    attributes? (' ' :: (ahead as ++ (quote said ++ rest)))
      = some (as.map String.toList, quote said ++ rest) := by
  induction as with
  | nil =>
      have hstart : StartsInk (ahead [] ++ (quote said ++ rest)) :=
        startsInk_quote said rest
      rw [attributes?_eq, blanks?_space hstart, Option.bind_some]
      rfl
  | cons a as ih =>
      have ha := h a List.mem_cons_self
      have hmore := ih fun b hb => h b (List.mem_cons_of_mem a hb)
      obtain ⟨hne, hplain⟩ := plain_of_attribute ha
      obtain ⟨c, cs, hcs⟩ := List.exists_cons_of_ne_nil hne
      have hc := hplain c (by rw [hcs]; exact List.mem_cons_self)
      have hstart : StartsInk (a.toList
          ++ ' ' :: (ahead as ++ (quote said ++ rest))) := by
        rw [hcs]
        exact startsInk_cons.mpr hc.ink
      have hquote : ((a.toList ++ ' ' :: (ahead as
          ++ (quote said ++ rest))).head?.map isQuote).getD false = false := by
        rw [hcs]
        exact hc.quote
      rw [attributes?_eq, ahead_cons, blanks?_space hstart, Option.bind_some,
        hquote, if_neg (by simp), attribute?_written ha (stops_space _),
        Option.bind_some]
      dsimp only
      rw [hmore]
      rfl

end Grammar

-- ================================================================ sayings

/-- What can be said: by the narrator, who has no attributes, by a speaker, or
by whoever spoke before. -/
structure Dialogue.Sayable (d : Dialogue) : Prop where
  /-- Who says it. -/
  who : isSet d.extend = false ∧ present d.speaker = none
      ∧ items d.attributes = []
    ∨ isSet d.extend = false ∧ (∃ s, d.speaker = some s ∧ Speaker s)
    ∨ isSet d.extend = true ∧ present d.speaker = none
  /-- The attributes are attributes. -/
  attributes : ∀ a ∈ items d.attributes, Attribute a.toList
  /-- The arguments are read as they are. -/
  arguments : Parameters d.arguments
  /-- The transition, if there is one, is tidy and on one line. -/
  transition : ∀ t ∈ present d.transition, Inline t.toList

variable {d : Dialogue}

theorem present_speaker {s : String} (h : Speaker s) :
    present (some s) = some s := by
  unfold present
  split
  · next hempty =>
    obtain rfl := Option.some.inj hempty
    exact absurd rfl h.1.tidy.ne_nil
  · rfl

theorem Dialogue.Sayable.spoken (h : d.Sayable) :
    (Simple.say d).asRead.Spoken := by
  have hattributes : ∀ as ∈ presentItems d.attributes,
      as ≠ [] ∧ ∀ a ∈ as, Attribute a.toList := by
    intro as has
    obtain ⟨hne, rfl⟩ := presentItems_eq_some.mp has
    exact ⟨hne, h.attributes⟩
  have harguments := h.arguments.arguments
  rcases h.who with ⟨hext, hnone, has⟩ | ⟨hext, s, hs, hspeaker⟩ | ⟨hext, hnone⟩
  · have hno : presentItems d.attributes = none := by
      rw [presentItems, has]
      rfl
    rw [Simple.asRead, hext, hnone]
    exact ⟨by simp, hattributes, h.transition, harguments, Or.inl rfl,
      fun hsome => absurd hno hsome⟩
  · rw [Simple.asRead, hext, hs, present_speaker hspeaker]
    refine ⟨fun t ht => ?_, hattributes, h.transition, harguments, Or.inl rfl,
      fun _ => Or.inl (by simp)⟩
    obtain rfl := Option.some.inj ht
    exact hspeaker
  · rw [Simple.asRead, hext, hnone]
    exact ⟨by simp, hattributes, h.transition, harguments, Or.inr ⟨rfl, rfl⟩,
      fun _ => Or.inr rfl⟩

/-- A line that can be said is what is said. -/
theorem sayKind_of_say? {cs : List Char} {s : Simple} (hends : EndsInk cs)
    (h : say? cs = some s) : sayKind cs = .simple s := by
  rw [sayKind, trimEnd_of_ink hends, h]

section

variable {rest after : List Char} {as : List (List Char)} {s : Simple}

/-- A line that begins with a literal is said by the narrator. -/
theorem lineKind_narrated (said : String)
    (hends : EndsInk (quote said.toList ++ rest))
    (h : sayFrom? none [] none (quote said.toList ++ rest) = some s) :
    lineKind (quote said.toList ++ rest) = .simple s := by
  have hliteral : (literal? (quote said.toList ++ rest)).isSome = true := by
    rw [literal?_quote]
    rfl
  refine sayKind_of_say? hends ?_
  rw [say?, if_pos hliteral]
  exact h

/-- A line that begins with a speaker is said by that speaker. -/
theorem lineKind_spoken {speaker : String} (hspeaker : Speaker speaker)
    (hends : EndsInk (speaker.toList ++ ' ' :: rest))
    (hattributes : attributes? (' ' :: rest) = some (as, after))
    (h : sayFrom? (some speaker) as none after = some s) :
    lineKind (speaker.toList ++ ' ' :: rest) = .simple s := by
  obtain ⟨hname, hruled⟩ := hspeaker
  rw [isRuled, Bool.or_eq_false_iff] at hruled
  have hkeyword : keywordKind? speaker (speaker.toList ++ ' ' :: rest) = none := by
    rw [← Option.not_isSome_iff_eq_none, isSome_keywordKind?, hruled.2]
    exact Bool.false_ne_true
  have hliteral : literal? (speaker.toList ++ ' ' :: rest) = none := by
    refine literal?_of_not_quote fun c hc => ?_
    obtain ⟨d, ws, hcs, hstart, -⟩ := hname
    rw [hcs] at hc
    obtain rfl : d = c := Option.some.inj hc
    exact (plain_of_isDottedChar (Or.inl (isDottedChar_of_isWordChar
      (isWordChar_of_isNameStart hstart)))).quote
  rw [lineKind, firstWord?_name hname (stops_space _), String.ofList_toList]
  simp only [hruled.1, hkeyword]
  refine sayKind_of_say? hends ?_
  rw [say?, hliteral, if_neg (by simp)]
  simp only [name?_eq_some.mpr ⟨hname, stops_space _, rfl⟩,
    Option.bind_eq_bind, Option.bind_some, hattributes, String.ofList_toList]
  exact h

/-- A line that begins with the word for it continues the one before. -/
theorem lineKind_extended (hends : EndsInk ("extend".toList ++ ' ' :: rest))
    (hattributes : attributes? (' ' :: rest) = some (as, after))
    (h : sayFrom? none as (some true) after = some s) :
    lineKind ("extend".toList ++ ' ' :: rest) = .simple s := by
  have hextend : extend? ("extend".toList ++ ' ' :: rest) = some s := by
    simp only [extend?, after?_append, Option.bind_eq_bind, Option.bind_some,
      hattributes]
    exact h
  have hname : Name "extend".toList :=
    ⟨'e', "xtend".toList, rfl, by decide, by decide⟩
  refine lineKind_word hname (by decide) ?_
  simp only [keywordKind?, trimEnd_of_ink hends, extendKind, hextend]

end

/-- The line of what is said is taken for it. -/
theorem Dialogue.Sayable.lineKind_line (h : d.Sayable) :
    ∃ t, Written.simple "" (.say d) = .ok [.line t]
      ∧ lineKind t.toList = .simple (Simple.say d).asRead := by
  have hwritten : ∀ who, Written.speaking "" d = .ok who →
      Written.simple "" (.say d) = .ok [.line (Phrase.say who (quoted d.text)
        (argumentRow d.arguments) (present d.transition))] := by
    intro who hwho
    rw [Written.simple, hwho]
    rfl
  have hends := endsInk_said d.text d.arguments h.transition
  have hlong : ∀ w : String, EndsInk (w.toList ++ ' ' :: (ahead
      (items d.attributes) ++ (quote d.text.toList ++ (argumentPart d.arguments
        ++ withPart (present d.transition))))) := fun w =>
    endsInk_word _ (hends.append (by simp [quote])) (by simp [quote])
  have hattributes := attributes?_written h.attributes d.text.toList
    (argumentPart d.arguments ++ withPart (present d.transition))
  have hfrom := fun speaker extend => sayFrom?_written speaker
    (items d.attributes) extend d.text h.arguments h.transition
  -- Narration, speech and what goes on from it: three readings of one tail.
  rcases h.who with ⟨hext, hnone, has⟩ | ⟨hext, s, hs, hspeaker⟩ | ⟨hext, hnone⟩
  · have hspeaking : Written.speaking "" d = .ok [] := by
      rw [Written.speaking, hext, hnone, has]
      rfl
    have hsaid := hfrom none none
    have hno : presentItems d.attributes = none := by
      rw [presentItems, has]
      rfl
    refine ⟨_, hwritten _ hspeaking, ?_⟩
    rw [toList_say, Simple.asRead, hext, hnone, hno]
    rw [has] at hsaid
    exact lineKind_narrated d.text hends hsaid
  · have hspeaking : Written.speaking "" d
        = .ok (s :: items d.attributes) := by
      rw [Written.speaking, hext, hs, present_speaker hspeaker]
      rfl
    refine ⟨_, hwritten _ hspeaking, ?_⟩
    rw [toList_say, ahead_cons, Simple.asRead, hext, hs,
      present_speaker hspeaker]
    exact lineKind_spoken hspeaker (hlong s) hattributes (hfrom (some s) none)
  · have hspeaking : Written.speaking "" d
        = .ok ("extend" :: items d.attributes) := by
      rw [Written.speaking, hext]
      rfl
    refine ⟨_, hwritten _ hspeaking, ?_⟩
    rw [toList_say, ahead_cons, Simple.asRead, hext, hnone]
    exact lineKind_extended (hlong "extend") hattributes
      (hfrom none (some true))

/-- What is said comes back as it was said, whatever the text: with its speaker,
its attributes, its arguments and what the picture changes with. Which of these
can be written so that they are told apart is `Sayable`. -/
theorem readsBack_say (h : d.Sayable) : (Simple.say d).ReadsBack := by
  obtain ⟨t, hwritten, hkind⟩ := h.lineKind_line
  exact (Simple.readsBack_iff h.spoken hwritten hkind).mpr rfl

/-- A text with quotes, backslashes, line breaks and a clause of its own, next
to arguments that hold a comma and a bracket. -/
theorem readsBack_say_text :
    (Simple.say
      { speaker := some "eileen"
        text := "\"Wait\" \\n \r\n\t\u2028 with x (1, 2)"
        attributes := some ["happy", "-hat"]
        arguments := some ["a", "what=f(1, ')')"]
        transition := some "with dissolve" }).ReadsBack :=
  readsBack_say
    { who := Or.inr (Or.inl ⟨rfl, "eileen", rfl,
        ⟨'e', "ileen".toList, rfl, by decide, by decide⟩, by decide⟩)
      attributes := by
        intro a ha
        simp only [items, Option.getD_some, List.mem_cons, List.not_mem_nil,
          or_false] at ha
        rcases ha with rfl | rfl
        · exact ⟨"happy".toList, Or.inl rfl, by decide, by decide⟩
        · exact ⟨"hat".toList, Or.inr rfl, by decide, by decide⟩
      arguments := by
        unfold Parameters Unbroken
        decide +kernel
      transition := by
        rintro t ⟨⟩
        refine ⟨tidy_iff.mpr (by decide), ?_⟩
        unfold Unbroken
        decide }

end NovelScript
