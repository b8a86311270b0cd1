/-
Jumps and calls of named labels. A label's name has no white space in it, so a
jump comes back as it was. A call has more on its line: arguments in
parentheses, and behind the word `from` the label to come back to.

# How the line is taken apart

The line is taken apart from both ends, and the name between is what is left.
From the right: the label to come back to is looked for behind the last `from`
that has white space around it. Arguments end in a parenthesis and a name has no
white space in it, so no other such place is found (`fromClause_written`). From
the left: the name goes up to the first character that is none of a name, which
is the parenthesis, the white space or the end (`stops_behind_target`).

# The name in the way

The word `expression` in front of something else says that the label is
computed, so a label of that name cannot be followed by white space: called
without arguments and with a label to come back to, it is taken for the computed
label `from` and that label's name (`lineKind_call_expression`). With arguments,
or with nothing behind it, it comes back like any other. So `readsBack_call_iff`
is an equivalence, and `not_readsBack_call_expression` is the smallest call on
its far side.
-/
import NovelScript.Proofs.RoundTrip.ReadBack

namespace NovelScript

open Grammar Reading Text
open Written (argumentRow isSet items present)

-- ================================================================ jumps

namespace Grammar

/-- A keyword needs white space behind it. -/
theorem keyword?_of_ink (word : String) {cs : List Char}
    (h : ∀ c ∈ cs, isBlank c = false) : keyword? word cs = none := by
  cases hk : keyword? word cs with
  | none => rfl
  | some rest =>
      obtain ⟨bs, hne, hbs, -, rfl⟩ := keyword?_eq_some.mp hk
      obtain ⟨b, bs, rfl⟩ := List.exists_cons_of_ne_nil hne
      have hink := h b (by simp)
      rw [hbs b List.mem_cons_self] at hink
      cases hink

/-- No white space is in a label's name. -/
theorem ink_of_labelName {cs : List Char} (h : LabelName cs) :
    ∀ c ∈ cs, isBlank c = false :=
  fun c hc => isBlank_of_isDottedChar (h.all c hc)

theorem lineKind_jump {target : String} (h : LabelName target.toList) :
    lineKind ("jump".toList ++ ' ' :: target.toList)
      = .simple (.jump target none) := by
  have hname : Name "jump".toList :=
    ⟨'j', "ump".toList, rfl, by decide, by decide⟩
  have hends : EndsInk ("jump".toList ++ ' ' :: target.toList) :=
    endsInk_word _ h.tidy.ends h.tidy.ne_nil
  have hno : afterKeyword? "expression" target.toList = none := by
    rw [afterKeyword?, keyword?_of_ink _ (ink_of_labelName h)]
  have hlabel : labelName? target.toList = some (target.toList, []) :=
    labelName?_eq_some.mpr ⟨h, stops_nil _, by simp⟩
  have hjump : jump? ("jump".toList ++ ' ' :: target.toList)
      = some (.jump target none) := by
    simp only [jump?, keyword?_space "jump" h.tidy.starts,
      Option.bind_eq_bind, Option.bind_some, hno, hlabel,
      String.ofList_toList]
  refine lineKind_word hname (by decide) ?_
  simp only [keywordKind?, trimEnd_of_ink hends, hjump]
  rfl

end Grammar

/-- A jump to a named label comes back as it was. -/
theorem readsBack_jump {target : String} {expression : Option Bool}
    (h : LabelName target.toList) (hexpression : isSet expression = false) :
    (Simple.jump target expression).ReadsBack := by
  have hread : (Simple.jump target expression).asRead = .jump target none :=
    congrArg (Simple.jump target) (isSet_eq_false hexpression)
  have hspoken : (Simple.jump target none).Spoken := Or.inr ⟨rfl, h⟩
  have hline : (Phrase.jump false target).toList
      = "jump".toList ++ ' ' :: target.toList := by
    simp [Phrase.jump]
  have hwritten : Written.simple "" (.jump target expression)
      = .ok [.line (Phrase.jump false target)] := by
    rw [Written.simple, hexpression]
    rfl
  have hkind := lineKind_jump h
  rw [← hline, ← hread] at hkind
  rw [← hread] at hspoken
  exact (Simple.readsBack_iff hspoken hwritten hkind).mpr rfl

-- ================================================================ calls

namespace Grammar

/-- The label to come back to behind the word for it, or nothing. -/
def fromPart (label : Option String) : List Char :=
  match label with
  | some l => ' ' :: ("from".toList ++ ' ' :: l.toList)
  | none => []

/-- A label, arguments in parentheses and a label to come back to. -/
def callPart (target : String) (o : Option (List String))
    (label : Option String) : List Char :=
  target.toList ++ bracketed ((items o).map String.toList) ++ fromPart label

/-- A call of a named label. -/
theorem toList_call (target : String) (o : Option (List String))
    (label : Option String) :
    (Phrase.call target (argumentRow o) label).toList
      = "call".toList ++ ' ' :: callPart target o label := by
  have hcall : Phrase.call target (argumentRow o) label
      = Phrase.row ("call" :: (argumentRow o).elim target
          (target ++ "(" ++ · ++ ")") :: Phrase.clause "from" label) := by
    cases argumentRow o <;> rfl
  have hhead : ((argumentRow o).elim target (target ++ "(" ++ · ++ ")")).toList
      = target.toList ++ bracketed ((items o).map String.toList) := by
    unfold argumentRow bracketed
    rw [List.isEmpty_map]
    by_cases hempty : (items o).isEmpty = true
    · simp [hempty]
    · simp [hempty, toList_joinArguments]
  rw [hcall, callPart, ← hhead]
  cases label <;>
    simp [Phrase.clause, Phrase.row, fromPart, String.intercalate_cons_cons]

section

variable {target : String} {o : Option (List String)} {label : Option String}
  (ht : LabelName target.toList) (hl : ∀ l ∈ label, Dotted l.toList)

/-- A name with arguments ends tidily. -/
theorem endsInk_target (ht : LabelName target.toList)
    (o : Option (List String)) :
    EndsInk (target.toList ++ bracketed ((items o).map String.toList)) := by
  by_cases hb : bracketed ((items o).map String.toList) = []
  · rw [hb, List.append_nil]
    exact ht.tidy.ends
  · exact (endsInk_bracketed _).append hb

theorem getLast?_bracketed {as : List (List Char)} (h : bracketed as ≠ []) :
    (bracketed as).getLast? = some ')' := by
  unfold bracketed at h ⊢
  split at h
  · exact absurd rfl h
  · rw [if_neg ‹_›, ← List.cons_append, List.getLast?_concat]

/-- What is written behind the target of a call does not go on with its name. -/
theorem stops_behind_target (o : Option (List String)) (label : Option String) :
    Stops isDottedChar
      (bracketed ((items o).map String.toList) ++ fromPart label) := by
  by_cases hb : bracketed ((items o).map String.toList) = []
  · rw [hb, List.nil_append]
    cases label with
    | none => exact stops_nil _
    | some l => exact stops_of_blank (by decide)
  · obtain ⟨c, cs, hcs⟩ := List.exists_cons_of_ne_nil hb
    have hstop := (stops_bracketed ((items o).map String.toList)).1
    rw [hcs] at hstop ⊢
    exact hstop

include ht hl

theorem tidy_callPart : Tidy (callPart target o label) := by
  have hne := ht.tidy.ne_nil
  refine ⟨by simp [callPart, hne], ?_, ?_⟩
  · rw [callPart, List.append_assoc]
    exact ht.tidy.starts.append hne
  · cases label with
    | none =>
        rw [callPart, fromPart, List.append_nil]
        exact endsInk_target ht o
    | some l =>
        have hlabel := (hl l rfl).tidy
        have hfrom : EndsInk (fromPart (some l)) :=
          endsInk_word (' ' :: "from".toList) hlabel.ends hlabel.ne_nil
        exact hfrom.append (by simp [fromPart])

/-- No other label to come back to is found than the one that was written:
arguments end in a parenthesis, and a name has no white space in it. -/
theorem fromClause_written :
    fromClause (callPart target o label)
      = (target.toList ++ bracketed ((items o).map String.toList), label) := by
  cases label with
  | some l =>
      refine fromClause_eq_some.mpr ⟨[' '], [' '], by simp, blanks_space,
        by simp, blanks_space, endsInk_target ht o, hl l rfl, ?_⟩
      rw [callPart, fromPart]
      rfl
  | none =>
      rw [callPart, fromPart, List.append_nil]
      generalize hcs : target.toList
        ++ bracketed ((items o).map String.toList) = cs
      cases hfrom : fromClause cs with
      | mk r found =>
          cases found with
          | none => rw [fromClause_eq_none hfrom]
          | some l =>
              obtain ⟨as, bs, hane, has, -, -, -, hdotted, hline⟩ :=
                fromClause_eq_some.mp hfrom
              -- A clause was found where none was written. It would have to end
              -- the call, and with arguments the call ends with a bracket,
              -- without them with a name that has no blank.
              exfalso
              by_cases hb : bracketed ((items o).map String.toList) = []
              · obtain ⟨a, as, rfl⟩ := List.exists_cons_of_ne_nil hane
                rw [hb, List.append_nil] at hcs
                have hink := ink_of_labelName ht a (by simp [hcs, hline])
                rw [has a List.mem_cons_self] at hink
                cases hink
              · have hlast : cs.getLast? = some ')' := by
                  rw [← hcs, List.getLast?_append_of_ne_nil _ hb]
                  exact getLast?_bracketed hb
                have hback : cs = (r ++ as ++ "from".toList ++ bs)
                    ++ l.toList := by
                  rw [hline]
                  simp
                rw [hback, List.getLast?_append_of_ne_nil _
                  hdotted.tidy.ne_nil] at hlast
                exact absurd (hdotted.all _ (List.mem_of_getLast? hlast))
                  (by decide)

omit hl in
/-- A label of any other name is not taken for a computed one, and neither is
that name where something stands behind it that is no white space. -/
theorem afterKeyword?_expression
    (h : target = "expression" → items o = [] → label = none) :
    afterKeyword? "expression" (callPart target o label) = none := by
  cases hk : keyword? "expression" (callPart target o label) with
  | none => rw [afterKeyword?, hk]
  | some rest =>
      exfalso
      obtain ⟨bs, hne, hbs, -, hline⟩ := keyword?_eq_some.mp hk
      obtain ⟨b, bs, rfl⟩ := List.exists_cons_of_ne_nil hne
      have hblank : isBlank b = true := hbs b List.mem_cons_self
      rw [callPart, List.append_assoc, List.cons_append] at hline
      -- The name goes as far as it can on both sides, so it is that word.
      have hstop := stops_behind_target o label
      have hstop' : Stops isDottedChar (b :: (bs ++ rest)) :=
        stops_of_blank hblank
      have hword : ∀ c ∈ "expression".toList, isDottedChar c = true := by decide
      have hname := congrArg (List.takeWhile isDottedChar) hline
      rw [takeWhile_stop ht.all hstop, takeWhile_stop hword hstop'] at hname
      rw [hname] at hline
      have htail := List.append_cancel_left hline
      have hitems : items o = [] := by
        by_contra hitems
        have hnone : (items o).isEmpty = false := by simpa using hitems
        rw [bracketed, List.isEmpty_map, hnone] at htail
        obtain ⟨rfl, -⟩ := List.cons.inj htail
        cases hblank
      rw [h (String.toList_inj.mp hname) hitems, hitems] at htail
      cases htail

omit ht hl in
/-- A line that the rule for calls takes is a call. -/
theorem lineKind_of_call? {cs : List Char} {s : Simple} (h : Tidy cs)
    (hcall : call? ("call".toList ++ ' ' :: cs) = some s) :
    lineKind ("call".toList ++ ' ' :: cs) = .simple s := by
  have hname : Name "call".toList :=
    ⟨'c', "all".toList, rfl, by decide, by decide⟩
  refine lineKind_word hname (by decide) ?_
  simp only [keywordKind?, trimEnd_of_ink (endsInk_word _ h.ends h.ne_nil),
    hcall]
  rfl

/-- The line of a call is taken for it, where the name is not in the way. -/
theorem lineKind_call (ho : Parameters o)
    (h : target = "expression" → items o = [] → label = none) :
    lineKind ("call".toList ++ ' ' :: callPart target o label)
      = .simple (.call ⟨target, presentItems o, none, label⟩) := by
  have htidy := tidy_callPart ht hl (o := o)
  obtain ⟨hstop, hink⟩ := stops_bracketed ((items o).map String.toList)
  have hlist : presentList ((items o).map String.toList) = presentItems o := by
    rw [presentList, presentItems, List.isEmpty_map, map_ofList_toList]
  have hlabel : callLabel?
      (target.toList ++ bracketed ((items o).map String.toList)) label
        = some (.call ⟨target, presentItems o, none, label⟩) := by
    simp only [callLabel?, labelName?_eq_some.mpr ⟨ht, hstop, rfl⟩,
      trimStart_of_ink hink, arguments?_bracketed ho.argument, hlist,
      Option.bind_eq_bind, Option.bind_some, String.ofList_toList]
  refine lineKind_of_call? htidy ?_
  simp only [call?, afterKeyword?_space "call" htidy,
    afterKeyword?_expression ht h, fromClause_written ht hl, hlabel,
    Option.bind_eq_bind, Option.bind_some]

end

/-- A label to come back to is not found where no target stands before it. -/
theorem fromClause_from {l : List Char} (hl : Dotted l) :
    fromClause ("from".toList ++ ' ' :: l)
      = ("from".toList ++ ' ' :: l, none) := by
  have hink : ∀ c ∈ l.reverse, (!isBlank c) = true := fun c hc => by
    rw [isBlank_of_isDottedChar (hl.all c (List.mem_reverse.mp hc))]
    rfl
  have hstop : ∀ c ∈ (' ' :: "from".toList.reverse).head?,
      (!isBlank c) = false := by
    rintro c ⟨⟩
    decide
  have hrev : ("from".toList ++ ' ' :: l).reverse
      = l.reverse ++ ' ' :: "from".toList.reverse := by simp
  have hword : blanks? (' ' :: "from".toList.reverse)
      = some "from".toList.reverse := by decide
  have hnothing : after? "from".toList.reverse "from".toList.reverse
      = some [] := after?_append _ []
  have hend : blanks? [] = none := rfl
  simp only [fromClause, hrev, dropWhile_stop hink hstop, hword, hnothing,
    hend, Option.bind_eq_bind, Option.bind_some, Option.bind_none]

/-- Called without arguments and with a label to come back to, a label with the
name `expression` is taken for a computed one. -/
theorem lineKind_call_expression {l : String} {o : Option (List String)}
    (hl : Dotted l.toList) (ho : items o = []) :
    lineKind ("call".toList ++ ' ' :: callPart "expression" o (some l))
      = .simple (.call ⟨"from " ++ l, none, some true, none⟩) := by
  have hfrom : Tidy ("from".toList ++ ' ' :: l.toList) :=
    ⟨by simp, startsInk_cons.mpr (by decide),
      endsInk_word _ hl.tidy.ends hl.tidy.ne_nil⟩
  have hpart : callPart "expression" o (some l)
      = "expression".toList ++ ' ' :: ("from".toList ++ ' ' :: l.toList) := by
    rw [callPart, ho]
    exact congrArg (· ++ fromPart (some l)) (List.append_nil _)
  have hexpression : Tidy (callPart "expression" o (some l)) := by
    rw [hpart]
    exact ⟨by simp, startsInk_cons.mpr (by decide),
      endsInk_word _ hfrom.ends hfrom.ne_nil⟩
  have hlast : ("from".toList ++ ' ' :: l.toList).getLast? ≠ some ')' := by
    rw [← List.singleton_append, ← List.append_assoc,
      List.getLast?_append_of_ne_nil _ hl.tidy.ne_nil]
    intro hlast
    exact absurd (hl.all _ (List.mem_of_getLast? hlast)) (by decide)
  have htarget : String.ofList ("from".toList ++ ' ' :: l.toList)
      = "from " ++ l := by
    rw [← String.toList_inj, String.toList_ofList, String.toList_append]
    rfl
  refine lineKind_of_call? hexpression ?_
  simp only [call?, afterKeyword?_space "call" hexpression,
    Option.bind_eq_bind, Option.bind_some]
  rw [hpart]
  simp only [afterKeyword?_space "expression" hfrom, fromClause_from hl,
    callExpression?, if_neg hlast, htarget]

end Grammar

/-- A call of a named label comes back as it was, with its arguments and the
label to come back to, but for the one name that stands in the way. -/
theorem readsBack_call_iff {c : Call} (hexpression : isSet c.expression = false)
    (htarget : LabelName c.target.toList) (harguments : Parameters c.arguments)
    (hlabel : ∀ l ∈ present c.fromLabel, Dotted l.toList) :
    (Simple.call c).ReadsBack
      ↔ (c.target = "expression" → items c.arguments = [] →
          present c.fromLabel = none) := by
  have hread : (Simple.call c).asRead = .call ⟨c.target,
      presentItems c.arguments, none, present c.fromLabel⟩ := by
    rw [Simple.asRead, isSet_eq_false hexpression]
  have hspoken : (Simple.call c).asRead.Spoken := by
    rw [hread]
    exact ⟨Or.inr ⟨rfl, htarget⟩, harguments.arguments, hlabel⟩
  have hwritten : Written.simple "" (.call c) = .ok [.line
      (Phrase.call c.target (argumentRow c.arguments) (present c.fromLabel))] := by
    rw [Written.simple, hexpression]
    rfl
  -- The one call that is taken for another is that of a label of this name,
  -- without arguments and with a label to return to.
  by_cases h : c.target = "expression" → items c.arguments = [] →
      present c.fromLabel = none
  · have hkind := lineKind_call htarget hlabel harguments h
    rw [← toList_call, ← hread] at hkind
    exact iff_of_true
      ((Simple.readsBack_iff hspoken hwritten hkind).mpr rfl) h
  · refine iff_of_false ?_ h
    push Not at h
    obtain ⟨hname, hitems, hsome⟩ := h
    obtain ⟨l, hl⟩ := Option.ne_none_iff_exists'.mp hsome
    have hkind := lineKind_call_expression (hlabel l hl) hitems
    rw [← hname, ← hl, ← toList_call] at hkind
    intro hback
    have hsame := (Simple.readsBack_iff hspoken hwritten hkind).mp hback
    rw [hread] at hsame
    injection hsame with hsame
    injection hsame with _ _ hcomputed
    cases hcomputed

/-- The name in the way: a target with the name of the word for expressions, and
nothing between it and the label to come back to. The line reads as a call of an
expression. -/
theorem not_readsBack_call_expression :
    ¬ (Simple.call
        { target := "expression", fromLabel := some "here" }).ReadsBack := by
  have hname : ∀ w ∈ ["expression", "here"], Dotted w.toList := by
    intro w hw
    simp only [List.mem_cons, List.not_mem_nil, or_false] at hw
    rcases hw with rfl | rfl
    · exact ⟨'e', "xpression".toList, rfl, by decide, by decide⟩
    · exact ⟨'h', "ere".toList, rfl, by decide, by decide⟩
  intro hback
  have hfree := (readsBack_call_iff rfl (Or.inl (hname _ (by simp)))
    (by simp [Parameters, items]) (by
      rintro l ⟨⟩
      exact hname _ (by simp))).mp hback
  exact absurd (hfree rfl rfl) (by decide)

end NovelScript
