/-
What one line can say. `Simple.Spoken` lists, kind by kind, what is known of the
fields of a statement that a rule made from a line: names are names, what stands
at the end of a line is tidy, lists are there or absent but never empty, and
every word comes from the short list of its place. Each rule then has one lemma,
and `spoken_lineKind` puts them together: whatever a line is taken for, it is
spoken, or it is the line `pass` itself.

# What it is for

It is all that later proofs use of the rules for single lines. What is spoken
can be written on one line again (`Proofs/Grammar/Worded`), be made by hand
(`Proofs/Draft/Making`) and be saved (`Proofs/Reading/Savable`), and none of
these looks at a rule.

# The shape of the proofs

A rule is a row of steps each of which takes something from the front of what is
left of the line or gives up. The lemma about it goes through the same steps: it
splits on each, drops the case in which the rule gives up, and keeps that the
rest of the line is still the end of a line (`LineEnd`). So the fields come out
tidy for two reasons only, that a step took a word, or that what is left at the
end of the line was taken as it is.

The clauses of display statements and sounds are read by a recursion over words.
There the induction is on the words that are left, and what is carried along is
that the options read so far are spoken.
-/
import NovelScript.Grammar.Simple
import NovelScript.Proofs.Grammar.Audio
import NovelScript.Proofs.Grammar.Header

namespace NovelScript

open Text Grammar

-- ============================================================== fields

/-- Whether a word has a rule of its own, so that it is no speaker. -/
def Grammar.isRuled (word : String) : Bool :=
  compoundWords.contains word || (keywordKind? word []).isSome

/-- A speaker: a name that no rule claims. -/
def Speaker (s : String) : Prop := Name s.toList ∧ isRuled s = false

/-- An attribute of a speaker: word characters after an optional minus. -/
def Attribute (a : List Char) : Prop :=
  ∃ w, (a = w ∨ a = '-' :: w) ∧ w ≠ [] ∧ ∀ c ∈ w, isWordChar c = true

/-- A number that a numeral stands for. -/
def ReadNumber (n : Number) : Prop :=
  ∃ cs m, Numeral.read? cs = some m ∧ n = m.toNumber

/-- A flag that is raised or unsaid. -/
def Raised (flag : Option Bool) : Prop := flag = none ∨ flag = some true

/-- A word of a clause. -/
def ClauseWord (w : String) : Prop :=
  Inline w.toList ∧ beginsClause w = false

/-- What a clause says: words in a row. -/
def ClauseValue (v : String) : Prop :=
  ∃ ws, ws ≠ [] ∧ v = String.intercalate " " ws ∧ ∀ w ∈ ws, ClauseWord w

/-- What is known of a line that is said: who may say it, and what its
attributes, its arguments and its transition look like. The text may be any
text. -/
structure Dialogue.Spoken (d : Dialogue) : Prop where
  /-- The speaker is one. -/
  speaker : ∀ s ∈ d.speaker, Speaker s
  /-- The attributes are some. -/
  attributes : ∀ as ∈ d.attributes,
    as ≠ [] ∧ ∀ a ∈ as, Attribute a.toList
  /-- The transition is tidy. -/
  transition : ∀ t ∈ d.transition, Inline t.toList
  /-- The arguments are some. -/
  arguments : Arguments d.arguments
  /-- Only a line without speaker continues another. -/
  extend : d.extend = none ∨ d.extend = some true ∧ d.speaker = none
  /-- Attributes are somebody's. -/
  somebody : d.attributes ≠ none →
    d.speaker ≠ none ∨ d.extend = some true

/-- What is known of the clauses of a display statement: attributes, a tag and a
layer are single words, and a place, images in front and a transition are words
in a row. -/
structure DisplayOptions.Spoken (o : DisplayOptions) : Prop where
  /-- The attributes are some. -/
  attributes : ∀ as ∈ o.attributes, as ≠ [] ∧ ∀ a ∈ as, ClauseWord a
  /-- The tag is one word. -/
  asTag : ∀ v ∈ o.asTag, ClauseWord v
  /-- The place is a row of words. -/
  atPosition : ∀ v ∈ o.atPosition, ClauseValue v
  /-- The images in front are a row of words. -/
  behind : ∀ v ∈ o.behind, ClauseValue v
  /-- The layer is one word. -/
  layer : ∀ v ∈ o.layer, ClauseWord v
  /-- The transition is a row of words. -/
  transition : ∀ v ∈ o.transition, ClauseValue v

/-- What is known of a call. The target is a name, or the text of an expression
up to its arguments and the label to come back to. -/
structure Call.Spoken (c : Call) : Prop where
  /-- The target is a label, or an expression that is tidy. -/
  target : c.expression = some true ∧ Inline c.target.toList
    ∨ c.expression = none ∧ LabelName c.target.toList
  /-- The arguments are some. -/
  arguments : Arguments c.arguments
  /-- The label to come back to is a name. -/
  fromLabel : ∀ l ∈ c.fromLabel, Dotted l.toList

/-- What is known of the options of a sound: numbers that numerals stand for,
and flags that are raised or unsaid. -/
structure AudioOptions.Spoken (o : AudioOptions) : Prop where
  /-- The numbers were read. -/
  fadeIn : ∀ n ∈ o.fadeIn, ReadNumber n
  /-- The numbers were read. -/
  fadeOut : ∀ n ∈ o.fadeOut, ReadNumber n
  /-- The numbers were read. -/
  volume : ∀ n ∈ o.volume, ReadNumber n
  /-- The flag is raised or unsaid. -/
  ifChanged : Raised o.ifChanged

/-- What is known of a statement that one line said. Code that one line says has
no flags and is no assignment, and raw text is not said at all. -/
def Simple.Spoken : Simple → Prop
  | .say d => d.Spoken
  | .display _ image o =>
    isImage image.toList = true ∧ image ≠ "expression" ∧ o.Spoken
  | .transition name => Inline name.toList
  | .jump target expression =>
    expression = some true ∧ Inline target.toList
      ∨ expression = none ∧ LabelName target.toList
  | .call c => c.Spoken
  | .giveBack value => ∀ v ∈ value, Inline v.toList
  | .assign target value operator =>
    Dotted target.toList ∧ Inline value.toList ∧ operator ∈ assignOperators
  | .code c =>
    Inline c.code.toList ∧ assignment? c.code.toList = none
      ∧ c.early = none ∧ c.hide = none ∧ c.init = none
  | .define name value store =>
    Name name.toList ∧ Inline value.toList
      ∧ ∀ s ∈ store, Dotted s.toList
  | .default name value => Dotted name.toList ∧ Inline value.toList
  | .play channel _ o =>
    channel ∈ channels ∧ o.Spoken ∧ Raised o.queue
  | .stop channel fadeOut =>
    channel ∈ channels ∧ ∀ n ∈ fadeOut, ReadNumber n
  | .pause duration => ∀ n ∈ duration, ReadNumber n
  | .nvl action => action ∈ nvlActions
  | .raw _ => False

namespace Grammar

variable {cs : List Char} {s : Simple}

-- ================================================================ flow

theorem spoken_jump? (hl : LineEnd cs) (h : jump? cs = some s) :
    s.Spoken := by
  simp only [jump?, Option.bind_eq_bind, Option.bind_eq_some_iff] at h
  obtain ⟨rest, hk, h⟩ := h
  have hrest := hl.of_suffix (keyword?_suffix hk)
  split at h
  · next target htarget =>
    obtain rfl := Option.some.inj h
    refine Or.inl ⟨rfl, ?_⟩
    rw [String.toList_ofList]
    exact inline_of_afterKeyword? hrest htarget
  · split at h
    · next target hname =>
      obtain rfl := Option.some.inj h
      refine Or.inr ⟨rfl, ?_⟩
      rw [String.toList_ofList]
      exact (labelName?_eq_some.mp hname).1
    · cases h

theorem spoken_giveBack? (hl : LineEnd cs) (h : giveBack? cs = some s) :
    s.Spoken := by
  simp only [giveBack?, Option.bind_eq_bind, Option.bind_eq_some_iff] at h
  obtain ⟨rest, ha, h⟩ := h
  split at h
  · obtain rfl := Option.some.inj h
    intro v hv
    cases hv
  · simp only [Option.bind_eq_some_iff] at h
    obtain ⟨value, hb, h⟩ := h
    obtain rfl := Option.some.inj h
    intro v hv
    obtain rfl := Option.some.inj hv
    rw [String.toList_ofList]
    exact (hl.of_suffix (after?_suffix ha)).inline_of_blanks? hb

theorem spoken_transition? (hl : LineEnd cs)
    (h : transition? cs = some s) : s.Spoken := by
  rw [transition?, Option.map_eq_some_iff] at h
  obtain ⟨name, hname, rfl⟩ := h
  show Inline _
  rw [String.toList_ofList]
  exact inline_of_afterKeyword? hl hname

/-- A call is split in front of the word `from` and a label, if its last
words are these. -/
theorem fromClause_eq_some {cs r : List Char} {l : String} :
    fromClause cs = (r, some l)
      ↔ ∃ as bs, as ≠ [] ∧ Blanks as ∧ bs ≠ [] ∧ Blanks bs ∧ EndsInk r
          ∧ Dotted l.toList
          ∧ cs = r ++ (as ++ ("from".toList ++ (bs ++ l.toList))) := by
  constructor
  · intro h
    -- The rule reads the call from its end: a name, blanks, the word backwards,
    -- blanks.
    simp only [fromClause] at h
    split at h
    · next split hsplit =>
      obtain ⟨rfl, hl⟩ := Prod.mk.inj h
      obtain rfl := Option.some.inj hl
      simp only [Option.bind_eq_bind, Option.bind_eq_some_iff] at hsplit
      obtain ⟨r1, h1, r2, h2, r3, h3, h⟩ := hsplit
      split at h
      · next label hlabel =>
        obtain rfl := Option.some.inj h
        obtain ⟨hdot, -, hlab⟩ := dotted?_eq_some.mp hlabel
        obtain ⟨bs, hbne, hbs, -, hr1⟩ := blanks?_eq_some.mp h1
        obtain rfl := after?_eq_some.mp h2
        obtain ⟨as, hane, has, hstart, rfl⟩ := blanks?_eq_some.mp h3
        rw [List.append_nil] at hlab
        refine ⟨as.reverse, bs.reverse, by simpa using hane, has.reverse,
          by simpa using hbne, hbs.reverse, endsInk_reverse.mpr hstart, ?_,
          ?_⟩
        · rw [String.toList_ofList, hlab]
          exact hdot
        · have hback := List.takeWhile_append_dropWhile
            (p := fun c => !isBlank c) (l := cs.reverse)
          rw [hr1] at hback
          have hcs := congrArg List.reverse hback
          rw [List.reverse_append, hlab, List.reverse_reverse] at hcs
          rw [String.toList_ofList, hlab, ← hcs]
          simp
      · cases h
    · cases (Prod.mk.inj h).2
  · rintro ⟨as, bs, hane, has, hbne, hbs, hr, hdot, rfl⟩
    have hink : ∀ c ∈ l.toList.reverse, (!isBlank c) = true := by
      intro c hc
      rw [isBlank_of_isDottedChar (hdot.all c (List.mem_reverse.mp hc))]
      rfl
    have hstop : ∀ c ∈ (bs.reverse ++ ("from".toList.reverse
        ++ (as.reverse ++ r.reverse))).head?, (!isBlank c) = false := by
      intro c hc
      cases hb : bs.reverse with
      | nil => exact absurd (List.reverse_eq_nil_iff.mp hb) hbne
      | cons b more =>
          rw [hb] at hc
          obtain rfl : b = c := by simpa using hc
          have := hbs b (List.mem_reverse.mp (by rw [hb]; simp))
          rw [this]
          rfl
    -- Backwards the parts stand in the order in which the rule takes them.
    have hrev : (r ++ (as ++ ("from".toList ++ (bs ++ l.toList)))).reverse
        = l.toList.reverse ++ (bs.reverse ++ ("from".toList.reverse
            ++ (as.reverse ++ r.reverse))) := by
      simp
    have hb1 : blanks? (bs.reverse ++ ("from".toList.reverse
        ++ (as.reverse ++ r.reverse)))
          = some ("from".toList.reverse ++ (as.reverse ++ r.reverse)) :=
      blanks?_eq_some.mpr ⟨_, by simpa using hbne, hbs.reverse,
        startsInk_cons.mpr (by decide), rfl⟩
    have hb2 : blanks? (as.reverse ++ r.reverse) = some r.reverse :=
      blanks?_eq_some.mpr ⟨_, by simpa using hane, has.reverse,
        startsInk_reverse.mpr hr, rfl⟩
    have hd : dotted? l.toList = some (l.toList, []) :=
      dotted?_eq_some.mpr ⟨hdot, stops_nil _, by simp⟩
    simp only [fromClause, hrev, takeWhile_stop hink hstop,
      dropWhile_stop hink hstop, hb1, List.reverse_reverse,
      Option.bind_eq_bind, Option.bind_some, after?_append, hb2, hd,
      String.ofList_toList]

theorem fromClause_eq_none {cs r : List Char}
    (h : fromClause cs = (r, none)) : r = cs := by
  simp only [fromClause] at h
  split at h
  · cases (Prod.mk.inj h).2
  · exact (Prod.mk.inj h).1.symm

/-- What is left of a call in front of the label to come back to is there
and tidy, like the call. -/
theorem inline_fromClause (hi : Inline cs) :
    Inline (fromClause cs).1 ∧ ∀ l ∈ (fromClause cs).2, Dotted l.toList := by
  cases h : fromClause cs with
  | mk r label =>
      cases label with
      | none =>
          obtain rfl := fromClause_eq_none h
          exact ⟨hi, by simp⟩
      | some l =>
          obtain ⟨as, bs, hane, has, -, -, hr, hdot, hcs⟩ :=
            fromClause_eq_some.mp h
          have hne : r ≠ [] := by
            rintro rfl
            have hstart := hi.tidy.starts
            cases as with
            | nil => exact hane rfl
            | cons a as =>
                rw [hcs] at hstart
                have := startsInk_cons.mp hstart
                rw [has a List.mem_cons_self] at this
                cases this
          have hpre : r <+: cs := ⟨_, hcs.symm⟩
          refine ⟨⟨⟨hne, hi.tidy.starts.of_isPrefix hpre, hr⟩,
            hi.unbroken.subset fun c hc => hpre.subset hc⟩, ?_⟩
          intro l' hl'
          obtain rfl := Option.some.inj hl'
          exact hdot

theorem passArguments?_eq_some {cs brackets : List Char}
    (h : passArguments? cs = some brackets) :
    ∃ bs inner, Blanks bs ∧ brackets = '(' :: inner
      ∧ cs = "pass".toList ++ (bs ++ brackets) := by
  unfold passArguments? at h
  split at h
  · next rest hrest =>
    obtain rfl := Option.some.inj h
    obtain ⟨after, ha, ht⟩ := Option.map_eq_some_iff.mp hrest
    obtain ⟨bs, hbs, hafter⟩ := blanks_append_trimStart after
    rw [ht] at hafter
    refine ⟨bs, rest, hbs, rfl, ?_⟩
    rw [after?_eq_some.mp ha, ← hafter]
  · cases h

/-- The text in front of a clause of arguments, and the brackets in it. -/
theorem passClause?_eq_some {before cs target brackets : List Char}
    (h : passClause? before cs = some (target, brackets)) :
    ∃ front as bs inner, target = before.reverse ++ front ∧ as ≠ []
      ∧ Blanks as ∧ Blanks bs ∧ brackets = '(' :: inner
      ∧ cs = front ++ (as ++ ("pass".toList ++ (bs ++ brackets))) := by
  induction cs generalizing before with
  | nil => cases h
  | cons c cs ih =>
      rw [passClause?] at h
      split at h
      · next arguments hargs =>
        obtain ⟨rfl, rfl⟩ := Prod.mk.inj (Option.some.inj h)
        obtain ⟨after, hb, hp⟩ := Option.bind_eq_some_iff.mp hargs
        obtain ⟨as, hane, has, -, hcs⟩ := blanks?_eq_some.mp hb
        obtain ⟨bs, inner, hbs, rfl, rfl⟩ := passArguments?_eq_some hp
        exact ⟨[], as, bs, inner, by simp, hane, has, hbs, rfl, hcs⟩
      · obtain ⟨front, as, bs, inner, rfl, hane, has, hbs, rfl, rfl⟩ := ih h
        exact ⟨c :: front, as, bs, inner, by simp, hane, has, hbs, rfl, rfl⟩

theorem spoken_callExpression? {rest : List Char} {label : Option String}
    (hi : Inline rest) (hlabel : ∀ l ∈ label, Dotted l.toList)
    (h : callExpression? rest label = some s) : s.Spoken := by
  unfold callExpression? at h
  split at h
  · next target brackets hp =>
    rw [Option.map_eq_some_iff] at h
    obtain ⟨as, has, rfl⟩ := h
    split at hp
    · obtain ⟨front, cs, bs, inner, rfl, hcne, hcs, -, rfl, rfl⟩ :=
        passClause?_eq_some hp
      refine ⟨Or.inl ⟨rfl, ?_⟩, arguments_presentList
        (argument_of_mem_balancedArguments? (hi.unbroken.subset ?_) has),
        hlabel⟩
      · have htarget : target ≠ [] := by
          -- The line does not begin with the white space behind it.
          rintro rfl
          have hstart := hi.tidy.starts
          cases cs with
          | nil => exact hcne rfl
          | cons c cs =>
              have := startsInk_cons.mp hstart
              rw [hcs c List.mem_cons_self] at this
              cases this
        have hstart : StartsInk target :=
          hi.tidy.starts.of_isPrefix (List.prefix_append _ _)
        show Inline (String.ofList (trimEnd target)).toList
        rw [String.toList_ofList]
        refine ⟨⟨?_, hstart.of_isPrefix (trimEnd_isPrefix _),
          endsInk_trimEnd _⟩, ?_⟩
        · intro hnil
          have hblank := trimEnd_eq_nil.mp hnil
          cases target with
          | nil => exact htarget rfl
          | cons c target =>
              have := startsInk_cons.mp hstart
              rw [hblank c List.mem_cons_self] at this
              cases this
        · exact hi.unbroken.subset fun c hc =>
            List.mem_append_left _ ((trimEnd_isPrefix _).subset hc)
      · intro c hc
        simp [hc]
    · cases hp
  · obtain rfl := Option.some.inj h
    refine ⟨Or.inl ⟨rfl, ?_⟩, (by simp [Arguments]), hlabel⟩
    show Inline (String.ofList rest).toList
    rw [String.toList_ofList]
    exact hi

theorem spoken_callLabel? {rest : List Char} {label : Option String}
    (hi : Inline rest) (hlabel : ∀ l ∈ label, Dotted l.toList)
    (h : callLabel? rest label = some s) : s.Spoken := by
  simp only [callLabel?, Option.bind_eq_bind, Option.bind_eq_some_iff,
    Prod.exists] at h
  obtain ⟨target, after, hname, as, has, h⟩ := h
  obtain rfl := Option.some.inj h
  obtain ⟨htarget, -, rfl⟩ := labelName?_eq_some.mp hname
  refine ⟨Or.inr ⟨rfl, ?_⟩, arguments_of_arguments?
    (hi.unbroken.subset ?_) has, hlabel⟩
  · show LabelName (String.ofList target).toList
    rw [String.toList_ofList]
    exact htarget
  · exact fun c hc => List.mem_append_right _
      ((trimStart_suffix after).subset hc)

theorem spoken_call? (hl : LineEnd cs) (h : call? cs = some s) :
    s.Spoken := by
  simp only [call?, Option.bind_eq_bind, Option.bind_eq_some_iff] at h
  obtain ⟨rest, hk, h⟩ := h
  have hrest := inline_of_afterKeyword? hl hk
  split at h
  · next target htarget =>
    have htarget := inline_of_afterKeyword?
      (hl.of_suffix (afterKeyword?_suffix hk)) htarget
    obtain ⟨hfront, hlabel⟩ := inline_fromClause htarget
    exact spoken_callExpression? hfront hlabel h
  · obtain ⟨hfront, hlabel⟩ := inline_fromClause hrest
    exact spoken_callLabel? hfront hlabel h

-- ================================================================ code

theorem valueAfterEquals?_spec {cs value : List Char} (hl : LineEnd cs)
    (h : valueAfterEquals? cs = some value) :
    Inline value ∧ ∃ bs, Blanks bs ∧ cs = '=' :: (bs ++ value)
      ∧ (bs ++ value).head? ≠ some '=' := by
  unfold valueAfterEquals? at h
  split at h
  · next cs =>
    split at h
    · cases h
    · next heq =>
      obtain ⟨bs, hbs, hcs⟩ := blanks_append_trimStart cs
      have hstart := startsInk_trimStart cs
      revert h hcs hstart
      cases trimStart cs with
      | nil => intro h; cases h
      | cons v vs =>
          intro h hcs hstart
          simp only at h
          split at h
          · obtain rfl := Option.some.inj h
            subst hcs
            exact ⟨(hl.of_suffix ⟨'=' :: bs, rfl⟩).inline (by simp) hstart,
              bs, hbs, rfl, heq⟩
          · cases h
  · cases h

theorem operator?_spec {operator value : List Char} (hl : LineEnd cs)
    (h : operator? cs = some (operator, value)) :
    Inline value ∧ String.ofList operator ∈ assignOperators := by
  cases cs with
  | nil => cases h
  | cons c cs =>
      rw [operator?] at h
      split at h
      · next hc =>
        rw [Option.map_eq_some_iff] at h
        obtain ⟨value', hv, he⟩ := h
        obtain ⟨rfl, rfl⟩ := Prod.mk.inj he
        refine ⟨(valueAfterEquals?_spec (hl.of_suffix ⟨[c], rfl⟩) hv).1, ?_⟩
        simp only [Bool.or_eq_true, decide_eq_true_eq] at hc
        rcases hc with ((rfl | rfl) | rfl) | rfl
        · decide
        · decide
        · decide
        · decide
      · rw [Option.map_eq_some_iff] at h
        obtain ⟨value', hv, he⟩ := h
        obtain ⟨rfl, rfl⟩ := Prod.mk.inj he
        exact ⟨(valueAfterEquals?_spec hl hv).1, by decide⟩

theorem assignment?_spec {target value operator : List Char}
    (hl : LineEnd cs)
    (h : assignment? cs = some (target, value, operator)) :
    Dotted target ∧ Inline value
      ∧ String.ofList operator ∈ assignOperators := by
  simp only [assignment?, Option.bind_eq_bind, Option.bind_eq_some_iff,
    Prod.exists, Option.some.injEq, Prod.mk.injEq] at h
  obtain ⟨t, rest, hd, o, v, ho, rfl, rfl, rfl⟩ := h
  have hrest := hl.of_suffix ((trimStart_suffix rest).trans
    (dotted?_suffix hd))
  exact ⟨(dotted?_eq_some.mp hd).1, operator?_spec hrest ho⟩

theorem spoken_dollar? (hl : LineEnd cs) (h : dollar? cs = some s) :
    s.Spoken := by
  have htail : LineEnd cs.tail := hl.of_suffix (List.tail_suffix cs)
  have htrim := htail.trim
  unfold dollar? at h
  split at h
  · cases h
  · next hne =>
    split at h
    · next target value operator ha =>
      obtain rfl := Option.some.inj h
      obtain ⟨htarget, hvalue, hoperator⟩ := assignment?_spec htrim ha
      refine ⟨?_, ?_, hoperator⟩
      · rw [String.toList_ofList]
        exact htarget
      · rw [String.toList_ofList]
        exact hvalue
    · next ha =>
      obtain rfl := Option.some.inj h
      refine ⟨?_, ?_, rfl, rfl, rfl⟩
      · rw [String.toList_ofList]
        exact ⟨tidy_trim fun h => hne h, htrim.unbroken⟩
      · rw [String.toList_ofList]
        exact ha

/-- Names with dots between them are a dotted name. -/
theorem dotted_joined {parts : List (List Char)} (hne : parts ≠ [])
    (h : ∀ p ∈ parts, Name p) : Dotted (joined ['.'] parts) := by
  induction parts with
  | nil => exact absurd rfl hne
  | cons p more ih =>
      have hp := (h p List.mem_cons_self).dotted
      cases more with
      | nil => exact hp
      | cons q more =>
          obtain ⟨c, ws, rfl, hc, hws⟩ := hp
          have hmore := (ih (by simp)
            fun r hr => h r (List.mem_cons_of_mem _ hr)).all
          refine ⟨c, ws ++ '.' :: joined ['.'] (q :: more), by simp [joined],
            hc, ?_⟩
          intro w hw
          rcases List.mem_append.mp hw with hw | hw
          · exact hws w hw
          · rcases List.mem_cons.mp hw with rfl | hw
            · decide
            · exact hmore w hw

theorem path?_spec {parts : List (List Char)} (h : path? cs = some parts) :
    parts = splitAt '.' cs ∧ ∀ p ∈ parts, Name p := by
  simp only [path?] at h
  split at h
  · next hall =>
    obtain rfl := Option.some.inj h
    refine ⟨rfl, fun p hp => ?_⟩
    have := List.all_eq_true.mp hall p hp
    split at this
    · next w hw =>
      obtain ⟨hname, -, rfl⟩ := name?_eq_some.mp hw
      rw [List.append_nil]
      exact hname
    · cases this
  · cases h

theorem spoken_define? (hl : LineEnd cs) (h : define? cs = some s) :
    s.Spoken := by
  simp only [define?, Option.bind_eq_bind, Option.bind_eq_some_iff,
    Option.some.injEq] at h
  obtain ⟨rest, hk, parts, hp, value, hv, name, hname, rfl⟩ := h
  obtain ⟨-, hparts⟩ := path?_spec hp
  have hvalue := (valueAfterEquals?_spec (hl.of_suffix
    (((trimStart_suffix _).trans (List.dropWhile_suffix _)).trans
      (keyword?_suffix hk))) hv).1
  refine ⟨?_, ?_, ?_⟩
  · rw [String.toList_ofList]
    exact hparts name (List.mem_of_getLast? hname)
  · rw [String.toList_ofList]
    exact hvalue
  · intro store hstore
    split at hstore
    · cases hstore
    · next hne =>
      obtain rfl := Option.some.inj hstore
      rw [String.toList_ofList]
      exact dotted_joined (by simpa using hne) fun p hp =>
        hparts p ((List.dropLast_subset _) hp)

theorem spoken_default? (hl : LineEnd cs) (h : default? cs = some s) :
    s.Spoken := by
  simp only [default?, Option.bind_eq_bind, Option.bind_eq_some_iff,
    Prod.exists, Option.some.injEq] at h
  obtain ⟨rest, hk, name, rest', hname, value, hv, rfl⟩ := h
  have hvalue := (valueAfterEquals?_spec (hl.of_suffix
    (((trimStart_suffix _).trans (dotted?_suffix hname)).trans
      (keyword?_suffix hk))) hv).1
  refine ⟨?_, ?_⟩
  · rw [String.toList_ofList]
    exact (dotted?_eq_some.mp hname).1
  · rw [String.toList_ofList]
    exact hvalue

-- =============================================================== sound

theorem readNumber_of_isNumeral {cs : List Char} {n : Number}
    (h : Number.isNumeral cs = true) (hn : Number.read? cs = some n) :
    ReadNumber n := by
  obtain ⟨m, hm⟩ := Option.isSome_iff_exists.mp h
  rw [Number.read?, hm] at hn
  exact ⟨cs, m, hm, (Option.some.inj hn).symm⟩

/-- One more option of a sound, of a kind that was not there yet. -/
inductive AddsOption (o : AudioOptions) : AudioOptions → Prop where
  /-- Seconds of fading in. -/
  | fadeIn {n : Number} (hn : ReadNumber n) (ho : o.fadeIn = none) :
    AddsOption o { o with fadeIn := some n }
  /-- Seconds of fading out. -/
  | fadeOut {n : Number} (hn : ReadNumber n) (ho : o.fadeOut = none) :
    AddsOption o { o with fadeOut := some n }
  /-- The volume. -/
  | volume {n : Number} (hn : ReadNumber n) (ho : o.volume = none) :
    AddsOption o { o with volume := some n }
  /-- Whether it is repeated. -/
  | loop (b : Bool) (ho : o.loop = none) :
    AddsOption o { o with loop := some b }
  /-- Whether it goes on if it plays. -/
  | ifChanged (ho : o.ifChanged = none) :
    AddsOption o { o with ifChanged := some true }

/-- A clause of a kind that was not there yet is one more option. -/
theorem addsOption_note {o : AudioOptions} {c : AudioClause}
    (h : o.value? c.kind = none) : AddsOption o (o.note c) := by
  cases c with
  | measure m n =>
      have hn := readNumber_of_isNumeral n.isNumeral n.read
      cases m with
      | fadeIn => exact .fadeIn hn (Option.map_eq_none_iff.mp h)
      | fadeOut => exact .fadeOut hn (Option.map_eq_none_iff.mp h)
      | volume => exact .volume hn (Option.map_eq_none_iff.mp h)
  | loop on => exact .loop on (Option.map_eq_none_iff.mp h)
  | ifChanged => exact .ifChanged (Option.map_eq_none_iff.mp h)

/-- The options of a sound are read one by one. -/
theorem exists_addsOption {o o' : AudioOptions} {word : List Char}
    {more : List (List Char)}
    (h : audioOptionsFrom o (word :: more) = some o') :
    ∃ o1 rest, AddsOption o o1 ∧ rest.length ≤ more.length
      ∧ audioOptionsFrom o1 rest = some o' := by
  obtain ⟨c, rest, hwords⟩ := exists_clause h
  rw [hwords, audioOptionsFrom_clause] at h
  split at h
  · cases h
  · next hfree =>
    refine ⟨o.note c, rest, addsOption_note (by simpa using hfree), ?_, h⟩
    have hlength := congrArg List.length hwords
    have hpos := c.length_words_pos
    rw [List.length_cons, List.length_append] at hlength
    omega

theorem AddsOption.spoken {o o' : AudioOptions} (h : AddsOption o o')
    (ho : o.Spoken) : o'.Spoken := by
  have hone : ∀ {n : Number}, ReadNumber n →
      ∀ k ∈ some n, ReadNumber k := by
    intro n hn k hk
    obtain rfl := Option.some.inj hk
    exact hn
  cases h with
  | fadeIn hn _ => exact ⟨hone hn, ho.fadeOut, ho.volume, ho.ifChanged⟩
  | fadeOut hn _ => exact ⟨ho.fadeIn, hone hn, ho.volume, ho.ifChanged⟩
  | volume hn _ => exact ⟨ho.fadeIn, ho.fadeOut, hone hn, ho.ifChanged⟩
  | loop b _ => exact ⟨ho.fadeIn, ho.fadeOut, ho.volume, ho.ifChanged⟩
  | ifChanged _ => exact ⟨ho.fadeIn, ho.fadeOut, ho.volume, Or.inr rfl⟩

theorem spoken_audioOptionsFrom : ∀ (n : Nat) {o o' : AudioOptions}
    {ws : List (List Char)}, ws.length ≤ n → o.Spoken →
      audioOptionsFrom o ws = some o' → o'.Spoken := by
  intro n
  induction n with
  | zero =>
      intro o o' ws hn ho h
      obtain rfl : ws = [] := List.eq_nil_of_length_eq_zero (by omega)
      obtain rfl := Option.some.inj h
      exact ho
  | succ n ih =>
      intro o o' ws hn ho h
      cases ws with
      | nil => obtain rfl := Option.some.inj h; exact ho
      | cons word more =>
          obtain ⟨o1, rest, hadds, hlen, h⟩ := exists_addsOption h
          refine ih ?_ (hadds.spoken ho) h
          simp only [List.length_cons] at hn
          omega

theorem spoken_audioOptions? {o : AudioOptions}
    (h : audioOptions? cs = some o) : o.Spoken :=
  spoken_audioOptionsFrom _ (le_refl _)
    ⟨by simp, by simp, by simp, Or.inl rfl⟩ h

theorem channel?_spec {channel : String} {rest : List Char}
    (h : channel? cs = some (channel, rest)) :
    channel ∈ channels ∧ rest <:+ cs := by
  simp only [channel?, Option.bind_eq_bind, Option.bind_eq_some_iff,
    Prod.exists] at h
  obtain ⟨word, rest', hw, h⟩ := h
  split at h
  · next hc =>
    obtain ⟨rfl, rfl⟩ := Prod.mk.inj (Option.some.inj h)
    exact ⟨by simpa using hc, wordRun?_suffix hw⟩
  · cases h

theorem spoken_play? {queue : Bool} (h : play? queue cs = some s) :
    s.Spoken := by
  simp only [play?, sound?, Option.bind_eq_bind, Option.bind_eq_some_iff,
    Prod.exists, Option.some.injEq, Prod.mk.injEq] at h
  obtain ⟨channel, file, rest, ⟨_, -, c, _, hc, _, -, _, _, -, _, -, rfl, rfl,
    rfl⟩, o, ho, rfl⟩ := h
  have hspoken := spoken_audioOptions? ho
  refine ⟨(channel?_spec hc).1, ⟨hspoken.fadeIn, hspoken.fadeOut,
    hspoken.volume, hspoken.ifChanged⟩, ?_⟩
  cases queue
  · exact Or.inl rfl
  · exact Or.inr rfl

theorem spoken_voice? (h : voice? cs = some s) : s.Spoken := by
  simp only [voice?, Option.bind_eq_bind, Option.bind_eq_some_iff] at h
  obtain ⟨rest, -, h⟩ := h
  split at h
  · rw [Option.map_eq_some_iff] at h
    obtain ⟨file, -, rfl⟩ := h
    exact ⟨by decide, ⟨by simp, by simp, by simp, Or.inl rfl⟩, Or.inl rfl⟩
  · cases h

theorem readNumber_of_optionalNumeral? {n : Option Numeral}
    (h : optionalNumeral? cs = some n) :
    ∀ k ∈ n.map Numeral.toNumber, ReadNumber k := by
  unfold optionalNumeral? at h
  intro k hk
  split at h
  · obtain rfl := Option.some.inj h
    cases hk
  · simp only [Option.bind_eq_bind, Option.bind_eq_some_iff] at h
    obtain ⟨rest, -, m, hm, h⟩ := h
    obtain rfl := Option.some.inj h
    obtain rfl : m.toNumber = k := by simpa using hk
    exact ⟨rest, m, hm, rfl⟩

theorem spoken_stop? (h : stop? cs = some s) : s.Spoken := by
  rw [stop?, Option.map_eq_some_iff] at h
  obtain ⟨⟨channel, n⟩, hp, rfl⟩ := h
  simp only [stopParts?, Option.bind_eq_bind, Option.bind_eq_some_iff,
    Prod.exists] at hp
  obtain ⟨rest, -, channel', rest', hc, h⟩ := hp
  split at h
  · obtain ⟨rfl, rfl⟩ := Prod.mk.inj (Option.some.inj h)
    exact ⟨(channel?_spec hc).1, by simp⟩
  · simp only [Option.bind_eq_some_iff] at h
    obtain ⟨_, -, _, -, m, hm, h⟩ := h
    split at h
    · next m =>
      obtain ⟨rfl, rfl⟩ := Prod.mk.inj (Option.some.inj h)
      exact ⟨(channel?_spec hc).1, readNumber_of_optionalNumeral? hm⟩
    · cases h

theorem spoken_pause? (h : pause? cs = some s) : s.Spoken := by
  rw [pause?, Option.map_eq_some_iff] at h
  obtain ⟨n, hp, rfl⟩ := h
  simp only [pauseParts?, Option.bind_eq_bind,
    Option.bind_eq_some_iff] at hp
  obtain ⟨rest, -, hn⟩ := hp
  exact readNumber_of_optionalNumeral? hn

theorem spoken_nvl? (h : nvl? cs = some s) : s.Spoken := by
  simp only [nvl?, Option.bind_eq_bind, Option.bind_eq_some_iff] at h
  obtain ⟨rest, -, h⟩ := h
  split at h
  · next ha =>
    obtain rfl := Option.some.inj h
    show String.ofList rest ∈ nvlActions
    simpa using ha
  · cases h

-- ============================================================= display

theorem displayWords?_spec {verb : DisplayVerb} {image : String}
    {ws : List String} (hl : LineEnd cs)
    (h : displayWords? verb cs = some (image, ws)) :
    isImage image.toList = true ∧ image ≠ "expression"
      ∧ ∀ w ∈ ws, Inline w.toList := by
  unfold displayWords? at h
  split at h
  · cases h
  · simp only [Option.bind_eq_bind, Option.bind_eq_some_iff] at h
    obtain ⟨rest, hk, h⟩ := h
    have hrest := inline_of_afterKeyword? hl hk
    split at h
    · cases h
    · next i more hwords =>
      split at h
      · cases h
      · next hi =>
        obtain ⟨rfl, rfl⟩ := Prod.mk.inj (Option.some.inj h)
        simp only [Bool.or_eq_true, decide_eq_true_eq, Bool.not_eq_true',
          not_or, Bool.not_eq_false] at hi
        refine ⟨by rw [String.toList_ofList]; exact hi.2, ?_, ?_⟩
        · intro he
          exact hi.1 (by rw [← he, String.toList_ofList])
        · intro w hw
          obtain ⟨v, hv, rfl⟩ := List.mem_map.mp hw
          have hmem : v ∈ words rest := by
            rw [hwords]
            exact List.mem_cons_of_mem i hv
          rw [String.toList_ofList]
          exact ⟨tidy_of_mem_words hrest.tidy.ends hmem,
            hrest.unbroken.subset (subset_of_mem_words hmem)⟩

/-- What is known of a clause that was read. -/
def ReadClause (clause : String × String) : Prop :=
  ClauseValue clause.2
    ∧ (clause.1 ∈ oneWordClauses → ClauseWord clause.2)

theorem readClause_of_mem {done clauses : List (String × String)}
    {ws : List String} (hws : ∀ w ∈ ws, Inline w.toList)
    (hdone : ∀ c ∈ done, ReadClause c)
    (h : clauses? done ws = some clauses) : ∀ c ∈ clauses, ReadClause c := by
  -- The induction is that of the reader, whose only way on is to put a clause
  -- behind those that are done.
  induction done, ws using clauses?.induct with
  | case1 done =>
      rw [clauses?] at h
      obtain rfl := Option.some.inj h
      exact hdone
  | case2 done word more hdup =>
      rw [clauses?, if_pos hdup] at h
      cases h
  | case3 done word more value hdup hbad =>
      rw [clauses?, if_neg hdup, if_pos hbad] at h
      cases h
  | case4 done word more value hdup hgood ih =>
      rw [clauses?, if_neg hdup, if_neg hgood] at h
      refine ih (fun w hw => hws w (List.mem_cons_of_mem word
        ((List.dropWhile_subset _) hw))) ?_ h
      intro c hc
      rcases List.mem_append.mp hc with hc | hc
      · exact hdone c hc
      · obtain rfl : c = (word, String.intercalate " " value) := by
          simpa using hc
        simp only [Bool.or_eq_true, Bool.and_eq_true, decide_eq_true_eq,
          not_or, not_and, not_not] at hgood
        have hvalue : ∀ w ∈ value, ClauseWord w := fun w hw =>
          ⟨hws w (List.mem_cons_of_mem word ((List.takeWhile_subset _) hw)),
            by simpa using List.mem_takeWhile_imp hw⟩
        refine ⟨⟨value, by simpa using hgood.1, rfl, hvalue⟩, ?_⟩
        intro hone
        obtain ⟨w, hw⟩ := List.length_eq_one_iff.mp
          (hgood.2 (by simpa using hone))
        show ClauseWord (String.intercalate " " value)
        rw [hw, String.intercalate_singleton]
        exact hvalue w (by rw [hw]; simp)

theorem readClause_of_lookup {clauses : List (String × String)}
    {word value : String} (hc : ∀ c ∈ clauses, ReadClause c)
    (h : clauses.lookup word = some value) : ReadClause (word, value) := by
  obtain ⟨front, back, rfl, -⟩ := List.lookup_eq_some_iff.mp h
  exact hc _ (by simp)

theorem spoken_displayOptions? {ws : List String} {o : DisplayOptions}
    (hws : ∀ w ∈ ws, Inline w.toList) (h : displayOptions? ws = some o) :
    o.Spoken := by
  simp only [displayOptions?, Option.bind_eq_bind,
    Option.bind_eq_some_iff, Option.some.injEq] at h
  obtain ⟨clauses, hclauses, zorder, -, rfl⟩ := h
  have hread := readClause_of_mem (fun w hw => hws w
    ((List.dropWhile_subset _) hw)) (by simp) hclauses
  have hlookup : ∀ word, ∀ v ∈ clauses.lookup word, ReadClause (word, v) :=
    fun word v hv => readClause_of_lookup hread hv
  have has : "as" ∈ oneWordClauses := by decide
  have hlayer : "onlayer" ∈ oneWordClauses := by decide
  refine ⟨?_, fun v hv => (hlookup "as" v hv).2 has,
    fun v hv => (hlookup "at" v hv).1,
    fun v hv => (hlookup "behind" v hv).1,
    fun v hv => (hlookup "onlayer" v hv).2 hlayer,
    fun v hv => (hlookup "with" v hv).1⟩
  intro as has
  split at has
  · cases has
  · next hne =>
    obtain rfl := Option.some.inj has
    exact ⟨by simpa using hne, fun a ha => ⟨hws a
      ((List.takeWhile_subset _) ha), by
        simpa using List.mem_takeWhile_imp ha⟩⟩

theorem spoken_display? {verb : DisplayVerb} (hl : LineEnd cs)
    (h : display? verb cs = some s) : s.Spoken := by
  simp only [display?, Option.bind_eq_bind, Option.bind_eq_some_iff,
    Prod.exists, Option.some.injEq] at h
  obtain ⟨image, ws, hw, o, ho, rfl⟩ := h
  obtain ⟨himage, hne, hws⟩ := displayWords?_spec hl hw
  exact ⟨himage, hne, spoken_displayOptions? hws ho⟩

-- ============================================================ dialogue

theorem attribute?_spec {a rest : List Char}
    (h : attribute? cs = some (a, rest)) : Attribute a ∧ rest <:+ cs := by
  unfold attribute? at h
  split at h
  · next cs =>
    rw [Option.map_eq_some_iff] at h
    obtain ⟨⟨w, r⟩, hw, he⟩ := h
    obtain ⟨rfl, rfl⟩ := Prod.mk.inj he
    obtain ⟨hne, hall, -, -⟩ := wordRun?_eq_some.mp hw
    exact ⟨⟨w, Or.inr rfl, hne, hall⟩,
      (wordRun?_suffix hw).trans (List.suffix_cons _ _)⟩
  · obtain ⟨hne, hall, -, -⟩ := wordRun?_eq_some.mp h
    exact ⟨⟨a, Or.inl rfl, hne, hall⟩, wordRun?_suffix h⟩

theorem attributes?_eq (cs : List Char) :
    attributes? cs = (blanks? cs).bind fun rest =>
      if (rest.head?.map isQuote).getD false then some ([], rest)
      else (attribute? rest).bind fun (a, after) =>
        (attributes? after).map fun (more, rest) => (a :: more, rest) := by
  rw [attributes?]
  split
  · next hb => rw [hb]; rfl
  · next rest hb =>
    rw [hb, Option.bind_some]
    split
    · rfl
    · split
      · next ha => rw [ha]; rfl
      · next a after ha => rw [ha]; rfl

/-- Attributes lead up to a quote. -/
theorem attributes?_spec : ∀ (n : Nat) {cs : List Char}
    {as : List (List Char)} {rest : List Char}, cs.length ≤ n →
      attributes? cs = some (as, rest) →
        (∀ a ∈ as, Attribute a) ∧ rest <:+ cs := by
  intro n
  induction n with
  | zero =>
      intro cs as rest hn h
      obtain rfl : cs = [] := List.eq_nil_of_length_eq_zero (by omega)
      rw [attributes?_eq] at h
      cases h
  | succ n ih =>
      intro cs as rest hn h
      rw [attributes?_eq] at h
      obtain ⟨after, hb, h⟩ := Option.bind_eq_some_iff.mp h
      split at h
      · obtain ⟨rfl, rfl⟩ := Prod.mk.inj (Option.some.inj h)
        exact ⟨by simp, blanks?_suffix hb⟩
      · simp only [Option.bind_eq_some_iff, Prod.exists,
          Option.map_eq_some_iff, Prod.mk.injEq] at h
        obtain ⟨a, after', ha, more, rest', hmore, rfl, rfl⟩ := h
        obtain ⟨hattr, hsuffix⟩ := attribute?_spec ha
        have hlen := length_of_blanks? hb
        have hlen' := length_of_attribute? ha
        obtain ⟨hmore', hsuffix'⟩ := ih (by omega) hmore
        refine ⟨?_, (hsuffix'.trans hsuffix).trans (blanks?_suffix hb)⟩
        intro b hb
        rcases List.mem_cons.mp hb with rfl | hb
        · exact hattr
        · exact hmore' b hb

theorem sayTransition?_spec {transition : Option (List Char)}
    (hl : LineEnd cs) (h : sayTransition? cs = some transition) :
    ∀ t ∈ transition, Inline t := by
  intro t ht
  unfold sayTransition? at h
  split at h
  · obtain rfl := Option.some.inj h
    cases ht
  · split at h
    · next name hname =>
      have hname := inline_of_afterKeyword? hl hname
      split at h
      · obtain rfl := Option.some.inj h
        obtain rfl := Option.some.inj ht
        rw [hname.tidy.trim_eq]
        exact hname
      · cases h
    · cases h

theorem sayTail?_spec {arguments : Option (List (List Char))}
    {transition : Option (List Char)} (hl : LineEnd cs)
    (h : sayTail? cs = some (arguments, transition)) :
    (∀ as ∈ arguments, ∀ a ∈ as, Argument a ∧ Unbroken a)
      ∧ ∀ t ∈ transition, Inline t := by
  have htrim := hl.trim
  simp only [sayTail?] at h
  split at h
  · next hparen =>
    split at h
    · cases h
    · next i hclose =>
      rw [Option.map_eq_some_iff] at h
      obtain ⟨t, ht, he⟩ := h
      obtain ⟨rfl, rfl⟩ := Prod.mk.inj he
      cases hcs : Text.trim cs with
      | nil => rw [hcs] at hparen; cases hparen
      | cons c inner =>
          rw [hcs] at hparen hclose ht htrim
          obtain rfl : c = '(' := by simpa using hparen
          -- The text in the brackets is balanced, so its parts are arguments;
          -- what is behind them is the transition.
          obtain ⟨front, back, rfl, rfl, hbal⟩ :=
            closing?_paren_eq_some.mp hclose
          have hfront : (('(' :: (front ++ ')' :: back)).take
              (front.length + 1)).drop 1 = front := by simp
          refine ⟨?_, sayTransition?_spec (htrim.of_suffix
            (List.drop_suffix _ _)).trim ht⟩
          intro as has
          obtain rfl := Option.some.inj has
          rw [hfront]
          intro a ha
          refine ⟨argument_of_mem_splitArguments hbal ha,
            htrim.unbroken.subset fun c hc => ?_⟩
          have := subset_of_mem_splitArguments ha c hc
          simp [this]
  · rw [Option.map_eq_some_iff] at h
    obtain ⟨t, ht, he⟩ := h
    obtain ⟨rfl, rfl⟩ := Prod.mk.inj he
    exact ⟨by simp, sayTransition?_spec htrim ht⟩

theorem attributes_presentList {as : List (List Char)}
    (h : ∀ a ∈ as, Attribute a) :
    ∀ ts ∈ presentList as, ts ≠ [] ∧ ∀ t ∈ ts, Attribute t.toList := by
  intro ts hts
  unfold presentList at hts
  split at hts
  · cases hts
  · next hne =>
    obtain rfl := Option.some.inj hts
    refine ⟨by simpa using hne, fun t ht => ?_⟩
    obtain ⟨a, ha, rfl⟩ := List.mem_map.mp ht
    rw [String.toList_ofList]
    exact h a ha

theorem spoken_sayFrom? {speaker : Option String}
    {attributes : List (List Char)} {extend : Option Bool}
    (hl : LineEnd cs) (hspeaker : ∀ s ∈ speaker, Speaker s)
    (hattrs : ∀ a ∈ attributes, Attribute a)
    (hextend : extend = none ∨ extend = some true ∧ speaker = none)
    (hsome : attributes ≠ [] → speaker ≠ none ∨ extend = some true)
    (h : sayFrom? speaker attributes extend cs = some s) : s.Spoken := by
  simp only [sayFrom?, Option.bind_eq_bind, Option.bind_eq_some_iff,
    Prod.exists, Option.some.injEq] at h
  obtain ⟨literal, rest, hlit, text, -, as, t, htail, rfl⟩ := h
  obtain ⟨hargs, htrans⟩ :=
    sayTail?_spec (hl.of_suffix (literal?_suffix hlit)) htail
  refine ⟨hspeaker, attributes_presentList hattrs, ?_, ?_, hextend, ?_⟩
  · intro v hv
    obtain ⟨w, hw, rfl⟩ := Option.map_eq_some_iff.mp hv
    rw [String.toList_ofList]
    exact htrans w hw
  · intro ts hts
    obtain ⟨args, hargs', hts⟩ := Option.bind_eq_some_iff.mp hts
    exact arguments_presentList (hargs args hargs') ts hts
  · intro hne
    refine hsome ?_
    rintro rfl
    exact hne rfl

theorem spoken_extend? (hl : LineEnd cs) (h : extend? cs = some s) :
    s.Spoken := by
  simp only [extend?, Option.bind_eq_bind, Option.bind_eq_some_iff,
    Prod.exists] at h
  obtain ⟨rest, ha, as, rest', has, h⟩ := h
  obtain ⟨hattrs, hsuffix⟩ := attributes?_spec _ (le_refl _) has
  exact spoken_sayFrom? (hl.of_suffix (hsuffix.trans (after?_suffix ha)))
    (by simp) hattrs (Or.inr ⟨rfl, rfl⟩) (fun _ => Or.inr rfl) h

theorem spoken_say? (hl : LineEnd cs)
    (hword : ∀ w rest, name? cs = some (w, rest) →
      isRuled (String.ofList w) = false)
    (h : say? cs = some s) : s.Spoken := by
  unfold say? at h
  split at h
  · exact spoken_sayFrom? hl (by simp) (by simp) (Or.inl rfl)
      (fun h => absurd rfl h) h
  · simp only [Option.bind_eq_bind, Option.bind_eq_some_iff,
      Prod.exists] at h
    obtain ⟨speaker, rest, hname, as, rest', has, h⟩ := h
    obtain ⟨hattrs, hsuffix⟩ := attributes?_spec _ (le_refl _) has
    refine spoken_sayFrom? (hl.of_suffix (hsuffix.trans
      (name?_suffix hname))) ?_ hattrs (Or.inl rfl) (by simp) h
    intro v hv
    obtain rfl := Option.some.inj hv
    refine ⟨?_, hword speaker rest hname⟩
    rw [String.toList_ofList]
    exact (name?_eq_some.mp hname).1

-- ================================================================ lines

/-- Which words have a rule does not depend on the line. -/
theorem isSome_keywordKind? (word : String) (content : List Char) :
    (keywordKind? word content).isSome = (keywordKind? word []).isSome := by
  unfold keywordKind?
  split <;> rfl

/-- The name at the front of a line is there without the blanks at its
end too. -/
theorem name?_of_trimEnd {content w rest : List Char}
    (h : name? (trimEnd content) = some (w, rest)) :
    ∃ rest', name? content = some (w, rest') := by
  obtain ⟨hname, hstop, hcs⟩ := name?_eq_some.mp h
  obtain ⟨bs, hbs, hcontent⟩ := trimEnd_append_blanks content
  rw [hcs, List.append_assoc] at hcontent
  refine ⟨rest ++ bs, name?_eq_some.mpr ⟨hname, ?_, hcontent⟩⟩
  cases rest with
  | nil =>
      cases bs with
      | nil => exact stops_nil _
      | cons b bs => exact (stops_of_blank (hbs b List.mem_cons_self)).word
  | cons c rest => exact hstop

theorem firstWord?_of_name? {content w rest : List Char}
    (h : name? content = some (w, rest)) :
    firstWord? content = some (String.ofList w) := by
  obtain ⟨⟨c, ws, rfl, hc, -⟩, -, hcs⟩ := name?_eq_some.mp h
  unfold firstWord?
  split
  · next more =>
    rw [List.cons_append] at hcs
    obtain ⟨rfl, -⟩ := List.cons.inj hcs
    exact absurd hc (by decide)
  · rw [h]
    rfl

theorem simple_of_ofOption {o : Option Simple}
    (h : LineKind.ofOption o = .simple s) : o = some s := by
  cases o with
  | none => cases h
  | some t => cases h; rfl

theorem spoken_sayKind {content : List Char} (hu : Unbroken content)
    (hword : ∀ word, firstWord? content = some word →
      isRuled word = false)
    (h : sayKind content = .simple s) : s.Spoken := by
  have hl : LineEnd (trimEnd content) := ⟨endsInk_trimEnd _,
    hu.subset fun c hc => (trimEnd_isPrefix content).subset hc⟩
  unfold sayKind at h
  split at h
  · next t ht =>
    cases h
    refine spoken_say? hl (fun w rest hn => ?_) ht
    obtain ⟨rest', hn'⟩ := name?_of_trimEnd hn
    exact hword _ (firstWord?_of_name? hn')
  · split at h <;> cases h

theorem spoken_keywordKind? {word : String} {content : List Char}
    (hu : Unbroken content)
    (h : keywordKind? word content = some (.simple s)) :
    s.Spoken ∨ s = .raw (String.ofList content)
      ∧ trimEnd content = "pass".toList := by
  have hl : LineEnd (trimEnd content) := ⟨endsInk_trimEnd _,
    hu.subset fun c hc => (trimEnd_isPrefix content).subset hc⟩
  have hrule : ∀ {o : Option Simple},
      some (LineKind.ofOption o) = some (.simple s) → o = some s :=
    fun h => simple_of_ofOption (Option.some.inj h)
  -- One case for each word, in the order in which they are tried.
  unfold keywordKind? at h
  simp only at h
  split at h
  · exact Or.inl (spoken_display? hl (hrule h))
  · exact Or.inl (spoken_display? hl (hrule h))
  · exact Or.inl (spoken_display? hl (hrule h))
  · exact Or.inl (spoken_transition? hl (hrule h))
  · exact Or.inl (spoken_jump? hl (hrule h))
  · exact Or.inl (spoken_call? hl (hrule h))
  · exact Or.inl (spoken_giveBack? hl (hrule h))
  · exact Or.inl (spoken_dollar? hl (hrule h))
  · exact Or.inl (spoken_define? hl (hrule h))
  · exact Or.inl (spoken_default? hl (hrule h))
  · exact Or.inl (spoken_play? (hrule h))
  · exact Or.inl (spoken_play? (hrule h))
  · exact Or.inl (spoken_voice? (hrule h))
  · exact Or.inl (spoken_stop? (hrule h))
  · exact Or.inl (spoken_pause? (hrule h))
  · exact Or.inl (spoken_nvl? (hrule h))
  · have h := Option.some.inj h
    unfold extendKind at h
    split at h
    · next t ht => cases h; exact Or.inl (spoken_extend? hl ht)
    · split at h <;> cases h
  · have h := Option.some.inj h
    split at h
    · next hpass => cases h; exact Or.inr ⟨rfl, hpass⟩
    · cases h
  · cases h

/-- Whatever a line is taken for, it is spoken, or it is the line `pass`. The
second case is raw text with nothing tidy about it. -/
theorem spoken_lineKind {content : List Char} (hu : Unbroken content)
    (h : lineKind content = .simple s) :
    s.Spoken ∨ s = .raw (String.ofList content)
      ∧ trimEnd content = "pass".toList := by
  unfold lineKind at h
  split at h
  · next hnone =>
    exact Or.inl
      (spoken_sayKind hu (fun w hw => by rw [hnone] at hw; cases hw) h)
  · next word hword =>
    split at h
    · cases h
    · next hcompound =>
      cases hk : keywordKind? word content with
      | some kind =>
          rw [hk] at h
          obtain rfl : kind = .simple s := h
          exact spoken_keywordKind? hu hk
      | none =>
          rw [hk] at h
          refine Or.inl (spoken_sayKind hu (fun w hw => ?_) h)
          rw [hword] at hw
          obtain rfl := Option.some.inj hw
          have hsome := isSome_keywordKind? word content
          rw [hk] at hsome
          unfold isRuled
          rw [← hsome]
          simpa using hcompound

end Grammar

end NovelScript
