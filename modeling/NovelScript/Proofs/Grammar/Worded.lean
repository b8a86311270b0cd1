/-
How a statement that one line said is written: on one line again. What it says
stood on one line, and the writer puts only words and blanks around it. The line
begins with the word of the statement, or, when something is said, with the
literal, the speaker, or the word that continues the line before.

# What is known of the line

`Simple.Worded` collects it: that the statement is written as this line,
whatever its identity, that there is no break in it, and how it begins. The
beginning is there for the blocks around the line. A line that begins with one
of `lineWords` opens no conditional and continues none, and so it does not
change what the lines around it belong to.

# Putting lines together

Most lines are a word of their own and then words in a row, so most statements
are one use of `worded_row`, and those with a single thing to say one of
`worded_phrase`. What is left to show is that each further word stands on one
line. The fields of a spoken statement do, each for the reason that
`Simple.Spoken` gives, and a literal does because breaks are escaped in it
(`oneLine_quoted`).
-/
import NovelScript.Proofs.Grammar.Heading
import NovelScript.Proofs.Grammar.Spoken
import NovelScript.Proofs.Number.Text

namespace NovelScript

open Grammar Text

-- =============================================================== one line

/-- A text that stands on one line. -/
def OneLine (s : String) : Prop := Unbroken s.toList

theorem oneLine_append {s t : String} :
    OneLine (s ++ t) ↔ OneLine s ∧ OneLine t := by
  unfold OneLine
  rw [String.toList_append]
  exact unbroken_append

theorem Inked.oneLine {s : String} (h : Inked s) : OneLine s :=
  unbroken_of_ink h

/-- A literal stands on one line, since breaks in the text are escaped. -/
theorem oneLine_quoted (s : String) : OneLine (quoted s) := by
  rw [OneLine, quoted, String.toList_ofList]
  exact unbroken_quote s.toList

/-- Words in a row stand on one line if each does. -/
theorem oneLine_row {words : List String} (h : ∀ w ∈ words, OneLine w) :
    OneLine (Phrase.row words) := by
  rw [OneLine, Phrase.row, String.toList_intercalate]
  have hblank : Unbroken " ".toList := by
    unfold Unbroken
    decide
  refine unbroken_intercalate hblank fun a ha => ?_
  obtain ⟨w, hw, rfl⟩ := List.mem_map.mp ha
  exact h w hw

theorem oneLine_clause (word : String) {o : Option String}
    (hword : OneLine word) (h : ∀ v ∈ o, OneLine v) :
    ∀ w ∈ Phrase.clause word o, OneLine w := by
  cases o with
  | none => simp [Phrase.clause]
  | some v =>
      have hv := h v rfl
      simp [Phrase.clause, hword, hv]

/-- Arguments in a row. -/
theorem oneLine_joinArguments {o : Option (List String)} (h : Arguments o) :
    ∀ args ∈ Written.argumentRow o, OneLine args := by
  intro args hargs
  unfold Written.argumentRow at hargs
  split at hargs
  · cases hargs
  · obtain rfl := Option.some.inj hargs
    rw [OneLine, toList_joinArguments]
    refine unbroken_row fun a ha => ?_
    obtain ⟨t, ht, rfl⟩ := List.mem_map.mp ha
    cases o with
    | none => cases ht
    | some ts => exact ((h ts rfl).2 t ht).2

-- ============================================================== first words

/-- The words that statements on one line are written with. None of them opens
or continues a conditional. -/
def lineWords : List String :=
  ["scene", "show", "hide", "with", "jump", "call", "return", "$", "define",
    "default", "play", "queue", "voice", "stop", "pause", "nvl"]

/-- A text that begins with a word. -/
def Leads (word t : String) : Prop :=
  ∃ rest, t = word ++ rest ∧ ∀ c ∈ rest.toList.head?, c = ' '

theorem leads_row (word : String) (more : List String) :
    Leads word (Phrase.row (word :: more)) := by
  cases more with
  | nil => exact ⟨"", by simp [Phrase.row], by simp⟩
  | cons w more =>
      refine ⟨" " ++ Phrase.row (w :: more), ?_, ?_⟩
      · rw [Phrase.row, String.intercalate_cons_cons, String.append_assoc]
        rfl
      · intro c hc
        rw [String.toList_append] at hc
        exact (Option.some.inj hc).symm

/-- What a row's first word begins with, the row begins with. -/
theorem Leads.row {word w : String} (h : Leads word w)
    (more : List String) : Leads word (Phrase.row (w :: more)) := by
  obtain ⟨rest, rfl, hrest⟩ := h
  obtain ⟨tail, htail, hspace⟩ := leads_row (word ++ rest) more
  refine ⟨rest ++ tail, by rw [htail, String.append_assoc], fun c hc => ?_⟩
  rw [String.toList_append] at hc
  cases hcs : rest.toList with
  | nil =>
      rw [hcs] at hc
      exact hspace c hc
  | cons d ds =>
      rw [hcs] at hc hrest
      exact hrest c hc

theorem leads_space {front word : String} (h : front = word ++ " ")
    (t : String) : Leads word (front ++ t) := by
  refine ⟨" " ++ t, by rw [h, String.append_assoc], fun c hc => ?_⟩
  rw [String.toList_append] at hc
  exact (Option.some.inj hc).symm

/-- How the line of a statement begins. -/
def Simple.Begins : Simple → String → Prop
  | .say d, t =>
    Leads (quoted d.text) t ∨ (∃ s ∈ d.speaker, Leads s t) ∨ Leads "extend" t
  | _, t => ∃ word ∈ lineWords, Leads word t

/-- What is known of the line that is written for a statement: that it is the
line, that it is one line, and how it begins. -/
structure Simple.Worded (s : Simple) (t : String) : Prop where
  /-- It is what is written. -/
  written : ∀ id, Written.simple id s = .ok [.line t]
  /-- It is one line. -/
  oneLine : OneLine t
  /-- It begins with a word of its own. -/
  begins : s.Begins t

theorem Simple.worded_of_leads {s : Simple} {word t : String}
    (hsay : ∀ d, s ≠ .say d)
    (hwritten : ∀ id, Written.simple id s = .ok [.line t])
    (hone : OneLine t) (hword : word ∈ lineWords) (hlead : Leads word t) :
    s.Worded t := by
  refine ⟨hwritten, hone, ?_⟩
  cases s with
  | say d => exact absurd rfl (hsay d)
  | _ => exact ⟨word, hword, hlead⟩

theorem oneLine_lineWord {w : String} (h : w ∈ lineWords) : OneLine w := by
  have hall : ∀ w ∈ lineWords, OneLine w := by
    unfold OneLine Unbroken
    decide
  exact hall w h

/-- Words in a row of which the first is the statement's own. Most statements
are written like this. -/
theorem worded_row {s : Simple} (word : String) (more : List String)
    (hsay : ∀ d, s ≠ .say d) (hword : word ∈ lineWords)
    (hwritten : ∀ id, Written.simple id s
      = .ok [.line (Phrase.row (word :: more))])
    (hmore : ∀ w ∈ more, OneLine w) :
    s.Worded (Phrase.row (word :: more)) := by
  refine Simple.worded_of_leads hsay hwritten (oneLine_row fun w hw => ?_)
    hword (leads_row word more)
  rcases List.mem_cons.mp hw with rfl | hw
  · exact oneLine_lineWord hword
  · exact hmore w hw

/-- A word and something behind a blank, which may have blanks of its own. -/
theorem worded_phrase {s : Simple} (word : String) {front t : String}
    (hsay : ∀ d, s ≠ .say d) (hword : word ∈ lineWords)
    (hfront : front = word ++ " ")
    (hwritten : ∀ id, Written.simple id s = .ok [.line (front ++ t)])
    (ht : OneLine t) : s.Worded (front ++ t) := by
  have hblank : OneLine " " := by
    unfold OneLine Unbroken
    decide
  refine Simple.worded_of_leads hsay hwritten
    (oneLine_append.mpr ⟨?_, ht⟩) hword (leads_space hfront t)
  rw [hfront]
  exact oneLine_append.mpr ⟨oneLine_lineWord hword, hblank⟩

theorem oneLine_of_dotted {s : String} (h : Dotted s.toList) : OneLine s :=
  unbroken_of_ink fun c hc => isBlank_of_isDottedChar (h.all c hc)

theorem oneLine_of_labelName {s : String} (h : LabelName s.toList) :
    OneLine s :=
  unbroken_of_ink fun c hc => isBlank_of_isDottedChar (h.all c hc)

theorem mem_present {o : Option String} {v : String}
    (h : v ∈ Written.present o) : v ∈ o := by
  unfold Written.present at h
  split at h
  · cases h
  · exact h

-- ====================================================== kind by kind

theorem ClauseValue.oneLine {v : String} (h : ClauseValue v) : OneLine v := by
  obtain ⟨ws, -, rfl, hws⟩ := h
  exact oneLine_row fun w hw => (hws w hw).1.unbroken

theorem ClauseWord.oneLine {w : String} (h : ClauseWord w) : OneLine w :=
  h.1.unbroken

theorem oneLine_image {image : String} (h : isImage image.toList = true) :
    OneLine image := by
  refine unbroken_of_ink fun c hc => ?_
  cases hcs : image.toList with
  | nil =>
      rw [hcs] at hc
      cases hc
  | cons d ds =>
      rw [hcs] at h hc
      simp only [isImage, Bool.and_eq_true, List.all_eq_true,
        Bool.or_eq_true, decide_eq_true_eq] at h
      rcases List.mem_cons.mp hc with rfl | hc
      · exact isBlank_of_isWordChar h.1
      · rcases h.2 c hc with hdot | rfl
        · exact isBlank_of_isDottedChar hdot
        · decide

theorem worded_display {verb : DisplayVerb} {image : String}
    {o : DisplayOptions} (h : (Simple.display verb image o).Spoken) :
    ∃ t, (Simple.display verb image o).Worded t := by
  obtain ⟨himage, -, ho⟩ := h
  have hverb : verb.word ∈ lineWords := by cases verb <;> decide
  have hclause : ∀ {word : String}, word ∈ clauseWords →
      ∀ {v : Option String}, (∀ t ∈ v, OneLine t) →
      ∀ w ∈ Phrase.clause word v, OneLine w := by
    intro word hword v hv
    have hall : ∀ w ∈ clauseWords, OneLine w := by
      unfold OneLine Unbroken
      decide
    exact oneLine_clause word (hall word hword) hv
  have hattributes : ∀ w ∈ Written.items o.attributes, OneLine w := by
    intro w hw
    cases has : o.attributes with
    | none =>
        rw [has] at hw
        cases hw
    | some as =>
        rw [has] at hw
        exact ((ho.attributes as has).2 w hw).oneLine
  have hzorder : ∀ t ∈ o.zorder.map toString, OneLine t := by
    intro t ht
    obtain ⟨i, -, rfl⟩ := Option.map_eq_some_iff.mp ht
    exact (inked_int i).oneLine
  refine ⟨_, worded_row verb.word _ (by simp) hverb (fun _ => rfl)
    fun w hw => ?_⟩
  simp only [List.append_eq, List.nil_append, List.cons_append,
    List.mem_append, List.mem_cons] at hw
  -- The words of the line in the order in which they are written.
  rcases hw with rfl | (((((hw | hw) | hw) | hw) | hw) | hw) | hw
  · exact oneLine_image himage
  · exact hattributes w hw
  · exact hclause (by decide)
      (fun t ht => (ho.asTag t (mem_present ht)).oneLine) w hw
  · exact hclause (by decide)
      (fun t ht => (ho.atPosition t (mem_present ht)).oneLine) w hw
  · exact hclause (by decide)
      (fun t ht => (ho.behind t (mem_present ht)).oneLine) w hw
  · exact hclause (by decide)
      (fun t ht => (ho.layer t (mem_present ht)).oneLine) w hw
  · exact hclause (by decide) hzorder w hw
  · exact hclause (by decide)
      (fun t ht => (ho.transition t (mem_present ht)).oneLine) w hw

theorem oneLine_number {o : Option Number} :
    ∀ t ∈ o.map Number.text, OneLine t := by
  intro t ht
  obtain ⟨n, -, rfl⟩ := Option.map_eq_some_iff.mp ht
  exact n.inked_text.oneLine

theorem worded_jump {target : String} {expression : Option Bool}
    (h : (Simple.jump target expression).Spoken) :
    ∃ t, (Simple.jump target expression).Worded t := by
  have htarget : OneLine target := by
    rcases h with ⟨-, h⟩ | ⟨-, h⟩
    · exact h.unbroken
    · exact oneLine_of_labelName h
  have hword : OneLine (if Written.isSet expression then "expression "
      else "") := by
    split <;> (unfold OneLine Unbroken; decide)
  have hwritten : ∀ id, Written.simple id (.jump target expression)
      = .ok [.line ("jump " ++ ((if Written.isSet expression
          then "expression " else "") ++ target))] := by
    intro id
    rw [← String.append_assoc]
    rfl
  exact ⟨_, worded_phrase "jump" (by simp) (by decide) rfl hwritten
    (oneLine_append.mpr ⟨hword, htarget⟩)⟩

theorem worded_call {c : Call} (h : (Simple.call c).Spoken) :
    ∃ t, (Simple.call c).Worded t := by
  obtain ⟨htarget, hargs, hlabel⟩ := h
  have hrow := oneLine_joinArguments hargs
  have hwords : ∀ t, t ∈ ["(", ")", "expression", "pass", "from"] →
      OneLine t := by
    unfold OneLine Unbroken
    decide
  have hfrom := oneLine_clause "from" (hwords _ (by simp)) fun l hl =>
    oneLine_of_dotted (hlabel l (mem_present hl))
  have hbrackets : ∀ args ∈ Written.argumentRow c.arguments,
      OneLine ("(" ++ args ++ ")") := fun args ha =>
    oneLine_append.mpr ⟨oneLine_append.mpr ⟨hwords _ (by simp), hrow args ha⟩,
      hwords _ (by simp)⟩
  -- An expression has words of its own for its arguments, which stand apart; a
  -- name has them in brackets directly behind it.
  rcases htarget with ⟨hexp, ht⟩ | ⟨hexp, ht⟩
  · refine ⟨_, worded_row "call" (["expression", c.target]
      ++ Phrase.clause "pass" ((Written.argumentRow c.arguments).map
          fun args => "(" ++ args ++ ")")
      ++ Phrase.clause "from" (Written.present c.fromLabel)) (by simp)
      (by decide) (fun id => ?_) fun w hw => ?_⟩
    · rw [Written.simple, hexp]
      rfl
    · simp only [List.mem_append, List.mem_cons, List.not_mem_nil, or_false]
        at hw
      rcases hw with ((rfl | rfl) | hw) | hw
      · exact hwords _ (by simp)
      · exact ht.unbroken
      · refine oneLine_clause "pass" (hwords _ (by simp)) (fun t hmem => ?_)
          w hw
        obtain ⟨args, ha, rfl⟩ := Option.map_eq_some_iff.mp hmem
        exact hbrackets args ha
      · exact hfrom w hw
  · refine ⟨_, worded_row "call" ((Written.argumentRow c.arguments).elim c.target
        (c.target ++ "(" ++ · ++ ")")
      :: Phrase.clause "from" (Written.present c.fromLabel)) (by simp)
      (by decide) (fun id => ?_) fun w hw => ?_⟩
    · rw [Written.simple, hexp]
      cases Written.argumentRow c.arguments <;> rfl
    · rcases List.mem_cons.mp hw with rfl | hw
      · cases hargs : Written.argumentRow c.arguments with
        | none => exact oneLine_of_labelName ht
        | some args =>
            have hall := oneLine_append.mpr
              ⟨oneLine_of_labelName ht, hbrackets args hargs⟩
            simpa only [Option.elim_some, String.append_assoc] using hall
      · exact hfrom w hw

theorem worded_giveBack {value : Option String}
    (h : (Simple.giveBack value).Spoken) :
    ∃ t, (Simple.giveBack value).Worded t := by
  have hvalue : ∀ v ∈ Written.present value, OneLine v := fun v hv =>
    (h v (mem_present hv)).unbroken
  cases hv : Written.present value with
  | none =>
      refine ⟨_, worded_row "return" [] (by simp) (by decide) (fun id => ?_)
        (by simp)⟩
      rw [Written.simple, hv]
      rfl
  | some v =>
      refine ⟨_, worded_phrase "return" (by simp) (by decide) rfl
        (fun id => ?_) (hvalue v hv)⟩
      rw [Written.simple, hv, Phrase.giveBack, String.append_assoc]
      rfl

theorem worded_assign {target value operator : String}
    (h : (Simple.assign target value operator).Spoken) :
    ∃ t, (Simple.assign target value operator).Worded t := by
  obtain ⟨htarget, hvalue, hoperator⟩ := h
  have hall : ∀ o ∈ assignOperators, o ≠ "" ∧ OneLine o := by
    unfold OneLine Unbroken
    decide
  obtain ⟨hne, hop⟩ := hall operator hoperator
  have hblank : OneLine " " := by
    unfold OneLine Unbroken
    decide
  refine ⟨_, worded_phrase "$" (by simp) (by decide) rfl (fun id => ?_)
    (t := target ++ (" " ++ (operator ++ (" " ++ value)))) ?_⟩
  · rw [Written.simple, if_neg hne, Phrase.assign]
    simp only [String.append_assoc]
    rfl
  · exact oneLine_append.mpr ⟨oneLine_of_dotted htarget, oneLine_append.mpr
      ⟨hblank, oneLine_append.mpr ⟨hop, oneLine_append.mpr
        ⟨hblank, hvalue.unbroken⟩⟩⟩⟩

theorem worded_code {c : Code} (h : (Simple.code c).Spoken) :
    ∃ t, (Simple.code c).Worded t := by
  obtain ⟨hcode, hassign, hearly, hhide, hinit⟩ := h
  have htrim : trim c.code.toList = c.code.toList := hcode.tidy.trim_eq
  have hone : isOneLine c.code.toList = true := by
    rw [isOneLine, List.all_eq_true]
    exact fun d hd => by simpa using (hcode.unbroken d hd).1
  refine ⟨_, worded_phrase "$" (by simp) (by decide) rfl (fun id => ?_)
    (t := c.code) hcode.unbroken⟩
  have hline : (!(trim c.code.toList).isEmpty
      && isOneLine (trim c.code.toList) && !isAssignment c.code.toList
      && !(Written.isSet c.early || Written.isSet c.hide
        || Written.isSet c.init)) = true := by
    rw [isAssignment, htrim, hone, hassign, hearly, hhide, hinit,
      List.isEmpty_eq_false_iff.mpr hcode.tidy.ne_nil]
    rfl
  rw [Written.simple, Phrase.code]
  simp only
  rw [if_pos hline, htrim, String.ofList_toList]
  rfl

theorem worded_define {name value : String} {store : Option String}
    (h : (Simple.define name value store).Spoken) :
    ∃ t, (Simple.define name value store).Worded t := by
  obtain ⟨hname, hvalue, hstore⟩ := h
  have hwords : ∀ t, t ∈ [" = ", ".", ""] → OneLine t := by
    unfold OneLine Unbroken
    decide
  have hfront : OneLine ((Written.present store).elim "" (· ++ ".")) := by
    cases hs : Written.present store with
    | some s =>
      exact oneLine_append.mpr ⟨oneLine_of_dotted (hstore s (mem_present hs)),
        hwords _ (by simp)⟩
    | none => exact hwords _ (by simp)
  refine ⟨_, worded_phrase "define" (by simp) (by decide) rfl (fun id => ?_)
    (t := (Written.present store).elim "" (· ++ ".")
      ++ (name ++ (" = " ++ value))) ?_⟩
  · simp only [Written.simple, Phrase.define.eq_def]
    cases Written.present store <;>
      simp only [Option.elim_some, Option.elim_none, String.append_assoc] <;>
      rfl
  · exact oneLine_append.mpr ⟨hfront, oneLine_append.mpr
      ⟨oneLine_of_dotted hname.dotted, oneLine_append.mpr
        ⟨hwords _ (by simp), hvalue.unbroken⟩⟩⟩

theorem worded_default {name value : String}
    (h : (Simple.default name value).Spoken) :
    ∃ t, (Simple.default name value).Worded t := by
  obtain ⟨hname, hvalue⟩ := h
  have hequals : OneLine " = " := by
    unfold OneLine Unbroken
    decide
  refine ⟨_, worded_phrase "default" (by simp) (by decide) rfl (fun id => ?_)
    (t := name ++ (" = " ++ value)) ?_⟩
  · rw [Written.simple, Phrase.default]
    simp only [String.append_assoc]
    rfl
  · exact oneLine_append.mpr ⟨oneLine_of_dotted hname, oneLine_append.mpr
      ⟨hequals, hvalue.unbroken⟩⟩

theorem oneLine_channel {channel : String} (h : channel ∈ channels) :
    OneLine channel := by
  have hall : ∀ c ∈ channels, OneLine c := by
    unfold OneLine Unbroken
    decide
  exact hall channel h

theorem worded_play {channel file : String} {o : AudioOptions}
    (h : (Simple.play channel file o).Spoken) :
    ∃ t, (Simple.play channel file o).Worded t := by
  obtain ⟨hchannel, -, -⟩ := h
  have hwords : ∀ t, t ∈ ["fadein", "fadeout", "volume", "loop", "noloop",
      "if_changed"] → OneLine t := by
    unfold OneLine Unbroken
    decide
  have hoptions : ∀ w ∈ Phrase.audioOptions (o.fadeIn.map Number.text)
      (o.fadeOut.map Number.text) (o.volume.map Number.text) o.loop
      (Written.isSet o.ifChanged), OneLine w := by
    intro w hw
    simp only [Phrase.audioOptions, List.mem_append] at hw
    rcases hw with (((hw | hw) | hw) | hw) | hw
    · exact oneLine_clause "fadein" (hwords _ (by simp)) oneLine_number w hw
    · exact oneLine_clause "fadeout" (hwords _ (by simp)) oneLine_number w hw
    · exact oneLine_clause "volume" (hwords _ (by simp)) oneLine_number w hw
    · refine hwords w ?_
      split at hw
      · simp [List.mem_singleton.mp hw]
      · simp [List.mem_singleton.mp hw]
      · cases hw
    · refine hwords w ?_
      split at hw
      · simp [List.mem_singleton.mp hw]
      · cases hw
  -- The line begins with one of three words, and two of them are followed by
  -- the channel.
  have key : ∀ options, (∀ w ∈ options, OneLine w) →
      (∀ id, Written.simple id (.play channel file o) = .ok [.line
        (Phrase.play (Written.isSet o.queue) channel (quoted file) options)])
      → ∃ t, (Simple.play channel file o).Worded t := by
    intro options hoptions hwritten
    have hplay : ∃ word more, word ∈ lineWords
        ∧ (∀ w ∈ more, w = channel ∨ w = quoted file)
        ∧ Phrase.play (Written.isSet o.queue) channel (quoted file) options
          = Phrase.row (word :: (more ++ options)) := by
      unfold Phrase.play
      split
      · exact ⟨"queue", [channel, quoted file], by decide, by simp, rfl⟩
      · split
        · exact ⟨"voice", [quoted file], by decide, by simp, rfl⟩
        · exact ⟨"play", [channel, quoted file], by decide, by simp, rfl⟩
    obtain ⟨word, more, hword, hmore, hplay⟩ := hplay
    rw [hplay] at hwritten
    refine ⟨_, worded_row word (more ++ options) (by simp) hword hwritten
      fun w hw => ?_⟩
    rcases List.mem_append.mp hw with hw | hw
    · rcases hmore w hw with rfl | rfl
      · exact oneLine_channel hchannel
      · exact oneLine_quoted file
    · exact hoptions w hw
  exact key _ hoptions fun _ => rfl

theorem worded_stop {channel : String} {fadeOut : Option Number}
    (h : (Simple.stop channel fadeOut).Spoken) :
    ∃ t, (Simple.stop channel fadeOut).Worded t := by
  have hfadeout : OneLine " fadeout " := by
    unfold OneLine Unbroken
    decide
  have htail : OneLine
      ((fadeOut.map Number.text).elim "" (" fadeout " ++ ·)) := by
    cases hn : fadeOut.map Number.text with
    | some n => exact oneLine_append.mpr ⟨hfadeout, oneLine_number n hn⟩
    | none => simp [OneLine, Unbroken]
  refine ⟨_, worded_phrase "stop" (by simp) (by decide) rfl (fun id => ?_)
    (oneLine_append.mpr ⟨oneLine_channel h.1, htail⟩)⟩
  simp only [Written.simple, Phrase.stop, String.append_assoc]
  cases fadeOut <;> rfl

theorem worded_pause {duration : Option Number} :
    ∃ t, (Simple.pause duration).Worded t := by
  cases duration with
  | none =>
      exact ⟨_, worded_row "pause" [] (by simp) (by decide) (fun id => rfl)
        (by simp)⟩
  | some n =>
      refine ⟨_, worded_phrase "pause" (by simp) (by decide) rfl
        (fun id => ?_) n.inked_text.oneLine⟩
      simp only [Written.simple, Phrase.pause, Option.map_some,
        String.append_assoc]
      rfl

theorem worded_nvl {action : String} (h : (Simple.nvl action).Spoken) :
    ∃ t, (Simple.nvl action).Worded t := by
  have hall : ∀ a ∈ nvlActions, OneLine a := by
    unfold OneLine Unbroken
    decide
  exact ⟨_, worded_phrase "nvl" (by simp) (by decide) rfl (fun _ => rfl)
    (hall action h)⟩

theorem Attribute.oneLine {a : String} (h : Attribute a.toList) :
    OneLine a := by
  obtain ⟨w, ha, -, hw⟩ := h
  have hblank : ∀ c ∈ w, isBlank c = false := fun c hc =>
    isBlank_of_isWordChar (hw c hc)
  rcases ha with ha | ha
  · rw [OneLine, ha]
    exact unbroken_of_ink hblank
  · rw [OneLine, ha]
    exact unbroken_cons.mpr ⟨by decide, unbroken_of_ink hblank⟩

/-- Who says a line: nobody, and then there are no attributes, or somebody. -/
theorem Dialogue.Spoken.speaking {d : Dialogue} (h : d.Spoken) :
    (∀ id, Written.speaking id d = .ok [])
      ∨ ∃ who, (who = "extend" ∨ who ∈ d.speaker) ∧ OneLine who
        ∧ ∀ id, Written.speaking id d
          = .ok (who :: Written.items d.attributes) := by
  have hextend : OneLine "extend" := by
    unfold OneLine Unbroken
    decide
  have hpresent : Written.present d.speaker = d.speaker := by
    cases hs : d.speaker with
    | none => rfl
    | some s =>
        unfold Written.present
        split
        · next hempty =>
          obtain rfl := Option.some.inj hempty
          exact absurd rfl (h.speaker "" hs).1.tidy.ne_nil
        · rfl
  rcases h.extend with hext | ⟨hext, -⟩
  · -- Without a speaker there are no attributes either, or the writer would
    -- refuse.
    cases hs : d.speaker with
    | none =>
        left
        have hattributes : d.attributes = none := by
          by_contra hsome
          rcases h.somebody hsome with hsp | hex
          · exact hsp hs
          · rw [hext] at hex
            cases hex
        intro id
        rw [Written.speaking, hext, hpresent, hs, hattributes]
        rfl
    | some s =>
        right
        refine ⟨s, Or.inr rfl,
          oneLine_of_dotted (h.speaker s hs).1.dotted, fun id => ?_⟩
        rw [Written.speaking, hext, hpresent, hs]
        rfl
  · right
    refine ⟨"extend", Or.inl rfl, hextend, fun id => ?_⟩
    rw [Written.speaking, hext]
    rfl

theorem worded_say {d : Dialogue} (h : d.Spoken) :
    ∃ t, (Simple.say d).Worded t := by
  have hattributes : ∀ w ∈ Written.items d.attributes, OneLine w := by
    intro w hw
    cases has : d.attributes with
    | none =>
        rw [has] at hw
        cases hw
    | some as =>
        rw [has] at hw
        exact ((h.attributes as has).2 w hw).oneLine
  have hwords : ∀ t, t ∈ [" (", ")", "with"] → OneLine t := by
    unfold OneLine Unbroken
    decide
  -- The text and its arguments are one word here: it begins with a quote, and
  -- that is how a line without a speaker is told from the others.
  obtain ⟨tail, htail, hrest, hlead⟩ : ∃ tail, OneLine tail
      ∧ tail = quoted d.text
        ++ (Written.argumentRow d.arguments).elim "" (" (" ++ · ++ ")")
      ∧ Leads (quoted d.text) tail := by
    refine ⟨_, ?_, rfl, ?_⟩
    · refine oneLine_append.mpr ⟨oneLine_quoted d.text, ?_⟩
      cases hargs : Written.argumentRow d.arguments with
      | some args =>
        exact oneLine_append.mpr ⟨oneLine_append.mpr ⟨hwords _ (by simp),
          oneLine_joinArguments h.arguments args hargs⟩, hwords _ (by simp)⟩
      | none => simp [OneLine, Unbroken]
    · refine ⟨_, rfl, fun c hc => ?_⟩
      cases hargs : Written.argumentRow d.arguments with
      | some args =>
        rw [hargs, Option.elim_some, String.toList_append,
          String.toList_append] at hc
        exact (Option.some.inj hc).symm
      | none =>
        rw [hargs] at hc
        cases hc
  have hwith := oneLine_clause "with" (hwords _ (by simp)) fun t ht =>
    (h.transition t (mem_present ht)).unbroken
  have hwritten : ∀ {who : List String}, (∀ id, Written.speaking id d
      = .ok who) → ∀ id, Written.simple id (.say d) = .ok [.line (Phrase.row
        (who ++ (tail :: Phrase.clause "with"
          (Written.present d.transition))))] := by
    intro who hwho id
    rw [Written.simple, hwho id, hrest]
    cases Written.argumentRow d.arguments <;>
      exact congrArg (fun ws => Except.ok [Outline.line (Phrase.row ws)])
        (List.append_assoc who [_] _)
  rcases h.speaking with hwho | ⟨who, hsome, hone, hwho⟩
  · refine ⟨_, hwritten hwho, oneLine_row fun w hw => ?_,
      Or.inl (hlead.row _)⟩
    rcases List.mem_cons.mp hw with rfl | hw
    · exact htail
    · exact hwith w hw
  · refine ⟨_, hwritten hwho, oneLine_row fun w hw => ?_, ?_⟩
    · simp only [List.cons_append, List.mem_cons, List.mem_append] at hw
      rcases hw with rfl | hw | rfl | hw
      · exact hone
      · exact hattributes w hw
      · exact htail
      · exact hwith w hw
    · rcases hsome with rfl | hspeaker
      · exact Or.inr (Or.inr (leads_row _ _))
      · exact Or.inr (Or.inl ⟨who, hspeaker, leads_row _ _⟩)

/-- A statement that one line said is written on one line. -/
theorem Simple.Spoken.worded : ∀ {s : Simple}, s.Spoken → ∃ t, s.Worded t
  | .say _, h => worded_say h
  | .display .., h => worded_display h
  | .transition _, h =>
    ⟨_, worded_phrase "with" (by simp) (by decide) rfl (fun _ => rfl)
      h.unbroken⟩
  | .jump .., h => worded_jump h
  | .call _, h => worded_call h
  | .giveBack _, h => worded_giveBack h
  | .assign .., h => worded_assign h
  | .code _, h => worded_code h
  | .define .., h => worded_define h
  | .default .., h => worded_default h
  | .play .., h => worded_play h
  | .stop .., h => worded_stop h
  | .pause _, _ => worded_pause
  | .nvl _, h => worded_nvl h

end NovelScript
