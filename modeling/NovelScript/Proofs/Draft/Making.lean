/-
Making by hand what was read. A statement that a line said can be made from its
own fields: nothing is refused, nothing is trimmed away, and the result is the
statement itself, with the next identity. So what makes no sense for the one who
makes statements by hand, such as attributes of nobody or a channel that is not
known, never comes out of a line.

# One call for each statement

`Simple.making` gives the call that makes a statement of one line: which way of
making, and its arguments, each the draft of a field. What a call makes is
evaluated by `rfl`; what is left is that every field comes out of the checks as
it went in. There is one lemma for each check, about the values that pass it
unchanged: texts without blanks around them (`trimmed_of_tidy`), rows of such
texts (`presentTexts_of_tidy`), flags, numbers, words of a list of options.

# Why fields are tidy

Because of what they were cut out as. `Spoken` says it of the fields of a simple
statement that a line said, with one constructor or field for each: a name has
no blanks at all, a literal may say anything and is not trimmed, a clause takes
what is left of a line and that is trimmed.
-/
import NovelScript.Draft.Built
import NovelScript.Draft.OfScript
import NovelScript.Proofs.Grammar.Spoken
import NovelScript.Reading

namespace NovelScript

open Text Grammar Draft

/-- A call of a way of making something. -/
structure Making where
  /-- The way of making it. -/
  maker : String
  /-- The values in a row. -/
  row : List Draft
  /-- The values by name, without the line. -/
  named : List (String × Draft) := []

/-- The call that makes a simple statement: the way of making, the arguments in
a row and those by name, each the draft of a field. -/
def Simple.making : Simple → Making
  | .say d => ⟨"dialogue", [.text d.text, optText d.speaker],
    [("attributes", optTexts d.attributes),
      ("transition", optText d.transition), ("extend", optFlag d.extend),
      ("arguments", optTexts d.arguments)]⟩
  | .display verb image o => ⟨verb.word, [.text image],
    [("attributes", optTexts o.attributes), ("as_tag", optText o.asTag),
      ("at_position", optText o.atPosition), ("behind", optText o.behind),
      ("layer", optText o.layer), ("zorder", optional int o.zorder),
      ("transition", optText o.transition)]⟩
  | .transition name => { maker := "with_", row := [.text name] }
  | .jump target expression =>
    ⟨"jump", [.text target], [("expression", optFlag expression)]⟩
  | .call c => ⟨"call", [.text c.target],
    [("arguments", optTexts c.arguments),
      ("expression", optFlag c.expression),
      ("from_label", optText c.fromLabel)]⟩
  | .giveBack value => { maker := "return_", row := [optText value] }
  | .assign target value operator =>
    ⟨"set", [.text target, .text value], [("operator", .text operator)]⟩
  | .code c => ⟨"python", [.text c.code],
    [("early", optFlag c.early), ("hide", optFlag c.hide),
      ("init", optFlag c.init)]⟩
  | .define name value store =>
    ⟨"define", [.text name, .text value], [("store", optText store)]⟩
  | .default name value =>
    { maker := "default", row := [.text name, .text value] }
  | .play channel file o => ⟨"play", [.text channel, .text file],
    [("fade_in", optNumber o.fadeIn), ("fade_out", optNumber o.fadeOut),
      ("volume", optNumber o.volume), ("loop", optFlag o.loop),
      ("queue", optFlag o.queue), ("if_changed", optFlag o.ifChanged)]⟩
  | .stop channel fadeOut =>
    ⟨"stop", [.text channel], [("fade_out", optNumber fadeOut)]⟩
  | .pause duration => { maker := "pause", row := [optNumber duration] }
  | .nvl action => { maker := "nvl", row := [.text action] }
  | .raw content => { maker := "raw", row := [.text content] }

/-- What a call makes for a line. -/
def Making.build (now : Timestamp) (n : Numbering) (m : Making)
    (line : Nat) : Except Fault Draft × Numbering :=
  Draft.build now n m.maker m.row (m.named ++ [("line", .int line)])

-- =============================================================== values

/-- Texts that are tidy if they are there. -/
def TidyText (o : Option String) : Prop := ∀ s ∈ o, Tidy s.toList

/-- Tidy texts, some if any. -/
def TidyTexts (o : Option (List String)) : Prop :=
  ∀ ts ∈ o, ts ≠ [] ∧ ∀ t ∈ ts, Tidy t.toList

/-- A tidy text is trimmed already. -/
theorem trimmed_of_tidy {s : String} (h : Tidy s.toList) :
    trimmed s = s := by
  rw [trimmed, h.trim_eq, String.ofList_toList]

theorem ne_empty_of_tidy {s : String} (h : Tidy s.toList) : s ≠ "" := by
  rintro rfl
  exact h.ne_nil rfl

namespace Draft

theorem trimmedText_of_tidy {s : String} (h : Tidy s.toList) :
    trimmedText (.text s) = .text s := by
  show Draft.text (trimmed s) = .text s
  rw [trimmed_of_tidy h]

theorem presentText_of_tidy {o : Option String} (h : TidyText o) :
    presentText (optText o) = optText o := by
  cases o with
  | none => rfl
  | some s =>
      show (if trimmed s = "" then Draft.null else .text (trimmed s)) = _
      rw [trimmed_of_tidy (h s rfl), if_neg (ne_empty_of_tidy (h s rfl))]
      rfl

/-- The texts that are left of a row of tidy ones are all of them, as they were:
none is empty, and none has blanks at its ends. -/
theorem presentTexts_of_tidy {o : Option (List String)}
    (h : TidyTexts o) : presentTexts (optTexts o) = .ok (optTexts o) := by
  cases o with
  | none => rfl
  | some ts =>
      obtain ⟨hne, htidy⟩ := h ts rfl
      have hthere : (ts.map Draft.text).filter (fun d => !d.isNull)
          = ts.map Draft.text :=
        List.filter_eq_self.mpr fun d hd => by
          obtain ⟨t, -, rfl⟩ := List.mem_map.mp hd
          rfl
      have htrim : (ts.map Draft.text).map (fun d => trimmed d.inLine)
          = ts := by
        rw [List.map_map]
        conv => rhs; rw [← List.map_id ts]
        exact List.map_congr_left fun t ht => trimmed_of_tidy (htidy t ht)
      have hkept : ts.filter (· ≠ "") = ts :=
        List.filter_eq_self.mpr fun t ht => by
          simpa using ne_empty_of_tidy (htidy t ht)
      show Except.ok (if List.isEmpty (((((ts.map Draft.text).filter
        fun d => !d.isNull)).map fun d => trimmed d.inLine).filter (· ≠ ""))
          then Draft.null else _) = _
      rw [hthere, htrim, hkept, if_neg (by simpa using hne)]
      rfl

theorem flag_optFlag (o : Option Bool) : flag (optFlag o) = optFlag o := by
  cases o with
  | none => rfl
  | some b => cases b <;> rfl

theorem needNumber_optNumber (name : String) (o : Option Number) :
    needNumber name (optNumber o) = .ok (optNumber o) := by
  cases o with
  | none => rfl
  | some n => rfl

theorem isOneOf_text {options : List String} {s : String}
    (h : s ∈ options) : isOneOf options (.text s) = true := by
  simpa [isOneOf] using h

end Draft

-- ================================================================ parts

theorem Grammar.Arguments.tidyTexts {o : Option (List String)}
    (h : Arguments o) : TidyTexts o := fun ts hts =>
  ⟨(h ts hts).1, fun t ht => ((h ts hts).2 t ht).1.tidy⟩

theorem ClauseValue.tidy {v : String} (h : ClauseValue v) :
    Tidy v.toList := by
  obtain ⟨ws, hne, rfl, hws⟩ := h
  rw [String.toList_intercalate]
  refine tidy_intercalate (by simpa using hne) fun w hw => ?_
  obtain ⟨v, hv, rfl⟩ := List.mem_map.mp hw
  exact (hws v hv).1.tidy

theorem Attribute.tidy {a : List Char} (h : Attribute a) : Tidy a := by
  obtain ⟨w, hw, hne, hall⟩ := h
  have hink : ∀ c ∈ w, isBlank c = false :=
    fun c hc => isBlank_of_isWordChar (hall c hc)
  rcases hw with rfl | rfl
  · exact tidy_of_all hne hink
  · exact tidy_of_all (by simp)
      (List.forall_mem_cons.mpr ⟨by decide, hink⟩)

/-- Who says a line, and with which attributes, is as it was read. -/
theorem Dialogue.Spoken.speakingParts {d : Dialogue} (h : d.Spoken)
    {get : String → Draft} (hspeaker : get "speaker" = optText d.speaker)
    (hattributes : get "attributes" = optTexts d.attributes)
    (hextend : get "extend" = optFlag d.extend) :
    Draft.speakingParts get
      = .ok (optText d.speaker, optTexts d.attributes) := by
  have hs : presentText (optText d.speaker) = optText d.speaker :=
    presentText_of_tidy fun s hs => (h.speaker s hs).1.tidy
  have ha : presentTexts (optTexts d.attributes)
      = .ok (optTexts d.attributes) :=
    presentTexts_of_tidy fun ts hts =>
      ⟨(h.attributes ts hts).1,
        fun t ht => ((h.attributes ts hts).2 t ht).tidy⟩
  unfold Draft.speakingParts
  rw [hspeaker, hattributes, hextend, hs, ha]
  have hextend := h.extend
  have hsomebody := h.somebody
  rcases hextend with hextend | ⟨hextend, hnobody⟩
  · rw [hextend] at hsomebody ⊢
    cases hspk : d.speaker with
    | some s => cases d.attributes <;> rfl
    | none =>
        have : d.attributes = none := by
          by_contra hattrs
          rcases hsomebody hattrs with hs | hs
          · exact hs hspk
          · cases hs
        rw [this]
        rfl
  · rw [hextend, hnobody]
    cases d.attributes <;> rfl

theorem isBlank_of_isImage {cs : List Char} (h : isImage cs = true) :
    cs ≠ [] ∧ ∀ c ∈ cs, isBlank c = false := by
  cases cs with
  | nil => cases h
  | cons c cs =>
      obtain ⟨hc, hcs⟩ := Bool.and_eq_true_iff.mp h
      refine ⟨by simp, List.forall_mem_cons.mpr
        ⟨isBlank_of_isWordChar hc, fun d hd => ?_⟩⟩
      have := List.all_eq_true.mp hcs d hd
      simp only [Bool.or_eq_true, decide_eq_true_eq] at this
      rcases this with hd | rfl
      · exact isBlank_of_isDottedChar hd
      · decide

/-- The image and the attributes of a picture are as they were read. -/
theorem splitImage_spoken {image : String} {o : Option (List String)}
    (himage : isImage image.toList = true) (ho : TidyTexts o) :
    splitImage (.text image) (optTexts o)
      = .ok (.text image, optTexts o) := by
  obtain ⟨hne, hink⟩ := isBlank_of_isImage himage
  have hfields : fields image.toList = [image.toList] :=
    fieldsFrom_of_ink hink hne
  have hsome : image ≠ "" := by
    rintro rfl
    exact hne rfl
  have hname : (if (Draft.text image).isTruthy then (Draft.text image).inLine
      else "") = image := if_pos (by simpa [isTruthy] using hsome)
  unfold splitImage
  simp only [hname, hfields]
  cases o with
  | none =>
      rw [String.ofList_toList]
      rfl
  | some ts =>
      have hall := presentTexts_of_tidy ho
      have hextra : itemsOf (optTexts (some ts))
          = .ok (ts.map Draft.text) := by
        have hts : ts ≠ [] := (ho ts rfl).1
        show (if (!(ts.map Draft.text).isEmpty) = true then _ else _) = _
        rw [if_pos (by simpa using hts)]
        rfl
      rw [hextra, String.ofList_toList]
      show (do
        let all ← presentTexts (optTexts (some ts))
        pure (Draft.text image, all)) = _
      rw [hall]
      rfl

theorem DisplayOptions.Spoken.displayParts {image : String}
    {o : DisplayOptions} (himage : isImage image.toList = true)
    (h : o.Spoken) (get : String → Draft)
    (hget : ∀ p ∈ [("image", .text image),
      ("attributes", optTexts o.attributes), ("as_tag", optText o.asTag),
      ("at_position", optText o.atPosition), ("behind", optText o.behind),
      ("layer", optText o.layer), ("zorder", optional int o.zorder),
      ("transition", optText o.transition)], get p.1 = p.2) :
    Draft.displayParts get = .ok (.text image, ofDisplayOptions o) := by
  simp only [List.forall_mem_cons] at hget
  obtain ⟨hi, ha, ht, hp, hb, hl, hz, hw, -⟩ := hget
  have hattributes : TidyTexts o.attributes := fun ts hts =>
    ⟨(h.attributes ts hts).1,
      fun t ht => ((h.attributes ts hts).2 t ht).1.tidy⟩
  unfold Draft.displayParts
  rw [hi, ha, ht, hp, hb, hl, hz, hw, splitImage_spoken himage hattributes,
    presentText_of_tidy fun v hv => (h.asTag v hv).1.tidy,
    presentText_of_tidy fun v hv => (h.atPosition v hv).tidy,
    presentText_of_tidy fun v hv => (h.behind v hv).tidy,
    presentText_of_tidy fun v hv => (h.layer v hv).1.tidy,
    presentText_of_tidy fun v hv => (h.transition v hv).tidy]
  unfold ofDisplayOptions
  cases o.zorder <;> rfl

theorem audioParts_spoken {o : AudioOptions} {get : String → Draft}
    (hget : ∀ p ∈ [("fade_in", optNumber o.fadeIn),
      ("fade_out", optNumber o.fadeOut), ("volume", optNumber o.volume),
      ("loop", optFlag o.loop), ("queue", optFlag o.queue),
      ("if_changed", optFlag o.ifChanged)], get p.1 = p.2) :
    Draft.audioParts get = .ok (ofAudioOptions o) := by
  simp only [List.forall_mem_cons] at hget
  obtain ⟨hi, ho, hv, hl, hq, hc, -⟩ := hget
  unfold Draft.audioParts
  rw [hi, ho, hv, hl, hq, hc, needNumber_optNumber, needNumber_optNumber,
    needNumber_optNumber, flag_optFlag, flag_optFlag, flag_optFlag]
  rfl

-- ================================================================ kinds

variable (now : Timestamp) (n : Numbering) (line : Nat)

/-- A call makes a statement of a line, with the next identity. -/
def Makes (s : Simple) : Prop :=
  s.making.build now n line
    = (.ok (ofStmt (.simple ⟨n.next.1, some line⟩ s)), n.next.2)

theorem makes_say {d : Dialogue} (h : d.Spoken) :
    Makes now n line (.say d) := by
  show construct now n "dialogue" _ = _
  unfold construct
  simp only
  show withIdentity n (Draft.speakingParts _) _ = _
  rw [h.speakingParts rfl rfl rfl]
  show ((do
    let arguments ← presentTexts (optTexts d.arguments)
    pure (stmt .dialogue (.text n.next.1) (.int line)
      [("speaker", optText d.speaker), ("text", .text d.text),
        ("attributes", optTexts d.attributes),
        ("transition", presentText (optText d.transition)),
        ("extend", flag (optFlag d.extend)), ("arguments", arguments)])),
    n.next.2) = _
  rw [presentTexts_of_tidy h.arguments.tidyTexts,
    presentText_of_tidy fun t ht => (h.transition t ht).tidy, flag_optFlag]
  rfl

/-- The values that a change of the picture is made from. -/
def pictureValues (image : String) (o : DisplayOptions) :
    List (String × Draft) :=
  [("image", .text image), ("attributes", optTexts o.attributes),
    ("as_tag", optText o.asTag), ("at_position", optText o.atPosition),
    ("behind", optText o.behind), ("layer", optText o.layer),
    ("zorder", optional int o.zorder),
    ("transition", optText o.transition), ("line", .int line)]

theorem makes_display (verb : DisplayVerb) {image : String}
    {o : DisplayOptions} (himage : isImage image.toList = true)
    (h : o.Spoken) : Makes now n line (.display verb image o) := by
  have hparts := h.displayParts himage (fun name =>
    (field? name (pictureValues line image o)).getD .null) (by
      simp only [List.forall_mem_cons]
      exact ⟨rfl, rfl, rfl, rfl, rfl, rfl, rfl, rfl, by simp⟩)
  have hshows : ∀ k, withIdentity n (Draft.displayParts fun name =>
      (field? name (pictureValues line image o)).getD .null)
      (fun parts id => .ok (stmt k id (.int line)
        [("image", parts.1), ("options", parts.2)]))
        = (.ok (stmt k (.text n.next.1) (.int line)
            [("image", .text image), ("options", ofDisplayOptions o)]),
          n.next.2) := by
    intro k
    rw [hparts]
    rfl
  cases verb with
  | scene => exact hshows .scene
  | reveal => exact hshows .reveal
  | hide => exact hshows .hide

theorem makes_transition {name : String} (h : Tidy name.toList) :
    Makes now n line (.transition name) := by
  show (Except.ok (stmt .transition (.text n.next.1) (.int line)
    [("transition", trimmedText (.text name))]), n.next.2) = _
  rw [trimmedText_of_tidy h]
  rfl

theorem makes_jump {target : String} {expression : Option Bool}
    (h : Tidy target.toList) : Makes now n line (.jump target expression) := by
  show (Except.ok (stmt .jump (.text n.next.1) (.int line)
    [("target", trimmedText (.text target)),
      ("expression", flag (optFlag expression))]), n.next.2) = _
  rw [trimmedText_of_tidy h, flag_optFlag]
  rfl

theorem makes_call {c : Call} (h : c.Spoken) :
    Makes now n line (.call c) := by
  have htarget : Tidy c.target.toList := by
    rcases h.target with ⟨-, ht⟩ | ⟨-, ht⟩
    · exact ht.tidy
    · exact ht.tidy
  show ((do
    let arguments ← presentTexts (optTexts c.arguments)
    pure [("target", trimmedText (.text c.target)), ("arguments", arguments),
      ("expression", flag (optFlag c.expression)),
      ("from_label", presentText (optText c.fromLabel))]
    : Except Fault _).map (stmt .call (.text n.next.1) (.int line)),
      n.next.2) = _
  rw [presentTexts_of_tidy h.arguments.tidyTexts,
    trimmedText_of_tidy htarget, flag_optFlag,
    presentText_of_tidy fun l hl => (h.fromLabel l hl).tidy]
  rfl

theorem makes_giveBack {value : Option String} (h : TidyText value) :
    Makes now n line (.giveBack value) := by
  show (Except.ok (stmt .giveBack (.text n.next.1) (.int line)
    [("value", presentText (optText value))]), n.next.2) = _
  rw [presentText_of_tidy h]
  rfl

theorem makes_assign {target value operator : String}
    (ht : Tidy target.toList) (hv : Tidy value.toList)
    (ho : operator ∈ assignOperators) :
    Makes now n line (.assign target value operator) := by
  have hsome : (Draft.text operator).isTruthy = true := by
    simp only [isTruthy, assignOperators, List.mem_cons] at ho ⊢
    rcases ho with rfl | rfl | rfl | rfl | rfl | ho
    all_goals first | decide | cases ho
  show construct now n "set" (fun name => (field? name
    [("variable", .text target), ("value", .text value),
      ("operator", .text operator), ("line", .int line)]).getD .null) = _
  unfold construct
  simp only
  show withIdentity n (if isOneOf assignOperators
    (if (Draft.text operator).isTruthy then Draft.text operator
      else .text "=") then _ else _) _ = _
  rw [if_pos hsome, if_pos (isOneOf_text ho)]
  show (Except.ok (stmt .assign (.text n.next.1) (.int line)
    [("variable", trimmedText (.text target)),
      ("value", trimmedText (.text value)),
      ("operator", if (Draft.text operator).isTruthy then .text operator
        else .text "=")]), n.next.2) = _
  rw [if_pos hsome, trimmedText_of_tidy ht, trimmedText_of_tidy hv]
  rfl

theorem makes_code (c : Code) : Makes now n line (.code c) := by
  have hcode : (if (Draft.text c.code).isTruthy then Draft.text c.code
      else .text "") = .text c.code := by
    by_cases h : c.code = ""
    · rw [h]
      rfl
    · rw [if_pos (by simpa [isTruthy] using h)]
  show (Except.ok (stmt .code (.text n.next.1) (.int line)
    [("code", if (Draft.text c.code).isTruthy then .text c.code
        else .text ""), ("early", flag (optFlag c.early)),
      ("hide", flag (optFlag c.hide)), ("init", flag (optFlag c.init))]),
    n.next.2) = _
  rw [hcode, flag_optFlag, flag_optFlag, flag_optFlag]
  rfl

theorem makes_define {name value : String} {store : Option String}
    (hn : Tidy name.toList) (hv : Tidy value.toList)
    (hs : TidyText store) : Makes now n line (.define name value store) := by
  show (Except.ok (stmt .define (.text n.next.1) (.int line)
    [("name", trimmedText (.text name)),
      ("value", trimmedText (.text value)),
      ("store", presentText (optText store))]), n.next.2) = _
  rw [trimmedText_of_tidy hn, trimmedText_of_tidy hv, presentText_of_tidy hs]
  rfl

theorem makes_default {name value : String} (hn : Tidy name.toList)
    (hv : Tidy value.toList) : Makes now n line (.default name value) := by
  show (Except.ok (stmt .default (.text n.next.1) (.int line)
    [("name", trimmedText (.text name)),
      ("value", trimmedText (.text value))]), n.next.2) = _
  rw [trimmedText_of_tidy hn, trimmedText_of_tidy hv]
  rfl

theorem needChannel_of_mem {channel : String} (h : channel ∈ channels) :
    needChannel (.text channel) = .ok (.text channel) := by
  rw [needChannel, if_pos (isOneOf_text h)]

theorem makes_play {channel file : String} {o : AudioOptions}
    (h : channel ∈ channels) : Makes now n line (.play channel file o) := by
  show construct now n "play" _ = _
  unfold construct
  simp only
  show withIdentity n (Draft.audioParts _) _ = _
  rw [audioParts_spoken (o := o) (by
    simp only [List.forall_mem_cons]
    exact ⟨rfl, rfl, rfl, rfl, rfl, rfl, by simp⟩)]
  show ((do
    let channel ← needChannel (.text channel)
    pure (stmt .play (.text n.next.1) (.int line) [("channel", channel),
      ("file", .text file), ("options", ofAudioOptions o)])), n.next.2) = _
  rw [needChannel_of_mem h]
  rfl

theorem makes_stop {channel : String} {fadeOut : Option Number}
    (h : channel ∈ channels) : Makes now n line (.stop channel fadeOut) := by
  show ((do
    let channel ← needChannel (.text channel)
    let fadeOut ← needNumber "fade_out" (optNumber fadeOut)
    pure [("channel", channel), ("fade_out", fadeOut)]
    : Except Fault _).map (stmt .stop (.text n.next.1) (.int line)),
      n.next.2) = _
  rw [needChannel_of_mem h, needNumber_optNumber]
  rfl

theorem makes_pause (duration : Option Number) :
    Makes now n line (.pause duration) := by
  show ((do
    let duration ← needNumber "duration" (optNumber duration)
    pure [("duration", duration)]
    : Except Fault _).map (stmt .pause (.text n.next.1) (.int line)),
      n.next.2) = _
  rw [needNumber_optNumber]
  rfl

theorem makes_nvl {action : String} (h : action ∈ nvlActions) :
    Makes now n line (.nvl action) := by
  show construct now n "nvl" (fun name => (field? name
    [("action", .text action), ("line", .int line)]).getD .null) = _
  unfold construct
  simp only
  show withIdentity n (if isOneOf nvlActions (.text action) then _
    else _) _ = _
  rw [if_pos (isOneOf_text h)]
  rfl

theorem makes_raw (content : String) : Makes now n line (.raw content) :=
  rfl

/-- Whatever one line said is made from its own fields. -/
theorem makes_of_spoken : ∀ {s : Simple}, s.Spoken → Makes now n line s
  | .say _, h => makes_say now n line h
  | .display verb _ _, h => makes_display now n line verb h.1 h.2.2
  | .transition _, h => makes_transition now n line h.tidy
  | .jump _ _, h => makes_jump now n line (by
      rcases h with ⟨-, h⟩ | ⟨-, h⟩
      · exact h.tidy
      · exact h.tidy)
  | .call _, h => makes_call now n line h
  | .giveBack _, h => makes_giveBack now n line fun v hv => (h v hv).tidy
  | .assign _ _ _, h => makes_assign now n line h.1.tidy h.2.1.tidy h.2.2
  | .code c, _ => makes_code now n line c
  | .define _ _ _, h => makes_define now n line h.1.tidy h.2.1.tidy
      fun s hs => (h.2.2 s hs).tidy
  | .default _ _, h => makes_default now n line h.1.tidy h.2.tidy
  | .play _ _ _, h => makes_play now n line h.1
  | .stop _ _, h => makes_stop now n line h.1
  | .pause duration, _ => makes_pause now n line duration
  | .nvl _, h => makes_nvl now n line h

-- ================================================= compound statements

theorem itemsOf_list (ds : List Draft) : itemsOf (.list ds) = .ok ds := by
  cases ds <;> rfl

theorem build_label {name : String} {parameters : Option (List String)}
    (body : List Stmt) (hn : Tidy name.toList) (hp : TidyTexts parameters) :
    Draft.build now n "label" [.text name, .list (ofStmts body)]
        [("parameters", optTexts parameters), ("line", .int line)]
      = (.ok (ofStmt (.label ⟨n.next.1, some line⟩ name parameters body)),
          n.next.2) := by
  show ((do
    let body ← itemsOf (.list (ofStmts body))
    let parameters ← presentTexts (optTexts parameters)
    pure [("name", trimmedText (.text name)), ("body", .list body),
      ("parameters", parameters)]
    : Except Fault _).map (stmt .label (.text n.next.1) (.int line)),
      n.next.2) = _
  rw [itemsOf_list, presentTexts_of_tidy hp, trimmedText_of_tidy hn]
  rfl

/-- A branch as a draft. -/
def Draft.ofBranch (condition : Option String) (line : Nat)
    (body : List Draft) : Draft :=
  .record .branch [("condition", optText condition), ("body", .list body),
    ("line", .int line)]

theorem build_branch {condition : Option String} (body : List Draft)
    (h : TidyText condition) :
    Draft.build now n "if_branch" [optText condition, .list body, .int line]
        []
      = (.ok (ofBranch condition line body), n) := by
  show ((do
    let body ← itemsOf (.list body)
    pure (make .branch [("condition", presentText (optText condition)),
      ("body", .list body), ("line", .int line)])), n) = _
  rw [itemsOf_list, presentText_of_tidy h]
  rfl

theorem build_conditional (condition : String) (body : List Stmt)
    (branches : List Branch) :
    Draft.build now n "if_" [.list (ofBranches
        (.mk (some condition) (some line) body :: branches))]
        [("line", .int line)]
      = (.ok (ofStmt (.conditional ⟨n.next.1, some line⟩
          (.mk (some condition) (some line) body :: branches))),
        n.next.2) :=
  rfl

/-- A choice as a draft. -/
def Draft.ofChoice (said : String) (condition : Option String) (line : Nat)
    (body : List Draft) : Draft :=
  .record .choice [("text", .text said), ("body", .list body),
    ("condition", optText condition), ("line", .int line)]

theorem build_choice {condition : Option String} (said : String)
    (body : List Draft) (h : TidyText condition) :
    Draft.build now n "menu_choice"
        [.text said, .list body, optText condition] [("line", .int line)]
      = (.ok (ofChoice said condition line body), n) := by
  show ((do
    let body ← itemsOf (.list body)
    pure (make .choice [("text", .text said), ("body", .list body),
      ("condition", presentText (optText condition)),
      ("line", .int line)])), n) = _
  rw [itemsOf_list, presentText_of_tidy h]
  rfl

/-- A menu is made from its parts as they were read; an empty question is
none then, and nobody asks it. -/
theorem build_menu {m : Reading.MenuParts} {name : Option String}
    (screen : Option String) (hs : TidyText m.promptSpeaker)
    (hv : TidyText m.setVar) (hn : TidyText name) :
    Draft.build now n "menu" [.list (ofChoices m.choices)]
        [("prompt", optText (m.prompt.map String.ofList)),
          ("prompt_speaker", optText m.promptSpeaker),
          ("set_var", optText m.setVar), ("screen", optText screen),
          ("name", optText name), ("line", .int line)]
      = (.ok (ofStmt (.menu ⟨n.next.1, some line⟩
          (Reading.menuHead m name screen) m.choices)), n.next.2) := by
  have hscreen : presentText (optText screen)
      = optText (screen.bind Reading.presentText) := by
    cases screen with
    | none => rfl
    | some s =>
        show (if trimmed s = "" then Draft.null else .text (trimmed s))
          = optText (if trimmed s = "" then none else some (trimmed s))
        split <;> rfl
  -- What the factory does, with its table of checks evaluated at these fields.
  show ((do
    let choices ← itemsOf (.list (ofChoices m.choices))
    let asked := (optText (m.prompt.map String.ofList)).isTruthy
    pure [("choices", Draft.list choices),
      ("prompt", if asked then optText (m.prompt.map String.ofList)
        else .null),
      ("prompt_speaker", if asked then presentText (optText m.promptSpeaker)
        else .null),
      ("set_var", presentText (optText m.setVar)),
      ("screen", presentText (optText screen)),
      ("name", presentText (optText name))]
    : Except Fault _).map (stmt .menu (.text n.next.1) (.int line)),
      n.next.2) = _
  rw [itemsOf_list, presentText_of_tidy hs, presentText_of_tidy hv, hscreen,
    presentText_of_tidy hn]
  obtain ⟨prompt, speaker, var, choices⟩ := m
  -- Without a question the speaker is dropped, and an empty question is none.
  cases prompt with
  | none => rfl
  | some text =>
      cases text with
      | nil => rfl
      | cons c cs =>
          have hasked : (Draft.text (String.ofList (c :: cs))).isTruthy
              = true := by
            simp [isTruthy]
          simp only [Option.map_some, optText, Draft.optional, hasked]
          rfl

/-- A script is made from its statements; without a version it gets that of
the format. -/
theorem build_script (ss : List Stmt) (file version : String) :
    Draft.build now n "script" [.list (ofStmts ss)]
        [("file_path", .text file), ("version", .text version)]
      = (.ok (ofScript ⟨ss, ⟨file, now,
          if version = "" then formatVersion else version⟩⟩), n) := by
  have horElse : ∀ s t : String,
      (if (Draft.text s).isTruthy then Draft.text s else .text t)
        = .text (if s = "" then t else s) := by
    intro s t
    by_cases h : s = ""
    · subst h
      rfl
    · rw [if_pos (by simpa [isTruthy] using h), if_neg h]
  have hfile : (if file = "" then "" else file) = file := by
    split
    · next h => exact h.symm
    · rfl
  show ((do
    let statements ← itemsOf (.list (ofStmts ss))
    pure (make .script [("statements", .list statements),
      ("metadata", make .metadata
        [("file_path", if (Draft.text file).isTruthy then .text file
            else .text ""),
          ("parse_time", .moment now),
          ("version", if (Draft.text version).isTruthy then .text version
            else .text formatVersion)])])), n) = _
  rw [itemsOf_list, horElse, horElse, hfile]
  rfl

end NovelScript
