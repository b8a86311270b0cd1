/-
The normal form behind the comparison. Two scripts mean the same exactly if
their normal forms are the same tree, up to numbers that count as the same.

# What the normal form drops

* Identities and lines.
* The difference between nothing and an empty text or list, wherever the field
  may be absent. A text that has to be there has but one way of being absent,
  which is to be empty, and stays as it is.
* Of a flag all but its truth value, except whether a sound is repeated, which
  may also be left unsaid.
* The layout of code.
* A body that only says `pass`, which becomes an empty one. The outermost
  statements are no body.

It is a function from statements to statements that knows nothing of the
comparison, and `equivalent_normal` says that the comparison decides it.

# What follows

What kind of relation the comparison is: symmetric; reflexive unless something
is no number; and an equivalence on scripts without numbers. With numbers it is
none, since nearness is not transitive.
-/
import NovelScript.Proofs.Draft.Comparing
import NovelScript.Proofs.RoundTrip.Again
import NovelScript.Proofs.RoundTrip.Relabel

namespace NovelScript

-- ======================================================== normal forms

/-- A flag by its truth value. -/
def truth (flag : Option Bool) : Option Bool := some (Written.isSet flag)

/-- The normal form of the clauses of a display statement. -/
def DisplayOptions.normal (o : DisplayOptions) : DisplayOptions where
  attributes := presentItems o.attributes
  asTag := Written.present o.asTag
  atPosition := Written.present o.atPosition
  behind := Written.present o.behind
  layer := Written.present o.layer
  zorder := o.zorder
  transition := Written.present o.transition

/-- The normal form of the clauses of a sound statement. Whether the sound is
repeated may also be left unsaid. -/
def AudioOptions.normal (o : AudioOptions) : AudioOptions where
  fadeIn := o.fadeIn
  fadeOut := o.fadeOut
  volume := o.volume
  loop := o.loop
  queue := truth o.queue
  ifChanged := truth o.ifChanged

/-- The normal form of a simple statement. -/
def Simple.normal : Simple → Simple
  | .say d => .say
    { speaker := Written.present d.speaker
      text := d.text
      attributes := presentItems d.attributes
      transition := Written.present d.transition
      extend := truth d.extend
      arguments := presentItems d.arguments }
  | .display verb image o => .display verb image o.normal
  | .jump target expression => .jump target (truth expression)
  | .call c => .call
    { target := c.target
      arguments := presentItems c.arguments
      expression := truth c.expression
      fromLabel := Written.present c.fromLabel }
  | .giveBack value => .giveBack (Written.present value)
  | .code c => .code
    { code := String.ofList (Text.normalCode c.code.toList)
      early := truth c.early
      hide := truth c.hide
      init := truth c.init }
  | .define name value store => .define name value (Written.present store)
  | .play channel file o => .play channel file o.normal
  | .transition name => .transition name
  | .assign target value operator => .assign target value operator
  | .default name value => .default name value
  | .stop channel fadeOut => .stop channel fadeOut
  | .pause duration => .pause duration
  | .nvl action => .nvl action
  | .raw content => .raw content

mutual

/-- The normal form of a statement. -/
def Stmt.normal : Stmt → Stmt
  | .simple _ s => .simple ⟨"", none⟩ s.normal
  | .label _ name parameters body =>
    .label ⟨"", none⟩ name (presentItems parameters)
      (Draft.withoutPass (Stmt.normalAll body))
  | .menu _ head choices =>
    .menu ⟨"", none⟩ head.again (Choice.normalAll choices)
  | .conditional _ branches =>
    .conditional ⟨"", none⟩ (Branch.normalAll branches)

/-- The normal form of statements. -/
def Stmt.normalAll : List Stmt → List Stmt
  | [] => []
  | s :: more => Stmt.normal s :: Stmt.normalAll more

/-- The normal form of choices. -/
def Choice.normalAll : List Choice → List Choice
  | [] => []
  | .mk text condition _ body :: more =>
    .mk text (Written.present condition) none
        (Draft.withoutPass (Stmt.normalAll body))
      :: Choice.normalAll more

/-- The normal form of branches. -/
def Branch.normalAll : List Branch → List Branch
  | [] => []
  | .mk condition _ body :: more =>
    .mk (Written.present condition) none
        (Draft.withoutPass (Stmt.normalAll body))
      :: Branch.normalAll more

end

-- ================================================== same up to numbers

/-- Numbers that are both absent or count as the same. -/
def OptNear : Option Number → Option Number → Prop :=
  Option.Rel Number.Near

/-- The same clauses up to the numbers. -/
def DisplayOptions.Near (o o' : DisplayOptions) : Prop :=
  { o with zorder := none } = { o' with zorder := none }
    ∧ OptNear (o.zorder.map .int) (o'.zorder.map .int)

/-- The same clauses up to the numbers. -/
def AudioOptions.Near (o o' : AudioOptions) : Prop :=
  OptNear o.fadeIn o'.fadeIn ∧ OptNear o.fadeOut o'.fadeOut
    ∧ OptNear o.volume o'.volume
    ∧ o.loop = o'.loop ∧ o.queue = o'.queue ∧ o.ifChanged = o'.ifChanged

/-- The same simple statement up to the numbers. -/
def Simple.Near : Simple → Simple → Prop
  | .display verb image o, .display verb' image' o' =>
    verb = verb' ∧ image = image' ∧ o.Near o'
  | .play channel file o, .play channel' file' o' =>
    channel = channel' ∧ file = file' ∧ o.Near o'
  | .stop channel fadeOut, .stop channel' fadeOut' =>
    channel = channel' ∧ OptNear fadeOut fadeOut'
  | .pause duration, .pause duration' => OptNear duration duration'
  | s, s' => s = s'

section

variable (R : Simple → Simple → Prop)

mutual

/-- The same statement up to a relation between simple statements. -/
def Stmt.Same : Stmt → Stmt → Prop
  | .simple tag s, .simple tag' s' => tag = tag' ∧ R s s'
  | .label tag name ps body, .label tag' name' ps' body' =>
    tag = tag' ∧ name = name' ∧ ps = ps' ∧ Stmt.SameAll body body'
  | .menu tag head choices, .menu tag' head' choices' =>
    tag = tag' ∧ head = head' ∧ Choice.SameAll choices choices'
  | .conditional tag branches, .conditional tag' branches' =>
    tag = tag' ∧ Branch.SameAll branches branches'
  | _, _ => False
termination_by structural s => s

/-- The same statements up to a relation between simple statements. -/
def Stmt.SameAll : List Stmt → List Stmt → Prop
  | [], [] => True
  | s :: more, s' :: more' => Stmt.Same s s' ∧ Stmt.SameAll more more'
  | _, _ => False
termination_by structural s => s

/-- The same choices up to a relation between simple statements. -/
def Choice.SameAll : List Choice → List Choice → Prop
  | [], [] => True
  | .mk text condition line body :: more,
      .mk text' condition' line' body' :: more' =>
    text = text' ∧ condition = condition' ∧ line = line'
      ∧ Stmt.SameAll body body' ∧ Choice.SameAll more more'
  | _, _ => False
termination_by structural s => s

/-- The same branches up to a relation between simple statements. -/
def Branch.SameAll : List Branch → List Branch → Prop
  | [], [] => True
  | .mk condition line body :: more, .mk condition' line' body' :: more' =>
    condition = condition' ∧ line = line'
      ∧ Stmt.SameAll body body' ∧ Branch.SameAll more more'
  | _, _ => False
termination_by structural s => s

end

end

/-- The same statements up to numbers that count as the same. -/
def Stmt.NearAll : List Stmt → List Stmt → Prop :=
  Stmt.SameAll Simple.Near

-- ================================================== alike simple statements

namespace Draft

theorem alike_number {m n : Number} :
    Alike (.number m) (.number n) ↔ m.Near n := by
  have hkind : ((Draft.number n).stmtKind?).isSome = false := rfl
  unfold Alike difference Number.Near
  simp only [hkind, Bool.false_eq_true, if_false, leafDifference, isAbsent,
    Bool.or_self]
  cases m.close? n with
  | none => simp
  | some near => cases near <;> simp

theorem alike_optNumber {o o' : Option Number} :
    Alike (optNumber o) (optNumber o') ↔ OptNear o o' := by
  cases o with
  | none =>
      cases o' with
      | none => exact ⟨fun _ => .none, fun _ => rfl⟩
      | some n => exact ⟨fun h => (nomatch h), fun h => (nomatch h)⟩
  | some m =>
      cases o' with
      | none => exact ⟨fun h => (nomatch h), fun h => (nomatch h)⟩
      | some n =>
          refine alike_number.trans ⟨fun h => .some h, fun h => ?_⟩
          cases h with
          | some h => exact h

theorem alike_optFlag {o o' : Option Bool} :
    Alike (optFlag o) (optFlag o') ↔ o = o' := by
  cases o with
  | none => cases o' <;> simp [Alike, difference, optFlag, optional, stmtKind?,
      leafDifference, isAbsent]
  | some b => cases o' <;> simp [Alike, difference, optFlag, optional,
      stmtKind?, leafDifference, isAbsent]

theorem truth_inj {f f' : Option Bool} :
    truth f = truth f' ↔ Written.isSet f = Written.isSet f' :=
  Option.some_inj

theorem presentItems_inj {o o' : Option (List String)} :
    presentItems o = presentItems o' ↔ Written.items o = Written.items o' := by
  constructor
  · intro h
    rw [← items_presentItems o, h, items_presentItems]
  · intro h
    rw [presentItems, presentItems, h]

theorem codeOf_text (c : String) :
    codeOf (.text c) = .ok (Text.normalCode c.toList) := by
  by_cases hc : c = ""
  · subst hc
    rfl
  · simp [codeOf, textOrEmpty, isTruthy, hc, Except.map]

theorem fieldAlike_code {c c' : String} :
    FieldAlike (.stmt .code) "code" (.text c) (.text c')
      ↔ Text.normalCode c.toList = Text.normalCode c'.toList := by
  unfold FieldAlike oneDifference
  rw [if_neg (by decide), if_neg (by decide), if_neg (by decide),
    if_pos (by decide), codeOf_text, codeOf_text]
  show Except.ok (if _ then _ else _) = _ ↔ _
  split <;> simp_all

theorem alike_displayOptions {o o' : DisplayOptions} :
    Alike (ofDisplayOptions o) (ofDisplayOptions o')
      ↔ o.normal.Near o'.normal := by
  rw [ofDisplayOptions, ofDisplayOptions, alike_record]
  simp only [List.forall_mem_cons, List.not_mem_nil, false_imp_iff,
    implies_true, and_true]
  rw [fieldAlike_plain "attributes" (by simp) rfl (by simp),
    fieldAlike_plain "as_tag" (by simp) rfl (by simp),
    fieldAlike_plain "at_position" (by simp) rfl (by simp),
    fieldAlike_plain "behind" (by simp) rfl (by simp),
    fieldAlike_plain "layer" (by simp) rfl (by simp),
    fieldAlike_plain "zorder" (by simp) rfl (by simp),
    fieldAlike_plain "transition" (by simp) rfl (by simp)]
  show Alike (optTexts o.attributes) (optTexts o'.attributes)
      ∧ Alike (optText o.asTag) (optText o'.asTag)
      ∧ Alike (optText o.atPosition) (optText o'.atPosition)
      ∧ Alike (optText o.behind) (optText o'.behind)
      ∧ Alike (optText o.layer) (optText o'.layer)
      ∧ Alike (optional int o.zorder) (optional int o'.zorder)
      ∧ Alike (optText o.transition) (optText o'.transition) ↔ _
  simp only [alike_optTexts, alike_optText, optional_int, alike_optNumber,
    DisplayOptions.Near, DisplayOptions.normal, DisplayOptions.mk.injEq,
    presentItems_inj]
  tauto

theorem alike_audioOptions {o o' : AudioOptions} :
    Alike (ofAudioOptions o) (ofAudioOptions o')
      ↔ o.normal.Near o'.normal := by
  rw [ofAudioOptions, ofAudioOptions, alike_record]
  simp only [List.forall_mem_cons, List.not_mem_nil, false_imp_iff,
    implies_true, and_true]
  rw [fieldAlike_plain "fade_in" (by simp) rfl (by simp),
    fieldAlike_plain "fade_out" (by simp) rfl (by simp),
    fieldAlike_plain "volume" (by simp) rfl (by simp),
    fieldAlike_plain "loop" (by simp) rfl (by simp),
    fieldAlike_flag (by simp) rfl, fieldAlike_flag (by simp) rfl]
  show Alike (optNumber o.fadeIn) (optNumber o'.fadeIn)
      ∧ Alike (optNumber o.fadeOut) (optNumber o'.fadeOut)
      ∧ Alike (optNumber o.volume) (optNumber o'.volume)
      ∧ Alike (optFlag o.loop) (optFlag o'.loop)
      ∧ (optFlag o.queue).isTruthy = (optFlag o'.queue).isTruthy
      ∧ (optFlag o.ifChanged).isTruthy = (optFlag o'.ifChanged).isTruthy ↔ _
  simp only [alike_optNumber, alike_optFlag, isTruthy_optFlag,
    AudioOptions.Near, AudioOptions.normal, truth_inj]

/-- Two simple statements of one kind. -/
inductive OneKind : Simple → Simple → Prop
  | say (d d' : Dialogue) : OneKind (.say d) (.say d')
  | display (verb : DisplayVerb) (image image' : String)
      (o o' : DisplayOptions) :
      OneKind (.display verb image o) (.display verb image' o')
  | transition (name name' : String) :
      OneKind (.transition name) (.transition name')
  | jump (target target' : String) (e e' : Option Bool) :
      OneKind (.jump target e) (.jump target' e')
  | call (c c' : Call) : OneKind (.call c) (.call c')
  | giveBack (value value' : Option String) :
      OneKind (.giveBack value) (.giveBack value')
  | assign (target target' value value' operator operator' : String) :
      OneKind (.assign target value operator) (.assign target' value' operator')
  | code (c c' : Code) : OneKind (.code c) (.code c')
  | define (name name' value value' : String) (store store' : Option String) :
      OneKind (.define name value store) (.define name' value' store')
  | default (name name' value value' : String) :
      OneKind (.default name value) (.default name' value')
  | play (channel channel' file file' : String) (o o' : AudioOptions) :
      OneKind (.play channel file o) (.play channel' file' o')
  | stop (channel channel' : String) (fadeOut fadeOut' : Option Number) :
      OneKind (.stop channel fadeOut) (.stop channel' fadeOut')
  | pause (duration duration' : Option Number) :
      OneKind (.pause duration) (.pause duration')
  | nvl (action action' : String) : OneKind (.nvl action) (.nvl action')
  | raw (content content' : String) : OneKind (.raw content) (.raw content')

theorem oneKind_of_eq {s s' : Simple} (h : (ofSimple s).1 = (ofSimple s').1) :
    OneKind s s' := by
  cases s with
  | display verb image o =>
      cases s' with
      | display verb' image' o' =>
          have hverb : verb = verb' := by
            cases verb <;> cases verb' <;> first | rfl | cases h
          subst hverb
          constructor
      | _ => cases verb <;> cases h
  | _ =>
      cases s' with
      | display verb' image' o' => cases verb' <;> cases h
      | _ => first | constructor | cases h

theorem kind_normal (s : Simple) :
    (ofSimple s.normal).1 = (ofSimple s).1 := by
  cases s <;> rfl

theorem kind_eq_of_near {s s' : Simple} (h : s.Near s') :
    (ofSimple s).1 = (ofSimple s').1 := by
  unfold Simple.Near at h
  split at h
  · obtain ⟨rfl, -⟩ := h
    rfl
  · rfl
  · rfl
  · rfl
  · rw [h]

/-- Simple statements are alike if their normal forms are near. -/
theorem simpleAlike_iff_near {s s' : Simple} :
    SimpleAlike s s' ↔ s.normal.Near s'.normal := by
  by_cases hkind : (ofSimple s).1 = (ofSimple s').1
  · rw [SimpleAlike, and_iff_right hkind]
    -- Of two statements of one kind the fields are gone through in order; each
    -- is compared as its name says, and the normal form does the same to it.
    cases oneKind_of_eq hkind with
    | say d d' =>
        simp only [ofSimple, List.forall_mem_cons, List.not_mem_nil,
          false_imp_iff, implies_true, and_true]
        rw [fieldAlike_plain "speaker" (by simp) rfl (by simp),
          fieldAlike_plain "text" (by simp) rfl (by simp),
          fieldAlike_plain "attributes" (by simp) rfl (by simp),
          fieldAlike_plain "transition" (by simp) rfl (by simp),
          fieldAlike_flag (by simp) rfl,
          fieldAlike_plain "arguments" (by simp) rfl (by simp)]
        show Alike (optText d.speaker) (optText d'.speaker)
            ∧ Alike (.text d.text) (.text d'.text)
            ∧ Alike (optTexts d.attributes) (optTexts d'.attributes)
            ∧ Alike (optText d.transition) (optText d'.transition)
            ∧ (optFlag d.extend).isTruthy = (optFlag d'.extend).isTruthy
            ∧ Alike (optTexts d.arguments) (optTexts d'.arguments) ↔ _
        simp only [alike_optTexts, alike_optText, alike_text, isTruthy_optFlag,
          Simple.normal, Simple.Near, Simple.say.injEq, Dialogue.mk.injEq,
          presentItems_inj, truth_inj]
    | display verb image image' o o' =>
        simp only [ofSimple, List.forall_mem_cons, List.not_mem_nil,
          false_imp_iff, implies_true, and_true]
        rw [fieldAlike_plain "image" (by simp) (by cases verb <;> rfl) (by simp),
          fieldAlike_plain "options" (by simp) (by cases verb <;> rfl) (by simp)]
        show Alike (.text image) (.text image')
            ∧ Alike (ofDisplayOptions o) (ofDisplayOptions o') ↔ _
        simp only [alike_text, alike_displayOptions, Simple.normal, Simple.Near,
          true_and]
    | transition name name' =>
        simp only [ofSimple, List.forall_mem_cons, List.not_mem_nil,
          false_imp_iff, implies_true, and_true]
        rw [fieldAlike_plain "transition" (by simp) rfl (by simp)]
        show Alike (.text name) (.text name') ↔ _
        simp only [alike_text, Simple.normal, Simple.Near, Simple.transition.injEq]
    | jump target target' e e' =>
        simp only [ofSimple, List.forall_mem_cons, List.not_mem_nil,
          false_imp_iff, implies_true, and_true]
        rw [fieldAlike_plain "target" (by simp) rfl (by simp),
          fieldAlike_flag (by simp) rfl]
        show Alike (.text target) (.text target')
            ∧ (optFlag e).isTruthy = (optFlag e').isTruthy ↔ _
        simp only [alike_text, isTruthy_optFlag, Simple.normal, Simple.Near,
          Simple.jump.injEq, truth_inj]
    | call c c' =>
        simp only [ofSimple, List.forall_mem_cons, List.not_mem_nil,
          false_imp_iff, implies_true, and_true]
        rw [fieldAlike_plain "target" (by simp) rfl (by simp),
          fieldAlike_plain "arguments" (by simp) rfl (by simp),
          fieldAlike_flag (by simp) rfl,
          fieldAlike_plain "from_label" (by simp) rfl (by simp)]
        show Alike (.text c.target) (.text c'.target)
            ∧ Alike (optTexts c.arguments) (optTexts c'.arguments)
            ∧ (optFlag c.expression).isTruthy = (optFlag c'.expression).isTruthy
            ∧ Alike (optText c.fromLabel) (optText c'.fromLabel) ↔ _
        simp only [alike_optTexts, alike_optText, alike_text, isTruthy_optFlag,
          Simple.normal, Simple.Near, Simple.call.injEq, Call.mk.injEq,
          presentItems_inj, truth_inj]
    | giveBack value value' =>
        simp only [ofSimple, List.forall_mem_cons, List.not_mem_nil,
          false_imp_iff, implies_true, and_true]
        rw [fieldAlike_plain "value" (by simp) rfl (by simp)]
        show Alike (optText value) (optText value') ↔ _
        simp only [alike_optText, Simple.normal, Simple.Near,
          Simple.giveBack.injEq]
    | assign target target' value value' operator operator' =>
        simp only [ofSimple, List.forall_mem_cons, List.not_mem_nil,
          false_imp_iff, implies_true, and_true]
        rw [fieldAlike_plain "variable" (by simp) rfl (by simp),
          fieldAlike_plain "value" (by simp) rfl (by simp),
          fieldAlike_plain "operator" (by simp) rfl (by simp)]
        show Alike (.text target) (.text target')
            ∧ Alike (.text value) (.text value')
            ∧ Alike (.text operator) (.text operator') ↔ _
        simp only [alike_text, Simple.normal, Simple.Near, Simple.assign.injEq]
    | code c c' =>
        simp only [ofSimple, List.forall_mem_cons, List.not_mem_nil,
          false_imp_iff, implies_true, and_true]
        show FieldAlike _ "code" (.text c.code) (.text c'.code)
            ∧ FieldAlike _ "early" (optFlag c.early) (optFlag c'.early)
            ∧ FieldAlike _ "hide" (optFlag c.hide) (optFlag c'.hide)
            ∧ FieldAlike _ "init" (optFlag c.init) (optFlag c'.init) ↔ _
        rw [fieldAlike_code, fieldAlike_flag (by simp) rfl,
          fieldAlike_flag (by simp) rfl, fieldAlike_flag (by simp) rfl]
        simp only [isTruthy_optFlag, Simple.normal, Simple.Near,
          Simple.code.injEq, Code.mk.injEq, String.ofList_inj, truth_inj]
    | define name name' value value' store store' =>
        simp only [ofSimple, List.forall_mem_cons, List.not_mem_nil,
          false_imp_iff, implies_true, and_true]
        rw [fieldAlike_plain "name" (by simp) rfl (by simp),
          fieldAlike_plain "value" (by simp) rfl (by simp),
          fieldAlike_plain "store" (by simp) rfl (by simp)]
        show Alike (.text name) (.text name')
            ∧ Alike (.text value) (.text value')
            ∧ Alike (optText store) (optText store') ↔ _
        simp only [alike_text, alike_optText, Simple.normal, Simple.Near,
          Simple.define.injEq]
    | default name name' value value' =>
        simp only [ofSimple, List.forall_mem_cons, List.not_mem_nil,
          false_imp_iff, implies_true, and_true]
        rw [fieldAlike_plain "name" (by simp) rfl (by simp),
          fieldAlike_plain "value" (by simp) rfl (by simp)]
        show Alike (.text name) (.text name')
            ∧ Alike (.text value) (.text value') ↔ _
        simp only [alike_text, Simple.normal, Simple.Near, Simple.default.injEq]
    | play channel channel' file file' o o' =>
        simp only [ofSimple, List.forall_mem_cons, List.not_mem_nil,
          false_imp_iff, implies_true, and_true]
        rw [fieldAlike_plain "channel" (by simp) rfl (by simp),
          fieldAlike_plain "file" (by simp) rfl (by simp),
          fieldAlike_plain "options" (by simp) rfl (by simp)]
        show Alike (.text channel) (.text channel')
            ∧ Alike (.text file) (.text file')
            ∧ Alike (ofAudioOptions o) (ofAudioOptions o') ↔ _
        simp only [alike_text, alike_audioOptions, Simple.normal, Simple.Near]
    | stop channel channel' fadeOut fadeOut' =>
        simp only [ofSimple, List.forall_mem_cons, List.not_mem_nil,
          false_imp_iff, implies_true, and_true]
        rw [fieldAlike_plain "channel" (by simp) rfl (by simp),
          fieldAlike_plain "fade_out" (by simp) rfl (by simp)]
        show Alike (.text channel) (.text channel')
            ∧ Alike (optNumber fadeOut) (optNumber fadeOut') ↔ _
        simp only [alike_text, alike_optNumber, Simple.normal, Simple.Near]
    | pause duration duration' =>
        simp only [ofSimple, List.forall_mem_cons, List.not_mem_nil,
          false_imp_iff, implies_true, and_true]
        rw [fieldAlike_plain "duration" (by simp) rfl (by simp)]
        show Alike (optNumber duration) (optNumber duration') ↔ _
        simp only [alike_optNumber, Simple.normal, Simple.Near]
    | nvl action action' =>
        simp only [ofSimple, List.forall_mem_cons, List.not_mem_nil,
          false_imp_iff, implies_true, and_true]
        rw [fieldAlike_plain "action" (by simp) rfl (by simp)]
        show Alike (.text action) (.text action') ↔ _
        simp only [alike_text, Simple.normal, Simple.Near, Simple.nvl.injEq]
    | raw content content' =>
        simp only [Simple.normal, Simple.Near, Simple.raw.injEq]
        rw [← simpleAlike_raw, SimpleAlike, and_iff_right hkind]
  · refine iff_of_false (fun h => hkind h.1) fun h => hkind ?_
    -- Neither relation holds between two kinds.
    rw [← kind_normal s, kind_eq_of_near h, kind_normal]

-- ===================================================== alike statements

theorem headAlike_iff_again {h h' : MenuHead} :
    HeadAlike h h' ↔ h.again = h'.again := by
  rw [HeadAlike, MenuHead.again, MenuHead.again, MenuHead.mk.injEq]

theorem saysPass_normalAll (ss : List Stmt) :
    saysPass (Stmt.normalAll ss) = saysPass ss := by
  match ss with
  | [] => rfl
  | [.simple tag s] => cases s <;> rfl
  | [.label ..] | [.menu ..] | [.conditional ..] => rfl
  | _ :: _ :: _ => rfl

/-- Bodies without a lone `pass` are alike as their normal forms are near, if
they are so as they stand. -/
theorem alike_normalBody_of {as : List Stmt} (bs : List Stmt)
    (h : ∀ bs, List.Forall₂ Alike (ofStmts as) (ofStmts bs)
      ↔ Stmt.NearAll (Stmt.normalAll as) (Stmt.normalAll bs)) :
    List.Forall₂ Alike (ofStmts (withoutPass as)) (ofStmts (withoutPass bs))
      ↔ Stmt.NearAll (withoutPass (Stmt.normalAll as))
          (withoutPass (Stmt.normalAll bs)) := by
  have hnormal : ∀ ss, withoutPass (Stmt.normalAll ss)
      = Stmt.normalAll (withoutPass ss) := by
    intro ss
    unfold withoutPass
    rw [saysPass_normalAll]
    split <;> rfl
  rw [hnormal, hnormal]
  cases hpass : saysPass as with
  | false =>
      have has : withoutPass as = as := if_neg (by rw [hpass]; decide)
      rw [has]
      exact h _
  | true =>
      have has : withoutPass as = [] := if_pos hpass
      rw [has]
      cases withoutPass bs with
      | nil => exact iff_of_true .nil trivial
      | cons b bs => exact iff_of_false (fun h => nomatch h) id

/-- Statements of different kinds are not alike. -/
theorem not_alike_of_kind (a b : Stmt) (h : kindOfStmt a ≠ kindOfStmt b) :
    Alike (ofStmt a) (ofStmt b) ↔ False :=
  iff_false_intro fun ha => h (kindOfStmt_eq_of_alike ha)

mutual

/-- Statements are alike if their normal forms are the same up to numbers. -/
theorem alike_iff_near : ∀ a b : Stmt,
    Alike (ofStmt a) (ofStmt b)
      ↔ Stmt.Same Simple.Near a.normal b.normal
  | .simple _ s, b => by
      -- Two statements of different shapes have different kinds, whatever is in
      -- them.
      have hkind := kind_ofSimple s
      cases b with
      | simple _ s' =>
          rw [alike_simple, simpleAlike_iff_near]
          exact (and_iff_right rfl).symm
      | label _ _ _ _ => exact not_alike_of_kind _ _ hkind.1
      | menu _ _ _ => exact not_alike_of_kind _ _ hkind.2.1
      | conditional _ _ => exact not_alike_of_kind _ _ hkind.2.2
  | .label _ name ps body, b => by
      cases b with
      | label _ name' ps' body' =>
          rw [alike_label, alike_normalBody_of body' (alike_iff_nearAll body),
            ← presentItems_inj]
          exact (and_iff_right rfl).symm
      | simple _ s => exact not_alike_of_kind _ _ (kind_ofSimple s).1.symm
      | menu _ _ _ => exact not_alike_of_kind _ _ (by simp [kindOfStmt])
      | conditional _ _ => exact not_alike_of_kind _ _ (by simp [kindOfStmt])
  | .menu _ head choices, b => by
      cases b with
      | menu _ head' choices' =>
          rw [alike_menu, headAlike_iff_again,
            alike_iff_nearChoices choices choices']
          exact (and_iff_right rfl).symm
      | simple _ s => exact not_alike_of_kind _ _ (kind_ofSimple s).2.1.symm
      | label _ _ _ _ => exact not_alike_of_kind _ _ (by simp [kindOfStmt])
      | conditional _ _ => exact not_alike_of_kind _ _ (by simp [kindOfStmt])
  | .conditional _ branches, b => by
      cases b with
      | conditional _ branches' =>
          rw [alike_conditional, alike_iff_nearBranches branches branches']
          exact (and_iff_right rfl).symm
      | simple _ s => exact not_alike_of_kind _ _ (kind_ofSimple s).2.2.symm
      | label _ _ _ _ => exact not_alike_of_kind _ _ (by simp [kindOfStmt])
      | menu _ _ _ => exact not_alike_of_kind _ _ (by simp [kindOfStmt])

theorem alike_iff_nearAll : ∀ as bs : List Stmt,
    List.Forall₂ Alike (ofStmts as) (ofStmts bs)
      ↔ Stmt.NearAll (Stmt.normalAll as) (Stmt.normalAll bs)
  | [], [] => iff_of_true .nil trivial
  | [], _ :: _ | _ :: _, [] =>
      iff_of_false (fun h => nomatch h) id
  | a :: as, b :: bs => by
      rw [ofStmts, ofStmts, List.forall₂_cons, alike_iff_near a b,
        alike_iff_nearAll as bs]
      exact Iff.rfl

theorem alike_iff_nearChoices : ∀ cs ds : List Choice,
    List.Forall₂ Alike (ofChoices cs) (ofChoices ds)
      ↔ Choice.SameAll Simple.Near (Choice.normalAll cs)
          (Choice.normalAll ds)
  | [], [] => iff_of_true .nil trivial
  | [], .mk _ _ _ _ :: _ | .mk _ _ _ _ :: _, [] =>
      iff_of_false (fun h => nomatch h) id
  | .mk said condition line body :: cs,
      .mk said' condition' line' body' :: ds => by
      rw [alike_choices, alike_normalBody_of body' (alike_iff_nearAll body),
        alike_iff_nearChoices cs ds, Choice.normalAll, Choice.normalAll,
        Choice.SameAll]
      simp only [true_and, and_assoc]
      exact Iff.rfl

theorem alike_iff_nearBranches : ∀ as bs : List Branch,
    List.Forall₂ Alike (ofBranches as) (ofBranches bs)
      ↔ Branch.SameAll Simple.Near (Branch.normalAll as)
          (Branch.normalAll bs)
  | [], [] => iff_of_true .nil trivial
  | [], .mk _ _ _ :: _ | .mk _ _ _ :: _, [] =>
      iff_of_false (fun h => nomatch h) id
  | .mk condition line body :: as, .mk condition' line' body' :: bs => by
      rw [alike_branches, alike_normalBody_of body' (alike_iff_nearAll body),
        alike_iff_nearBranches as bs, Branch.normalAll, Branch.normalAll,
        Branch.SameAll]
      simp only [true_and, and_assoc]
      exact Iff.rfl

end

end Draft

end NovelScript
