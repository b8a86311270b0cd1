/-
What is made by hand can be saved and loaded. A tree is `Made` if each of its
statements, choices and branches was made from arguments of the types that the
parameters ask for, and what is nested in it was made before. Every statement of
such a tree is a row of fields that are saved and loaded as they are, so by
induction over the making the whole tree comes back, unless a name in it is
empty: then what was saved is malformed.

# Types of arguments

The parameters have types (`argumentType`), and a maker does not check them all.
What it does with an argument of another type is not described here, and there
the tree may be such that it cannot be saved at all. A truth value counts as a
number, as it does wherever numbers are asked for.

# One row for each maker

For each maker that makes a statement there is a lemma about the row of its
fields (`row_code`, `row_play` and so on): what each of them holds is saved and
loaded as it is (`Holds`). Choices and branches have theirs. `codable_construct`
goes through the makers, takes off what was looked at before the identity, and
applies the lemma; and `Made.codable` is the induction.

# Names

An empty name can be made where the maker takes a text that it does not look at.
`loaded_savedJson_nowhere` is a jump that goes nowhere, inside a label.
-/
import NovelScript.Proofs.Saving.Making

namespace NovelScript.Draft

open Cell

-- ============================================================= arguments

/-- The types of arguments. -/
inductive ArgumentType where
  /-- A text. -/
  | text
  /-- Something whose parts are texts. -/
  | texts
  /-- A truth value. -/
  | flag
  /-- A number. -/
  | number
  /-- An integer. -/
  | integer
  /-- A point in time. -/
  | moment
  /-- A list of records of some kinds. -/
  | records (allowed : RecordKind → Bool)

/-- Whether an argument is of a type. A truth value counts as a number. -/
def ArgumentType.Takes : ArgumentType → Draft → Prop
  | .text, d => ∃ s, d = .text s
  | .texts, d => ∃ parts, partsOf d = .ok parts ∧ ∀ p ∈ parts, ∃ s, p = .text s
  | .flag, d => ∃ b, d = .bool b
  | .number, d => (∃ n, d = .number n) ∨ ∃ b, d = .bool b
  | .integer, d => (∃ i, d = int i) ∨ ∃ b, d = .bool b
  | .moment, d => ∃ t, d = .moment t
  | .records allowed, d => ∃ items, d = .list items
    ∧ ∀ item ∈ items, ∃ k fields, allowed k = true ∧ item = .record k fields

/-- The type of a parameter. -/
def argumentType : String → ArgumentType
  | "body" | "statements" => .records RecordKind.isStmt
  | "choices" => .records (· = .choice)
  | "branches" => .records (· = .branch)
  | "parameters" | "arguments" | "attributes" => .texts
  | "expression" | "extend" | "early" | "hide" | "init" | "loop" | "queue"
  | "if_changed" => .flag
  | "fade_in" | "fade_out" | "volume" | "duration" => .number
  | "zorder" | "line" => .integer
  | "parse_time" => .moment
  | _ => .text

/-- Whether nothing may be given to a parameter: it is what the parameter
begins with, or the condition of a branch, which has to be given all the
same. -/
def Parameter.mayBeNull (p : Parameter) : Bool :=
  p.name = "condition" || match p.start with
    | some d => d.isNull
    | none => false

/-- Whether an argument is of the type of a parameter. -/
def Parameter.Takes (p : Parameter) (d : Draft) : Prop :=
  (p.mayBeNull = true ∧ d = .null) ∨ (argumentType p.name).Takes d

/-- The value that a parameter was given. -/
def argument (given : List (String × Draft)) (name : String) : Draft :=
  (field? name given).getD .null

/-- The parameters that take what was made before. -/
def nestingNames : List String := ["body", "statements", "choices", "branches"]

/-- A tree that was made from arguments of the right types, with everything
that is nested in it. -/
inductive Made : Draft → Prop where
  /-- It was made with a maker, from arguments that were made themselves where
  they are statements, choices or branches. -/
  | build {now : Timestamp} {n n' : Numbering} {maker : String}
      {ps : List Parameter} {row : List Draft} {byName given : List (String × Draft)}
      {d : Draft} (parameters : makers.lookup maker = some ps)
      (bound : bind ps row byName = .ok given)
      (typed : ∀ p ∈ ps, p.Takes (argument given p.name))
      (nested : ∀ name ∈ nestingNames, ∀ items,
        argument given name = .list items → ∀ item ∈ items, Made item)
      (made : Draft.build now n maker row byName = (.ok d, n')) : Made d

-- ============================================================= statements

/-- A record whose fields are looked up among what is given. -/
theorem make_eq {k : RecordKind} {cs : List Cell} {given : List (String × Draft)}
    (hnames : cs.map name = k.fields.map (·.1))
    (hlook : ∀ c ∈ cs, field? c.name given = some c.held) :
    make k given = .record k (fields cs) := by
  rw [make, Draft.record.injEq]
  refine ⟨rfl, ?_⟩
  generalize k.fields = fs at hnames
  induction cs generalizing fs with
  | nil =>
      rw [List.map_eq_nil_iff.mp hnames.symm]
      rfl
  | cons c cs ih =>
      obtain ⟨hhere, hmore⟩ := List.forall_mem_cons.mp hlook
      cases fs with
      | nil => cases hnames
      | cons f fs =>
          obtain ⟨n, start⟩ := f
          obtain ⟨rfl, hrest⟩ := List.cons.inj hnames
          rw [List.map_cons, ih hmore fs hrest]
          dsimp only
          rw [hhere]
          rfl

/-- What may be given as a line. -/
def IsLine (d : Draft) : Prop :=
  ∃ o, d = optional ofJson o
    ∧ ∀ v ∈ o, (ofJson v).isNull = false ∧ (ofJson v).isAbsent = false

section

variable {k : StmtKind} {id : String} {line : Draft}
  {own : List (String × Draft)}

/-- A statement of which every field is saved and loaded is coded. -/
theorem exists_coded (h : List.Forall₂ (Holds k) own (RecordKind.ownFields k))
    (hid : id ≠ "") (hline : IsLine line) :
    ∃ v, Coded (stmt k (.text id) line own) v := by
  obtain ⟨cs, rfl, hcs⟩ := exists_cells h
  obtain ⟨o, rfl, hsome⟩ := hline
  have hordered : Ordered k (whole id o cs) :=
    ordered_whole (restored_names (hcs.imp fun _ _ hc => hc.toRestored))
  have hperm : (whole id o cs).Perm (identity id :: Cell.line o :: cs) :=
    List.Perm.cons _ (List.perm_append_singleton _ _)
  have hnodup : ((identity id :: Cell.line o :: cs).map name).Nodup :=
    (hperm.map name).nodup_iff.mp hordered.nodup_names
  have hstmt : stmt k (.text id) (optional ofJson o) (fields cs)
      = .record (.stmt k) (fields (whole id o cs)) :=
    make_eq hordered fun c hc => field?_fields hnodup (hperm.subset hc)
  rw [hstmt]
  exact ⟨_, coded_whole hcs hid fun v hv => (hsome v hv).1⟩

end

-- =========================================================== typed values

section

variable {maker : String} {ps : List Parameter} {get : String → Draft}

/-- What a parameter was given that has to be given something. -/
theorem takes (name : String) (hps : makers.lookup maker = some ps)
    (htyped : ∀ p ∈ ps, p.Takes (get p.name))
    (h : (((makers.lookup maker).getD []).any
      fun p => p.name = name && !p.mayBeNull) = true) :
    (argumentType name).Takes (get name) := by
  rw [hps] at h
  obtain ⟨p, hp, hboth⟩ := List.any_eq_true.mp h
  obtain ⟨hname, hnull⟩ := Bool.and_eq_true_iff.mp hboth
  obtain rfl := of_decide_eq_true hname
  refine (htyped p hp).resolve_left fun hnone => ?_
  rw [hnone.1] at hnull
  cases hnull

/-- What a parameter was given that may be given nothing. -/
theorem null_or_takes (name : String) (hps : makers.lookup maker = some ps)
    (htyped : ∀ p ∈ ps, p.Takes (get p.name))
    (h : (((makers.lookup maker).getD []).any fun p => p.name = name) = true) :
    get name = .null ∨ (argumentType name).Takes (get name) := by
  rw [hps] at h
  obtain ⟨p, hp, hname⟩ := List.any_eq_true.mp h
  obtain rfl := of_decide_eq_true hname
  exact (htyped p hp).imp_left fun hnull => hnull.2

theorem isLine_of_takes (hps : makers.lookup maker = some ps)
    (htyped : ∀ p ∈ ps, p.Takes (get p.name))
    (h : (((makers.lookup maker).getD []).any fun p => p.name = "line") = true) :
    IsLine (get "line") := by
  rcases null_or_takes "line" hps htyped h with hnull | ⟨i, hi⟩ | ⟨b, hb⟩
  · exact ⟨none, hnull, by simp⟩
  · refine ⟨some (.int i), hi, fun v hv => ?_⟩
    obtain rfl := Option.some.inj hv
    exact ⟨rfl, rfl⟩
  · refine ⟨some (.bool b), hb, fun v hv => ?_⟩
    obtain rfl := Option.some.inj hv
    exact ⟨rfl, rfl⟩

end

-- =============================================================== codable

/-- A tree that can be saved and loaded where it may stand: a statement, or a
choice or branch before others. -/
def Codable : Draft → Prop
  | .record (.stmt k) fields => ∃ v, Coded (.record (.stmt k) fields) v
  | .record .choice fields => Leads CodedChoices (.record .choice fields)
  | .record .branch fields => Leads CodedBranches (.record .branch fields)
  | _ => True

/-- Records that were given in a list can be saved and loaded one after the
other. -/
theorem exists_values_of_takes {R : List Draft → List Json → Prop} (hnil : R [] [])
    {allowed : RecordKind → Bool}
    (hleads : ∀ k fields, allowed k = true → Codable (.record k fields) →
      Leads R (.record k fields)) {d : Draft}
    (hd : d = .null ∨ (ArgumentType.records allowed).Takes d)
    (hnested : ∀ items, d = .list items → ∀ item ∈ items, Codable item)
    {items : List Draft} (hitems : itemsOf d = .ok items) : ∃ vs, R items vs := by
  unfold itemsOf at hitems
  split at hitems
  · next htruthy =>
    rcases hd with rfl | ⟨given, rfl, hrecords⟩
    · cases htruthy
    obtain rfl := Except.ok.inj hitems
    refine exists_values hnil fun item hitem => ?_
    obtain ⟨k, fields, hk, rfl⟩ := hrecords item hitem
    exact hleads k fields hk (hnested _ rfl _ hitem)
  · obtain rfl := Except.ok.inj hitems
    exact ⟨[], hnil⟩

theorem leads_stmt {k : RecordKind} {fields : List (String × Draft)}
    (hk : k.isStmt = true) (h : Codable (.record k fields)) :
    Leads CodedAll (.record k fields) := by
  cases k with
  | stmt k =>
      obtain ⟨v, hv⟩ := h
      exact hv.leads
  | _ => cases hk

theorem leads_choice {k : RecordKind} {fields : List (String × Draft)}
    (hk : decide (k = .choice) = true) (h : Codable (.record k fields)) :
    Leads CodedChoices (.record k fields) := by
  obtain rfl := of_decide_eq_true hk
  exact h

theorem leads_branch {k : RecordKind} {fields : List (String × Draft)}
    (hk : decide (k = .branch) = true) (h : Codable (.record k fields)) :
    Leads CodedBranches (.record k fields) := by
  obtain rfl := of_decide_eq_true hk
  exact h

section

variable {k : StmtKind} {n n' : Numbering} {line d : Draft} {α β : Type}

theorem next_ne_empty (n : Numbering) : n.next.1 ≠ "" := by
  intro h
  have hcs := congrArg String.toList h
  simp [Numbering.next, Numbering.identity] at hcs

theorem codable_stmt {own : List (String × Draft)} (hline : IsLine line)
    (h : List.Forall₂ (Holds k) own (RecordKind.ownFields k)) :
    Codable (stmt k (.text n.next.1) line own) :=
  exists_coded h (next_ne_empty n) hline

/-- A statement whose own fields are looked for behind the identity. -/
theorem codable_tagged {own : Except Fault (List (String × Draft))}
    (hline : IsLine line)
    (hmade : withIdentity n (.ok ()) (fun _ id => own.map (stmt k id line))
      = (.ok d, n'))
    (h : ∀ fields, own = .ok fields →
      List.Forall₂ (Holds k) fields (RecordKind.ownFields k)) : Codable d := by
  obtain ⟨fields, hfields, rfl⟩ := map_eq_ok.mp (Prod.mk.inj hmade).1
  exact codable_stmt hline (h fields hfields)

/-- A statement that nothing refuses once it has its identity. -/
theorem codable_sure {before : Except Fault α} {own : α → List (String × Draft)}
    (hline : IsLine line)
    (hmade : withIdentity n before (fun a id => .ok (stmt k id line (own a)))
      = (.ok d, n'))
    (h : ∀ a, before = .ok a →
      List.Forall₂ (Holds k) (own a) (RecordKind.ownFields k)) : Codable d := by
  cases before with
  | error e => cases (Prod.mk.inj hmade).1
  | ok a =>
      obtain rfl := Except.ok.inj (Prod.mk.inj hmade).1
      exact codable_stmt hline (h a rfl)

/-- A statement that a last look behind the identity may refuse. -/
theorem codable_look {before : Except Fault α} {look : Except Fault β}
    {own : α → β → List (String × Draft)} (hline : IsLine line)
    (hmade : withIdentity n before (fun a id => do
      let b ← look
      pure (stmt k id line (own a b))) = (.ok d, n'))
    (h : ∀ a b, before = .ok a → look = .ok b →
      List.Forall₂ (Holds k) (own a b) (RecordKind.ownFields k)) : Codable d := by
  cases before with
  | error e => cases (Prod.mk.inj hmade).1
  | ok a =>
      obtain ⟨b, hb, hd⟩ := bind_eq_ok.mp (Prod.mk.inj hmade).1
      obtain rfl := Except.ok.inj hd
      exact codable_stmt hline (h a b rfl hb)

end

-- ==================================================================== rows

section

variable {get : String → Draft} {left : Draft} {ds : List Draft} {vs : List Json}

theorem row_label (name : Draft) (hbody : CodedAll ds vs) {parameters : Draft}
    (h : presentTexts parameters = .ok left) :
    List.Forall₂ (Holds .label) [("name", trimmedText name), ("body", .list ds),
      ("parameters", left)] (RecordKind.ownFields .label) :=
  .cons (holds_name rfl _) <| .cons (holds_body hbody) <|
    .cons (holds_presentTexts (by decide) h) .nil

theorem row_call (target expression label : Draft) {arguments : Draft}
    (h : presentTexts arguments = .ok left) :
    List.Forall₂ (Holds .call) [("target", trimmedText target),
      ("arguments", left), ("expression", flag expression),
      ("from_label", presentText label)] (RecordKind.ownFields .call) :=
  .cons (holds_name rfl _) <| .cons (holds_presentTexts (by decide) h) <|
    .cons (holds_flag (by decide) _) <|
    .cons (holds_presentText (by decide) _) .nil

/-- The question of a menu, and who asks it. -/
theorem exists_asked {prompt : Draft} (h : prompt = .null ∨ ∃ s, prompt = .text s)
    (speaker : Draft) :
    ∃ p q, Told p ∧ Told q
      ∧ (if prompt.isTruthy then prompt else .null) = optText p
      ∧ (if prompt.isTruthy then presentText speaker else .null) = optText q := by
  obtain ⟨q, hq, hspeaker⟩ := exists_presentText speaker
  have hnone : Told none := by simp [Told]
  rcases h with rfl | ⟨s, rfl⟩
  · exact ⟨none, none, hnone, hnone, rfl, rfl⟩
  · by_cases hs : s = ""
    · subst hs
      exact ⟨none, none, hnone, hnone, rfl, rfl⟩
    · have htruthy : (Draft.text s).isTruthy = true := by simpa [isTruthy] using hs
      rw [if_pos htruthy, if_pos htruthy]
      exact ⟨some s, q, by simpa [Told] using hs, hq, rfl, hspeaker⟩

theorem row_menu (hchoices : CodedChoices ds vs) {prompt speaker : Draft}
    (h : prompt = .null ∨ ∃ s, prompt = .text s) (setVar screen name : Draft) :
    List.Forall₂ (Holds .menu) [("choices", .list ds),
      ("prompt", if prompt.isTruthy then prompt else .null),
      ("prompt_speaker", if prompt.isTruthy then presentText speaker else .null),
      ("set_var", presentText setVar), ("screen", presentText screen),
      ("name", presentText name)] (RecordKind.ownFields .menu) := by
  obtain ⟨p, q, hp, hq, hprompt, hspeaker⟩ := exists_asked h speaker
  rw [hprompt, hspeaker]
  exact .cons (holds_choices hchoices) <| .cons (holds_text (by decide) hp) <|
    .cons (holds_text (by decide) hq) <|
    .cons (holds_presentText (by decide) _) <|
    .cons (holds_presentText (by decide) _) <|
    .cons (holds_presentText (by decide) _) .nil

theorem row_dialogue {speaker attributes arguments : Draft}
    (hparts : speakingParts get = .ok (speaker, attributes))
    (htext : ∃ s, get "text" = .text s)
    (h : presentTexts arguments = .ok left) (via extend : Draft) :
    List.Forall₂ (Holds .dialogue) [("speaker", speaker), ("text", get "text"),
      ("attributes", attributes), ("transition", presentText via),
      ("extend", flag extend), ("arguments", left)]
      (RecordKind.ownFields .dialogue) := by
  obtain ⟨s, a, hs, ha, rfl, rfl⟩ := exists_speakingParts hparts
  obtain ⟨t, ht⟩ := htext
  obtain ⟨v, hv, hvia⟩ := exists_presentText via
  obtain ⟨e, hextend⟩ := exists_flag extend
  obtain ⟨args, hargs, rfl⟩ := exists_presentTexts h
  rw [ht, hvia, hextend]
  exact holds_simple (s := .say ⟨s, t, a, v, e, args⟩) ⟨hs, ha, hv, hargs⟩ rfl

theorem row_display {k : StmtKind} (hk : k = .scene ∨ k = .reveal ∨ k = .hide)
    {image options : Draft} (h : displayParts get = .ok (image, options)) :
    List.Forall₂ (Holds k) [("image", image), ("options", options)]
      (RecordKind.ownFields k) := by
  obtain ⟨s, o, hs, ho, rfl, rfl⟩ := exists_displayParts h
  rcases hk with rfl | rfl | rfl
  · exact holds_simple (s := .display .scene s o) ⟨hs, ho⟩ rfl
  · exact holds_simple (s := .display .reveal s o) ⟨hs, ho⟩ rfl
  · exact holds_simple (s := .display .hide s o) ⟨hs, ho⟩ rfl

theorem row_assign (variable_ value : Draft) {operator : Draft}
    (h : isOneOf assignOperators operator = true) :
    List.Forall₂ (Holds .assign) [("variable", trimmedText variable_),
      ("value", trimmedText value), ("operator", operator)]
      (RecordKind.ownFields .assign) := by
  obtain ⟨s, hs, rfl⟩ := exists_oneOf h
  exact .cons (holds_name rfl _) <|
    .cons (holds_said (by decide) (.inr (by decide))) <|
    .cons (holds_said (by decide) (.inl (ne_of_mem_of_not_mem hs (by decide)))) .nil

theorem row_code {code : Draft} (h : ∃ s, code = .text s)
    (early hide init : Draft) :
    List.Forall₂ (Holds .code) [("code", if code.isTruthy then code else .text ""),
      ("early", flag early), ("hide", flag hide), ("init", flag init)]
      (RecordKind.ownFields .code) := by
  obtain ⟨s, rfl⟩ := h
  obtain ⟨e, hearly⟩ := exists_flag early
  obtain ⟨i, hhide⟩ := exists_flag hide
  obtain ⟨j, hinit⟩ := exists_flag init
  have hcode : (if (Draft.text s).isTruthy then Draft.text s else .text "")
      = .text s := by
    by_cases hs : s = "" <;> simp [isTruthy, hs]
  rw [hcode, hearly, hhide, hinit]
  exact holds_simple (s := .code ⟨s, e, i, j⟩) trivial rfl

theorem row_define (name value store : Draft) :
    List.Forall₂ (Holds .define) [("name", trimmedText name),
      ("value", trimmedText value), ("store", presentText store)]
      (RecordKind.ownFields .define) :=
  .cons (holds_name rfl _) <|
    .cons (holds_said (by decide) (.inr (by decide))) <|
    .cons (holds_presentText (by decide) _) .nil

theorem exists_channel {channel : Draft} (h : needChannel channel = .ok left) :
    ∃ s ∈ channels, left = .text s := by
  unfold needChannel at h
  split at h
  · next hone =>
    obtain rfl := Except.ok.inj h
    exact exists_oneOf hone
  · cases h

theorem row_play {options channel file : Draft}
    (hoptions : audioParts get = .ok options)
    (hchannel : needChannel channel = .ok left) (hfile : ∃ s, file = .text s) :
    List.Forall₂ (Holds .play) [("channel", left), ("file", file),
      ("options", options)] (RecordKind.ownFields .play) := by
  obtain ⟨o, rfl⟩ := exists_audioParts hoptions
  obtain ⟨s, hs, rfl⟩ := exists_channel hchannel
  obtain ⟨t, rfl⟩ := hfile
  exact holds_simple (s := .play s t o) hs rfl

theorem row_stop {channel fadeOut faded : Draft} {name : String}
    (hchannel : needChannel channel = .ok left)
    (hfade : needNumber name fadeOut = .ok faded) :
    List.Forall₂ (Holds .stop) [("channel", left), ("fade_out", faded)]
      (RecordKind.ownFields .stop) := by
  obtain ⟨s, hs, rfl⟩ := exists_channel hchannel
  obtain ⟨o, rfl⟩ := exists_number hfade
  exact holds_simple (s := .stop s o) hs rfl

theorem row_giveBack (value : Draft) :
    List.Forall₂ (Holds .giveBack) [("value", presentText value)]
      (RecordKind.ownFields .giveBack) := by
  obtain ⟨v, hv, hvalue⟩ := exists_presentText value
  rw [hvalue]
  exact holds_simple (s := .giveBack v) hv rfl

end

-- ================================================================= makers

theorem codable_choice {said condition line : Draft} {body : List Draft}
    {vs : List Json} (hsaid : ∃ s, said = .text s) (hbody : CodedAll body vs)
    (hline : IsLine line) :
    Codable (make .choice [("text", said), ("body", .list body),
      ("condition", presentText condition), ("line", line)]) := by
  obtain ⟨s, rfl⟩ := hsaid
  obtain ⟨c, hc, hcondition⟩ := exists_presentText condition
  obtain ⟨o, rfl, hplace⟩ := hline
  rw [hcondition]
  exact hbody.leads_choice hc fun v hv => (hplace v hv).2

theorem codable_branch {condition line : Draft} {body : List Draft}
    {vs : List Json} (hbody : CodedAll body vs) (hline : IsLine line) :
    Codable (make .branch [("condition", presentText condition),
      ("body", .list body), ("line", line)]) := by
  obtain ⟨c, hc, hcondition⟩ := exists_presentText condition
  obtain ⟨o, rfl, hplace⟩ := hline
  rw [hcondition]
  exact hbody.leads_branch hc fun v hv => (hplace v hv).2

/-- What was looked at before the identity and not refused. -/
theorem of_guard {p : Prop} [Decidable p] {e : Fault} {u : Unit}
    (h : (if p then .ok () else .error e : Except Fault Unit) = .ok u) : p := by
  by_contra hp
  rw [if_neg hp] at h
  cases h

theorem itemsOf_of_needBranches {d : Draft} {items : List Draft}
    (h : needBranches d = .ok items) : itemsOf d = .ok items := by
  unfold needBranches at h
  obtain ⟨found, hfound, h⟩ := bind_eq_ok.mp h
  cases found with
  | nil => cases h
  | cons first more =>
      obtain ⟨condition, -, h⟩ := bind_eq_ok.mp h
      split at h
      · cases h
      · rwa [← Except.ok.inj h]

/-- Whatever is made from what can be saved and loaded can be saved and
loaded. -/
theorem codable_construct {now : Timestamp} {n n' : Numbering} {maker : String}
    {ps : List Parameter} {get : String → Draft} {d : Draft}
    (hps : makers.lookup maker = some ps)
    (htyped : ∀ p ∈ ps, p.Takes (get p.name))
    (hnested : ∀ name ∈ nestingNames, ∀ items, get name = .list items →
      ∀ item ∈ items, Codable item)
    (hmade : construct now n maker get = (.ok d, n')) : Codable d := by
  have hbody : ∀ items, itemsOf (get "body") = .ok items →
      (((makers.lookup maker).getD []).any fun p => p.name = "body") = true →
      ∃ vs, CodedAll items vs := fun items hitems hparameter =>
    exists_values_of_takes codedAll_nil (fun _ _ => leads_stmt)
      (null_or_takes "body" hps htyped hparameter) (hnested "body" (by decide)) hitems
  -- One case for each way of making something, in the order of their table.
  unfold construct at hmade
  split at hmade
  case h_1 => -- label
    refine codable_tagged (isLine_of_takes hps htyped (by decide)) hmade
      fun own h => ?_
    obtain ⟨items, hitems, h⟩ := bind_eq_ok.mp h
    obtain ⟨left, hleft, h⟩ := bind_eq_ok.mp h
    obtain rfl := Except.ok.inj h
    obtain ⟨vs, hvs⟩ := hbody items hitems (by decide)
    exact row_label _ hvs hleft
  case h_2 => -- jump
    refine codable_tagged (isLine_of_takes hps htyped (by decide)) hmade
      fun own h => ?_
    obtain rfl := Except.ok.inj h
    exact .cons (holds_name rfl _) <| .cons (holds_flag (by decide) _) .nil
  case h_3 => -- call
    refine codable_tagged (isLine_of_takes hps htyped (by decide)) hmade
      fun own h => ?_
    obtain ⟨left, hleft, h⟩ := bind_eq_ok.mp h
    obtain rfl := Except.ok.inj h
    exact row_call _ _ _ hleft
  case h_4 => -- return
    refine codable_tagged (isLine_of_takes hps htyped (by decide)) hmade
      fun own h => ?_
    obtain rfl := Except.ok.inj h
    exact row_giveBack _
  case h_5 => -- branch
    obtain ⟨items, hitems, h⟩ := bind_eq_ok.mp (Prod.mk.inj hmade).1
    obtain rfl := Except.ok.inj h
    obtain ⟨vs, hvs⟩ := hbody items hitems (by decide)
    exact codable_branch hvs (isLine_of_takes hps htyped (by decide))
  case h_6 => -- conditional
    refine codable_sure (isLine_of_takes hps htyped (by decide)) hmade
      fun items hitems => ?_
    obtain ⟨vs, hvs⟩ := exists_values_of_takes codedBranches_nil
      (fun _ _ => leads_branch)
      (null_or_takes "branches" hps htyped (by decide)) (hnested "branches" (by decide))
      (itemsOf_of_needBranches hitems)
    exact .cons (holds_branches hvs) .nil
  case h_7 => -- choice
    obtain ⟨items, hitems, h⟩ := bind_eq_ok.mp (Prod.mk.inj hmade).1
    obtain rfl := Except.ok.inj h
    obtain ⟨vs, hvs⟩ := hbody items hitems (by decide)
    exact codable_choice (takes "text" hps htyped (by decide)) hvs
      (isLine_of_takes hps htyped (by decide))
  case h_8 => -- menu
    refine codable_tagged (isLine_of_takes hps htyped (by decide)) hmade
      fun own h => ?_
    obtain ⟨items, hitems, h⟩ := bind_eq_ok.mp h
    obtain rfl := Except.ok.inj h
    obtain ⟨vs, hvs⟩ := exists_values_of_takes codedChoices_nil
      (fun _ _ => leads_choice)
      (null_or_takes "choices" hps htyped (by decide)) (hnested "choices" (by decide))
      hitems
    exact row_menu hvs (null_or_takes "prompt" hps htyped (by decide)) _ _ _
  case h_9 => -- dialogue
    refine codable_look (isLine_of_takes hps htyped (by decide)) hmade
      fun parts left hparts hleft => ?_
    exact row_dialogue hparts (takes "text" hps htyped (by decide)) hleft _ _
  case h_10 => -- scene
    exact codable_sure (isLine_of_takes hps htyped (by decide)) hmade
      fun parts hparts => row_display (by decide) hparts
  case h_11 => -- show
    exact codable_sure (isLine_of_takes hps htyped (by decide)) hmade
      fun parts hparts => row_display (by decide) hparts
  case h_12 => -- hide
    exact codable_sure (isLine_of_takes hps htyped (by decide)) hmade
      fun parts hparts => row_display (by decide) hparts
  case h_13 => -- transition
    refine codable_tagged (isLine_of_takes hps htyped (by decide)) hmade
      fun own h => ?_
    obtain rfl := Except.ok.inj h
    exact .cons (holds_name rfl _) .nil
  case h_14 => -- assignment
    refine codable_sure (isLine_of_takes hps htyped (by decide)) hmade
      fun _ hbefore => ?_
    exact row_assign _ _ (of_guard hbefore)
  case h_15 => -- code
    refine codable_tagged (isLine_of_takes hps htyped (by decide)) hmade
      fun own h => ?_
    obtain rfl := Except.ok.inj h
    exact row_code (takes "code" hps htyped (by decide)) _ _ _
  case h_16 => -- define
    refine codable_tagged (isLine_of_takes hps htyped (by decide)) hmade
      fun own h => ?_
    obtain rfl := Except.ok.inj h
    exact row_define _ _ _
  case h_17 => -- default
    refine codable_tagged (isLine_of_takes hps htyped (by decide)) hmade
      fun own h => ?_
    obtain rfl := Except.ok.inj h
    exact .cons (holds_name rfl _) <|
      .cons (holds_said (by decide) (.inr (by decide))) .nil
  case h_18 => -- play
    refine codable_look (isLine_of_takes hps htyped (by decide)) hmade
      fun options channel hoptions hchannel => ?_
    exact row_play hoptions hchannel (takes "file" hps htyped (by decide))
  case h_19 => -- stop
    refine codable_tagged (isLine_of_takes hps htyped (by decide)) hmade
      fun own h => ?_
    obtain ⟨channel, hchannel, h⟩ := bind_eq_ok.mp h
    obtain ⟨faded, hfade, h⟩ := bind_eq_ok.mp h
    obtain rfl := Except.ok.inj h
    exact row_stop hchannel hfade
  case h_20 => -- pause
    refine codable_tagged (isLine_of_takes hps htyped (by decide)) hmade
      fun own h => ?_
    obtain ⟨left, hleft, h⟩ := bind_eq_ok.mp h
    obtain rfl := Except.ok.inj h
    obtain ⟨o, rfl⟩ := exists_number hleft
    exact holds_simple (s := .pause o) trivial rfl
  case h_21 => -- page
    refine codable_sure (isLine_of_takes hps htyped (by decide)) hmade
      fun _ hbefore => ?_
    obtain ⟨s, hs, haction⟩ := exists_oneOf (of_guard hbefore)
    rw [haction]
    exact holds_simple (s := .nvl s) hs rfl
  case h_22 => -- raw lines
    refine codable_tagged (isLine_of_takes hps htyped (by decide)) hmade
      fun own h => ?_
    obtain rfl := Except.ok.inj h
    obtain ⟨s, hs⟩ := takes "content" hps htyped (by decide)
    rw [hs]
    exact holds_simple (s := .raw s) trivial rfl
  case h_23 => -- script
    obtain ⟨items, -, h⟩ := bind_eq_ok.mp (Prod.mk.inj hmade).1
    obtain rfl := Except.ok.inj h
    trivial
  case h_24 => cases (Prod.mk.inj hmade).1

/-- Whatever was made can be saved and loaded where it may stand. -/
theorem Made.codable {d : Draft} (h : Made d) : Codable d := by
  induction h with
  | @build now n n' maker ps row byName given d hps hbound htyped _ hmade ih =>
      rw [Draft.build, hps] at hmade
      dsimp only at hmade
      rw [hbound] at hmade
      exact codable_construct hps htyped ih hmade

/-- What is saved of a statement that was made is loaded as the same statement
if every name in it says something, and is malformed if one is empty. -/
theorem loaded_savedJson {d : Draft} (h : Made d)
    (hstmt : d.stmtKind?.isSome = true) :
    ∃ v, savedJson d = .ok v
      ∧ (d.hasNames = true → loaded v = .ok d)
      ∧ (d.hasNames = false → ∃ e, loaded v = .error (.malformed e)) := by
  obtain ⟨k, fields, rfl⟩ : ∃ k fields, d = .record (.stmt k) fields := by
    unfold stmtKind? at hstmt
    split at hstmt
    · exact ⟨_, _, rfl⟩
    · cases hstmt
  obtain ⟨v, hv⟩ := h.codable
  refine ⟨v, ?_, hv.restores.value, fun hnames => hv.restores.malformed ?_⟩
  · have hsaved : savedJson (.record (.stmt k) fields)
        = (do let o ← saved (.record (.stmt k) fields); o.toJson) := rfl
    rw [hsaved, hv.saved, bind_ok, toJson_ofJson]
  · rw [hnames]
    decide

/-- A jump to a blank target, and with that to none. -/
def nowhere : Draft :=
  stmt .jump (.text "n_1") .null [("target", .text ""), ("expression", .null)]

/-- A label with this jump in its body. -/
def leadsNowhere : Draft :=
  stmt .label (.text "n_2") .null
    [("name", .text "start"), ("body", .list [nowhere]), ("parameters", .null)]

theorem made_nowhere : Made nowhere := by
  refine @Made.build default ⟨"n", 0⟩ ⟨"n", 1⟩ "jump" _ [.text " "] []
    [("target", .text " "), ("expression", .null), ("line", .null)] nowhere
    rfl rfl ?_ ?_ rfl
  · simp only [List.forall_mem_cons]
    exact ⟨.inr ⟨" ", rfl⟩, .inl ⟨rfl, rfl⟩, .inl ⟨rfl, rfl⟩, by simp⟩
  · simp [nestingNames, argument, field?]

theorem made_leadsNowhere : Made leadsNowhere := by
  refine @Made.build default ⟨"n", 1⟩ ⟨"n", 2⟩ "label" _
    [.text "start", .list [nowhere]] []
    [("name", .text "start"), ("body", .list [nowhere]), ("parameters", .null),
      ("line", .null)] leadsNowhere rfl rfl ?_ ?_ rfl
  · simp only [List.forall_mem_cons]
    refine ⟨.inr ⟨"start", rfl⟩, .inr ⟨[nowhere], rfl, ?_⟩, .inl ⟨rfl, rfl⟩,
      .inl ⟨rfl, rfl⟩, by simp⟩
    exact List.forall_mem_singleton.mpr ⟨.stmt .jump, _, rfl, rfl⟩
  · simpa [nestingNames, argument, field?] using made_nowhere

/-- What is saved of the label is malformed, for the jump in it lacks its
target. -/
theorem loaded_savedJson_nowhere : ∃ v e, savedJson leadsNowhere = .ok v
    ∧ loaded v = .error (.malformed e) := by
  obtain ⟨v, hv, -, hmalformed⟩ := loaded_savedJson made_leadsNowhere rfl
  obtain ⟨e, he⟩ := hmalformed (by decide)
  exact ⟨v, e, hv, he⟩

end NovelScript.Draft
