/-
What options come to, and the sizes that a run goes by. Whatever the arguments
are, only options of the program reach the record of options, each with a value
of its kind; so what holds of the record at first and is kept by every option
holds of it in the end.

# Keeping

The way of an argument through the parser is long: it may be a prefix of a name,
several letters in one, or have its value behind an equality sign. None of this
matters here. An argument is taken for an option of the program or for none
(`Role.Among`), and then the option's own rule is applied to a value; so `Keeps`
is asked of the rules alone, and goes up from one argument to all of them.

# Sizes

A file of settings is held against the format, and so are the sizes in it. The
sizes that arguments give are held against nothing: they replace those of the
file as they are, be they zero, below it, or empty (`Entered`).
-/
import NovelScript.Proofs.CommandLine.Commands
import NovelScript.Proofs.Saving.Sizes

namespace NovelScript

namespace Arguments

variable {α : Type} {rules : List (Rule α)} {P : α → Prop} {o o' : α}

-- ============================================================ one option

/-- A value that an option with an integer may have: an integer, with no bounds,
or the empty value that a pair of dashes stands for. -/
def Entered (v : Json) : Prop := v = .list [] ∨ ∃ i, v = .int i

/-- An option keeps what holds of the record of options, whatever value it is
given. This is all that is used of a rule. -/
def Rule.Keeps (P : α → Prop) (r : Rule α) : Prop :=
  match r.effect with
  | .help => True
  | .flag set => ∀ o, P o → P (set o)
  | .text set => ∀ s o, P o → P (set s o)
  | .integer set => ∀ v o, Entered v → P o → P (set v o)

theorem Rule.Keeps.raise {r : Rule α} (hr : r.Keeps P) (ho : P o)
    (h : r.raise o = .ok o') : P o' := by
  unfold Rule.Keeps at hr
  unfold Rule.raise at h
  split at h
  · cases h
  · next set heffect =>
    obtain rfl := Except.ok.inj h
    rw [heffect] at hr
    exact hr o ho
  · cases h
  · cases h

theorem Rule.Keeps.assign {r : Rule α} (hr : r.Keeps P) {value : String}
    (ho : P o) (h : r.assign value o = .ok o') : P o' := by
  unfold Rule.Keeps at hr
  unfold Rule.assign at h
  split at h
  · next set heffect =>
    obtain rfl := Except.ok.inj h
    rw [heffect] at hr
    exact hr _ o ho
  · next set heffect =>
    rw [heffect] at hr
    split at h
    · obtain rfl := Except.ok.inj h
      exact hr _ o (.inl rfl) ho
    · split at h
      · next i _ _ =>
        obtain rfl := Except.ok.inj h
        exact hr _ o (.inr ⟨i, rfl⟩) ho
      · cases h
  · cases h
  · cases h

theorem keeps_raiseAll {flags : List (Rule α)}
    (hflags : ∀ r ∈ flags, r.Keeps P) (ho : P o)
    (h : raiseAll o flags = .ok o') : P o' := by
  induction flags generalizing o with
  | nil =>
      obtain rfl := Except.ok.inj h
      exact ho
  | cons r more ih =>
      obtain ⟨between, hr, hmore⟩ := bind_eq_ok.mp h
      exact ih (fun r' hr' => hflags r' (List.mem_cons_of_mem r hr'))
        ((hflags r List.mem_cons_self).raise ho hr) hmore

-- ======================================================= options by name

theorem mem_of_named {n : String} {r : Rule α} (h : (n, r) ∈ named rules) :
    r ∈ rules := by
  obtain ⟨r', hr', hn⟩ := List.mem_flatMap.mp h
  obtain ⟨n', -, heq⟩ := List.mem_map.mp hn
  obtain rfl := (Prod.mk.inj heq).2
  exact hr'

theorem mem_of_find? {name : String} {r : Rule α}
    (h : find? rules name = some r) : r ∈ rules := by
  obtain ⟨before, after, hnamed, -⟩ := List.lookup_eq_some_iff.mp h
  have hmem : (name, r) ∈ named rules := by
    rw [hnamed]
    exact List.mem_append_right before List.mem_cons_self
  exact mem_of_named hmem

/-- An argument is taken for an option of the program, if for any. Operands and
unknown options are not asked about. -/
def Role.Among (rules : List (Rule α)) : Role α → Prop
  | .option r _ => r ∈ rules
  | _ => True

theorem among_candidates {cs : List Char} {n : String} {role : Role α}
    (h : (n, role) ∈ candidates rules cs) : role.Among rules := by
  unfold candidates at h
  split at h
  · obtain ⟨⟨n', r⟩, hr, heq⟩ := List.mem_map.mp h
    obtain rfl := (Prod.mk.inj heq).2
    exact mem_of_named (List.mem_filter.mp hr).1
  · obtain ⟨⟨n', r⟩, hr, heq⟩ := List.mem_filterMap.mp h
    dsimp only at heq
    split at heq
    · obtain rfl := (Prod.mk.inj (Option.some.inj heq)).2
      exact mem_of_named hr
    · split at heq
      · obtain rfl := (Prod.mk.inj (Option.some.inj heq)).2
        exact mem_of_named hr
      · cases heq
  · cases h

theorem among_roleOf {argument : String} {role : Role α}
    (h : roleOf rules argument = .ok role) : role.Among rules := by
  unfold roleOf at h
  dsimp only at h
  split at h
  · obtain rfl := Except.ok.inj h
    exact trivial
  · split at h
    · next r hr =>
      obtain rfl := Except.ok.inj h
      exact mem_of_find? hr
    · split at h
      · next r hr =>
        obtain rfl := Except.ok.inj h
        obtain ⟨text, -, hfind⟩ := Option.bind_eq_some_iff.mp hr
        exact mem_of_find? hfind
      · split at h
        · next n role' hone =>
          obtain rfl := Except.ok.inj h
          have hmem : (n, role') ∈ candidates rules argument.toList := by
            rw [hone]
            exact List.mem_cons_self
          exact among_candidates hmem
        · cases h
        · obtain rfl := Except.ok.inj h
          split <;> exact trivial

/-- Arguments are taken for options of the program, if for any. -/
theorem among_rolesOf {arguments : List String}
    {roles : List (String × Role α)} (h : rolesOf rules arguments = .ok roles) :
    ∀ p ∈ roles, p.2.Among rules := by
  induction arguments generalizing roles with
  | nil =>
      obtain rfl := Except.ok.inj h
      exact List.forall_mem_nil _
  | cons argument more ih =>
      rw [rolesOf] at h
      split at h
      · obtain rfl := Except.ok.inj h
        intro p hp
        rcases List.mem_cons.mp hp with rfl | hp
        · exact trivial
        · obtain ⟨a, -, rfl⟩ := List.mem_map.mp hp
          exact trivial
      · obtain ⟨role, hrole, h⟩ := bind_eq_ok.mp h
        obtain ⟨rest, hrest, h⟩ := bind_eq_ok.mp h
        obtain rfl := Except.ok.inj h
        exact List.forall_mem_cons.mpr ⟨among_roleOf hrole, ih hrest⟩

-- ======================================================== all arguments

/-- The option that ends the options in one argument. -/
def Tail.last : Tail α → Rule α
  | .bare r | .value r _ => r

/-- The options in one argument are options of the program. -/
theorem mem_of_cluster {r : Rule α} {long : Bool} {text : List Char}
    {flags : List (Rule α)} {tail : Tail α} (hr : r ∈ rules)
    (h : cluster rules r long text = .ok (flags, tail)) :
    (∀ f ∈ flags, f ∈ rules) ∧ tail.last ∈ rules := by
  induction text generalizing r long flags tail with
  | nil =>
      unfold cluster at h
      split at h
      · cases h
        exact ⟨List.forall_mem_nil _, hr⟩
      · cases long <;> cases h
  | cons c cs ih =>
      unfold cluster at h
      dsimp only at h
      split at h
      · cases h
        exact ⟨List.forall_mem_nil _, hr⟩
      · split at h
        · cases h
        · split at h
          · cases h
          · next next hnext =>
            have hnext := mem_of_find? hnext
            split at h
            · cases h
              exact ⟨List.forall_mem_singleton.mpr hr, hnext⟩
            · obtain ⟨⟨fs, t⟩, hmore, heq⟩ := map_eq_ok.mp h
              cases heq
              obtain ⟨hfs, ht⟩ := ih hnext hmore
              exact ⟨List.forall_mem_cons.mpr ⟨hr, hfs⟩, ht⟩

theorem mem_of_optionsIn {r : Rule α} {text : Option (Bool × List Char)}
    {flags : List (Rule α)} {tail : Tail α} (hr : r ∈ rules)
    (h : optionsIn rules r text = .ok (flags, tail)) :
    (∀ f ∈ flags, f ∈ rules) ∧ tail.last ∈ rules := by
  cases text with
  | none =>
      cases h
      exact ⟨List.forall_mem_nil _, hr⟩
  | some p => exact mem_of_cluster hr h

variable {operands : Operands} {done result : Read α}

/-- What is taken once an option has been dealt with. Its value may have stood
in the argument behind it. -/
theorem exists_rest_option (hkeeps : ∀ r ∈ rules, r.Keeps P) {argument : String}
    {r : Rule α} {text : Option (Bool × List Char)}
    {more : List (String × Role α)} (hr : r ∈ rules) (ho : P done.options)
    (h : take rules operands done ((argument, .option r text) :: more)
      = .ok result) :
    ∃ done' rest, rest <:+ more ∧ P done'.options
      ∧ take rules operands done' rest = .ok result := by
  rw [take] at h
  obtain ⟨⟨flags, tail⟩, hoptions, h⟩ := bind_eq_ok.mp h
  obtain ⟨hflags, hlast⟩ := mem_of_optionsIn hr hoptions
  have hall : ∀ {o}, raiseAll done.options flags = .ok o → P o :=
    keeps_raiseAll (fun f hf => hkeeps f (hflags f hf)) ho
  cases tail with
  | value last value =>
      obtain ⟨o, hraised, h⟩ := bind_eq_ok.mp h
      obtain ⟨o', hvalue, h⟩ := bind_eq_ok.mp h
      exact ⟨_, _, List.suffix_rfl,
        (hkeeps last hlast).assign (hall hraised) hvalue, h⟩
  | bare last =>
      dsimp only at h
      split at h
      · split at h
        · obtain ⟨o, hraised, h⟩ := bind_eq_ok.mp h
          obtain ⟨o', hvalue, h⟩ := bind_eq_ok.mp h
          exact ⟨_, _, List.suffix_cons _ _,
            (hkeeps last hlast).assign (hall hraised) hvalue, h⟩
        · cases h
      · obtain ⟨o, hraised, h⟩ := bind_eq_ok.mp h
        obtain ⟨o', hbare, h⟩ := bind_eq_ok.mp h
        exact ⟨_, _, List.suffix_rfl,
          (hkeeps last hlast).raise (hall hraised) hbare, h⟩

/-- What is taken once the first argument has been dealt with. -/
theorem exists_rest (hkeeps : ∀ r ∈ rules, r.Keeps P)
    {p : String × Role α} {more : List (String × Role α)}
    (hp : p.2.Among rules) (ho : P done.options)
    (h : take rules operands done (p :: more) = .ok result) :
    P result.options ∨ ∃ done' rest, rest <:+ more ∧ P done'.options
      ∧ take rules operands done' rest = .ok result := by
  obtain ⟨argument, role⟩ := p
  -- Only an option changes the options. In the other cases those that are done
  -- go on with fewer words.
  have hkept : ∀ {done' rest}, take rules operands done' rest = .ok result →
      done'.options = done.options → rest <:+ more →
      ∃ done' rest, rest <:+ more ∧ P done'.options
        ∧ take rules operands done' rest = .ok result :=
    fun h' heq hrest => ⟨_, _, hrest, heq ▸ ho, h'⟩
  cases role with
  | option r text => exact .inr (exists_rest_option hkeeps hp ho h)
  | unknown =>
      rw [take] at h
      exact .inr (hkept h rfl List.suffix_rfl)
  | operand =>
      unfold take at h
      split at h
      · obtain rfl := Except.ok.inj h
        exact .inl ho
      · exact .inr (hkept h rfl (List.suffix_cons _ _))
      · exact .inr (hkept h rfl List.suffix_rfl)
      · exact .inr (hkept h rfl List.suffix_rfl)
  | divider =>
      unfold take at h
      split at h
      · obtain rfl := Except.ok.inj h
        exact .inl ho
      · exact .inr (hkept h rfl (List.suffix_cons _ _))
      · obtain rfl := Except.ok.inj h
        exact .inl ho
      · exact .inr (hkept h rfl List.suffix_rfl)

/-- What every option keeps holds in the end if it held at first. -/
theorem keeps_take (hkeeps : ∀ r ∈ rules, r.Keeps P)
    {roles : List (String × Role α)} (hroles : ∀ p ∈ roles, p.2.Among rules)
    (ho : P done.options) (h : take rules operands done roles = .ok result) :
    P result.options := by
  -- An option may take the argument behind it, so the rest of the arguments
  -- is not always the tail.
  induction hn : roles.length using Nat.strong_induction_on
    generalizing roles done with
  | _ n ih =>
    cases roles with
    | nil =>
        obtain rfl := Except.ok.inj h
        exact ho
    | cons p more =>
        have hp := hroles p List.mem_cons_self
        rcases exists_rest hkeeps hp ho h
          with hdone | ⟨done', rest, hrest, ho', h'⟩
        · exact hdone
        · have hless : rest.length < n := by
            have := hrest.length_le
            rw [List.length_cons] at hn
            omega
          exact ih _ hless
            (fun q hq => hroles q (List.mem_cons_of_mem p (hrest.mem hq)))
            ho' h' rfl

/-- What holds of the record of options at first, and is kept by every option,
holds of it once the arguments are read. -/
theorem keeps_read (hkeeps : ∀ r ∈ rules, r.Keeps P) {start : α}
    (hstart : P start) {arguments : List String}
    (h : read rules operands start arguments = .ok result) :
    P result.options := by
  unfold read at h
  cases hroles : rolesOf rules arguments with
  | error why => rw [hroles] at h; cases h
  | ok roles =>
      rw [hroles] at h
      exact keeps_take hkeeps (among_rolesOf hroles) hstart h

end Arguments

-- ================================================================ sizes

/-- The sizes that arguments give are integers or empty. -/
structure GlobalOptions.Entered (o : GlobalOptions) : Prop where
  /-- The tab stop is, if it is given. -/
  tabSize : ∀ v ∈ o.tabSize, Arguments.Entered v
  /-- The indentation is, if it is given. -/
  indent : ∀ v ∈ o.indent, Arguments.Entered v

theorem Invocation.keeps_globalRules :
    ∀ r ∈ globalRules, r.Keeps GlobalOptions.Entered := by
  have hgiven : ∀ {v : Json}, Arguments.Entered v →
      ∀ w ∈ some v, Arguments.Entered w :=
    fun hv w hw => Option.some.inj hw ▸ hv
  simp only [globalRules, List.forall_mem_cons]
  refine ⟨trivial, ?_, ?_, ?_, ?_, ?_, List.forall_mem_nil _⟩
  · exact fun path o ho => ⟨ho.tabSize, ho.indent⟩
  · exact fun v o hv ho => ⟨ho.tabSize, hgiven hv⟩
  · exact fun v o hv ho => ⟨hgiven hv, ho.indent⟩
  · exact fun o ho => ⟨ho.tabSize, ho.indent⟩
  · exact fun o ho => ⟨ho.tabSize, ho.indent⟩

/-- Whatever the arguments are, no size but an integer or an empty one is
given by them. -/
theorem Invocation.entered_of_read {arguments : List String} {i : Invocation}
    (h : Invocation.read arguments = .ok i) : i.options.Entered := by
  unfold Invocation.read at h
  split at h
  · cases h
  · next r hr =>
    have hnone : GlobalOptions.Entered {} := ⟨by simp, by simp⟩
    have hentered : r.options.Entered :=
      Arguments.keeps_read keeps_globalRules hnone hr
    split at h
    · obtain ⟨⟨command, rest⟩, -, h⟩ := bind_eq_ok.mp h
      dsimp only at h
      split at h
      · obtain rfl := Except.ok.inj h
        exact hentered
      · cases h
    · cases h

/-- Settings that are loaded have sizes, whether a file is named or not. -/
theorem Settings.sized_of_load {f : Folder} {path : String} {s : Settings}
    (h : Settings.load f path = .ok s) : s.Sized := by
  unfold Settings.load at h
  split at h
  · obtain rfl := Except.ok.inj h
    exact Settings.sized_default
  · dsimp only at h
    split at h
    · cases h
    · cases h
    · split at h
      · cases h
      · cases h
      · next v _ =>
        cases hv : Settings.ofJson v with
        | error e => rw [hv] at h; cases h
        | ok loaded =>
            rw [hv] at h
            obtain rfl := Except.ok.inj h
            exact Settings.sized_of_ofJson hv

/-- A size that a run goes by: the one that arguments give, which is held
against nothing, or else one that keeps the bounds. -/
def Json.SizeUnder (given : Option Json) (v : Json) : Prop :=
  match given with
  | some w => v = w ∧ Arguments.Entered w
  | none => v.IsSize

/-- The sizes that a run goes by, whatever its arguments and its file of
settings are. Those of a run whose arguments give none keep the bounds. -/
theorem Invocation.sizes_of_settings {arguments : List String} {i : Invocation}
    (hread : Invocation.read arguments = .ok i) {c c' : Console} {s : Settings}
    (h : Work.Does i.options.settings c s c') :
    Json.SizeUnder i.options.tabSize s.tabSize
      ∧ Json.SizeUnder i.options.indent s.indentSize
      ∧ (i.options.tabSize = none → i.options.indent = none → s.Sized) := by
  obtain ⟨loaded, hloaded, rfl, -⟩ := GlobalOptions.does_settings.mp h
  have hsized := Settings.sized_of_load hloaded
  have hentered := Invocation.entered_of_read hread
  have htab : Json.SizeUnder i.options.tabSize
      (loaded.overrideBy i.options).tabSize := by
    unfold Settings.overrideBy
    cases hgiven : i.options.tabSize with
    | none => exact hsized.tabSize
    | some v => exact ⟨rfl, hentered.tabSize v hgiven⟩
  have hindent : Json.SizeUnder i.options.indent
      (loaded.overrideBy i.options).indentSize := by
    unfold Settings.overrideBy
    cases hgiven : i.options.indent with
    | none => exact hsized.indentSize
    | some v => exact ⟨rfl, hentered.indent v hgiven⟩
  refine ⟨htab, hindent, fun hnone hnone' => ?_⟩
  rw [hnone] at htab
  rw [hnone'] at hindent
  exact ⟨htab, hindent⟩

end NovelScript
