/-
Spellings of what is absent. A text, a list or a flag that is not there may be
left out, or be empty or `false`. No spelling makes a difference to how a script
is written, whether it comes to a text or is refused, nor to what it counts as
equal to.

# One spelling

In the one spelling that is chosen (`Stmt.spelled`) a flag is always there, and
a text or a list only if there is something in it. It is the normal form of the
comparison but for what makes a difference to the text: code keeps its layout, a
body that says `pass` stays one, and so do identities and lines.

That the comparison does not see a change of spelling follows from that. For
writing there is something to do, since each of the functions that write a line
looks at the fields that may be absent in its own way; one lemma for each says
that it gives the same line or the same refusal.

# The exception

The condition of a branch stays as it is. A branch that has none is an `else`,
and one whose condition is empty is an `elif` in front of nothing; the
comparison takes both for absent.
-/
import NovelScript.Proofs.Draft.Equivalence
import NovelScript.Proofs.Draft.Outlines

namespace NovelScript

open Written (present items argumentRow isSet)

-- ============================================================= spellings

/-- A simple statement in which what is absent has one spelling. For code only
its flags have several; its text stays as it is, with its layout. -/
def Simple.spelled : Simple → Simple
  | .code c => .code
    { code := c.code
      early := truth c.early
      hide := truth c.hide
      init := truth c.init }
  | s => s.normal

mutual

/-- A statement in which what is absent has one spelling. The condition of a
branch stays as it is. -/
def Stmt.spelled : Stmt → Stmt
  | .simple tag s => .simple tag s.spelled
  | .label tag name parameters body =>
    .label tag name (presentItems parameters) (Stmt.spelledAll body)
  | .menu tag head choices => .menu tag head.again (Choice.spelledAll choices)
  | .conditional tag branches => .conditional tag (Branch.spelledAll branches)

/-- Statements in which what is absent has one spelling. -/
def Stmt.spelledAll : List Stmt → List Stmt
  | [] => []
  | s :: more => Stmt.spelled s :: Stmt.spelledAll more

/-- Choices in which what is absent has one spelling. -/
def Choice.spelledAll : List Choice → List Choice
  | [] => []
  | .mk text condition line body :: more =>
    .mk text (present condition) line (Stmt.spelledAll body)
      :: Choice.spelledAll more

/-- Branches in whose bodies what is absent has one spelling. -/
def Branch.spelledAll : List Branch → List Branch
  | [] => []
  | .mk condition line body :: more =>
    .mk condition line (Stmt.spelledAll body) :: Branch.spelledAll more

end

@[simp] theorem isSet_truth (flag : Option Bool) :
    isSet (truth flag) = isSet flag := rfl

@[simp] theorem argumentRow_presentItems (o : Option (List String)) :
    argumentRow (presentItems o) = argumentRow o := by
  rw [argumentRow, argumentRow, Draft.items_presentItems]

namespace Draft

-- ====================================================== simple statements

variable {room : Room} {depth : Int}

/-- How a line is said, or why it cannot be. -/
theorem sayLine_eq (tag : Tag) (d : Dialogue) (pad : Except Fault Unit) :
    sayLine pad (ofTagged .dialogue tag (ofSimple (.say d)).2) =
      (match Written.speaking tag.id d with
      | .error _ => .error (.unwritable (.narration tag.id))
      | .ok who => do
        pad
        pure (Phrase.say who (Text.quoted d.text) (argumentRow d.arguments)
          (present d.transition))) := by
  have hwho := who_eq d
  generalize hnames : (if isSet d.extend = true then ["extend"]
    else (present d.speaker).toList) = names at hwho
  by_cases h : (optTexts d.attributes).isPresent = true
  · have hsome : (items d.attributes).isEmpty = false := by
      simpa [isPresent_optTexts] using h
    cases names with
    | nil =>
        simp [-bind_pure_comp, sayLine, ofTagged, ofSimple, bind_ok, hwho, h,
          Written.speaking, hnames, hsome]
        rfl
    | cons name names =>
        simp [-bind_pure_comp, sayLine, ofTagged, ofSimple, bind_ok, hwho, h,
          Written.speaking, hnames, partsOf_optTexts h, needText]
  · have hnone : items d.attributes = [] := by
      simpa [isPresent_optTexts] using h
    simp [-bind_pure_comp, sayLine, ofTagged, ofSimple, bind_ok, hwho, h,
      Written.speaking, hnames, hnone]

variable (tag : Tag) (pad : Except Fault Unit)

theorem sayLine_spelled (d : Dialogue) :
    sayLine pad (ofTagged .dialogue tag (ofSimple (Simple.say d).spelled).2)
      = sayLine pad (ofTagged .dialogue tag (ofSimple (.say d)).2) := by
  show sayLine pad (ofTagged .dialogue tag (ofSimple (.say
    { speaker := present d.speaker
      text := d.text
      attributes := presentItems d.attributes
      transition := present d.transition
      extend := truth d.extend
      arguments := presentItems d.arguments })).2) = _
  simp only [sayLine_eq, Written.speaking, isSet_truth, present_present,
    items_presentItems, argumentRow_presentItems]

theorem displayLine_spelled (k : StmtKind) (image : String)
    (o : DisplayOptions) :
    displayLine room k pad (ofTagged k tag
        [("image", .text image), ("options", ofDisplayOptions o.normal)])
      = displayLine room k pad (ofTagged k tag
        [("image", .text image), ("options", ofDisplayOptions o)]) := by
  simp only [displayLine_eq, DisplayOptions.normal, items_presentItems,
    present_present]

theorem callLine_spelled (c : Call) :
    callLine pad (ofTagged .call tag (ofSimple (Simple.call c).spelled).2)
      = callLine pad (ofTagged .call tag (ofSimple (.call c)).2) := by
  show callLine pad (ofTagged .call tag (ofSimple (.call
    { target := c.target
      arguments := presentItems c.arguments
      expression := truth c.expression
      fromLabel := present c.fromLabel })).2) = _
  simp only [callLine_eq, argumentRow_presentItems, present_present]
  rfl

theorem playLine_spelled (channel file : String) (o : AudioOptions) :
    playLine room pad
        (ofTagged .play tag (ofSimple (.play channel file o.normal)).2)
      = playLine room pad
        (ofTagged .play tag (ofSimple (.play channel file o)).2) := by
  simp only [playLine_eq, AudioOptions.normal, isSet_truth]

theorem simpleOutline_spelled (s : Simple) :
    simpleOutline room depth (ofSimple s).1
        (ofTagged (ofSimple s).1 tag (ofSimple s.spelled).2)
      = simpleOutline room depth (ofSimple s).1
        (ofTagged (ofSimple s).1 tag (ofSimple s).2) := by
  have hline : ∀ {r r' : Except Fault String}, r = r' →
      (do pure [Outline.line (← r)]) = (do pure [Outline.line (← r')]) :=
    fun h => by rw [h]
  cases s with
  | say d => exact hline (sayLine_spelled tag _ d)
  | display verb image o =>
      cases verb <;> exact hline (displayLine_spelled tag _ _ image o)
  | call c => exact hline (callLine_spelled tag _ c)
  | play channel file o => exact hline (playLine_spelled tag _ channel file o)
  | jump target expression =>
      simp [-bind_pure_comp, simpleOutline, ofSimple, ofTagged, bind_ok,
        Simple.spelled, Simple.normal]
  | giveBack value =>
      simp [-bind_pure_comp, simpleOutline, ofSimple, ofTagged, bind_ok,
        Simple.spelled, Simple.normal, present_present]
  | code c =>
      simp [-bind_pure_comp, simpleOutline, codeOutline, ofSimple, ofTagged,
        bind_ok, Simple.spelled]
  | define name value store =>
      simp [-bind_pure_comp, simpleOutline, ofSimple, ofTagged, bind_ok,
        Simple.spelled, Simple.normal, present_present]
  | _ => rfl

theorem kind_spelled (s : Simple) :
    (ofSimple s.spelled).1 = (ofSimple s).1 := by
  cases s <;> rfl

-- ======================================================= nested statements

theorem outline_simple (tag : Tag) (s : Simple) :
    outline room depth (ofStmt (.simple tag s))
      = simpleOutline room depth (ofSimple s).1
        (ofTagged (ofSimple s).1 tag (ofSimple s).2) := by
  obtain ⟨hlabel, hmenu, hconditional⟩ := kind_ofSimple s
  rw [ofStmt, ofTagged]
  rw [outline] <;> simp [hlabel, hmenu, hconditional]

/-- What stands below a header depends on the outline of the body alone. -/
theorem bodyOutline_spelled {body : List Stmt}
    (h : ∀ room, outlines room depth (ofStmts (Stmt.spelledAll body))
      = outlines room depth (ofStmts body))
    (head : String) (more more' : List (String × Draft)) :
    bodyOutline room depth head
        (("body", .list (ofStmts (Stmt.spelledAll body))) :: more)
      = bodyOutline room depth head
        (("body", .list (ofStmts body)) :: more') := by
  cases body with
  | nil =>
      unfold bodyOutline
      rfl
  | cons s ss =>
      unfold bodyOutline
      simp only [if_pos, Stmt.spelledAll, ofStmts] at h ⊢
      simp only [h]

mutual

/-- A statement has the same outline, or is refused for the same reason, in
any spelling. -/
theorem outline_spelled : ∀ (s : Stmt) (room : Room) (depth : Int),
    outline room depth (ofStmt s.spelled) = outline room depth (ofStmt s)
  | .simple tag s, room, depth => by
      rw [Stmt.spelled, outline_simple, outline_simple, kind_spelled,
        simpleOutline_spelled]
  | .label tag name o body, room, depth => by
      rw [Stmt.spelled, outline_label, outline_label,
        argumentRow_presentItems,
        bodyOutline_spelled (fun room => outlines_spelled body room (depth + 1))]
  | .menu tag head choices, room, depth => by
      rw [Stmt.spelled, outline_menu, outline_menu,
        choiceOutlines_spelled choices room (depth + 1)]
      simp only [MenuHead.again, Written.menuLines, present_present]
  | .conditional tag branches, room, depth => by
      rw [Stmt.spelled, outline_conditional, outline_conditional,
        branchOutlines_spelled branches room depth true]

theorem outlines_spelled : ∀ (ss : List Stmt) (room : Room) (depth : Int),
    outlines room depth (ofStmts (Stmt.spelledAll ss))
      = outlines room depth (ofStmts ss)
  | [], _, _ => rfl
  | s :: ss, room, depth => by
      rw [Stmt.spelledAll, ofStmts, outlines, outline_spelled s room depth,
        outlines_spelled ss room depth, ofStmts, outlines]

theorem choiceOutlines_spelled : ∀ (cs : List Choice) (room : Room) (depth : Int),
    choiceOutlines room depth (ofChoices (Choice.spelledAll cs))
      = choiceOutlines room depth (ofChoices cs)
  | [], _, _ => rfl
  | .mk said condition line body :: cs, room, depth => by
      rw [Choice.spelledAll, choiceOutlines_cons, choiceOutlines_cons,
        present_present, choiceOutlines_spelled cs room depth,
        bodyOutline_spelled (fun room => outlines_spelled body room (depth + 1))]

theorem branchOutlines_spelled : ∀ (bs : List Branch) (room : Room) (depth : Int)
    (first : Bool),
    branchOutlines room depth first (ofBranches (Branch.spelledAll bs))
      = branchOutlines room depth first (ofBranches bs)
  | [], _, _, _ => rfl
  | .mk condition line body :: bs, room, depth, first => by
      rw [Branch.spelledAll, branchOutlines_cons, branchOutlines_cons,
        branchOutlines_spelled bs room depth false,
        bodyOutline_spelled (fun room => outlines_spelled body room (depth + 1))]

end

-- ================================================================ scripts

theorem isLabel_spelled (s : Stmt) :
    Written.isLabel s.spelled = Written.isLabel s := by
  cases s <;> rfl

theorem isDefinition_spelled (s : Stmt) :
    Written.isDefinition s.spelled = Written.isDefinition s := by
  cases s with
  | simple tag s => cases s <;> rfl
  | _ => rfl

theorem isRawBlock_spelled (s : Stmt) :
    Written.isRawBlock s.spelled = Written.isRawBlock s := by
  cases s with
  | simple tag s => cases s <;> rfl
  | _ => rfl

theorem gap_spelled (layout : PageLayout) (s : Stmt) (more : List Stmt) :
    Written.gap layout s.spelled (Stmt.spelledAll more)
      = Written.gap layout s more := by
  cases more with
  | nil => rfl
  | cons t more =>
      rw [Stmt.spelledAll, Written.gap, Written.gap, Written.needsBlank,
        Written.needsBlank]
      simp only [isLabel_spelled, isDefinition_spelled, isRawBlock_spelled]

theorem topLines_spelled (limits : Limits) (layout : Layout)
    (ss : List Stmt) :
    topLines limits layout (ofStmts (Stmt.spelledAll ss))
      = topLines limits layout (ofStmts ss) := by
  induction ss with
  | nil => rfl
  | cons s ss ih =>
      rw [Stmt.spelledAll, ofStmts, topLines, outline_spelled, gap_ofStmt,
        gap_spelled, ih, ofStmts, topLines, gap_ofStmt]

/-- A script is written as the same text, or refused for the same reason, in
any spelling. -/
theorem writtenScript_spelled (layout : Layout) (ss : List Stmt)
    (m : Metadata) :
    writtenScript layout (ofScript ⟨Stmt.spelledAll ss, m⟩)
      = writtenScript layout (ofScript ⟨ss, m⟩) :=
  congrArg (fun lines => do pure (Written.page (← lines)))
    (topLines_spelled {} layout ss)

end Draft

-- ============================================================ comparison

theorem presentItems_presentItems (o : Option (List String)) :
    presentItems (presentItems o) = presentItems o :=
  Draft.presentItems_inj.mpr (Draft.items_presentItems o)

theorem truth_truth (flag : Option Bool) : truth (truth flag) = truth flag :=
  rfl

theorem Simple.normal_spelled (s : Simple) : s.spelled.normal = s.normal := by
  cases s <;>
    simp [Simple.spelled, Simple.normal, DisplayOptions.normal,
      AudioOptions.normal, presentItems_presentItems, Draft.present_present,
      truth_truth]

mutual

/-- The normal form of a statement is the same in any spelling. -/
theorem Stmt.normal_spelled : ∀ s : Stmt, s.spelled.normal = s.normal
  | .simple tag s => congrArg (Stmt.simple _) s.normal_spelled
  | .label tag name o body => by
      rw [Stmt.spelled, Stmt.normal, Stmt.normal, presentItems_presentItems,
        Stmt.normalAll_spelledAll body]
  | .menu tag head choices => by
      rw [Stmt.spelled, Stmt.normal, Stmt.normal,
        Choice.normalAll_spelledAll choices]
      simp only [MenuHead.again, Draft.present_present]
  | .conditional tag branches => by
      rw [Stmt.spelled, Stmt.normal, Stmt.normal,
        Branch.normalAll_spelledAll branches]

theorem Stmt.normalAll_spelledAll : ∀ ss : List Stmt,
    Stmt.normalAll (Stmt.spelledAll ss) = Stmt.normalAll ss
  | [] => rfl
  | s :: ss => by
      rw [Stmt.spelledAll, Stmt.normalAll, Stmt.normalAll, s.normal_spelled,
        Stmt.normalAll_spelledAll ss]

theorem Choice.normalAll_spelledAll : ∀ cs : List Choice,
    Choice.normalAll (Choice.spelledAll cs) = Choice.normalAll cs
  | [] => rfl
  | .mk text condition line body :: cs => by
      rw [Choice.spelledAll, Choice.normalAll, Choice.normalAll,
        Draft.present_present, Stmt.normalAll_spelledAll body,
        Choice.normalAll_spelledAll cs]

theorem Branch.normalAll_spelledAll : ∀ bs : List Branch,
    Branch.normalAll (Branch.spelledAll bs) = Branch.normalAll bs
  | [] => rfl
  | .mk condition line body :: bs => by
      rw [Branch.spelledAll, Branch.normalAll, Branch.normalAll,
        Stmt.normalAll_spelledAll body, Branch.normalAll_spelledAll bs]

end

/-- A script counts as equal to the same scripts in any spelling. -/
theorem Stmt.equivalent_spelledAll {as bs : List Stmt} :
    Stmt.Equivalent (Stmt.spelledAll as) bs ↔ Stmt.Equivalent as bs := by
  rw [equivalent_iff_nearAll, equivalent_iff_nearAll,
    Stmt.normalAll_spelledAll]

/-- Two spellings of one script are interchangeable: under any layout they are
written as the same text or refused for the same reason, they count as equal
to the same scripts, and, as far as the numbers in them can be compared, to
each other. -/
theorem Stmt.interchangeable {as bs : List Stmt}
    (h : Stmt.spelledAll as = Stmt.spelledAll bs) :
    (∀ layout m, Draft.writtenScript layout (Draft.ofScript ⟨as, m⟩)
        = Draft.writtenScript layout (Draft.ofScript ⟨bs, m⟩))
      ∧ (∀ cs, Stmt.Equivalent as cs ↔ Stmt.Equivalent bs cs)
      ∧ (Stmt.Numbers (fun n => n.Measurable ∧ ¬ n.IsNan) as →
          Stmt.Equivalent as bs) := by
  have hsame : ∀ cs, Stmt.Equivalent as cs ↔ Stmt.Equivalent bs cs :=
    fun cs => by
      rw [← Stmt.equivalent_spelledAll, h, Stmt.equivalent_spelledAll]
  refine ⟨fun layout m => ?_, hsame, fun hnumbers => ?_⟩
  · rw [← Draft.writtenScript_spelled, h, Draft.writtenScript_spelled]
  · exact ((hsame as).mp (equivalent_self hnumbers)).symm

/-- With the condition of a branch it is different: left out it makes an
`else`, and empty an `elif`, and still the two count as equal. -/
theorem Stmt.equivalent_else_elif :
    let branching (condition : Option String) : List Stmt :=
      [.conditional ⟨"a", none⟩
        [.mk (some "x") none [], .mk condition none []]]
    let text (condition : Option String) := Draft.writtenScript {}
      (Draft.ofScript ⟨branching condition, { parseTime := default }⟩)
    Stmt.Equivalent (branching none) (branching (some ""))
      ∧ text none = .ok "if x:\n    pass\nelse:\n    pass\n"
      ∧ text (some "") = .ok "if x:\n    pass\nelif :\n    pass\n" := by
  refine ⟨?_, by decide +kernel, by decide +kernel⟩
  exact equivalent_iff_nearAll.mpr
    ⟨⟨rfl, rfl, rfl, trivial, rfl, rfl, trivial, trivial⟩, trivial⟩

end NovelScript
