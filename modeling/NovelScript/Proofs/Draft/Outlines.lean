/-
Writing the draft of a script. Where the size of an indentation is of no
moderate size, or a script is nested too deep, statements are written as drafts,
and every indentation is looked at before it is made. The draft of a script
comes to the outline that the script itself comes to, and is refused only where
the outline needs room that there is not. So such settings, too, put the same
lines on the page, and whatever holds of written statements holds of these.

# Both directions at once

Each lemma here is an equivalence: the draft comes to an outline if and only if
the statement comes to it and it fits (`FitsAll`). The one direction says that
nothing goes wrong without a cause, the other that nothing is let through; and
only both together can be carried through the recursion, since a body is written
under the condition that its header was.

# Fields and their order

A draft is a row of fields, and the function that writes the body of a header
looks for it among them (`bodyOutline_of_ne`, `sectionOutlines_of_ne`). So the
lemma for each compound statement first says which fields it has and then skips
those that are not meant.
-/
import NovelScript.Proofs.Draft.Phrases
import NovelScript.Proofs.RoundTrip.Relabel
import NovelScript.RoundTrip

namespace NovelScript

open Written (present argumentRow)

namespace Draft

open Outline (FitsAll fitsAll_append fits_headed)

variable {room : Room} {pad : Int → Except Fault Unit} {depth : Int}

-- ===================================================== nested statements

/-- Fields with another name are passed over on the way to the body. -/
theorem bodyOutline_of_ne {name : String} (h : name ≠ "body") (head : String)
    (d : Draft) (more : List (String × Draft)) :
    bodyOutline room depth head ((name, d) :: more)
      = bodyOutline room depth head more := by
  conv_lhs => unfold bodyOutline
  exact if_neg h

/-- Fields with another name are passed over on the way to choices or branches.
-/
theorem sectionOutlines_of_ne {which name : String} (h : name ≠ which)
    (d : Draft) (more : List (String × Draft)) :
    sectionOutlines room depth which ((name, d) :: more)
      = sectionOutlines room depth which more := by
  conv_lhs => unfold sectionOutlines
  exact if_neg h

/-- A body comes to its outline below its header, if its statements do. -/
theorem bodyOutline_eq_ok {body : List Stmt}
    (ih : ∀ os, outlines (.free pad) depth (ofStmts body) = .ok os
      ↔ Written.stmts body = .ok os ∧ FitsAll pad depth os)
    (head : String) (more : List (String × Draft)) {o : Outline} :
    bodyOutline (.free pad) depth head (("body", .list (ofStmts body)) :: more)
        = .ok o
      ↔ ∃ inner, Written.stmts body = .ok inner
        ∧ Written.headed head (!body.isEmpty) inner = o
        ∧ (body = [] → pad depth = .ok ()) ∧ FitsAll pad depth inner := by
  -- An empty body is written as `pass`, at a depth at which nothing else is
  -- written.
  cases body with
  | nil =>
      have hbody : bodyOutline (.free pad) depth head
          (("body", .list (ofStmts [])) :: more)
          = (do pad depth; pure (.block head [])) := by
        unfold bodyOutline
        rw [if_pos rfl]
        rfl
      rw [hbody, bind_eq_ok, exists_checked, pure_eq_ok]
      constructor
      · rintro ⟨hroom, rfl⟩
        exact ⟨[], rfl, rfl, fun _ => hroom, trivial⟩
      · rintro ⟨inner, hinner, rfl, hroom, -⟩
        obtain rfl := Except.ok.inj hinner
        exact ⟨hroom rfl, rfl⟩
  | cons s ss =>
      have hbody : bodyOutline (.free pad) depth head
          (("body", .list (ofStmts (s :: ss))) :: more)
          = (do pure (Written.headed head true
              (← outlines (.free pad) depth (ofStmts (s :: ss))))) := by
        unfold bodyOutline
        rw [if_pos rfl]
        rfl
      rw [hbody, bind_eq_ok]
      simp only [ih, pure_eq_ok]
      constructor
      · rintro ⟨inner, ⟨hinner, hfits⟩, rfl⟩
        exact ⟨inner, hinner, rfl, fun h => by simp at h, hfits⟩
      · rintro ⟨inner, hinner, rfl, -, hfits⟩
        exact ⟨inner, ⟨hinner, hfits⟩, rfl⟩

/-- The header of a menu and its lines before the choices. -/
theorem menuParts_eq (tag : Tag) (head : MenuHead) (choices : Draft) :
    menuParts pad depth (ofTagged .menu tag
        [("choices", choices), ("prompt", optText head.prompt),
          ("prompt_speaker", optText head.promptSpeaker),
          ("set_var", optText head.setVar), ("screen", optText head.screen),
          ("name", optText head.name)]) = (do
      pad depth
      pad (depth + 1)
      pure (Phrase.menuHead (present head.name)
        ((present head.screen).map Text.quoted), Written.menuLines head)) := by
  rcases hs : present head.screen with _ | screen <;>
    rcases hp : present head.prompt with _ | prompt <;>
    rcases hv : present head.setVar with _ | var <;>
    simp [-bind_pure_comp, menuParts, ofTagged, bind_ok, Written.menuLines,
      literalOf_optText, inLine_optText, hs, hp, hv]

theorem outline_label (tag : Tag) (name : String) (o : Option (List String))
    (body : List Stmt) :
    outline room depth (ofStmt (.label tag name o body)) = (do
      room.pad depth
      let block ← bodyOutline room (depth + 1)
        (Phrase.labelHead name (argumentRow o))
        [("body", .list (ofStmts body)), ("parameters", optTexts o),
          ("line", optLine tag.line)]
      pure [block]) := by
  rw [ofStmt, ofTagged, outline]
  simp only [List.cons_append, List.nil_append, get_cons, get_cons_of_ne,
    bind_ok, argumentsOf_optTexts, inLine, ne_eq, String.reduceEq,
    not_false_eq_true, bodyOutline_of_ne]

theorem outline_menu (tag : Tag) (head : MenuHead) (choices : List Choice) :
    outline room depth (ofStmt (.menu tag head choices)) = (do
      room.pad depth
      room.pad (depth + 1)
      let inner ← choiceOutlines room (depth + 1) (ofChoices choices)
      pure [.block (Phrase.menuHead (present head.name)
        ((present head.screen).map Text.quoted))
        (Written.menuLines head ++ inner)]) := by
  have hparts := @menuParts_eq room.pad depth tag head (.list (ofChoices choices))
  rw [ofTagged] at hparts
  have hsection : ∀ more, sectionOutlines room (depth + 1) "choices"
      (("id", .text tag.id) :: ("choices", .list (ofChoices choices)) :: more)
      = choiceOutlines room (depth + 1) (ofChoices choices) := by
    intro more
    rw [sectionOutlines_of_ne (by decide), sectionOutlines, if_pos rfl]
    exact if_pos rfl
  rw [ofStmt, ofTagged, outline, hparts]
  simp only [List.cons_append, hsection, bind_assoc, pure_bind]

theorem outline_conditional (tag : Tag) (branches : List Branch) :
    outline room depth (ofStmt (.conditional tag branches))
      = branchOutlines room depth true (ofBranches branches) := by
  rw [ofStmt, ofTagged, outline, List.cons_append, List.cons_append,
    sectionOutlines_of_ne (by decide), sectionOutlines, if_pos rfl]
  exact if_neg (by decide)

theorem choiceOutlines_cons (text : String) (condition : Option String)
    (line : Option Nat) (body : List Stmt) (more : List Choice) :
    choiceOutlines room depth
        (ofChoices (.mk text condition line body :: more)) = (do
      let block ← bodyOutline room (depth + 1)
        (Phrase.choiceHead (Text.quoted text) (present condition))
        [("body", .list (ofStmts body)), ("condition", optText condition),
          ("line", optLine line)]
      let rest ← choiceOutlines room depth (ofChoices more)
      pure (block :: rest)) := by
  rw [ofChoices, choiceOutlines]
  simp only [choiceHead, get_cons, get_cons_of_ne, bind_ok, inLine?_optText,
    literalOf_text, ne_eq, String.reduceEq, not_false_eq_true,
    bodyOutline_of_ne, pure_bind]

theorem branchOutlines_cons (first : Bool) (condition : Option String)
    (line : Option Nat) (body : List Stmt) (more : List Branch) :
    branchOutlines room depth first
        (ofBranches (.mk condition line body :: more)) = (do
      room.pad depth
      let block ← bodyOutline room (depth + 1)
        (Phrase.branchHead first condition)
        [("body", .list (ofStmts body)), ("line", optLine line)]
      let rest ← branchOutlines room depth false (ofBranches more)
      pure (block :: rest)) := by
  have hcondition : (if (optText condition).isNull = true then none
      else some (optText condition).inLine) = condition := by
    cases condition <;> rfl
  rw [ofBranches, branchOutlines]
  simp only [branchHead, get_cons, bind_ok, hcondition, ne_eq,
    String.reduceEq, not_false_eq_true, bodyOutline_of_ne, pure_bind]

/-- The lines of a menu fit where its choices do. -/
theorem fitsAll_menuLines {head : MenuHead} (h : pad depth = .ok ()) :
    FitsAll pad depth (Written.menuLines head) := by
  have hline : ∀ (o : Option String) (f : String → String),
      FitsAll pad depth (o.map fun t => Outline.line (f t)).toList := by
    intro o f
    cases o with
    | none => trivial
    | some t => exact ⟨h, trivial⟩
  exact fitsAll_append.mpr ⟨hline _ _, hline _ _⟩

mutual

/-- The draft of a statement comes to the outline of the statement, if its
indentations can be made. -/
theorem outline_eq_ok : ∀ (s : Stmt) {depth : Int} {os : List Outline},
    outline (.free pad) depth (ofStmt s) = .ok os
      ↔ Written.stmt s = .ok os ∧ FitsAll pad depth os
  | .simple tag s, depth, os => by
      have hsimple := @simpleOutline_eq_ok (.free pad) depth tag s os
        fun i _ => Room.spells_free pad i
      rw [Written.stmt, ← Room.pad_free pad, ← hsimple, ofStmt, ofTagged]
      obtain ⟨hlabel, hmenu, hconditional⟩ := kind_ofSimple s
      rw [outline] <;> simp [hlabel, hmenu, hconditional]
  -- For each header the room at its depth is asked for first, then the body is
  -- written one level further in.
  | .label tag name o body, depth, os => by
      rw [outline_label, Written.stmt]
      simp only [bind_eq_ok, exists_checked, pure_eq_ok,
        bodyOutline_eq_ok fun _ => outlines_eq_ok body]
      constructor
      · rintro ⟨hroom, _, ⟨inner, hinner, rfl, hbare, hfits⟩, rfl⟩
        exact ⟨⟨inner, hinner, rfl⟩,
          fits_headed.mpr ⟨hroom, hbare, hfits⟩, trivial⟩
      · rintro ⟨⟨inner, hinner, rfl⟩, hfits, -⟩
        obtain ⟨hroom, hbare, hfits⟩ := fits_headed.mp hfits
        exact ⟨hroom, _, ⟨inner, hinner, rfl, hbare, hfits⟩, rfl⟩
  | .menu tag head choices, depth, os => by
      rw [outline_menu, Written.stmt]
      simp only [bind_eq_ok, exists_checked, pure_eq_ok]
      have hlines := @fitsAll_menuLines pad (depth + 1) head
      constructor
      · rintro ⟨hroom, hnext, inner, hinner, rfl⟩
        obtain ⟨hinner, hfits⟩ := (choiceOutlines_eq_ok choices hnext).mp hinner
        exact ⟨⟨inner, hinner, rfl⟩, ⟨hroom, hnext,
          fitsAll_append.mpr ⟨hlines hnext, hfits⟩⟩, trivial⟩
      · rintro ⟨⟨inner, hinner, rfl⟩, ⟨hroom, hnext, hfits⟩, -⟩
        exact ⟨hroom, hnext, inner, (choiceOutlines_eq_ok choices hnext).mpr
          ⟨hinner, (fitsAll_append.mp hfits).2⟩, rfl⟩
  | .conditional tag branches, depth, os => by
      rw [outline_conditional, Written.stmt, branchOutlines_eq_ok]

theorem outlines_eq_ok : ∀ (ss : List Stmt) {depth : Int} {os : List Outline},
    outlines (.free pad) depth (ofStmts ss) = .ok os
      ↔ Written.stmts ss = .ok os ∧ FitsAll pad depth os
  | [], depth, os => by
      rw [ofStmts, outlines, Written.stmts, pure_eq_ok, Except.ok.injEq]
      refine (and_iff_left_of_imp ?_).symm
      rintro rfl
      trivial
  | s :: ss, depth, os => by
      rw [ofStmts, outlines, Written.stmts]
      simp only [bind_eq_ok, pure_eq_ok, outline_eq_ok s, outlines_eq_ok ss]
      constructor
      · rintro ⟨as, ⟨has, hfits⟩, bs, ⟨hbs, hfits'⟩, rfl⟩
        exact ⟨⟨as, has, bs, hbs, rfl⟩, fitsAll_append.mpr ⟨hfits, hfits'⟩⟩
      · rintro ⟨⟨as, has, bs, hbs, rfl⟩, hfits⟩
        obtain ⟨hfits, hfits'⟩ := fitsAll_append.mp hfits
        exact ⟨as, ⟨has, hfits⟩, bs, ⟨hbs, hfits'⟩, rfl⟩

/-- The indentation of a choice was made by its menu. -/
theorem choiceOutlines_eq_ok : ∀ (cs : List Choice) {depth : Int}
    {os : List Outline}, pad depth = .ok () →
    (choiceOutlines (.free pad) depth (ofChoices cs) = .ok os
      ↔ Written.choiceBlocks cs = .ok os ∧ FitsAll pad depth os)
  | [], depth, os, _ => by
      rw [ofChoices, choiceOutlines, Written.choiceBlocks, pure_eq_ok,
        Except.ok.injEq]
      refine (and_iff_left_of_imp ?_).symm
      rintro rfl
      trivial
  | .mk said condition line body :: cs, depth, os, hroom => by
      rw [choiceOutlines_cons, Written.choiceBlocks]
      simp only [bind_eq_ok, pure_eq_ok, choiceOutlines_eq_ok cs hroom,
        bodyOutline_eq_ok fun _ => outlines_eq_ok body]
      constructor
      · rintro ⟨_, ⟨inner, hinner, rfl, hbare, hfits⟩, bs, ⟨hbs, hmore⟩, rfl⟩
        exact ⟨⟨inner, hinner, bs, hbs, rfl⟩,
          fits_headed.mpr ⟨hroom, hbare, hfits⟩, hmore⟩
      · rintro ⟨⟨inner, hinner, bs, hbs, rfl⟩, hfits, hmore⟩
        obtain ⟨-, hbare, hfits⟩ := fits_headed.mp hfits
        exact ⟨_, ⟨inner, hinner, rfl, hbare, hfits⟩, bs, ⟨hbs, hmore⟩, rfl⟩

theorem branchOutlines_eq_ok : ∀ (bs : List Branch) {depth : Int}
    {first : Bool} {os : List Outline},
    branchOutlines (.free pad) depth first (ofBranches bs) = .ok os
      ↔ Written.branchBlocks first bs = .ok os ∧ FitsAll pad depth os
  | [], depth, first, os => by
      rw [ofBranches, branchOutlines, Written.branchBlocks, pure_eq_ok,
        Except.ok.injEq]
      refine (and_iff_left_of_imp ?_).symm
      rintro rfl
      trivial
  | .mk condition line body :: bs, depth, first, os => by
      rw [branchOutlines_cons, Written.branchBlocks]
      simp only [bind_eq_ok, exists_checked, pure_eq_ok,
        branchOutlines_eq_ok bs, bodyOutline_eq_ok fun _ => outlines_eq_ok body]
      constructor
      · rintro ⟨hroom, _, ⟨inner, hinner, rfl, hbare, hfits⟩, as, ⟨has, hmore⟩,
          rfl⟩
        exact ⟨⟨inner, hinner, as, has, rfl⟩,
          fits_headed.mpr ⟨hroom, hbare, hfits⟩, hmore⟩
      · rintro ⟨⟨inner, hinner, as, has, rfl⟩, hfits, hmore⟩
        obtain ⟨hroom, hbare, hfits⟩ := fits_headed.mp hfits
        exact ⟨hroom, _, ⟨inner, hinner, rfl, hbare, hfits⟩, as, ⟨has, hmore⟩,
          rfl⟩

end

-- =============================================================== scripts

theorem isRawBlock_ofStmt (s : Stmt) :
    isRawBlock (ofStmt s) = .ok (Written.isRawBlock s) := by
  cases s with
  | simple tag s =>
      cases s with
      | display verb image o => cases verb <;> rfl
      | _ => rfl
  | _ => rfl

theorem isDefinition_ofStmt (s : Stmt) :
    isDefinition (ofStmt s) = Written.isDefinition s := by
  cases s with
  | simple tag s =>
      cases s with
      | display verb image o => cases verb <;> rfl
      | _ => rfl
  | _ => rfl

theorem isLabel_ofStmt (s : Stmt) :
    decide ((ofStmt s).stmtKind? = some .label) = Written.isLabel s := by
  cases s with
  | simple tag s =>
      cases s with
      | display verb image o => cases verb <;> rfl
      | _ => rfl
  | _ => rfl

theorem needsBlank_ofStmt (s t : Stmt) :
    needsBlank (ofStmt s) (ofStmt t) = .ok (Written.needsBlank s t) := by
  have hlabel : ∀ s : Stmt, (ofStmt s).stmtKind? = some .label
      ↔ Written.isLabel s = true := fun s => by
    rw [← isLabel_ofStmt s, decide_eq_true_iff]
  rw [needsBlank, isDefinition_ofStmt, isDefinition_ofStmt, isRawBlock_ofStmt,
    isRawBlock_ofStmt, Written.needsBlank]
  simp only [hlabel]
  cases Written.isLabel s <;> cases Written.isLabel t <;>
    cases Written.isDefinition s <;> cases Written.isDefinition t <;>
    cases Written.isRawBlock s <;> rfl

theorem gap_ofStmt (layout : Layout) (s : Stmt) (more : List Stmt) :
    gap layout (ofStmt s) (ofStmts more)
      = .ok (Written.gap ⟨layout.width, layout.blankLines⟩ s more) := by
  cases more with
  | nil => rfl
  | cons t more =>
      rw [ofStmts, gap, Written.gap, needsBlank_ofStmt]
      cases layout.blankLines with
      | false => rfl
      | true => cases Written.needsBlank s t <;> rfl

/-- Drafts of statements come to the lines of the statements, as long as every
indentation can be made. -/
theorem topLines_eq_ok (layout : Layout) : ∀ (ss : List Stmt) {lines},
    topLines {} layout (ofStmts ss) = .ok lines
      ↔ Written.topLines ⟨layout.width, layout.blankLines⟩ ss = .ok lines
        ∧ ∀ s ∈ ss, ∀ os, Written.stmt s = .ok os → FitsAll layout.room 0 os
  | [], lines => by
      rw [ofStmts, topLines, Written.topLines, pure_eq_ok, Except.ok.injEq]
      simp
  | s :: ss, lines => by
      have hfree : (⟨{}, layout.room⟩ : Room) = .free layout.room := rfl
      rw [ofStmts, topLines, Written.topLines, gap_ofStmt, hfree]
      simp only [bind_eq_ok, pure_eq_ok, outline_eq_ok,
        topLines_eq_ok layout ss, List.forall_mem_cons, Except.ok.injEq]
      constructor
      · rintro ⟨os, ⟨hos, hfits⟩, _, rfl, more, ⟨hmore, hall⟩, rfl⟩
        refine ⟨⟨os, hos, more, hmore, rfl⟩, fun os' hos' => ?_, hall⟩
        rw [hos] at hos'
        obtain rfl := Except.ok.inj hos'
        exact hfits
      · rintro ⟨⟨os, hos, more, hmore, rfl⟩, hfits, hall⟩
        exact ⟨os, ⟨hos, hfits os hos⟩, _, rfl, more, ⟨hmore, hall⟩, rfl⟩

end Draft

theorem Stmt.relabelAll_eq_map (f : Tag → Tag) (g : Option Nat → Option Nat)
    (ss : List Stmt) : Stmt.relabelAll f g ss = ss.map (Stmt.relabel f g) := by
  induction ss with
  | nil => rfl
  | cons s ss ih => rw [Stmt.relabelAll, ih, List.map_cons]

namespace Settings

/-- How settings lay scripts out, whatever the size of their indentation. -/
def pageLayout (s : Settings) : PageLayout :=
  ⟨s.draftLayout.width, s.draftLayout.blankLines⟩

theorem layout?_eq {s : Settings} {layout : PageLayout}
    (h : s.layout? = some layout) : layout = s.pageLayout := by
  unfold layout? at h
  cases hsize : s.indentSize.size? with
  | none =>
      rw [hsize] at h
      cases h
  | some n =>
      rw [hsize, Option.bind_some] at h
      split at h
      · obtain rfl := Option.some.inj h
        rw [pageLayout, draftLayout, Draft.Layout.width, hsize]
        rfl
      · cases h

/-- Whatever settings put on a page are the lines of its statements. -/
theorem lines_eq_ok (s : Settings) (ss : List Stmt) {lines : List String} :
    s.lines ss = .ok lines
      ↔ Written.topLines s.pageLayout ss = .ok lines
        ∧ (s.layout? = none → ∀ t ∈ ss, ∀ os, Written.stmt t = .ok os →
            Outline.FitsAll s.draftLayout.room 0 os) := by
  unfold Settings.lines
  cases h : s.layout? with
  | none =>
      rw [Draft.topLines_eq_ok]
      simp [pageLayout]
  | some layout =>
      rw [← layout?_eq h]
      cases hlines : Written.topLines layout ss <;>
        simp [Except.mapError, hlines]

/-- Settings put statements with other labels on the same lines. -/
theorem lines_relabelAll (s : Settings) (f : Tag → Tag)
    (g : Option Nat → Option Nat) (ss : List Stmt) {lines : List String} :
    s.lines (Stmt.relabelAll f g ss) = .ok lines ↔ s.lines ss = .ok lines := by
  have hsame : ∀ {layout} {lines : List String},
      Written.topLines layout (Stmt.relabelAll f g ss) = .ok lines
        ↔ Written.topLines layout ss = .ok lines := fun {_ _} => by
    rw [← Written.toOption_eq_some, Written.toOption_topLines_relabel,
      Written.toOption_eq_some]
  have hstmt : ∀ {t : Stmt} {os}, Written.stmt (Stmt.relabel f g t) = .ok os
      ↔ Written.stmt t = .ok os := fun {_ _} => by
    rw [← Written.toOption_eq_some, Written.toOption_stmt_relabel,
      Written.toOption_eq_some]
  rw [lines_eq_ok, lines_eq_ok, hsame, Stmt.relabelAll_eq_map]
  simp only [List.forall_mem_map, hstmt]

end Settings

end NovelScript
