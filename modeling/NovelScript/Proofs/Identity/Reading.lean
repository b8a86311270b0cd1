/-
The identities of what is read. Every statement takes a fresh identity when it
is built, after the statements nested in it have taken theirs, and a statement
that a menu drops when it falls back to raw text has used its identity up. So
the identities met on a walk through what was read are some of those that were
given out during the reading, and none is met twice.

# Readers that take

`Takes held ids r` says of a reader: if the identities that are held were taken
since some state of the numbering, then so were those of its result, together
with what is still held. A reader of several parts holds what the first part
gave while it reads the second (`Takes.bind`), may let go of some of it
(`Takes.weaken`), which is what a fallback does, and adds one identity when it
builds a statement (`takes_fresh`). The numbering is never set back, neither by
a complaint nor by a fallback, so what was let go of is not given out again.

# Walks

The walk meets a statement before those nested in it, while it is built after
them. So the order of the identities on the walk is not that in which they were
given out, and `Takes` speaks of identities up to their order. The induction
over the items follows the reading, at every depth of the walk.
-/
import NovelScript.Proofs.Identity.Supply
import NovelScript.Proofs.Reading.Tiling
import NovelScript.Settings
import NovelScript.Script

namespace NovelScript

-- ==================================================================== walks

namespace Walk

/-- The identities of the statements that are met on a walk. -/
def identities (met : List (Nat × Stmt)) : List String :=
  met.map fun m => m.2.tag.id

theorem identities_append (as bs : List (Nat × Stmt)) :
    identities (as ++ bs) = identities as ++ identities bs :=
  List.map_append

theorem ofStmts_single (depth : Nat) (s : Stmt) :
    ofStmts depth [s] = ofStmt depth s := by
  simp only [ofStmts, List.append_nil]

theorem ofStmts_append (depth : Nat) (as bs : List Stmt) :
    ofStmts depth (as ++ bs) = ofStmts depth as ++ ofStmts depth bs := by
  induction as with
  | nil => rfl
  | cons a as ih => simp only [List.cons_append, ofStmts, ih, List.append_assoc]

theorem ofChoices_append (depth : Nat) (as bs : List Choice) :
    ofChoices depth (as ++ bs) = ofChoices depth as ++ ofChoices depth bs := by
  induction as with
  | nil => rfl
  | cons a as ih =>
      cases a
      simp only [List.cons_append, ofChoices, ih, List.append_assoc]

end Walk

namespace Reading

open Grammar Walk

-- ================================================================= readings

/-- A reader that takes identities: if those that are held were taken since
some state of the numbering, then so were those of its result. -/
def Takes {α : Type} (held : List String) (ids : α → List String)
    (r : Reader α) : Prop :=
  ∀ n p, Numbering.Supplies n p.numbering held →
    Numbering.Supplies n (r.run p).2.numbering (ids (r.run p).1)

section

variable {α β : Type} {held : List String} {ids : α → List String}
  {ids' : β → List String}

theorem takes_pure {a : α} (h : (ids a).Subperm held) :
    Takes held ids (pure a) := fun _ _ hp => hp.mono h

/-- What the first reader gives is held while the second one reads. -/
theorem Takes.bind {r : Reader α} {f : α → Reader β} (h : Takes held ids r)
    (hf : ∀ a, Takes (ids a) ids' (f a)) : Takes held ids' (r >>= f) :=
  fun n p hp => hf _ n _ (h n p hp)

/-- A step that leaves the numbering alone. -/
theorem Takes.after {r : Reader α} {f : α → Reader β}
    (hr : ∀ p, (r.run p).2.numbering = p.numbering)
    (hf : ∀ a, Takes held ids' (f a)) : Takes held ids' (r >>= f) := by
  intro n p hp
  refine hf _ n (r.run p).2 ?_
  rw [hr p]
  exact hp

/-- Less may be held than was. What a menu drops is let go of by this. -/
theorem Takes.weaken {less : List String} {r : Reader α} (h : Takes less ids r)
    (hless : less.Subperm held) : Takes held ids r :=
  fun n p hp => h n p (hp.mono hless)

/-- A fresh identity is one more than those that are held. -/
theorem takes_fresh : Takes held (fun id => id :: held) fresh :=
  fun _ _ hp => hp.next

theorem numbering_complain (l : Line) (c : Cause) (p : Progress) :
    ((complain l c).run p).2.numbering = p.numbering := rfl

theorem numbering_expectColon (l : Line) (h : Header) (p : Progress) :
    ((expectColon l h).run p).2.numbering = p.numbering := by
  rw [run_expectColon]

end

-- ========================================================= statements

/-- What a reading of statements comes to at a depth of the walk: the
identities in the statements besides those that were held. -/
abbrev TakesAll (depth : Nat) (held : List String)
    (r : Reader (List Stmt)) : Prop :=
  Takes held (fun ss => held ++ identities (ofStmts depth ss)) r

section

variable {depth : Nat} {held : List String}

theorem identities_bodyOf (block : List Item) (body : List Stmt) :
    (identities (ofStmts depth (bodyOf block body))).Sublist
      (identities (ofStmts depth body)) := by
  unfold bodyOf
  split
  · split
    · split
      · exact List.nil_sublist _
      · exact .refl _
    · exact .refl _
  · exact .refl _

/-- The identities in a branch and those behind it. -/
theorem identities_branch (condition : Option String) (line : Option Nat)
    (block : List Item) (body : List Stmt) (more : List Branch) :
    (identities (ofBranches depth
        (.mk condition line (bodyOf block body) :: more))).Sublist
      (identities (ofStmts depth body ++ ofBranches depth more)) := by
  rw [ofBranches, identities_append, identities_append]
  exact (identities_bodyOf block body).append (.refl _)

/-- The identities in choices, and in one behind them. -/
theorem identities_choice (said : String) (condition : Option String)
    (line : Option Nat) (block : List Item) (choices : List Choice)
    (body : List Stmt) :
    (identities (ofChoices depth choices ++ ofChoices depth
        [.mk said condition line (bodyOf block body)])).Sublist
      (identities (ofChoices depth choices ++ ofStmts depth body)) := by
  rw [ofChoices, ofChoices, List.append_nil, identities_append,
    identities_append]
  exact (List.Sublist.refl _).append (identities_bodyOf block body)

/-- One more identity, in front of those of what is nested. -/
theorem subperm_nested {id : String} {ids ids' : List String}
    (h : ids'.Sublist ids) :
    (held ++ id :: ids').Subperm (id :: (held ++ ids)) :=
  List.perm_middle.subperm.trans
    ((List.Sublist.cons_cons id ((List.Sublist.refl held).append h)).subperm)

theorem takes_simple (l : Line) (s : Simple) :
    Takes held (fun st => held ++ identities (ofStmt depth st)) (simple l s) :=
  takes_fresh.bind fun id => takes_pure
    (List.perm_append_singleton id held).subperm

theorem Takes.single {r : Reader Stmt}
    (h : Takes held (fun st => held ++ identities (ofStmt depth st)) r) :
    TakesAll depth held (do pure [← r]) :=
  h.bind fun st => takes_pure <| by
    rw [ofStmts_single]

theorem takes_stray (ls : List Line) : TakesAll depth held (strayBlock ls) := by
  cases ls with
  | nil =>
      refine takes_pure ?_
      rw [ofStmts, identities, List.map_nil, List.append_nil]
  | cons l ls =>
      exact .after (numbering_complain l _) fun _ =>
        (takes_simple l (.raw _)).single

/-- A statement, and the block behind it that it does not own. -/
theorem Takes.line {r : Reader Stmt} (block : List Line)
    (h : Takes held (fun st => held ++ identities (ofStmt depth st)) r) :
    TakesAll depth held (do
      let st ← r
      pure (st :: (← strayBlock block))) :=
  h.bind fun st => (takes_stray block).bind fun more => takes_pure <| by
    simp only [ofStmts, identities_append, List.append_assoc]
    exact .refl _

theorem takes_rawItem (l : Line) (block : List Line) :
    TakesAll depth held (rawItem l block) := by
  unfold rawItem
  split
  · exact (takes_simple l (.raw _)).single
  · exact (takes_simple l (.raw _)).line block

theorem takes_simpleItem (l : Line) (block : List Line) :
    TakesAll depth held (simpleItem l block) := by
  unfold simpleItem
  split
  · exact (takes_simple l _).line block
  · exact takes_rawItem l block
  · exact .after (numbering_complain l _) fun _ => takes_rawItem l block

theorem takes_code (l : Line) (block : List Line) :
    TakesAll depth held (readCode l block) := by
  unfold readCode
  split
  · split
    · exact (takes_simple l _).single
    · exact takes_rawItem l block
  · exact takes_rawItem l block

/-- A menu that falls back to raw text: what was complained about inside it is
withdrawn, and the identities that were taken inside it are not. -/
theorem takes_fallback (l bad : Line) (before : Progress) (block : List Line) :
    TakesAll depth held (do
      modify fun p => { p with found := before.found }
      complain bad (.menuLine bad.content)
      pure [← rawLines l (l :: block)]) :=
  .after (fun _ => rfl) fun _ => .after (numbering_complain bad _) fun _ =>
    (takes_simple l (.raw _)).single

end

-- ================================================================ all items

/-- What is held of a menu behind its lines: the identities in its choices, or
none of them if a line does not belong there. -/
def menuIdentities (depth : Nat) : Except Line MenuParts → List String
  | .ok m => identities (ofChoices depth m.choices)
  | .error _ => []

/-- A line that does not belong in a menu: nothing is held of its choices. -/
theorem takes_refused (depth : Nat) {held : List String} (choices : List Choice)
    (l : Line) :
    Takes (held ++ identities (ofChoices depth choices))
      (fun result => held ++ menuIdentities depth result)
      (pure (.error l)) :=
  takes_pure <| by
    rw [menuIdentities, List.append_nil]
    exact (List.sublist_append_left held _).subperm

mutual

theorem takes_item (depth : Nat) (held : List String) : ∀ i : Item,
    TakesAll depth held (readItem i)
  | .plain l block => by
      have hbody := takes_items (depth + 1) held block
      have hraw : TakesAll depth held (rawItem l (Item.linesOfAll block)) :=
        takes_rawItem l _
      rcases word_cases (firstWord? l.content.toList) with
        hw | hw | hw | hw | hw | hw | hw
      · -- a label
        simp only [readItem, hw]
        cases label? (headOf l) with
        | none => exact hraw
        | some head =>
            refine .after (numbering_expectColon l _) fun _ =>
              hbody.bind fun body => takes_fresh.bind fun id => takes_pure ?_
            rw [ofStmts_single]
            exact subperm_nested (identities_bodyOf block body)
      · -- a menu
        simp only [readItem, hw]
        cases menu? (headOf l) with
        | none => exact hraw
        | some head =>
            have hmenu := takes_menu (depth + 1) held {} block
            rw [ofChoices, identities, List.map_nil, List.append_nil] at hmenu
            refine .after (numbering_expectColon l _) fun _ =>
              .after (fun _ => rfl) fun before => hmenu.bind fun result => ?_
            cases result with
            | ok parts =>
                refine takes_fresh.bind fun id => takes_pure ?_
                rw [ofStmts_single]
                exact subperm_nested (List.Sublist.refl _)
            -- The names that the menu took are not given back; the raw
            -- statement takes one more.
            | error bad =>
                rw [menuIdentities, List.append_nil]
                exact takes_fallback l bad before _
      · -- `elif` that no conditional has
        simp only [readItem, hw]
        exact .after (numbering_complain l _) fun _ => hraw
      · -- `else` that no conditional has
        simp only [readItem, hw]
        exact .after (numbering_complain l _) fun _ => hraw
      · -- code behind `python`
        simp only [readItem, hw]
        exact takes_code l _
      · -- code behind `init`
        simp only [readItem, hw]
        exact takes_code l _
      · -- any other line
        rw [readItem_unruled hw]
        exact takes_simpleItem l _
  | .chain l block branches => by
      unfold readItem
      refine .after (numbering_expectColon l _) fun _ =>
        (takes_items (depth + 1) held block).bind fun body =>
          (takes_branches (depth + 1) _ false branches).bind fun more =>
            takes_fresh.bind fun id => takes_pure ?_
      rw [ofStmts_single, List.append_assoc, ← identities_append]
      exact subperm_nested (identities_branch _ _ block body more)

theorem takes_items (depth : Nat) (held : List String) : ∀ is : List Item,
    TakesAll depth held (readItems is)
  | [] => by
      unfold readItems
      refine takes_pure ?_
      rw [ofStmts, identities, List.map_nil, List.append_nil]
  | i :: more => by
      unfold readItems
      refine (takes_item depth held i).bind fun first =>
        (takes_items depth _ more).bind fun rest => takes_pure ?_
      simp only [Walk.ofStmts_append, identities_append, List.append_assoc]
      exact .refl _

theorem takes_branches (depth : Nat) (held : List String) :
    ∀ (seenElse : Bool) (branches : List (Line × List Item)),
      Takes held (fun bs => held ++ identities (ofBranches depth bs))
        (readBranches seenElse branches)
  | _, [] => by
      unfold readBranches
      refine takes_pure ?_
      rw [ofBranches, identities, List.map_nil, List.append_nil]
  | seenElse, (l, block) :: more => by
      generalize hcond : (branchCondition? (headOf l)).getD none = condition
      have hall : Takes held
          (fun bs => held ++ identities (ofBranches depth bs))
          (do
            let body ← readItems block
            let rest ← readBranches (seenElse || condition.isNone) more
            pure (.mk condition (some l.number) (bodyOf block body) :: rest)) :=
        (takes_items depth held block).bind fun body =>
          (takes_branches depth _ _ more).bind fun rest => takes_pure <| by
            rw [List.append_assoc, ← identities_append]
            exact ((List.Sublist.refl held).append
              (identities_branch _ _ block body rest)).subperm
      unfold readBranches
      simp only [hcond]
      cases seenElse with
      | false => exact .after (numbering_expectColon l _) fun _ => hall
      | true =>
          exact .after (numbering_complain l _) fun _ =>
            .after (numbering_expectColon l _) fun _ => hall

theorem takes_menu (depth : Nat) (held : List String) :
    ∀ (m : MenuParts) (items : List Item),
      Takes (held ++ identities (ofChoices depth m.choices))
        (fun result => held ++ menuIdentities depth result)
        (readMenu m items)
  | m, [] => by
      unfold readMenu
      exact takes_pure (.refl _)
  | m, .plain l block :: more => by
      have hspec := menuLine_spec m l (!block.isEmpty)
      unfold readMenu
      cases hline : menuLine m l (!block.isEmpty) with
      | parts m' =>
          rw [hline] at hspec
          rw [← hspec.2.2]
          exact takes_menu depth held m' more
      -- The choice's body takes its names before the lines behind it do, and
      -- they are counted with the choices that are there.
      | choice said condition =>
          refine .after (numbering_expectColon l _) fun _ =>
            (takes_items depth _ block).bind fun body => ?_
          refine (takes_menu depth held _ more).weaken ?_
          rw [List.append_assoc, ← identities_append, Walk.ofChoices_append]
          exact ((List.Sublist.refl held).append
            (identities_choice _ _ _ block m.choices body)).subperm
      | refused => exact takes_refused depth m.choices l
  | m, .chain l block branches :: more => by
      have hspec := menuLine_spec m l (!block.isEmpty)
      unfold readMenu
      cases hline : menuLine m l (!block.isEmpty) with
      | parts m' =>
          rw [hline] at hspec
          cases branches with
          | nil =>
              rw [← hspec.2.2]
              exact takes_menu depth held m' more
          | cons b bs => exact takes_refused depth m.choices b.1
      | choice said condition => exact takes_refused depth m.choices l
      | refused => exact takes_refused depth m.choices l

end

-- ================================================================ a script

/-- The statements of some lines, at the margin and in the block that stands
above it. -/
theorem takes_lines (held : List String) (ls : List Line) :
    TakesAll 0 held (readLines ls) := by
  have hstray : TakesAll 0 held (strayBlock (ls.takeWhile (0 < ·.depth))) :=
    takes_stray _
  unfold readLines
  refine hstray.bind fun stray =>
    (takes_items 0 _ _).bind fun statements => takes_pure ?_
  simp only [Walk.ofStmts_append, identities_append, List.append_assoc]
  exact .refl _

/-- What has been read of some lines has its identities from the numbering. -/
theorem supplies_lines (p : Progress) (ls : List Line) :
    p.numbering.Supplies ((readLines ls).run p).2.numbering
      (identities (ofStmts 0 ((readLines ls).run p).1)) :=
  takes_lines [] ls p.numbering p p.numbering.supplies_nil

/-- A script that is read has its identities from the numbering, each of them
in one place. -/
theorem supplies_read (tabSize : Int) (n : Numbering) (source : String) :
    n.Supplies (read tabSize n source).2.2
      (identities (ofStmts 0 (read tabSize n source).1)) :=
  supplies_lines ⟨n, _⟩ _

/-- A reading that stops does not give back what it has used up. -/
theorem precedes_numberingAt (stop : Stop) (n : Numbering) (ls : List Line) :
    n.Precedes (numberingAt stop n ls) :=
  ⟨rfl, Nat.le_max_left _ _⟩

end Reading

/-- The identities of a script that was read; a failed reading has none. -/
def Parsed.identities : Except Fault Parsed → List String
  | .ok p => Walk.identities (Walk.ofStmts 0 p.script.statements)
  | .error _ => []

/-- A script that is read under any settings, or is not read because of
them. -/
theorem Settings.supplies_parse (s : Settings) (now : Timestamp) (n : Numbering)
    (file source : String) :
    n.Supplies (s.parse now n file source).2
      (Parsed.identities (s.parse now n file source).1) := by
  unfold Settings.parse
  cases tabStops s.tabSize source with
  | error e => exact n.supplies_nil
  | ok tabSize =>
      unfold Reading.readWithin
      dsimp only
      cases Reading.linesStop? (Source.scan tabSize source).1 with
      | some stop =>
          exact n.supplies_nil.later (Reading.precedes_numberingAt stop n _)
      | none => exact Reading.supplies_read tabSize n source

end NovelScript
