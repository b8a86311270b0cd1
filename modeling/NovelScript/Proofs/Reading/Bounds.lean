/-
What bounds the reading of a script, and what bounds what is read. A reading is
preceded by a look for the first line at which it would stop, and goes through
the items in the order in which they are read, with a room that is left for
nested blocks (`itemStop?` and its companions).

# Why a reading stops

A stop has a cause in the source: either the rule of a line takes an integer of
too many digits, or a line is nested too deeply (`Stop.CausedBy`). For the
second, the blocks around a line have taken no more than one `blockRoom` for
each level of its depth: the block of a choice takes more, but a choice stands a
level below its menu, and so its block is two levels further in. Along the items
of a block form, which are as deep as they are nested (`Item.AllAt`), what is
left of the room and that much for the depth add up to no less than the whole
room (`Reach.Deep`). Where too little is left, the line is deep.

# What is read without a stop

Where nothing stops the reading, what is read keeps within the limits of a
writer who has as many calls as the reader had room (`allow_read`). The writer
takes fewer calls for a block than the reader takes room, whichever block it is,
so the room that is left at an item bounds the calls that writing its statements
takes. The invariant is `Keeps`, said of every depth that a walk may begin at;
it goes down into blocks by `keepsBlock`, which is the only place where the two
measures meet. Integers are short because the look for stops has looked at their
lines (`short_lineKind`), and what a menu drops when it falls back to raw text is
not among what is read.

A menu is looked through with blanks for the choices that were read, since it
only matters whether there are any (`MenuParts.Blank`).
-/
import NovelScript.Proofs.Draft.Bounds
import NovelScript.Proofs.Grammar.Digits
import NovelScript.Proofs.Reading.Formed
import NovelScript.Proofs.Source.Depths
import NovelScript.Proofs.Source.Rows
import NovelScript.Proofs.Written.Lines
import NovelScript.Reading.Bound

namespace NovelScript.Reading

open Draft (Limits blockCalls)
open Grammar Item

-- ==================================================================== causes

/-- What there is about some lines that a reading stops at one of them: an
integer of too many digits, or a depth at which a block for each level takes all
the room. -/
inductive Stop.CausedBy (ls : List Line) : Stop → Prop where
  /-- The rule of the line takes an integer of more digits than are read. -/
  | digits {l : Line} {count within : Nat} (hl : l ∈ ls)
      (htakes : lineExcess? l.content.toList = some (.digits count))
      (hlong : Excess.mostDigits < count) :
    CausedBy ls ⟨.digits count, l.number, within⟩
  /-- The line is so deep that a block for each level takes all the room. -/
  | depth {l : Line} {within : Nat} (hl : l ∈ ls)
      (hdeep : wholeRoom ≤ blockRoom * l.depth) :
    CausedBy ls ⟨.depth, l.number, within⟩

theorem Stop.CausedBy.mono {ls ls' : List Line} (hsub : ls ⊆ ls') {stop : Stop}
    (h : stop.CausedBy ls) : stop.CausedBy ls' := by
  cases h with
  | digits hl htakes hlong => exact .digits (hsub hl) htakes hlong
  | depth hl hdeep => exact .depth (hsub hl) hdeep

/-- A block is entered if there is anything in it, and then it takes its part of
the room. -/
theorem blockStop?_eq (r : Reach) (part : Nat) (block : List Item) :
    blockStop? r part block
      = if r.room < part then
          block.head?.map fun i => ⟨.depth, i.line.number, r.within + 1⟩
        else itemsStop? (r.inside part) block := by
  cases block with
  | nil => simp [blockStop?, itemsStop?]
  | cons i more => rw [blockStop?, itemsStop?]; rfl

/-- What is left of the room at a depth: no more than a block for each level has
been taken. -/
def Reach.Deep (r : Reach) (n : Nat) : Prop := wholeRoom ≤ r.room + blockRoom * n

section Causes

variable {n : Nat} {r : Reach} {stop : Stop}

/-- The block of a label or a branch is one level further in. -/
theorem Reach.Deep.block (h : r.Deep n) : (r.inside blockRoom).Deep (n + 1) := by
  show wholeRoom ≤ r.room - blockRoom + blockRoom * (n + 1)
  unfold Deep at h
  rw [Nat.mul_succ]
  omega

/-- The block of a choice is two levels further in than its menu. -/
theorem Reach.Deep.choice (h : r.Deep n) :
    (r.inside choiceRoom).Deep (n + 1 + 1) := by
  show wholeRoom ≤ r.room - choiceRoom + blockRoom * (n + 1 + 1)
  have hless : choiceRoom ≤ blockRoom + blockRoom := by decide
  unfold Deep at h
  rw [Nat.mul_succ, Nat.mul_succ]
  omega

/-- A block in which a reading stops has a line that is too deep, or the reading
stops in the room inside it. -/
theorem causedBy_block {part : Nat} {block : List Item}
    (hroom : (r.inside part).Deep n) (hblock : AllAt n block)
    (ih : itemsStop? (r.inside part) block = some stop →
      stop.CausedBy (linesOfAll block))
    (h : blockStop? r part block = some stop) :
    stop.CausedBy (linesOfAll block) := by
  rw [blockStop?_eq] at h
  split at h
  · next hfull =>
    obtain ⟨i, hi, rfl⟩ := Option.map_eq_some_iff.mp h
    obtain ⟨more, rfl⟩ := List.head?_eq_some_iff.mp hi
    have hline : i.line ∈ lines i := by cases i <;> exact List.mem_cons_self
    have hdeep := le_depth_of_at hblock.1 i.line hline
    have hnone : r.room - part = 0 := Nat.sub_eq_zero_of_le hfull.le
    refine .depth (List.mem_append_left _ hline) ?_
    calc wholeRoom ≤ (r.inside part).room + blockRoom * n := hroom
      _ = blockRoom * n := by rw [Reach.inside, hnone, Nat.zero_add]
      _ ≤ blockRoom * i.line.depth := Nat.mul_le_mul_left _ hdeep
  · exact ih h

mutual

theorem causedBy_item : ∀ {n : Nat} {r : Reach} {stop : Stop} (i : Item),
    r.Deep n → At n i → itemStop? r i = some stop → stop.CausedBy (lines i)
  | n, r, stop, .plain l block, hr, ⟨hl, hblock⟩, h => by
      have hinner : linesOfAll block ⊆ lines (.plain l block) :=
        List.subset_cons_self _ _
      rw [itemStop?] at h
      split at h
      · split at h
        · exact (causedBy_block hr.block hblock
            (causedBy_items block hr.block hblock) h).mono hinner
        · cases h
      · split at h
        · exact (causedBy_menu block hr hblock h).mono hinner
        · cases h
      all_goals try cases h
      obtain ⟨e, he, rfl⟩ := Option.map_eq_some_iff.mp h
      obtain ⟨count, rfl, hlong⟩ := overDigits_lineExcess? he
      exact .digits List.mem_cons_self he hlong
  | n, r, stop, .chain l block branches, hr, ⟨hl, hblock, hbranches⟩, h => by
      rw [itemStop?] at h
      rcases Option.or_eq_some_iff.mp h with h | ⟨-, h⟩
      · exact (causedBy_block hr.block hblock
          (causedBy_items block hr.block hblock) h).mono
            fun b hb => List.mem_append_left _ (List.mem_cons_of_mem l hb)
      · exact (causedBy_branches branches hr hbranches h).mono
          fun b hb => List.mem_append_right _ hb

theorem causedBy_items : ∀ {n : Nat} {r : Reach} {stop : Stop}
    (items : List Item), r.Deep n → AllAt n items →
    itemsStop? r items = some stop → stop.CausedBy (linesOfAll items)
  | n, r, stop, [], _, _, h => by cases h
  | n, r, stop, i :: more, hr, ⟨hi, hmore⟩, h => by
      rw [itemsStop?] at h
      rcases Option.or_eq_some_iff.mp h with h | ⟨-, h⟩
      · exact (causedBy_item i hr hi h).mono (List.subset_append_left _ _)
      · exact (causedBy_items more hr hmore h).mono
          (List.subset_append_right _ _)

theorem causedBy_branches : ∀ {n : Nat} {r : Reach} {stop : Stop}
    (branches : List (Line × List Item)), r.Deep n → BranchesAt n branches →
    branchesStop? r branches = some stop →
    stop.CausedBy (linesOfBranches branches)
  | n, r, stop, [], _, _, h => by cases h
  | n, r, stop, (l, block) :: more, hr, ⟨hl, hblock, hmore⟩, h => by
      rw [branchesStop?] at h
      rcases Option.or_eq_some_iff.mp h with h | ⟨-, h⟩
      · exact (causedBy_block hr.block hblock
          (causedBy_items block hr.block hblock) h).mono
            fun b hb => List.mem_append_left _ (List.mem_cons_of_mem l hb)
      · exact (causedBy_branches more hr hmore h).mono
          fun b hb => List.mem_append_right _ hb

/-- The items of a menu are one deeper than the menu. -/
theorem causedBy_menu : ∀ {n : Nat} {r : Reach} {stop : Stop} {m : MenuParts}
    (items : List Item), r.Deep n → AllAt (n + 1) items →
    menuStop? r m items = some stop → stop.CausedBy (linesOfAll items)
  | n, r, stop, m, [], _, _, h => by cases h
  | n, r, stop, m, .plain l block :: more, hr, ⟨⟨hl, hblock⟩, hmore⟩, h => by
      have hrest : linesOfAll more ⊆ linesOfAll (.plain l block :: more) :=
        List.subset_append_right _ _
      rw [menuStop?] at h
      split at h
      · exact (causedBy_menu more hr hmore h).mono hrest
      · rcases Option.or_eq_some_iff.mp h with h | ⟨-, h⟩
        · exact (causedBy_block hr.choice hblock
            (causedBy_items block hr.choice hblock) h).mono
              fun b hb => List.mem_append_left _ (List.mem_cons_of_mem l hb)
        · exact (causedBy_menu more hr hmore h).mono hrest
      · cases h
  | n, r, stop, m, .chain l block branches :: more, hr, ⟨hi, hmore⟩, h => by
      unfold menuStop? at h
      split at h
      · exact (causedBy_menu more hr hmore h).mono
          (List.subset_append_right _ _)
      · cases h

end

end Causes

/-- A reading of a source stops for a cause in the source. -/
theorem causedBy_linesStop? {tabSize : Int} {source : String} {stop : Stop}
    (h : linesStop? (Source.scan tabSize source).1 = some stop) :
    stop.CausedBy (Source.scan tabSize source).1 := by
  have hitems := allAt_margin opensConditional continuesConditional
    (@Source.climbs_scan tabSize source)
  have hcaused := causedBy_items _ (show Reach.Deep {} 0 from le_rfl) hitems h
  rw [linesOfAll_ofLines] at hcaused
  exact hcaused.mono (List.dropWhile_sublist _).subset

-- =============================================================== what is kept

/-- Statements that a writer with so many calls left can write, wherever a walk
through them begins. -/
def Keeps (calls : Nat) (ss : List Stmt) : Prop :=
  ∀ base, (Limits.ofCalls calls).Allow base (Walk.ofStmts base ss)

/-- Statements that can be written as a block. -/
def KeepsBlock (calls : Nat) (ss : List Stmt) : Prop :=
  ∀ base, (Limits.ofCalls calls).Allow base (Walk.ofStmts (base + 1) ss)

/-- Choices whose blocks can be written. -/
def KeepsChoices (calls : Nat) (cs : List Choice) : Prop :=
  ∀ base, (Limits.ofCalls calls).Allow base (Walk.ofChoices (base + 1) cs)

/-- Branches whose blocks can be written. -/
def KeepsBranches (calls : Nat) (bs : List Branch) : Prop :=
  ∀ base, (Limits.ofCalls calls).Allow base (Walk.ofBranches (base + 1) bs)

/-- A simple statement without an integer of too many digits. -/
def ShortLeaf (s : Stmt) : Prop := ∃ tag t, s = .simple tag t ∧ t.IsShort

section Keeps

variable {calls : Nat} {ss ts : List Stmt}

theorem allow_nil {limits : Limits} {base : Nat} : limits.Allow base [] :=
  ⟨nofun, nofun⟩

theorem keeps_append (hs : Keeps calls ss) (ht : Keeps calls ts) :
    Keeps calls (ss ++ ts) := fun base => by
  have hwalk : Walk.ofStmts base (ss ++ ts)
      = Walk.ofStmts base ss ++ Walk.ofStmts base ts := by
    induction ss with
    | nil => rfl
    | cons s ss ih =>
        rw [List.cons_append, Walk.ofStmts,
          ih fun base => (Limits.allow_append.mp (hs base)).2, Walk.ofStmts,
          List.append_assoc]
  rw [hwalk]
  exact Limits.allow_append.mpr ⟨hs base, ht base⟩

/-- A statement without integers of its own is kept if what a walk meets after
it is. -/
theorem keeps_single {s : Stmt} {inner : Nat → List (Nat × Stmt)}
    (hwalk : ∀ base, Walk.ofStmt base s = (base, s) :: inner base)
    (hself : ∀ i ∈ s.integers, i.natAbs < 10 ^ Excess.mostDigits)
    (h : ∀ base, (Limits.ofCalls calls).Allow base (inner base)) :
    Keeps calls [s] := fun base => by
  have hone : Walk.ofStmts base [s] = (base, s) :: inner base := by
    rw [Walk.ofStmts, Walk.ofStmts, List.append_nil, hwalk]
  rw [hone]
  refine ⟨List.forall_mem_cons.mpr ⟨fun n _ => Nat.le_add_left _ _,
    (h base).nested⟩, List.forall_mem_cons.mpr ⟨fun i hi most hmost => ?_,
    (h base).spelled⟩⟩
  obtain rfl := Option.some.inj hmost
  exact hself i hi

theorem keeps_leaves (h : ∀ s ∈ ss, ShortLeaf s) : Keeps calls ss := by
  induction ss with
  | nil => exact fun base => allow_nil
  | cons s ss ih =>
      obtain ⟨⟨tag, t, rfl, ht⟩, hmore⟩ := List.forall_mem_cons.mp h
      have hfirst : Keeps calls [.simple tag t] :=
        keeps_single (fun base => rfl) ht fun base => allow_nil
      exact keeps_append hfirst (ih hmore)

/-- The block of a label, a choice or a branch takes no fewer calls than writing
it does, so what fits the room inside it can be written as a block. -/
theorem keepsBlock {part : Nat} (hpart : blockCalls ≤ part) (hroom : part ≤ calls)
    (h : Keeps (calls - part) ss) : KeepsBlock calls ss := fun base => by
  refine ⟨fun m hm n hn => ?_, (h (base + 1)).spelled⟩
  have hinner := (h (base + 1)).nested m hm (calls - part) rfl
  obtain rfl := Option.some.inj hn
  rw [Nat.mul_succ] at hinner
  omega

theorem keepsBlock_bodyOf {block : List Item} (h : KeepsBlock calls ss) :
    KeepsBlock calls (bodyOf block ss) := by
  unfold bodyOf
  split
  · split
    · split
      · exact fun base => allow_nil
      · exact h
    · exact h
  · exact h

theorem keepsChoices_snoc {cs : List Choice} (h : KeepsChoices calls cs)
    {said : String} {condition : Option String} {line : Option Nat}
    (hbody : KeepsBlock calls ss) :
    KeepsChoices calls (cs ++ [.mk said condition line ss]) := fun base => by
  have hwalk : Walk.ofChoices (base + 1) (cs ++ [.mk said condition line ss])
      = Walk.ofChoices (base + 1) cs ++ Walk.ofStmts (base + 1) ss := by
    clear h
    induction cs with
    | nil => exact List.append_nil _
    | cons c cs ih =>
        cases c
        rw [List.cons_append, Walk.ofChoices, ih, Walk.ofChoices,
          List.append_assoc]
  rw [hwalk]
  exact Limits.allow_append.mpr ⟨h base, hbody base⟩

end Keeps

-- ============================================================= what is read

/-- Statements of a reading that are all simple, without integers of too many
digits. -/
abbrev GivesLeaves (r : Reader (List Stmt)) : Prop := Gives (∀ s ∈ ·, ShortLeaf s) r

theorem gives_leaf {l : Line} {s : Simple} (hs : s.IsShort) :
    Gives ShortLeaf (simple l s) :=
  .after fun _ => gives_pure ⟨_, s, rfl, hs⟩

theorem short_raw (content : String) : (Simple.raw content).IsShort :=
  fun _ hi => absurd hi List.not_mem_nil

theorem leaves_stray (ls : List Line) : GivesLeaves (strayBlock ls) := by
  cases ls with
  | nil => exact gives_pure nofun
  | cons l ls =>
      exact .after fun _ => (gives_leaf (short_raw _)).bind fun s hs =>
        gives_pure (List.forall_mem_singleton.mpr hs)

/-- A simple statement, and the block that it does not own. -/
theorem leaves_line {l : Line} {s : Simple} (hs : s.IsShort)
    (block : List Line) : GivesLeaves (do
      let st ← simple l s
      pure (st :: (← strayBlock block))) :=
  (gives_leaf hs).bind fun _ hst => (leaves_stray block).bind
    fun _ hmore => gives_pure (List.forall_mem_cons.mpr ⟨hst, hmore⟩)

theorem leaves_rawItem (l : Line) (block : List Line) :
    GivesLeaves (rawItem l block) := by
  unfold rawItem
  split
  · exact (gives_leaf (short_raw _)).bind fun s hs =>
      gives_pure (List.forall_mem_singleton.mpr hs)
  · exact leaves_line (short_raw _) block

theorem leaves_simpleItem {l : Line} (h : lineExcess? l.content.toList = none)
    (block : List Line) : GivesLeaves (simpleItem l block) := by
  unfold simpleItem
  split
  · next s hs => exact leaves_line (short_lineKind h hs) block
  · exact leaves_rawItem l block
  · exact .after fun _ => leaves_rawItem l block

theorem leaves_code (l : Line) (block : List Line) :
    GivesLeaves (readCode l block) := by
  unfold readCode
  split
  · split
    · exact (gives_leaf fun _ hi => absurd hi List.not_mem_nil).bind
        fun s hs => gives_pure (List.forall_mem_singleton.mpr hs)
    · exact leaves_rawItem l block
  · exact leaves_rawItem l block

theorem GivesLeaves.keeps {r : Reader (List Stmt)} (h : GivesLeaves r)
    (calls : Nat) : Gives (Keeps calls) r := fun p => keeps_leaves (h p)

/-- What is read in the room inside a block can be written as a block. -/
theorem gives_block {r : Reach} {part : Nat} {block : List Item}
    (hpart : blockCalls ≤ part) (h : blockStop? r part block = none)
    (ih : itemsStop? (r.inside part) block = none →
      Gives (Keeps (r.inside part).room) (readItems block)) :
    Gives (KeepsBlock r.room) (readItems block) := by
  cases block with
  | nil =>
      rw [readItems]
      exact gives_pure fun base => allow_nil
  | cons i more =>
      rw [blockStop?_eq] at h
      split at h
      · cases h
      · next hroom =>
        exact fun p => keepsBlock hpart (Nat.not_lt.mp hroom) (ih h p)

/-- What was read of a menu, if it was read to its end. -/
def MenuKeeps (calls : Nat) : Except Line MenuParts → Prop
  | .ok m => KeepsChoices calls m.choices
  | .error _ => True

mutual

/-- Where nothing stops the reading of an item, the room that is left for it is
enough for a writer. -/
theorem keeps_item : ∀ {r : Reach} (i : Item), itemStop? r i = none →
    Gives (Keeps r.room) (readItem i)
  | r, .plain l block, h => by
      have hraw := (leaves_rawItem l (linesOfAll block)).keeps r.room
      have hcode := (leaves_code l (linesOfAll block)).keeps r.room
      rcases word_cases (firstWord? l.content.toList) with
        hw | hw | hw | hw | hw | hw | hw
      · -- a label
        simp only [itemStop?, hw] at h
        simp only [readItem, hw]
        cases hlabel : label? (headOf l) with
        | none => exact hraw
        | some head =>
            rw [hlabel] at h
            have hbody := gives_block (by decide) h (keeps_items block)
            exact .after fun _ => hbody.bind fun body hb => .after fun _ =>
              gives_pure (keeps_single (fun _ => rfl) nofun
                (keepsBlock_bodyOf hb))
      · -- a menu
        simp only [itemStop?, hw] at h
        simp only [readItem, hw]
        cases hhead : menu? (headOf l) with
        | none => exact hraw
        | some head =>
            rw [hhead] at h
            have hmenu := @keeps_menu r {} {} block ⟨rfl, rfl⟩
              (fun _ => allow_nil) h
            refine .after fun _ => .after fun before => hmenu.bind ?_
            intro result hresult
            cases result with
            | ok parts =>
                exact .after fun _ => gives_pure
                  (keeps_single (fun _ => rfl) nofun hresult)
            | error bad =>
                exact .after fun _ => .after fun _ =>
                  (gives_leaf (short_raw _)).bind fun s hs => gives_pure
                    (keeps_leaves (List.forall_mem_singleton.mpr hs))
      · -- `elif` that no conditional has
        simp only [readItem, hw]
        exact .after fun _ => hraw
      · -- `else` that no conditional has
        simp only [readItem, hw]
        exact .after fun _ => hraw
      · -- code behind `python`
        simp only [readItem, hw]
        exact hcode
      · -- code behind `init`
        simp only [readItem, hw]
        exact hcode
      · -- any other line
        rw [readItem_unruled hw]
        have hexcess : lineExcess? l.content.toList = none := by
          unfold itemStop? at h
          -- Only the last case of the search for a stop is about a line like
          -- this one.
          split at h
          case h_7 => exact Option.map_eq_none_iff.mp h
          all_goals exact absurd ‹_› (hw _ (by decide))
        exact (leaves_simpleItem hexcess _).keeps r.room
  | r, .chain l block branches, h => by
      rw [itemStop?, Option.or_eq_none_iff] at h
      have hbody := gives_block (by decide) h.1 (keeps_items block)
      have hmore := @keeps_branches r false branches h.2
      unfold readItem
      exact .after fun _ => hbody.bind fun body hb => hmore.bind fun more hm =>
        .after fun _ => gives_pure (keeps_single (fun _ => rfl) nofun
          fun base => Limits.allow_append.mpr
            ⟨keepsBlock_bodyOf hb base, hm base⟩)

theorem keeps_items : ∀ {r : Reach} (items : List Item),
    itemsStop? r items = none → Gives (Keeps r.room) (readItems items)
  | r, [], _ => by
      rw [readItems]
      exact gives_pure fun _ => allow_nil
  | r, i :: more, h => by
      rw [itemsStop?, Option.or_eq_none_iff] at h
      have hfirst := keeps_item i h.1
      have hrest := keeps_items more h.2
      unfold readItems
      exact hfirst.bind fun _ ha => hrest.bind fun _ hb =>
        gives_pure (keeps_append ha hb)

theorem keeps_branches : ∀ {r : Reach} {seenElse : Bool}
    (branches : List (Line × List Item)), branchesStop? r branches = none →
    Gives (KeepsBranches r.room) (readBranches seenElse branches)
  | r, seenElse, [], _ => by
      rw [readBranches]
      exact gives_pure fun _ => allow_nil
  | r, seenElse, (l, block) :: more, h => by
      rw [branchesStop?, Option.or_eq_none_iff] at h
      have hbody := gives_block (by decide) h.1 (keeps_items block)
      have hrest := fun seen => @keeps_branches r seen more h.2
      have hall : ∀ condition seen, Gives (KeepsBranches r.room) (do
          let body ← readItems block
          let rest ← readBranches seen more
          pure (.mk condition (some l.number) (bodyOf block body) :: rest)) :=
        fun condition seen => hbody.bind fun body hb =>
          (hrest seen).bind fun _ hm => gives_pure fun base =>
            Limits.allow_append.mpr ⟨keepsBlock_bodyOf hb base, hm base⟩
      unfold readBranches
      cases seenElse with
      | false => exact .after fun _ => hall _ _
      | true => exact .after fun _ => .after fun _ => hall _ _

/-- The menu that is looked through has blanks for the choices of the menu that
is read. -/
theorem keeps_menu : ∀ {r : Reach} {m m' : MenuParts} (items : List Item),
    m.Blank m' → KeepsChoices r.room m'.choices →
    menuStop? r m items = none → Gives (MenuKeeps r.room) (readMenu m' items)
  | r, m, m', [], _, hm, _ => gives_pure hm
  -- The parts that are made are those that are read but for the choices, so
  -- what stops the one reading would stop the other.
  | r, m, m', .plain l block :: more, hblank, hm, h => by
      have hspec := menuLine_spec m' l (!block.isEmpty)
      have hsame := hblank.menuLine l (!block.isEmpty)
      unfold menuStop? at h
      unfold readMenu
      cases hline : menuLine m' l (!block.isEmpty) with
      | parts n' =>
          rw [hline] at hspec hsame
          obtain ⟨n, hn, hblank'⟩ := hsame
          rw [hn] at h
          exact keeps_menu more hblank' (hspec.2.2 ▸ hm) h
      | choice said condition =>
          rw [hline] at hsame
          rw [hsame] at h
          obtain ⟨hstop, hmore⟩ := Option.or_eq_none_iff.mp h
          have hbody := gives_block (by decide) hstop (keeps_items block)
          exact .after fun _ => hbody.bind fun body hb =>
            keeps_menu more (hblank.withChoice _ _)
              (keepsChoices_snoc hm (keepsBlock_bodyOf hb)) hmore
      | refused => exact gives_pure trivial
  | r, m, m', .chain l block branches :: more, hblank, hm, h => by
      have hspec := menuLine_spec m' l (!block.isEmpty)
      have hsame := hblank.menuLine l (!block.isEmpty)
      unfold menuStop? at h
      unfold readMenu
      cases hline : menuLine m' l (!block.isEmpty) with
      | parts n' =>
          rw [hline] at hspec hsame
          obtain ⟨n, hn, hblank'⟩ := hsame
          rw [hn] at h
          cases branches with
          | nil => exact keeps_menu more hblank' (hspec.2.2 ▸ hm) h
          | cons b bs => exact gives_pure trivial
      | choice said condition => exact gives_pure trivial
      | refused => exact gives_pure trivial

end

theorem Keeps.mono {calls calls' : Nat} {ss : List Stmt} (h : Keeps calls ss)
    (hle : calls ≤ calls') : Keeps calls' ss := fun base =>
  ⟨fun m hm n hn => by
    obtain rfl := Option.some.inj hn
    exact ((h base).nested m hm calls rfl).trans (Nat.add_le_add_right hle _),
    (h base).spelled⟩

/-- What is read of a source without a stop can be written by whoever has no
less room than the reader had. -/
theorem keeps_read {tabSize : Int} {source : String} {calls : Nat}
    (h : linesStop? (Source.scan tabSize source).1 = none)
    (hcalls : wholeRoom ≤ calls) (numbering : Numbering) :
    Keeps calls (read tabSize numbering source).1 := by
  have hstray := leaves_stray
    ((Source.scan tabSize source).1.takeWhile (0 < ·.depth))
  have hitems := @keeps_items {} _ h
  have hlines : Gives (Keeps calls) (readLines (Source.scan tabSize source).1) :=
    (hstray.keeps calls).bind fun _ ha => hitems.bind fun _ hb =>
      gives_pure (keeps_append ha (hb.mono hcalls))
  exact hlines _

-- ============================================================ out of bounds

/-- What stands on each line of a staircase. -/
def step : String := "label a:"

/-- Labels from a depth on, so many of them, each below the one before. -/
def stairs (depth : Nat) : Nat → List Source.Row
  | 0 => []
  | n + 1 => ⟨depth, step⟩ :: stairs (depth + 1) n

/-- The lines of a staircase. -/
def stairLines (depth number : Nat) : Nat → List Line
  | 0 => []
  | n + 1 => ⟨step, depth, depth, number⟩ :: stairLines (depth + 1) (number + 1) n

theorem sound_step (indent : Nat) : (⟨indent, step⟩ : Source.Row).Sound := by
  have hstep : step.toList = 'l' :: "abel a:".toList := by decide
  show Source.Content step.toList
  rw [hstep]
  exact Source.content_cons (by unfold Text.Unbroken; decide) (by decide)
    (by decide)

theorem sound_stairs : ∀ (n : Nat) {depth : Nat},
    ∀ r ∈ stairs depth n, r.Sound
  | 0, _, r, hr => by cases hr
  | n + 1, depth, r, hr => by
      rcases List.mem_cons.mp hr with rfl | hr
      · exact sound_step depth
      · exact sound_stairs n r hr

/-- A staircase is scanned as its lines, with one block open for each line
before it. -/
theorem scanFrom_stairs (tabSize : Int) : ∀ (n : Nat) {levels : List Nat}
    {depth : Nat} (number : Nat), levels.length = depth →
    (∀ v ∈ levels, v < depth) →
    Source.scanFrom tabSize levels number
        (Source.physical (stairs depth n) ++ [[]])
      = (stairLines depth number n, [])
  | 0, _, _, _, _, _ => rfl
  | n + 1, levels, depth, number, hlength, hlevels => by
      have hclosed : levels.dropWhile (depth < ·) = levels
          ∧ levels.takeWhile (depth < ·) = [] := by
        cases levels with
        | nil => exact ⟨rfl, rfl⟩
        | cons v levels =>
            have hv := hlevels v List.mem_cons_self
            simp [Nat.le_of_lt hv]
      have hopen : levels.head? ≠ some depth := fun h =>
        absurd (hlevels depth (List.mem_of_head? h)) (Nat.lt_irrefl _)
      have henter : Source.enter levels depth = (depth :: levels, none) := by
        simp [Source.enter, hclosed, hopen]
      have hmore := scanFrom_stairs tabSize n (number + 1)
        (show (depth :: levels).length = depth + 1 by simp [hlength])
        (List.forall_mem_cons.mpr ⟨Nat.lt_succ_self _,
          fun v hv => Nat.lt_succ_of_lt (hlevels v hv)⟩)
      rw [stairs, Source.physical, List.map_cons, List.cons_append,
        Source.scanFrom_row (sound_step depth), henter]
      rw [Source.physical] at hmore
      simp only [hmore, List.length_cons, hlength]
      rfl

theorem le_depth_stairLines : ∀ (n : Nat) {depth number : Nat},
    ∀ l ∈ stairLines depth number n, depth ≤ l.depth
  | 0, _, _, l, hl => by cases hl
  | n + 1, depth, number, l, hl => by
      rcases List.mem_cons.mp hl with rfl | hl
      · exact le_rfl
      · exact (Nat.le_succ _).trans (le_depth_stairLines n l hl)

/-- Each line of a staircase owns all lines below it. -/
theorem ofLines_stairLines (n depth number : Nat) :
    Item.ofLines opensConditional continuesConditional
        (stairLines depth number (n + 1))
      = [.plain ⟨step, depth, depth, number⟩
          (Item.ofLines opensConditional continuesConditional
            (stairLines (depth + 1) (number + 1) n))] := by
  have hdeeper : ∀ l ∈ stairLines (depth + 1) (number + 1) n,
      decide (depth < l.depth) = true := fun l hl =>
    decide_eq_true (le_depth_stairLines n l hl)
  have hopens : opensConditional ⟨step, depth, depth, number⟩ = false := by
    have hclosed : opensConditional ⟨step, 0, 0, 0⟩ = false := by
      decide +kernel
    exact hclosed
  rw [stairLines, Item.ofLines]
  simp only [List.takeWhile_eq_self_iff.mpr hdeeper,
    List.dropWhile_eq_nil_iff.mpr hdeeper]
  rw [Item.attach, hopens, Item.ofLines]
  rfl

/-- A staircase of more blocks than there is room for is not read to its
end. -/
theorem itemsStop?_stairs : ∀ (n : Nat) {r : Reach} (depth number : Nat),
    r.room < blockRoom * n →
    ∃ stop, itemsStop? r (Item.ofLines opensConditional continuesConditional
        (stairLines depth number (n + 1))) = some stop
      ∧ stop.excess = .depth
  | 0, r, _, _, h => absurd h (Nat.not_lt_zero _)
  | n + 1, r, depth, number, h => by
      have hword : firstWord? step.toList = some "label" := by decide +kernel
      have hlabel : (label? (headOf ⟨step, depth, depth, number⟩)).isSome
          = true := by
        have hclosed : (label? (headOf ⟨step, 0, 0, 0⟩)).isSome = true := by
          decide +kernel
        exact hclosed
      rw [ofLines_stairLines, itemsStop?, itemStop?]
      simp only [hword, hlabel, if_true, blockStop?_eq]
      split
      · rw [ofLines_stairLines]
        exact ⟨_, rfl, rfl⟩
      · have hless : (r.inside blockRoom).room < blockRoom * n := by
          show r.room - blockRoom < blockRoom * n
          rw [Nat.mul_succ] at h
          omega
        obtain ⟨stop, hstop, hdepth⟩ :=
          itemsStop?_stairs n (depth + 1) (number + 1) hless
        rw [hstop]
        exact ⟨stop, rfl, hdepth⟩

/-- The text of a staircase. -/
def stairText (n : Nat) : String :=
  Written.page ((stairs 0 n).map Source.Row.written)

theorem scan_stairText (tabSize : Int) (n : Nat) :
    Source.scan tabSize (stairText (n + 1)) = (stairLines 0 1 (n + 1), []) := by
  have hunbroken : ∀ l ∈ (stairs 0 (n + 1)).map Source.Row.written,
      Text.Unbroken l.toList := fun l hl => by
    obtain ⟨r, hr, rfl⟩ := List.mem_map.mp hl
    exact Source.unbroken_written (sound_stairs _ r hr)
  have hmark : Written.Unmarked ((stairs 0 (n + 1)).map Source.Row.written) := by
    intro l hl
    obtain rfl := Option.some.inj hl
    decide
  have hmargin : Source.enter [0] 0 = ([0], none) := rfl
  have hmore := scanFrom_stairs tabSize n 2 (show [0].length = 1 from rfl)
    (by decide)
  rw [Source.scan, stairText, Written.withoutMark_page hmark,
    Written.physicalLines_page hunbroken, List.map_map]
  rw [Source.physical] at hmore
  rw [stairs, List.map_cons, List.cons_append, Function.comp_apply,
    Source.scanFrom_row (sound_step 0), hmargin]
  simp only [Function.comp_def, hmore]
  rfl

/-- A staircase is too high for the reader as soon as its blocks take more than
the room that there is. -/
theorem exists_stop_stairText (tabSize : Int) {n : Nat}
    (h : wholeRoom < blockRoom * n) :
    ∃ stop, linesStop? (Source.scan tabSize (stairText (n + 1))).1 = some stop
      ∧ stop.excess = .depth := by
  rw [scan_stairText]
  exact itemsStop?_stairs n 0 1 h

end NovelScript.Reading
