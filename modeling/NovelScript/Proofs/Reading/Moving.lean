/-
Reading does not mind where lines stand. A line that is moved to the right, into
deeper blocks and to another number (`Line.move`) keeps its content, and what an
item gives depends on the contents alone. So a block reads the same wherever it
is put, and only the numbers in tags and complaints go with the lines.

# Two runs

The statement is about two runs of the reader, one on the lines and one on the
moved lines (`Follows`). The second run takes every step of the first: it draws
the same identities, and complains about the same lines, moved. There is one
rule for each way of putting readers together, `follows_pure` and `Follows.bind`
above all, so the proof for a reader has the shape of the reader, and the
recursion over items carries it through the whole (`follows_readItem` and its
companions). What the yields say about moved lines is read off from that.

# What could depend on the place

* Raw text is indented against the least indentation of its own lines, which
  moves with them (`Line.relativeText_move`).
* A body that only says `pass` is empty. Whether it does is a question about the
  content (`bodyOf_mapAll`).
* A complaint about a dedent names widths, and these do move. But it is made
  while the lines are cut; no complaint of the reader names a width, which is
  the condition of `follows_complain`.
-/
import NovelScript.Proofs.Reading.Yield
import NovelScript.Proofs.Source.Nesting
import NovelScript.Proofs.Source.Shift
import NovelScript.Proofs.Text.Lines

namespace NovelScript

-- ============================================================ raw texts

/-- Raw text is indented against itself, so it stays the same when all its lines
move. -/
theorem Line.relativeText_move (p d : Nat) (f : Nat → Nat) (ls : List Line) :
    Line.relativeText (ls.map (Line.move p d f)) = Line.relativeText ls := by
  cases ls with
  | nil => rfl
  | cons l ls =>
      have hindents : ((l :: ls).map (Line.move p d f)).map Line.indent
          = ((l :: ls).map Line.indent).map (· + p) := by
        simp only [List.map_map]
        rfl
      simp only [Line.relativeText]
      rw [hindents, Text.least_add p (by simp), List.map_map]
      congr 1
      refine List.map_congr_left fun m _ => ?_
      simp only [Function.comp_apply, Line.move, Nat.add_sub_add_right]

-- =============================================================== moving

/-- A tag that goes along with its line. -/
def Tag.move (f : Nat → Nat) (t : Tag) : Tag := { t with line := t.line.map f }

/-- Statements that go along with their lines. -/
def Stmt.moveAll (f : Nat → Nat) : List Stmt → List Stmt :=
  Stmt.relabelAll (Tag.move f) (Option.map f)

/-- Choices that go along with their lines. -/
def Choice.moveAll (f : Nat → Nat) : List Choice → List Choice :=
  Choice.relabelAll (Tag.move f) (Option.map f)

/-- Branches that go along with their lines. -/
def Branch.moveAll (f : Nat → Nat) : List Branch → List Branch :=
  Branch.relabelAll (Tag.move f) (Option.map f)

section

variable (f : Nat → Nat)

theorem Stmt.unlabelAll_moveAll (ss : List Stmt) :
    Stmt.unlabelAll (Stmt.moveAll f ss) = Stmt.unlabelAll ss :=
  Stmt.relabelAll_relabelAll _ _ _ _ ss

theorem Choice.unlabelAll_moveAll (cs : List Choice) :
    Choice.unlabelAll (Choice.moveAll f cs) = Choice.unlabelAll cs :=
  Choice.relabelAll_relabelAll _ _ _ _ cs

theorem Stmt.unlabelAll_anonymousAll (ss : List Stmt) :
    Stmt.unlabelAll (Stmt.anonymousAll ss) = Stmt.unlabelAll ss :=
  Stmt.relabelAll_relabelAll _ _ _ _ ss

theorem Stmt.anonymousAll_moveAll (ss : List Stmt) :
    Stmt.anonymousAll (Stmt.moveAll f ss)
      = Stmt.moveAll f (Stmt.anonymousAll ss) := by
  rw [Stmt.anonymousAll, Stmt.moveAll, Stmt.relabelAll_relabelAll,
    Stmt.anonymousAll, Stmt.relabelAll_relabelAll]
  rfl

theorem Choice.anonymousAll_moveAll (cs : List Choice) :
    Choice.anonymousAll (Choice.moveAll f cs)
      = Choice.moveAll f (Choice.anonymousAll cs) := by
  rw [Choice.anonymousAll, Choice.moveAll, Choice.relabelAll_relabelAll,
    Choice.anonymousAll, Choice.relabelAll_relabelAll]
  rfl

theorem Stmt.moveAll_append (as bs : List Stmt) :
    Stmt.moveAll f (as ++ bs) = Stmt.moveAll f as ++ Stmt.moveAll f bs :=
  Stmt.relabelAll_append _ _ as bs

end

namespace Reading

open Grammar

-- ============================================================= two runs

section

variable (p : Nat) (f : Nat → Nat)

/-- How far a reading of moved lines has come: the same identities were drawn,
and what was complained about has moved. -/
def Progress.move (s : Progress) : Progress :=
  { s with found := s.found.map (Diagnostic.move p f) }

/-- A reader of moved lines gives what the reader of the lines gives, moved,
and comes as far. -/
def Follows {α β : Type} (g : α → β) (r : Reader α) (r' : Reader β) : Prop :=
  ∀ s, r'.run (s.move p f) = (g (r.run s).1, (r.run s).2.move p f)

variable {p f} {α β γ δ : Type}

/-- What is given without reading is moved. -/
theorem follows_pure (g : α → β) (a : α) :
    Follows p f g (pure a) (pure (g a)) := fun _ => rfl

/-- The second reader may depend on what the first one gave, and its companion
on the same, moved. -/
theorem Follows.bind {g : α → β} {h : γ → δ} {r : Reader α} {r' : Reader β}
    {k : α → Reader γ} {k' : β → Reader δ} (hr : Follows p f g r r')
    (hk : ∀ a, Follows p f h (k a) (k' (g a))) :
    Follows p f h (r >>= k) (r' >>= k') := by
  intro s
  rw [run_bind, run_bind, hr s]
  exact hk _ _

theorem follows_fresh : Follows p f id fresh fresh := fun _ => rfl

theorem follows_get : Follows p f (Progress.move p f) get get := fun _ => rfl

/-- Going back to earlier complaints is going back to them moved. -/
theorem follows_forget (before : Progress) :
    Follows p f id
      (modify fun s => { s with found := before.found } : Reader Unit)
      (modify fun s => { s with found := (before.move p f).found }) :=
  fun _ => rfl

/-- No complaint of the reader names widths, so none changes but for its
line. -/
theorem follows_complain (d : Nat) (l : Line) {c : Cause}
    (hc : c.move p = c) :
    Follows p f id (complain l c) (complain (l.move p d f) c) := by
  intro s
  rw [run_complain, run_complain]
  simp only [Progress.move, List.map_append, List.map_cons, List.map_nil,
    Diagnostic.move, hc]
  rfl

theorem follows_expectColon (d : Nat) (l : Line) (header : Header) :
    Follows p f id (expectColon l header)
      (expectColon (l.move p d f) header) := by
  have hcolon : hasColon (l.move p d f) = hasColon l := rfl
  unfold expectColon
  rw [hcolon]
  cases hasColon l with
  | false => exact follows_complain d l rfl
  | true => exact follows_pure id ()

end

-- ========================================================== single items

variable (p d : Nat) (f : Nat → Nat)

theorem follows_simple (l : Line) (s : Simple) :
    Follows p f (Stmt.relabel (Tag.move f) (Option.map f)) (simple l s)
      (simple (l.move p d f) s) := fun _ => rfl

theorem follows_rawLines (l : Line) (ls : List Line) :
    Follows p f (Stmt.relabel (Tag.move f) (Option.map f)) (rawLines l ls)
      (rawLines (l.move p d f) (ls.map (Line.move p d f))) := by
  unfold rawLines
  rw [Line.relativeText_move]
  exact follows_simple p d f l _

/-- One statement that is read alone. -/
theorem Follows.single {p : Nat} {f : Nat → Nat} {r r' : Reader Stmt}
    (h : Follows p f (Stmt.relabel (Tag.move f) (Option.map f)) r r') :
    Follows p f (Stmt.moveAll f) (do pure [← r]) (do pure [← r']) :=
  h.bind fun s => follows_pure (Stmt.moveAll f) [s]

theorem follows_strayBlock (ls : List Line) :
    Follows p f (Stmt.moveAll f) (strayBlock ls)
      (strayBlock (ls.map (Line.move p d f))) := by
  cases ls with
  | nil => exact follows_pure _ _
  | cons l ls =>
      exact (follows_complain d l rfl).bind
        fun _ => (follows_rawLines p d f l (l :: ls)).single

/-- A simple statement in front of a block that it does not own. -/
theorem follows_simple_stray (l : Line) (s : Simple) (block : List Line) :
    Follows p f (Stmt.moveAll f)
      (do
        let st ← simple l s
        pure (st :: (← strayBlock block)))
      (do
        let st ← simple (l.move p d f) s
        pure (st :: (← strayBlock (block.map (Line.move p d f))))) :=
  (follows_simple p d f l s).bind fun st =>
    (follows_strayBlock p d f block).bind fun ss =>
      follows_pure (Stmt.moveAll f) (st :: ss)

theorem follows_rawItem (l : Line) (block : List Line) :
    Follows p f (Stmt.moveAll f) (rawItem l block)
      (rawItem (l.move p d f) (block.map (Line.move p d f))) := by
  have hcolon : hasColon (l.move p d f) = hasColon l := rfl
  unfold rawItem
  rw [hcolon, List.isEmpty_map]
  cases hasColon l && !block.isEmpty with
  | false => exact follows_simple_stray p d f l _ block
  | true => exact (follows_rawLines p d f l (l :: block)).single

theorem follows_simpleItem (l : Line) (block : List Line) :
    Follows p f (Stmt.moveAll f) (simpleItem l block)
      (simpleItem (l.move p d f) (block.map (Line.move p d f))) := by
  have hcontent : (l.move p d f).content = l.content := rfl
  unfold simpleItem
  rw [hcontent]
  cases lineKind l.content.toList with
  | simple s => exact follows_simple_stray p d f l s block
  | raw => exact follows_rawItem p d f l block
  | openLiteral =>
      exact (follows_complain d l rfl).bind
        fun _ => follows_rawItem p d f l block

theorem follows_readCode (l : Line) (block : List Line) :
    Follows p f (Stmt.moveAll f) (readCode l block)
      (readCode (l.move p d f) (block.map (Line.move p d f))) := by
  have hcolon : hasColon (l.move p d f) = hasColon l := rfl
  have hhead : headOf (l.move p d f) = headOf l := rfl
  unfold readCode
  rw [hhead, hcolon, List.isEmpty_map, Line.relativeText_move]
  cases codeHeader? (headOf l) with
  | none => exact follows_rawItem p d f l block
  | some flags =>
      cases hasColon l with
      | false => exact follows_rawItem p d f l block
      | true => exact (follows_simple p d f l _).single

-- ========================================================== all items

/-- Whether a body only says `pass` does not depend on where it stands, but on
how many items it has and on what they contain. -/
theorem bodyOf_mapAll (g : Line → Line) (block : List Item)
    (body : List Stmt) :
    bodyOf (Item.mapAll g block) body = bodyOf block body := by
  match block, body with
  | [], _ | [.plain _ (_ :: _)], _ | [.chain ..], _ => rfl
  | [.plain _ []], [] | [.plain _ []], [_] => rfl
  | [.plain _ []], _ :: _ :: _ => rfl
  | .plain _ [] :: _ :: _, _ | .plain _ (_ :: _) :: _ :: _, _ => rfl
  | .chain .. :: _ :: _, _ => rfl

/-- A body moves as a whole, and an empty one stays empty. -/
theorem bodyOf_move (block : List Item) (body : List Stmt) :
    bodyOf (Item.mapAll (Line.move p d f) block) (Stmt.moveAll f body)
      = Stmt.moveAll f (bodyOf block body) := by
  rw [bodyOf_mapAll, Stmt.moveAll, relabelAll_bodyOf]

/-- The parts of a menu with its choices going along with their lines. -/
def MenuParts.move (m : MenuParts) : MenuParts :=
  m.relabel (Tag.move f) (Option.map f)

/-- What was read of a menu, moved. -/
def moveOutcome : Except Line MenuParts → Except Line MenuParts
  | .ok m => .ok (m.move f)
  | .error l => .error (l.move p d f)

theorem isEmpty_mapAll (g : Line → Line) (items : List Item) :
    (Item.mapAll g items).isEmpty = items.isEmpty := by
  cases items <;> rfl

mutual

/-- An item reads the same wherever it stands. The proof goes through the cases
of the reader, and in each the rules for putting readers together do the rest.
-/
theorem follows_readItem : ∀ i,
    Follows p f (Stmt.moveAll f) (readItem i)
      (readItem (Item.map (Line.move p d f) i))
  | .plain l block => by
      have hcontent : (l.move p d f).content = l.content := rfl
      have hhead : headOf (l.move p d f) = headOf l := rfl
      have hlines := Item.lines_mapAll (Line.move p d f) block
      have hraw := follows_rawItem p d f l (Item.linesOfAll block)
      have hcode := follows_readCode p d f l (Item.linesOfAll block)
      have hbody := follows_readItems block
      have hmenu := follows_readMenu {} block
      rw [Item.map]
      rcases word_cases (firstWord? l.content.toList) with
        hw | hw | hw | hw | hw | hw | hw
      · -- a label
        simp only [readItem, hcontent, hw, hhead, hlines]
        cases label? (headOf l) with
        | none => exact hraw
        | some head =>
            refine (follows_expectColon d l _).bind fun _ =>
              hbody.bind fun body => follows_fresh.bind fun id => ?_
            rw [bodyOf_move]
            exact follows_pure (Stmt.moveAll f) _
      · -- a menu
        simp only [readItem, hcontent, hw, hhead, hlines]
        cases menu? (headOf l) with
        | none => exact hraw
        | some head =>
            refine (follows_expectColon d l _).bind fun _ =>
              follows_get.bind fun before => hmenu.bind fun outcome => ?_
            cases outcome with
            | ok parts =>
                exact follows_fresh.bind fun id =>
                  follows_pure (Stmt.moveAll f) _
            | error bad =>
                -- The state before the menu moved along with everything else,
                -- so going back to it is going back to the moved one.
                exact (follows_forget before).bind fun _ =>
                  (follows_complain d bad rfl).bind fun _ =>
                    (follows_rawLines p d f l _).single
      · -- `elif` that no conditional has
        simp only [readItem, hcontent, hw, hlines]
        exact (follows_complain d l rfl).bind fun _ => hraw
      · -- `else` that no conditional has
        simp only [readItem, hcontent, hw, hlines]
        exact (follows_complain d l rfl).bind fun _ => hraw
      · -- code behind `python`
        simp only [readItem, hcontent, hw, hlines]
        exact hcode
      · -- code behind `init`
        simp only [readItem, hcontent, hw, hlines]
        exact hcode
      · -- any other line
        rw [readItem_unruled hw, readItem_unruled (l := l.move p d f) hw,
          hlines]
        exact follows_simpleItem p d f l _
  | .chain l block branches => by
      have hhead : headOf (l.move p d f) = headOf l := rfl
      have hbody := follows_readItems block
      have hmore := follows_readBranches false branches
      rw [Item.map]
      simp only [readItem, hhead]
      refine (follows_expectColon d l _).bind fun _ =>
        hbody.bind fun body => hmore.bind fun more =>
          follows_fresh.bind fun id => ?_
      rw [bodyOf_move]
      exact follows_pure (Stmt.moveAll f) _

/-- Several items read the same wherever they stand. -/
theorem follows_readItems : ∀ is,
    Follows p f (Stmt.moveAll f) (readItems is)
      (readItems (Item.mapAll (Line.move p d f) is))
  | [] => follows_pure _ _
  | i :: more => by
      have hfirst := follows_readItem i
      have hmore := follows_readItems more
      rw [Item.mapAll]
      simp only [readItems]
      refine hfirst.bind fun first => hmore.bind fun rest => ?_
      rw [← Stmt.moveAll_append]
      exact follows_pure (Stmt.moveAll f) _

theorem follows_readBranches : ∀ seenElse bs,
    Follows p f (Branch.moveAll f) (readBranches seenElse bs)
      (readBranches seenElse (Item.mapBranches (Line.move p d f) bs))
  | _, [] => follows_pure _ _
  | seenElse, (l, block) :: more => by
      have hhead : headOf (l.move p d f) = headOf l := rfl
      have hbody := follows_readItems block
      have hmore := follows_readBranches (seenElse
        || ((branchCondition? (headOf l)).getD none).isNone) more
      -- What is done for a branch apart from the complaint that it comes too
      -- late, which depends only on the branches before it.
      have hrest : ∀ condition : Option String, Follows p f
          (Branch.moveAll f)
          (do
            expectColon l (.branch (branchWord condition))
            let body ← readItems block
            let rest ← readBranches (seenElse
              || ((branchCondition? (headOf l)).getD none).isNone) more
            pure (.mk condition (some l.number) (bodyOf block body)
              :: rest))
          (do
            expectColon (l.move p d f) (.branch (branchWord condition))
            let body ← readItems (Item.mapAll (Line.move p d f) block)
            let rest ← readBranches (seenElse
              || ((branchCondition? (headOf l)).getD none).isNone)
              (Item.mapBranches (Line.move p d f) more)
            pure (.mk condition (some (f l.number))
              (bodyOf (Item.mapAll (Line.move p d f) block) body)
              :: rest)) := by
        intro condition
        refine (follows_expectColon d l _).bind fun _ =>
          hbody.bind fun body => hmore.bind fun rest => ?_
        rw [bodyOf_move]
        exact follows_pure (Branch.moveAll f) _
      rw [Item.mapBranches]
      simp only [readBranches, hhead]
      cases seenElse with
      | false => exact hrest _
      | true => exact (follows_complain d l rfl).bind fun _ => hrest _

theorem follows_readMenu : ∀ m is,
    Follows p f (moveOutcome p d f) (readMenu m is)
      (readMenu (m.move f) (Item.mapAll (Line.move p d f) is))
  | m, [] => follows_pure _ _
  | m, .plain l block :: more => by
      have hline : ∀ m b, menuLine m (l.move p d f) b = menuLine m l b :=
        fun _ _ => rfl
      have hbody := follows_readItems block
      rw [Item.mapAll, Item.map]
      simp only [readMenu, isEmpty_mapAll, hline]
      rw [MenuParts.move, menuLine_relabel]
      cases menuLine m l (!block.isEmpty) with
      | parts m' => exact follows_readMenu m' more
      | refused => exact follows_pure _ _
      | choice text condition =>
          refine (follows_expectColon d l _).bind fun _ =>
            hbody.bind fun body => ?_
          have hmore := follows_readMenu (m.withChoice (.mk
            (String.ofList text) condition (some l.number)
            (bodyOf block body))) more
          rw [MenuParts.move, relabel_withChoice, ← Stmt.moveAll,
            ← bodyOf_move p d f] at hmore
          exact hmore
  | m, .chain l block branches :: more => by
      have hline : ∀ m b, menuLine m (l.move p d f) b = menuLine m l b :=
        fun _ _ => rfl
      rw [Item.mapAll, Item.map]
      simp only [readMenu, isEmpty_mapAll, hline]
      rw [MenuParts.move, menuLine_relabel]
      cases menuLine m l (!block.isEmpty) with
      | parts m' =>
          cases branches with
          | nil => exact follows_readMenu m' more
          | cons b bs => exact follows_pure _ _
      | refused => exact follows_pure _ _
      | choice text condition => exact follows_pure _ _

end

-- ====================================================== items of lines

/-- The items of some lines. -/
def itemsOf (ls : List Line) : List Item :=
  Item.ofLines opensConditional continuesConditional ls

/-- Lines in front of others that stand at the margin have their items to
themselves. -/
theorem itemsOf_append (as : List Line) {bs : List Line}
    (hdepth : ∀ b ∈ bs.head?, b.depth = 0)
    (hstarts : Item.NoBranch continuesConditional bs) :
    itemsOf (as ++ bs) = itemsOf as ++ itemsOf bs :=
  Item.ofLines_append opensConditional continuesConditional
    (fun a _ b hb => by rw [hdepth b hb]; exact Nat.zero_le _) hstarts

/-- Moved lines have the same items, moved. -/
theorem itemsOf_move (ls : List Line) :
    itemsOf (ls.map (Line.move p d f))
      = Item.mapAll (Line.move p d f) (itemsOf ls) := by
  have hdepth : ∀ a b : Line,
      (a.move p d f).depth < (b.move p d f).depth ↔ a.depth < b.depth :=
    fun a b => Nat.add_lt_add_iff_right
  have hopens : ∀ l, opensConditional (Line.move p d f l)
      = opensConditional l := fun _ => rfl
  have hbranch : ∀ l, continuesConditional (Line.move p d f l)
      = continuesConditional l := fun _ => rfl
  exact Item.ofLines_map hdepth hopens hbranch ls

/-- A line that opens no conditional is, for itself, an item. -/
theorem itemsOf_line {l : Line} (hopens : opensConditional l = false) :
    itemsOf [l] = [.plain l []] := by
  rw [itemsOf, Item.ofLines, List.takeWhile_nil, List.dropWhile_nil,
    Item.ofLines, Item.attach, hopens]
  rfl

/-- The line of a header at the margin. -/
def headerLine (head : String) (number : Nat) : Line := ⟨head, 0, 0, number⟩

/-- Lines one block deeper stand below a header. -/
theorem below_header (head : String) (number : Nat) (bs : List Line) :
    Item.Below (headerLine head number) (bs.map (Line.move p 1 f)) := by
  intro b hb
  obtain ⟨c, -, rfl⟩ := List.mem_map.mp hb
  exact Nat.succ_pos _

/-- A header that opens no conditional owns the lines below it. -/
theorem itemsOf_header {head : String} {number : Nat}
    (hopens : opensConditional (headerLine head number) = false)
    (bs : List Line) :
    itemsOf (headerLine head number :: bs.map (Line.move p 1 f))
      = [.plain (headerLine head number)
          (Item.mapAll (Line.move p 1 f) (itemsOf bs))] := by
  rw [← itemsOf_move]
  exact Item.ofLines_plain opensConditional continuesConditional hopens
    (below_header p f head number bs)

-- ============================================================ all lines

/-- Lines with other numbers, also if they move to the right, read the same
as long as their blocks are the same. -/
theorem follows_readLines (ls : List Line) :
    Follows p f (Stmt.moveAll f) (readLines ls)
      (readLines (ls.map (Line.move p 0 f))) := by
  have hdepth : (fun l : Line => decide (0 < l.depth)) ∘ Line.move p 0 f
      = fun l => decide (0 < l.depth) := rfl
  have hitems : Item.ofLines opensConditional continuesConditional
        ((ls.dropWhile (0 < ·.depth)).map (Line.move p 0 f))
      = Item.mapAll (Line.move p 0 f) (itemsOf (ls.dropWhile (0 < ·.depth))) :=
    itemsOf_move p 0 f _
  unfold readLines
  rw [List.takeWhile_map, List.dropWhile_map, hdepth]
  simp only [hitems]
  refine (follows_strayBlock p 0 f _).bind fun stray =>
    (follows_readItems p 0 f _).bind fun ss => ?_
  rw [← Stmt.moveAll_append]
  exact follows_pure (Stmt.moveAll f) _

-- =============================================================== yields

/-- A yield that goes along with its lines. -/
def Yield.move (y : Yield) : Yield :=
  ⟨Stmt.moveAll f y.stmts, y.found.map (Diagnostic.move p f)⟩

/-- What moved items yield is what the items yield, moved. -/
theorem Follows.yield {p : Nat} {f : Nat → Nat} {r r' : Reader (List Stmt)}
    (h : Follows p f (Stmt.moveAll f) r r') {y y' : Yield} (hy : Says r y)
    (hy' : Says r' y') : y' = y.move p f := by
  have hrun := h { numbering := ⟨"", 0⟩ }
  obtain ⟨hs, hf⟩ := hy { numbering := ⟨"", 0⟩ }
  obtain ⟨hs', hf'⟩ := hy' (Progress.move p f { numbering := ⟨"", 0⟩ })
  rw [hrun, Stmt.anonymousAll_moveAll, hs] at hs'
  rw [hrun, Progress.move, hf] at hf'
  obtain ⟨stmts, found⟩ := y'
  obtain rfl : Stmt.moveAll f y.stmts = stmts := hs'
  obtain rfl : y.found.map (Diagnostic.move p f) = found := hf'
  rfl

theorem itemsYield_move (is : List Item) :
    itemsYield (Item.mapAll (Line.move p d f) is) = (itemsYield is).move p f :=
  (follows_readItems p d f is).yield (says_readItems _) (says_readItems _)

theorem linesYield_move (ls : List Line) :
    linesYield (ls.map (Line.move p 0 f)) = (linesYield ls).move p f :=
  (follows_readLines p f ls).yield (says_readLines _) (says_readLines _)

/-- What the lines of a moved menu yield. -/
theorem menuYield_move (is : List Item) :
    menuYield {} (Item.mapAll (Line.move p d f) is)
      = (moveOutcome p d f (menuYield {} is).1,
          (menuYield {} is).2.map (Diagnostic.move p f)) := by
  have hrun := follows_readMenu p d f {} is { numbering := ⟨"", 0⟩ }
  obtain ⟨hs, hf⟩ := says_readMenu {} is { numbering := ⟨"", 0⟩ }
  obtain ⟨hs', hf'⟩ := says_readMenu {} (Item.mapAll (Line.move p d f) is)
    (Progress.move p f { numbering := ⟨"", 0⟩ })
  have hmove : ∀ o : Except Line MenuParts,
      (moveOutcome p d f o).map MenuParts.anonymous
        = moveOutcome p d f (o.map MenuParts.anonymous) := by
    intro o
    cases o with
    | ok m =>
        exact congrArg (fun cs => Except.ok { m with choices := cs })
          (Choice.anonymousAll_moveAll f m.choices)
    | error l => rfl
  have hstart : MenuParts.move f {} = {} := rfl
  rw [hstart] at hrun
  rw [hrun, hmove, hs] at hs'
  rw [hrun, Progress.move, hf] at hf'
  exact Prod.ext hs'.symm hf'.symm

theorem itemsYield_append (is js : List Item) :
    itemsYield (is ++ js) = (itemsYield is).append (itemsYield js) := by
  induction is with
  | nil => rfl
  | cons i is ih =>
      rw [List.cons_append, itemsYield, ih, itemsYield]
      simp only [Yield.append, List.append_assoc]

/-- Lines of which the first stands at the margin give what their items
give. -/
theorem linesYield_margin {ls : List Line}
    (h : ∀ l ∈ ls.head?, l.depth = 0) :
    linesYield ls = itemsYield (itemsOf ls) := by
  cases ls with
  | nil => rfl
  | cons l ls =>
      have hl := h l rfl
      rw [linesYield, List.takeWhile_cons, List.dropWhile_cons, hl]
      rfl

end Reading

end NovelScript
