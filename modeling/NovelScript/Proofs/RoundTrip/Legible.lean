/-
Rows that read as statements wherever they stand. `Legible` says it of rows at
the margin; the scanner then needs no more to put them elsewhere, behind other
rows or below a header, and the reader gives the same.

# What is said of rows

A row is a text with spaces in front. `Laid` rows begin at the margin, each with
something on it. They `Scan` as lines of which something holds if that is so
from any line number on, and lines `ReadAs` statements if the statements are
those and nothing is complained about. Legible rows are laid and scan as lines
that read as the statements.

Two rules put rows into other places, and all else in this file and the ones
that build on it follows from them. Rows in a row are scanned one after the
other, since the second ones begin at the margin again (`Scans.append`). Rows
below a header are scanned as they would be without it, one block deeper
(`Scans.header`).

# What is built

Legible rows are built from legible rows: in a row (`Legible.append`), below the
header of a label (`legible_label`), and below the branches of a conditional
(`legible_conditional`), where the further branches are put together from the
last one on, because they belong to the first (`LegibleBranches.cons`). A body
is more than its rows: a lone `pass` reads as an empty body, so there is
`LegibleBody` beside `Legible`, and rows that are no lone `pass` are a body as
they are (`Legible.body`).
-/
import NovelScript.Proofs.Reading.Moving
import NovelScript.Proofs.RoundTrip.Again
import NovelScript.Proofs.Written.Lines

namespace NovelScript.Reading

open Grammar Source Text

/-- Lines that read as statements, with nothing to complain about, and without
labels: which numbers and identities come out depends on where the lines stand.
-/
structure ReadAs (ls : List Line) (ss : List Stmt) : Prop where
  /-- They do not continue a conditional. -/
  starts : Item.NoBranch continuesConditional ls
  /-- The statements are these. -/
  stmts : Stmt.unlabelAll (itemsYield (itemsOf ls)).stmts = ss
  /-- There is nothing to complain about. -/
  quiet : (itemsYield (itemsOf ls)).found = []

/-- Rows that begin at the margin, each with something on it. Where such rows
begin all blocks are closed. -/
structure Laid (rows : List Row) : Prop where
  /-- The scanner hands each row on. -/
  sound : ∀ r ∈ rows, r.Sound
  /-- The first one stands at the margin. -/
  margin : ∀ r ∈ rows.head?, r.indent = 0

/-- Rows that are scanned without complaint, as lines of which something
holds, wherever they begin. -/
def Scans (rows : List Row) (Q : List Line → Prop) : Prop :=
  ∀ tabSize number, ∃ ls,
    scanFrom tabSize [0] number (physical rows) = (ls, []) ∧ Q ls

/-- Rows that read as statements wherever they stand: at the margin, below a
header, and with other rows in front of them. -/
structure Legible (rows : List Row) (ss : List Stmt) : Prop where
  /-- They begin at the margin. -/
  laid : Laid rows
  /-- They read as the statements. -/
  reads : Scans rows fun ls => ReadAs ls ss

-- ============================================================== in a row

theorem laid_nil : Laid [] := ⟨by simp, by simp⟩

theorem Laid.append {rows rows' : List Row} (h : Laid rows)
    (h' : Laid rows') : Laid (rows ++ rows') := by
  refine ⟨fun r hr => ?_, fun r hr => ?_⟩
  · rcases List.mem_append.mp hr with hr | hr
    · exact h.sound r hr
    · exact h'.sound r hr
  · cases rows with
    | nil => exact h'.margin r hr
    | cons q rows => exact h.margin r hr

theorem Laid.cons {r : Row} {rows : List Row} (hr : r.Sound)
    (h0 : r.indent = 0) (h : ∀ q ∈ rows, q.Sound) : Laid (r :: rows) := by
  refine ⟨fun q hq => ?_, fun q hq => ?_⟩
  · rcases List.mem_cons.mp hq with rfl | hq
    · exact hr
    · exact h q hq
  · obtain rfl : r = q := by simpa using hq
    exact h0

/-- The first of some rows at the margin is a line at the margin. -/
theorem Laid.head_depth {rows : List Row} (h : Laid rows) {tabSize : Int}
    {number : Nat} {ls : List Line}
    (hscan : scanFrom tabSize [0] number (physical rows) = (ls, [])) :
    ∀ l ∈ ls.head?, l.depth = 0 := by
  cases rows with
  | nil =>
      obtain rfl : [] = ls := congrArg Prod.fst hscan
      simp
  | cons r rows =>
      rw [physical, List.map_cons, scanFrom_row
        (h.sound r List.mem_cons_self), h.margin r rfl,
        enter_zero levels_margin] at hscan
      obtain rfl := congrArg Prod.fst hscan
      intro l hl
      obtain rfl : _ = l := Option.some.inj hl
      rfl

/-- Rows in a row are scanned one after the other. -/
theorem Scans.append {rows rows' : List Row} (h' : Laid rows')
    {Q Q' : List Line → Prop} (hs : Scans rows Q) (hs' : Scans rows' Q') :
    Scans (rows ++ rows') fun ls => ∃ as bs, ls = as ++ bs ∧ Q as ∧ Q' bs
      ∧ ∀ b ∈ bs.head?, b.depth = 0 := by
  intro tabSize number
  obtain ⟨as, hscan, ha⟩ := hs tabSize number
  obtain ⟨bs, hscan', hb⟩ := hs' tabSize (number + rows.length)
  refine ⟨as ++ bs, ?_, as, bs, rfl, ha, hb, h'.head_depth hscan'⟩
  have hphysical : physical (rows ++ rows') = physical rows ++ physical rows' :=
    List.map_append
  have hcount : (physical rows).length = rows.length := List.length_map _
  rw [hphysical, scanFrom_append, hscan, hcount,
    scanFrom_margin tabSize (levels_margin.levelsAfter tabSize _) _ h'.sound
      h'.margin, hscan']
  rfl

theorem readAs_nil : ReadAs [] [] :=
  ⟨by simp [Item.NoBranch], by
    rw [itemsOf, Item.ofLines]
    rfl, by
    rw [itemsOf, Item.ofLines]
    rfl⟩

theorem ReadAs.append {as bs : List Line} {ss ts : List Stmt}
    (ha : ReadAs as ss) (hb : ReadAs bs ts)
    (hdepth : ∀ b ∈ bs.head?, b.depth = 0) :
    ReadAs (as ++ bs) (ss ++ ts) := by
  have hitems := itemsOf_append as hdepth hb.starts
  refine ⟨fun l hl => ?_, ?_, ?_⟩
  · cases as with
    | nil => exact hb.starts l hl
    | cons a as => exact ha.starts l hl
  · rw [hitems, itemsYield_append, Yield.append, Stmt.unlabelAll,
      Stmt.relabelAll_append, ← Stmt.unlabelAll, ← Stmt.unlabelAll, ha.stmts,
      hb.stmts]
  · rw [hitems, itemsYield_append, Yield.append, ha.quiet, hb.quiet]
    rfl

theorem legible_nil : Legible [] [] :=
  ⟨laid_nil, fun _ _ => ⟨[], rfl, readAs_nil⟩⟩

/-- Legible rows in a row are legible, since the second begin at the margin and
go on with no conditional. -/
theorem Legible.append {rows rows' : List Row} {ss ts : List Stmt}
    (h : Legible rows ss) (h' : Legible rows' ts) :
    Legible (rows ++ rows') (ss ++ ts) := by
  refine ⟨h.laid.append h'.laid, fun tabSize number => ?_⟩
  obtain ⟨ls, hscan, as, bs, rfl, ha, hb, hdepth⟩ :=
    h.reads.append h'.laid h'.reads tabSize number
  exact ⟨as ++ bs, hscan, ha.append hb hdepth⟩

-- ========================================================= below a header

/-- A header and rows below it are scanned as the header's line and the
lines of the rows, one block deeper. -/
theorem Scans.header {head : String} (hhead : Content head.toList)
    {rows : List Row} (h : Laid rows) {Q : List Line → Prop}
    (hs : Scans rows Q) {p : Nat} (hp : 0 < p) :
    Scans (⟨0, head⟩ :: rows.map (Row.shift p)) fun ls =>
      ∃ number bs, Q bs
        ∧ ls = headerLine head number :: bs.map (Line.move p 1 id) := by
  intro tabSize number
  obtain ⟨bs, hscan, hb⟩ := hs tabSize (number + 1)
  refine ⟨headerLine head number :: bs.map (Line.move p 1 id), ?_,
    number, bs, hb, rfl⟩
  have hrow : Row.Sound ⟨0, head⟩ := hhead
  have hblock := scanFrom_shift tabSize h.sound h.margin hscan hp
  rw [physical, List.map_cons, ← physical, scanFrom_row hrow,
    enter_zero levels_margin, hblock]
  rfl

theorem Laid.header {head : String} (hhead : Content head.toList)
    {rows : List Row} (h : Laid rows) (p : Nat) :
    Laid (⟨0, head⟩ :: rows.map (Row.shift p)) := by
  refine Laid.cons hhead rfl fun r hr => ?_
  obtain ⟨q, hq, rfl⟩ := List.mem_map.mp hr
  exact h.sound q hq

-- ================================================================ bodies

/-- Lines that read as a body, with nothing to complain about. -/
structure BodyAs (ls : List Line) (ss : List Stmt) : Prop where
  /-- The statements of the body are these. -/
  stmts : Stmt.unlabelAll (bodyOf (itemsOf ls)
    (itemsYield (itemsOf ls)).stmts) = ss
  /-- There is nothing to complain about. -/
  quiet : (itemsYield (itemsOf ls)).found = []

/-- Rows that read as a body wherever they stand. -/
structure LegibleBody (rows : List Row) (ss : List Stmt) : Prop where
  /-- They begin at the margin. -/
  laid : Laid rows
  /-- They read as the statements of the body. -/
  reads : Scans rows fun ls => BodyAs ls ss

theorem laid_row {text : String} (h : Content text.toList) :
    Laid [⟨0, text⟩] :=
  Laid.cons h rfl (by simp)

/-- One row is one line. -/
theorem scans_row {text : String} (h : Content text.toList)
    {Q : List Line → Prop} (hQ : ∀ number, Q [headerLine text number]) :
    Scans [⟨0, text⟩] Q := by
  intro tabSize number
  have hrow : Row.Sound ⟨0, text⟩ := h
  refine ⟨[headerLine text number], ?_, hQ number⟩
  rw [physical, List.map_cons, List.map_nil, scanFrom_row hrow,
    enter_zero levels_margin]
  rfl

/-- A row in front of others is a line in front of theirs. -/
theorem Scans.line {rows : List Row} {Q : List Line → Prop}
    (h : Scans rows Q) {text : String} (hcontent : Content text.toList)
    (hlaid : Laid rows) :
    Scans (⟨0, text⟩ :: rows) fun ls => ∃ number rest, Q rest
      ∧ (∀ r ∈ rest.head?, r.depth = 0)
      ∧ ls = headerLine text number :: rest := by
  have hrow : Scans [⟨0, text⟩] fun ls =>
      ∃ number, ls = [headerLine text number] :=
    scans_row hcontent fun number => ⟨number, rfl⟩
  intro tabSize number
  obtain ⟨ls, hscan, as, rest, rfl, ⟨n, rfl⟩, hrest, hdepth⟩ :=
    hrow.append hlaid h tabSize number
  exact ⟨_, hscan, n, rest, hrest, hdepth, rfl⟩

theorem content_pass : Content "pass".toList := by
  have hpass : "pass".toList = ['p', 'a', 's', 's'] := rfl
  rw [hpass]
  exact content_cons (unbroken_of_ink (by decide)) (by decide) (by decide)

/-- A lone `pass` reads as an empty body. -/
theorem legibleBody_pass : LegibleBody [⟨0, "pass"⟩] [] := by
  refine ⟨laid_row content_pass, scans_row content_pass fun number => ?_⟩
  have hopens : opensConditional (headerLine "pass" number) = false := by
    show (ifCondition? (splitHeader "pass".toList).1).isSome = false
    decide
  have hkind : lineKind "pass".toList = .simple (.raw "pass") := by decide
  have hyield : itemsYield [.plain (headerLine "pass" number) []]
      = ⟨[bareSimple (headerLine "pass" number) (.raw "pass")], []⟩ := by
    have hword : firstWord? "pass".toList = some "pass" := by decide
    simp only [itemsYield, itemYield, headerLine, hword, simpleYield, hkind]
    rfl
  constructor
  · rw [itemsOf_line hopens, hyield]
    rfl
  · rw [itemsOf_line hopens, hyield]

/-- A line for itself is one item. -/
theorem itemsOf_singleton (l : Line) :
    itemsOf [l] = [.plain l []] ∨ itemsOf [l] = [.chain l [] []] := by
  rw [itemsOf, Item.ofLines, List.takeWhile_nil, List.dropWhile_nil,
    Item.ofLines]
  unfold Item.attach
  split
  · exact Or.inr rfl
  · exact Or.inl rfl

/-- Statements that are no lone `pass` are a body as they are. -/
theorem bodyOf_eq_self {ss : List Stmt} (h : Draft.saysPass ss = false)
    (items : List Item) : bodyOf items ss = ss := by
  unfold bodyOf
  split
  · next l st =>
    cases hraw : st.rawContent? with
    | none => rfl
    | some content =>
        rw [Draft.saysPass, hraw] at h
        have htrim : Text.trim content.toList ≠ "pass".toList := by
          intro htrim
          rw [Option.map_some, Option.getD_some, Text.trimmed, htrim] at h
          cases h
        simp only
        rw [if_neg htrim]
  · rfl

/-- No rows are no statements. -/
theorem Legible.eq_nil {ss : List Stmt} (h : Legible [] ss) : ss = [] := by
  obtain ⟨ls, hscan, hread⟩ := h.reads 1 1
  obtain rfl : [] = ls := congrArg Prod.fst hscan
  rw [← hread.stmts, readAs_nil.stmts]

/-- Legible rows are a body, unless they are a lone `pass`. -/
theorem Legible.body {rows : List Row} {ss : List Stmt}
    (h : Legible rows ss) (hpassing : Draft.saysPass ss = false) :
    LegibleBody (Outline.bodyRows rows) ss := by
  cases rows with
  | nil =>
      rw [h.eq_nil]
      exact legibleBody_pass
  | cons r rows =>
      refine ⟨h.laid, fun tabSize number => ?_⟩
      obtain ⟨ls, hscan, hread⟩ := h.reads tabSize number
      refine ⟨ls, hscan, ?_, hread.quiet⟩
      rw [Stmt.unlabelAll, relabelAll_bodyOf, ← Stmt.unlabelAll, hread.stmts,
        bodyOf_eq_self hpassing]

/-- A body that reads as it should does so below a header. -/
theorem BodyAs.moved {ls : List Line} {ss : List Stmt} (h : BodyAs ls ss)
    (p d : Nat) (f : Nat → Nat) :
    Stmt.unlabelAll (bodyOf (Item.mapAll (Line.move p d f) (itemsOf ls))
        (itemsYield (Item.mapAll (Line.move p d f) (itemsOf ls))).stmts) = ss
      ∧ (itemsYield (Item.mapAll (Line.move p d f) (itemsOf ls))).found
        = [] := by
  rw [itemsYield_move, Yield.move]
  simp only
  rw [bodyOf_move, Stmt.unlabelAll_moveAll, h.stmts, h.quiet]
  exact ⟨rfl, rfl⟩

-- =============================================================== headers

/-- A text that is a header and its colon. -/
structure Heads (text : String) (head : List Char) : Prop where
  /-- It ends in the colon. -/
  text_eq : text.toList = head ++ [':']
  /-- The header ends tidily and stands on one line. -/
  lineEnd : LineEnd head
  /-- It begins with something that is handed on. -/
  starts : ∃ c cs, head = c :: cs ∧ isBlank c = false ∧ c ≠ '#'

theorem Heads.content {text : String} {head : List Char}
    (h : Heads text head) : Content text.toList := by
  obtain ⟨c, cs, rfl, hc, hhash⟩ := h.starts
  have hcolon : Unbroken [':'] := by
    unfold Unbroken
    decide
  have hu := unbroken_append.mpr ⟨h.lineEnd.unbroken, hcolon⟩
  rw [h.text_eq]
  exact content_cons hu hc hhash

theorem Heads.split {text : String} {head : List Char}
    (h : Heads text head) : splitHeader text.toList = (head, true) := by
  rw [h.text_eq, splitHeader_colon h.lineEnd.ends]

/-- A header's first word is the one it begins with. -/
theorem Heads.firstWord? {text : String} {head : List Char}
    (h : Heads text head) {word : String} (hword : Name word.toList)
    {rest : List Char} (hhead : head = word.toList ++ rest)
    (hstop : Stops isWordChar (rest ++ [':'])) :
    firstWord? text.toList = some word := by
  rw [h.text_eq, hhead, List.append_assoc, firstWord?_name hword hstop,
    String.ofList_toList]

theorem Heads.headOf {text : String} {head : List Char}
    (h : Heads text head) (number : Nat) :
    headOf (headerLine text number) = head :=
  congrArg Prod.fst h.split

theorem Heads.colonFound {text : String} {head : List Char}
    (h : Heads text head) (number : Nat) (header : Header) :
    colonFound (headerLine text number) header = [] := by
  have hcolon : hasColon (headerLine text number) = true :=
    congrArg Prod.snd h.split
  rw [Reading.colonFound, if_pos hcolon]

-- ================================================================ labels

theorem heads_label {name : String} {o : Option (List String)}
    (hname : LabelName name.toList) (ho : Parameters o) :
    Heads (Phrase.labelHead name (Written.argumentRow o))
      ("label".toList ++ ' ' :: (name.toList
        ++ bracketed ((Written.items o).map String.toList))) :=
  ⟨toList_labelHead name o, lineEnd_label hname ho, 'l', _, rfl, by decide,
    by decide⟩

/-- A label and its body are legible. -/
theorem legible_label {name : String} {o : Option (List String)}
    (hname : LabelName name.toList) (ho : Parameters o)
    {rows : List Row} {body : List Stmt} (hbody : LegibleBody rows body)
    {p : Nat} (hp : 0 < p) :
    Legible (⟨0, Phrase.labelHead name (Written.argumentRow o)⟩
        :: rows.map (Row.shift p))
      [.label ⟨"", none⟩ name (presentItems o) body] := by
  have hheads := heads_label hname ho
  refine ⟨hbody.laid.header hheads.content p, fun tabSize number => ?_⟩
  obtain ⟨ls, hscan, n, bs, hb, rfl⟩ :=
    hbody.reads.header hheads.content hbody.laid hp tabSize number
  have hword : firstWord? (headerLine (Phrase.labelHead name
      (Written.argumentRow o)) n).content.toList = some "label" := by
    have hlabel : Name "label".toList :=
      ⟨'l', ['a', 'b', 'e', 'l'], rfl, by decide, by decide⟩
    exact hheads.firstWord? hlabel rfl (stops_space _)
  -- The header opens no conditional, so all that is deeper is its block.
  have hitems := itemsOf_header p id (opensConditional_of_firstWord?
    (by rw [hword]; decide)) bs
  obtain ⟨hstmts, hquiet⟩ := hb.moved p 1 id
  have hyield := itemYield.eq_1 (headerLine (Phrase.labelHead name
      (Written.argumentRow o)) n)
    (Item.mapAll (Line.move p 1 id) (itemsOf bs))
  simp only [hword, hheads.headOf, label?_written hname ho,
    hheads.colonFound, hquiet] at hyield
  refine ⟨_, hscan, fun l hl => ?_, ?_, ?_⟩
  · obtain rfl : _ = l := Option.some.inj hl
    exact continuesConditional_of_firstWord? (by rw [hword]; decide)
      (by rw [hword]; decide)
  · rw [hitems, itemsYield, hyield]
    simp only [itemsYield, Yield.append, List.append_nil, Stmt.unlabelAll,
      Stmt.relabelAll, Stmt.relabel]
    rw [← Stmt.unlabelAll, hstmts]
  · rw [hitems, itemsYield, hyield]
    rfl

-- ========================================================== conditionals

/-- The items of a header, the lines below it, and lines at the margin. -/
theorem itemsOf_header_append {head : String} {number : Nat} (p : Nat)
    (bs : List Line) {rest : List Line}
    (hdepth : ∀ r ∈ rest.head?, r.depth = 0) :
    itemsOf (headerLine head number :: (bs.map (Line.move p 1 id) ++ rest))
      = Item.attach opensConditional continuesConditional
          (headerLine head number)
          (Item.mapAll (Line.move p 1 id) (itemsOf bs)) (itemsOf rest) := by
  rw [← itemsOf_move]
  exact Item.ofLines_cons opensConditional continuesConditional
    (below_header p id head number bs)
    (fun r hr => by rw [hdepth r hr]; exact Nat.zero_le _)

/-- Branches as items of their own. -/
def asItems (branches : List (Line × List Item)) : List Item :=
  branches.map fun b => .plain b.1 b.2

theorem takeBranches_asItems {branches : List (Line × List Item)}
    (h : ∀ b ∈ branches, continuesConditional b.1 = true) :
    Item.takeBranches continuesConditional (asItems branches)
      = (branches, []) := by
  induction branches with
  | nil => rfl
  | cons b branches ih =>
      have hb := h b List.mem_cons_self
      have hmore := ih fun c hc => h c (List.mem_cons_of_mem b hc)
      rw [asItems, List.map_cons, ← asItems, Item.takeBranches, if_pos hb,
        hmore]

/-- Lines that read as further branches of a conditional, with nothing to
complain about. -/
structure BranchesAs (ls : List Line) (bs : List Branch) : Prop where
  /-- The items are branches, and these are what they give. -/
  reads : ∃ branches, itemsOf ls = asItems branches
    ∧ branches.length = bs.length
    ∧ (∀ b ∈ branches, continuesConditional b.1 = true)
    ∧ Branch.unlabelAll (branchesYield false branches).1 = bs
    ∧ (branchesYield false branches).2 = []

/-- Rows that read as further branches wherever they stand. -/
structure LegibleBranches (rows : List Row) (bs : List Branch) : Prop where
  /-- They begin at the margin. -/
  laid : Laid rows
  /-- They read as the branches. -/
  reads : Scans rows fun ls => BranchesAs ls bs

theorem legibleBranches_nil : LegibleBranches [] [] := by
  refine ⟨laid_nil, fun _ _ => ⟨[], rfl, [], ?_, rfl, by simp, rfl, rfl⟩⟩
  rw [itemsOf, Item.ofLines]
  rfl

/-- The header of a branch without its colon. -/
def branchPart (first : Bool) (condition : Option String) : List Char :=
  match condition with
  | some c => (if first then "if" else "elif").toList ++ ' ' :: c.toList
  | none => "else".toList

theorem lineEnd_else : LineEnd "else".toList :=
  ⟨endsInk_concat ['e', 'l', 's'] (by decide), unbroken_of_ink (by decide)⟩

theorem heads_branch (first : Bool) {condition : Option String}
    (h : ∀ c ∈ condition, Condition c) :
    Heads (Phrase.branchHead first condition) (branchPart first condition) := by
  cases condition with
  | none =>
      exact ⟨by simp [Phrase.branchHead, branchPart], lineEnd_else, 'e', _,
        rfl, by decide, by decide⟩
  | some c =>
      have hc := h c rfl
      have hlineEnd : ∀ w : List Char, Unbroken w →
          LineEnd (w ++ ' ' :: c.toList) := fun w hw =>
        ⟨endsInk_word w hc.tidy.ends hc.tidy.ne_nil,
          unbroken_word hw hc.unbroken⟩
      cases first with
      | true =>
          exact ⟨by simp [Phrase.branchHead, branchPart],
            hlineEnd _ (unbroken_of_ink (by decide)), 'i', _, rfl, by decide,
            by decide⟩
      | false =>
          exact ⟨by simp [Phrase.branchHead, branchPart],
            hlineEnd _ (unbroken_of_ink (by decide)), 'e', _, rfl, by decide,
            by decide⟩

/-- What the header of a further branch says. -/
theorem branchCondition?_branchPart {condition : Option String}
    (h : ∀ c ∈ condition, Condition c) :
    branchCondition? (branchPart false condition) = some condition := by
  cases condition with
  | none => exact branchCondition?_else
  | some c => exact branchCondition?_elif (h c rfl).tidy

/-- A further branch in front of others is legible. -/
theorem LegibleBranches.cons {condition : Option String}
    (hcond : ∀ c ∈ condition, Condition c) {rows rows' : List Row}
    {body : List Stmt} {more : List Branch} (hbody : LegibleBody rows body)
    (hmore : LegibleBranches rows' more)
    (hlast : condition = none → more = []) {p : Nat} (hp : 0 < p) :
    LegibleBranches ((⟨0, Phrase.branchHead false condition⟩
        :: rows.map (Row.shift p)) ++ rows')
      (.mk condition none body :: more) := by
  have hheads := heads_branch false hcond
  have hlaid := hbody.laid.header hheads.content p
  refine ⟨hlaid.append hmore.laid, fun tabSize number => ?_⟩
  obtain ⟨ls, hscan, as, rest, rfl, ⟨n, bs, hb, rfl⟩, hrest, hdepth⟩ :=
    (hbody.reads.header hheads.content hbody.laid hp).append hmore.laid
      hmore.reads tabSize number
  obtain ⟨branches, hitems, hlen, hcont, hstmts, hquiet⟩ := hrest
  obtain ⟨hbstmts, hbquiet⟩ := hb.moved p 1 id
  have hhead : headOf (headerLine (Phrase.branchHead false condition) n)
      = branchPart false condition := hheads.headOf n
  have hcontinues : continuesConditional
      (headerLine (Phrase.branchHead false condition) n) = true := by
    rw [continuesConditional, hhead, branchCondition?_branchPart hcond]
    rfl
  have hopens : opensConditional
      (headerLine (Phrase.branchHead false condition) n) = false := by
    refine opensConditional_of_firstWord? fun hif => ?_
    rcases firstWord?_of_continues hcontinues with h | h
    · rw [h] at hif
      exact absurd hif (by decide)
    · rw [h] at hif
      exact absurd hif (by decide)
  -- An `else` is the last branch, so nothing follows it that could be
  -- complained about.
  have hafter : branchesYield (false || condition.isNone) branches
      = branchesYield false branches := by
    cases condition with
    | some c => rfl
    | none =>
        rw [hlast rfl] at hlen
        rw [List.length_eq_zero_iff.mp hlen]
        rfl
  refine ⟨_, hscan, (headerLine (Phrase.branchHead false condition) n,
    Item.mapAll (Line.move p 1 id) (itemsOf bs)) :: branches, ?_, ?_, ?_,
    ?_, ?_⟩
  · rw [List.cons_append, itemsOf_header_append p bs hdepth, Item.attach,
      hopens, hitems]
    rfl
  · rw [List.length_cons, List.length_cons, hlen]
  · intro b hbmem
    rcases List.mem_cons.mp hbmem with rfl | hbmem
    · exact hcontinues
    · exact hcont b hbmem
  · simp only [branchesYield, hhead, branchCondition?_branchPart hcond,
      Option.getD_some, hafter, Branch.unlabelAll, Branch.relabelAll]
    rw [← Stmt.unlabelAll, hbstmts, ← Branch.unlabelAll, hstmts]
  · simp only [branchesYield, hhead, branchCondition?_branchPart hcond,
      Option.getD_some, hafter, hheads.colonFound, hbquiet, hquiet]
    rfl

/-- A conditional is legible. -/
theorem legible_conditional {condition : String}
    (hcond : Condition condition) {rows rows' : List Row}
    {body : List Stmt} {more : List Branch} (hbody : LegibleBody rows body)
    (hmore : LegibleBranches rows' more) {p : Nat} (hp : 0 < p) :
    Legible ((⟨0, Phrase.branchHead true (some condition)⟩
        :: rows.map (Row.shift p)) ++ rows')
      [.conditional ⟨"", none⟩ (.mk (some condition) none body :: more)] := by
  have hconds : ∀ c ∈ some condition, Condition c := by
    intro c hc
    rw [← Option.some.inj hc]
    exact hcond
  have hheads := heads_branch true hconds
  -- Header and body first, as a page that is laid out; the branches are put
  -- behind.
  have hlaid := hbody.laid.header hheads.content p
  refine ⟨hlaid.append hmore.laid, fun tabSize number => ?_⟩
  obtain ⟨ls, hscan, as, rest, rfl, ⟨n, bs, hb, rfl⟩, hrest, hdepth⟩ :=
    (hbody.reads.header hheads.content hbody.laid hp).append hmore.laid
      hmore.reads tabSize number
  obtain ⟨branches, hitems, -, hcont, hstmts, hquiet⟩ := hrest
  obtain ⟨hbstmts, hbquiet⟩ := hb.moved p 1 id
  have hif : ifCondition? (headOf
      (headerLine (Phrase.branchHead true (some condition)) n))
      = some condition := by
    rw [hheads.headOf n]
    exact ifCondition?_written hcond.tidy
  have hopens : opensConditional
      (headerLine (Phrase.branchHead true (some condition)) n) = true := by
    rw [opensConditional, hif]
    rfl
  have hword := firstWord?_of_opens hopens
  -- The branches are at the depth of the header, so they go on with its item
  -- and begin none of their own.
  have hall : itemsOf ((headerLine (Phrase.branchHead true (some condition))
        n :: bs.map (Line.move p 1 id)) ++ rest)
      = [.chain (headerLine (Phrase.branchHead true (some condition)) n)
          (Item.mapAll (Line.move p 1 id) (itemsOf bs)) branches] := by
    rw [List.cons_append, itemsOf_header_append p bs hdepth, Item.attach,
      if_pos hopens, hitems, takeBranches_asItems hcont]
  refine ⟨_, hscan, fun l hl => ?_, ?_, ?_⟩
  · obtain rfl : _ = l := Option.some.inj hl
    exact continuesConditional_of_firstWord? (by rw [hword]; decide)
      (by rw [hword]; decide)
  · rw [hall]
    simp only [itemsYield, itemYield, hif, Yield.append, List.append_nil,
      Stmt.unlabelAll, Stmt.relabelAll, Stmt.relabel, Branch.relabelAll]
    rw [← Stmt.unlabelAll, hbstmts, ← Branch.unlabelAll, hstmts]
  · rw [hall]
    simp only [itemsYield, itemYield, hheads.colonFound, Yield.append,
      hbquiet, hquiet]
    rfl

end NovelScript.Reading
