/-
Statements that are written, read and written again. A statement `Returns` as
another if its rows read as the other one, and if the other one is written in as
many lines; along with it goes what has to hold for these lines to be the same.
Simple statements are taken as given here. The file says that a tree made of
them returns with every simple statement in its place.

# The statement of the induction

The last argument of `Returns` is the condition under which the second writing
is the first one, line by line. For a leaf it says just that of its own lines
(`linesOf`); for a tree it is the condition on all its leaves, and the induction
puts it together from those of the parts. Since both writings have equally many
lines, lines that are the same as a whole are the same part by part, so the
condition is one in both directions.

# Headers and bodies

Headers and bodies were put together before, each for itself; here they are put
together side by side, once in the first writing, once in the rows and once in
the second writing (`Echo`). There is one lemma for each header: `label`,
`choice`, `menu`, `branch` and `conditional`, below `ReturnsBody` or
`ReturnsChoices`.

A body is not a row of statements. A lone `pass` in it is read as no statement
at all, and no statement is written as a lone `pass`. `ReturnsAll.body` is the
one place where that is dealt with, for which the leaves have to return a lone
`pass` as itself.

# The induction

`returns_again` and its companions go over the constructors of a tree, with one
line for each. They ask that the compound statements in it can be written
(`Proper`), and nothing of the simple ones but that they are leaves.
-/
import NovelScript.Proofs.RoundTrip.Menu
import NovelScript.Proofs.RoundTrip.Relabel
import NovelScript.Proofs.Written.Echo

namespace NovelScript.Reading

open Grammar Source Text
open Outline (Echo EchoBody Spells bodyRows echo_nil echoBody_pass linesOfAll
  spells_line)

variable {indentSize : Int}

-- ============================================================= returning

/-- A statement whose rows read as another one, with when the other one has the
same lines on the page. The condition is put together along the tree. -/
def Returns (indentSize : Int) (s s' : Stmt) (same : Prop) : Prop :=
  ∃ os os' rows, Written.stmt s = .ok os ∧ Written.stmt s' = .ok os'
    ∧ Echo indentSize os os' rows same ∧ Legible rows [s']

/-- Statements whose rows read as others. -/
def ReturnsAll (indentSize : Int) (ss ss' : List Stmt) (same : Prop) : Prop :=
  ∃ os os' rows, Written.stmts ss = .ok os ∧ Written.stmts ss' = .ok os'
    ∧ Echo indentSize os os' rows same ∧ Legible rows ss'

/-- Statements whose rows, as those of a body, read as others. Only where
there are no statements are there no lines. -/
def ReturnsBody (indentSize : Int) (ss ss' : List Stmt) (same : Prop) : Prop :=
  ∃ os os' rows, Written.stmts ss = .ok os ∧ Written.stmts ss' = .ok os'
    ∧ (os = [] → ss = []) ∧ (os' = [] → ss' = [])
    ∧ EchoBody indentSize os os' rows same ∧ LegibleBody rows ss'

/-- Choices whose rows read as others. -/
def ReturnsChoices (indentSize : Int) (cs cs' : List Choice) (same : Prop) :
    Prop :=
  ∃ os os' rows, Written.choiceBlocks cs = .ok os
    ∧ Written.choiceBlocks cs' = .ok os'
    ∧ Echo indentSize os os' rows same ∧ LegibleChoices rows cs'

/-- Further branches whose rows read as others. -/
def ReturnsBranches (indentSize : Int) (bs bs' : List Branch) (same : Prop) :
    Prop :=
  ∃ os os' rows, Written.branchBlocks false bs = .ok os
    ∧ Written.branchBlocks false bs' = .ok os'
    ∧ Echo indentSize os os' rows same ∧ LegibleBranches rows bs'

theorem returnsAll_nil : ReturnsAll indentSize [] [] True :=
  ⟨[], [], [], rfl, rfl, echo_nil, legible_nil⟩

/-- Statements in a row return in a row. -/
theorem Returns.cons {s s' : Stmt} {ss ss' : List Stmt} {same same' : Prop}
    (h : Returns indentSize s s' same)
    (hmore : ReturnsAll indentSize ss ss' same') :
    ReturnsAll indentSize (s :: ss) (s' :: ss') (same ∧ same') := by
  obtain ⟨as, as', rows, hs, hs', hecho, hlegible⟩ := h
  obtain ⟨bs, bs', rows', hss, hss', hecho', hlegible'⟩ := hmore
  refine ⟨as ++ bs, as' ++ bs', rows ++ rows', ?_, ?_, hecho.append hecho',
    hlegible.append hlegible'⟩
  · rw [Written.stmts, hs, hss]
    rfl
  · rw [Written.stmts, hs', hss']
    rfl

-- ================================================================ leaves

/-- The lines of a simple statement at the margin. -/
def linesOf (indentSize : Int) (s : Simple) : Except WriteError (List String) :=
  (Written.simple "" s).map (linesOfAll indentSize 0)

/-- A simple statement whose rows read as another one, and which is the
other one if that is a lone `pass`. -/
structure Leaf (indentSize : Int) (s s' : Simple) : Prop where
  /-- The rows read as the other one, which has as many lines. -/
  returns : ∃ os os' rows, Written.simple "" s = .ok os
    ∧ Written.simple "" s' = .ok os' ∧ Spells indentSize os rows
    ∧ (linesOfAll indentSize 0 os').length = rows.length
    ∧ Legible rows [.simple ⟨"", none⟩ s']
  /-- Only `pass` reads as `pass`. -/
  pass : ∀ c, s' = .raw c → trimmed c = "pass" → s = .raw c

theorem Leaf.simple {s s' : Simple} (h : Leaf indentSize s s') (tag : Tag) :
    Returns indentSize (.simple tag s) (.simple ⟨"", none⟩ s')
      (linesOf indentSize s' = linesOf indentSize s) := by
  obtain ⟨os, os', rows, hs, hs', hspells, hcount, hlegible⟩ := h.returns
  refine ⟨os, os', rows, Written.simple_of_ok _ hs, hs', ⟨hspells, hcount, ?_⟩,
    hlegible⟩
  have hspelled : linesOfAll indentSize 0 os = rows.map Row.written := hspells
  rw [linesOf, linesOf, hs, hs', Except.map, Except.map, hspelled]
  exact (Except.ok.injEq _ _).symm.to_iff

-- ================================================================ bodies

variable {f : Simple → Simple}

theorem againAll_eq_nil {ss : List Stmt} :
    Stmt.againAll f ss = [] ↔ ss = [] := by
  cases ss <;> simp [Stmt.againAll]

/-- What returns in a row returns as a body. A lone `pass` returns as no
statement at all. -/
theorem ReturnsAll.body {body : List Stmt} {same : Prop}
    (h : ReturnsAll indentSize body (Stmt.againAll f body) same)
    (hexact : ExactPass body)
    (hleaves : Stmt.LeavesAll (fun s => Leaf indentSize s (f s)) body) :
    ReturnsBody indentSize body
      (Draft.withoutPass (Stmt.againAll f body)) same := by
  obtain ⟨os, os', rows, hss, hss', hecho, hlegible⟩ := h
  cases hpassing : Draft.saysPass (Stmt.againAll f body) with
  | false =>
      rw [Draft.withoutPass, if_neg (by rw [hpassing]; decide)]
      have hback : rows = [] → Stmt.againAll f body = [] := by
        rintro rfl
        exact hlegible.eq_nil
      refine ⟨os, os', bodyRows rows, hss, hss', fun hnone => ?_, fun hnone => ?_,
        hecho.body, hlegible.body hpassing⟩
      · have hrows : rows.map Row.written = [] := by
          rw [← hecho.spells, hnone, linesOfAll]
        exact againAll_eq_nil.mp (hback (List.map_eq_nil_iff.mp hrows))
      · have hrows : rows.length = 0 := by
          rw [← hecho.count, hnone, linesOfAll, List.length_nil]
        exact hback (List.length_eq_zero_iff.mp hrows)
  | true =>
      obtain ⟨tag, c, hback, htrim⟩ := Draft.exists_raw_of_saysPass hpassing
      obtain ⟨tag', s, rfl, hs⟩ : ∃ tag' s, body = [.simple tag' s]
          ∧ f s = .raw c := by
        rcases body with _ | ⟨st, _ | ⟨st', more⟩⟩
        · simp [Stmt.againAll] at hback
        · cases st with
          | simple tag' s =>
              refine ⟨tag', s, rfl, ?_⟩
              have hsame : ⟨"", none⟩ = tag ∧ f s = .raw c := by
                simpa [Stmt.againAll, Stmt.again] using hback
              exact hsame.2
          | _ => simp [Stmt.againAll, Stmt.again] at hback
        · simp [Stmt.againAll] at hback
      have hraw : s = .raw c := hleaves.1.pass c hs htrim
      -- The body said `pass` before, and nothing else.
      obtain ⟨_, hbody⟩ := hexact
        ((Draft.saysPass_simple tag' s).mpr ⟨c, hraw, htrim⟩)
      obtain ⟨-, hpass⟩ := Stmt.simple.inj (List.cons.inj hbody).1
      have hcpass : c = "pass" := Simple.raw.inj (hraw.symm.trans hpass)
      have hspell : ∀ t, Written.stmts [.simple t (.raw "pass")]
          = .ok [.line "pass"] := fun _ => rfl
      rw [hpass, hspell, Except.ok.injEq] at hss
      rw [hback, hcpass, hspell, Except.ok.injEq] at hss'
      subst hss hss'
      have hsame : same := hecho.same.mp hecho.spells
      rw [Draft.withoutPass, if_pos hpassing, hpass]
      refine ⟨_, _, _, hspell tag', rfl, by simp, fun _ => rfl, ?_,
        legibleBody_pass⟩
      rw [eq_true hsame]
      exact echoBody_pass

-- =============================================================== headers

variable {body body' : List Stmt} {same same' : Prop}

theorem ReturnsBody.label (hsize : 0 < indentSize)
    (h : ReturnsBody indentSize body body' same) (tag : Tag) {name : String}
    {o : Option (List String)} (hname : LabelName name.toList)
    (ho : Parameters o) :
    Returns indentSize (.label tag name o body)
      (.label ⟨"", none⟩ name (presentItems o) body') same := by
  obtain ⟨os, os', rows, hss, hss', hbare, hbare', hecho, hlegible⟩ := h
  have hrow : Written.argumentRow (presentItems o) = Written.argumentRow o := by
    rw [Written.argumentRow, Written.argumentRow, Draft.items_presentItems]
  refine ⟨_, _, _, ?_, ?_, hecho.block (Int.le_of_lt hsize)
    (Phrase.labelHead name (Written.argumentRow o)),
    legible_label hname ho hlegible (Int.pos_iff_toNat_pos.mp hsize)⟩
  · rw [Written.stmt, hss, ← Written.headed_eq_block hbare]
    rfl
  · rw [Written.stmt, hss', hrow, ← Written.headed_eq_block hbare']
    rfl

theorem returnsChoices_nil : ReturnsChoices indentSize [] [] True :=
  ⟨[], [], [], rfl, rfl, echo_nil, legibleChoices_nil⟩

theorem ReturnsBody.choice (hsize : 0 < indentSize)
    (h : ReturnsBody indentSize body body' same) (said : String)
    {condition : Option String} (line : Option Nat)
    (hcond : ∀ c ∈ Written.present condition, Condition c)
    {cs cs' : List Choice}
    (hmore : ReturnsChoices indentSize cs cs' same') :
    ReturnsChoices indentSize (.mk said condition line body :: cs)
      (.mk said (Written.present condition) none body' :: cs')
      (same ∧ same') := by
  obtain ⟨os, os', rows, hss, hss', hbare, hbare', hecho, hlegible⟩ := h
  obtain ⟨bs, bs', rows', hcs, hcs', hecho', hlegible'⟩ := hmore
  refine ⟨_, _, _, ?_, ?_, (hecho.block (Int.le_of_lt hsize)
    (Phrase.choiceHead (quoted said) (Written.present condition))).append
      hecho', LegibleChoices.cons said hcond hlegible hlegible'
        (Int.pos_iff_toNat_pos.mp hsize)⟩
  · rw [Written.choiceBlocks, hss, hcs, ← Written.headed_eq_block hbare]
    rfl
  · rw [Written.choiceBlocks, hss', hcs', Draft.present_present,
      ← Written.headed_eq_block hbare']
    rfl

/-- Lines that are there in both writings. -/
theorem echo_lines (o : Option String) :
    Echo indentSize (o.map Outline.line).toList (o.map Outline.line).toList
      (o.map (Row.mk 0)).toList True := by
  cases o with
  | none => exact echo_nil
  | some said =>
      have hline := @spells_line indentSize said
      refine ⟨hline, ?_, iff_of_true hline trivial⟩
      rw [Option.map_some, Option.toList_some, hline, List.length_map]
      rfl

theorem ReturnsChoices.menu (hsize : 0 < indentSize) {cs cs' : List Choice}
    (h : ReturnsChoices indentSize cs cs' same) (tag : Tag) {head : MenuHead}
    (hhead : head.Proper) :
    Returns indentSize (.menu tag head cs) (.menu ⟨"", none⟩ head.again cs')
      same := by
  obtain ⟨os, os', rows, hcs, hcs', hecho, hlegible⟩ := h
  -- Before the choices there are at most two lines, which are written both
  -- times.
  have hask := @echo_lines indentSize
    ((Written.present head.prompt).map fun p =>
      Phrase.menuPrompt (Written.present head.promptSpeaker) (quoted p))
  have hset := @echo_lines indentSize
    ((Written.present head.setVar).map Phrase.menuSet)
  have hlines : Written.menuLines head
      = (((Written.present head.prompt).map fun p =>
            Phrase.menuPrompt (Written.present head.promptSpeaker)
              (quoted p)).map Outline.line).toList
        ++ (((Written.present head.setVar).map Phrase.menuSet).map
            Outline.line).toList := by
    rw [Option.map_map, Option.map_map]
    rfl
  have hagain : Written.menuLines head.again = Written.menuLines head := by
    simp only [Written.menuLines, MenuHead.again, Draft.present_present]
  have hrows : menuRows head rows
      = (((Written.present head.prompt).map fun p =>
            Phrase.menuPrompt (Written.present head.promptSpeaker)
              (quoted p)).map (Row.mk 0)).toList
        ++ ((((Written.present head.setVar).map Phrase.menuSet).map
            (Row.mk 0)).toList ++ rows) := by
    rw [Option.map_map, Option.map_map]
    rfl
  have hbody : Echo indentSize (Written.menuLines head ++ os)
      (Written.menuLines head ++ os') (menuRows head rows) same := by
    have hall := hask.append (hset.append hecho)
    rw [true_and, true_and, ← List.append_assoc, ← List.append_assoc,
      ← hlines, ← hrows] at hall
    exact hall
  refine ⟨_, _, _, ?_, ?_, hbody.body.block (Int.le_of_lt hsize)
    (Phrase.menuHead (Written.present head.name)
      ((Written.present head.screen).map quoted)),
    legible_menu hhead hlegible (Int.pos_iff_toNat_pos.mp hsize)⟩
  · rw [Written.stmt, hcs]
    rfl
  · rw [Written.stmt, hcs', hagain, MenuHead.again, Draft.present_present,
      Draft.present_present]
    rfl

theorem returnsBranches_nil : ReturnsBranches indentSize [] [] True :=
  ⟨[], [], [], rfl, rfl, echo_nil, legibleBranches_nil⟩

theorem ReturnsBody.branch (hsize : 0 < indentSize)
    (h : ReturnsBody indentSize body body' same)
    {condition : Option String} (line : Option Nat)
    (hcond : ∀ c ∈ condition, Condition c) {bs bs' : List Branch}
    (hmore : ReturnsBranches indentSize bs bs' same')
    (hlast : condition = none → bs' = []) :
    ReturnsBranches indentSize (.mk condition line body :: bs)
      (.mk condition none body' :: bs') (same ∧ same') := by
  obtain ⟨os, os', rows, hss, hss', hbare, hbare', hecho, hlegible⟩ := h
  obtain ⟨as, as', rows', hbs, hbs', hecho', hlegible'⟩ := hmore
  refine ⟨_, _, _, ?_, ?_, (hecho.block (Int.le_of_lt hsize)
    (Phrase.branchHead false condition)).append hecho',
      LegibleBranches.cons hcond hlegible hlegible' hlast
        (Int.pos_iff_toNat_pos.mp hsize)⟩
  · rw [Written.branchBlocks, hss, hbs, ← Written.headed_eq_block hbare]
    rfl
  · rw [Written.branchBlocks, hss', hbs', ← Written.headed_eq_block hbare']
    rfl

theorem ReturnsBody.conditional (hsize : 0 < indentSize)
    (h : ReturnsBody indentSize body body' same) (tag : Tag)
    {condition : String} (line : Option Nat) (hcond : Condition condition)
    {bs bs' : List Branch}
    (hmore : ReturnsBranches indentSize bs bs' same') :
    Returns indentSize
      (.conditional tag (.mk (some condition) line body :: bs))
      (.conditional ⟨"", none⟩ (.mk (some condition) none body' :: bs'))
      (same ∧ same') := by
  obtain ⟨os, os', rows, hss, hss', hbare, hbare', hecho, hlegible⟩ := h
  obtain ⟨as, as', rows', hbs, hbs', hecho', hlegible'⟩ := hmore
  refine ⟨_, _, _, ?_, ?_, (hecho.block (Int.le_of_lt hsize)
    (Phrase.branchHead true (some condition))).append hecho',
      legible_conditional hcond hlegible hlegible'
        (Int.pos_iff_toNat_pos.mp hsize)⟩
  · rw [Written.stmt, Written.branchBlocks, hss, hbs,
      ← Written.headed_eq_block hbare]
    rfl
  · rw [Written.stmt, Written.branchBlocks, hss', hbs',
      ← Written.headed_eq_block hbare']
    rfl

-- ================================================================= trees

mutual

/-- A statement returns if the simple statements in it do. The induction follows
the statement, with one lemma for each compound kind. -/
theorem returns_again (hsize : 0 < indentSize) : ∀ s : Stmt, s.Proper →
    s.Leaves (fun s => Leaf indentSize s (f s)) →
    Returns indentSize s (Stmt.again f s)
      (s.Leaves fun s => linesOf indentSize (f s) = linesOf indentSize s)
  | .simple tag s, _, hleaf => hleaf.simple tag
  | .label tag name o body, hproper, hleaves => by
      obtain ⟨hname, ho, hexact, hbody⟩ := hproper
      exact ((returns_againAll hsize body hbody hleaves).body hexact
        hleaves).label hsize tag hname ho
  | .menu tag head choices, hproper, hleaves =>
      (returns_againChoices hsize choices hproper.2 hleaves).menu hsize tag
        hproper.1
  | .conditional tag [], hproper, _ => absurd rfl hproper.1
  | .conditional tag (.mk none _ _ :: more), hproper, _ => by
      obtain ⟨-, -, hfirst, -⟩ := hproper
      exact absurd (hfirst rfl).1 (by decide)
  | .conditional tag (.mk (some c) line body :: more), hproper, hleaves => by
      obtain ⟨-, hcond, -, hexact, hbody, hmore⟩ := hproper
      exact ((returns_againAll hsize body hbody hleaves.1).body hexact
        hleaves.1).conditional hsize tag line (hcond c rfl)
          (returns_againBranches hsize more hmore hleaves.2)

theorem returns_againAll (hsize : 0 < indentSize) : ∀ ss : List Stmt,
    Stmt.ProperAll ss → Stmt.LeavesAll (fun s => Leaf indentSize s (f s)) ss →
    ReturnsAll indentSize ss (Stmt.againAll f ss)
      (Stmt.LeavesAll (fun s => linesOf indentSize (f s)
        = linesOf indentSize s) ss)
  | [], _, _ => returnsAll_nil
  | s :: more, hproper, hleaves =>
      (returns_again hsize s hproper.1 hleaves.1).cons
        (returns_againAll hsize more hproper.2 hleaves.2)

theorem returns_againChoices (hsize : 0 < indentSize) : ∀ cs : List Choice,
    Choice.ProperAll cs →
    Choice.LeavesAll (fun s => Leaf indentSize s (f s)) cs →
    ReturnsChoices indentSize cs (Choice.againAll f cs)
      (Choice.LeavesAll (fun s => linesOf indentSize (f s)
        = linesOf indentSize s) cs)
  | [], _, _ => returnsChoices_nil
  | .mk said condition line body :: more, hproper, hleaves => by
      obtain ⟨hcond, hexact, hbody, hmore⟩ := hproper
      exact ((returns_againAll hsize body hbody hleaves.1).body hexact
        hleaves.1).choice hsize said line hcond
          (returns_againChoices hsize more hmore hleaves.2)

theorem returns_againBranches (hsize : 0 < indentSize) : ∀ bs : List Branch,
    Branch.ProperAll false bs →
    Branch.LeavesAll (fun s => Leaf indentSize s (f s)) bs →
    ReturnsBranches indentSize bs (Branch.againAll f bs)
      (Branch.LeavesAll (fun s => linesOf indentSize (f s)
        = linesOf indentSize s) bs)
  | [], _, _ => returnsBranches_nil
  | .mk condition line body :: more, hproper, hleaves => by
      obtain ⟨hcond, hlast, hexact, hbody, hmore⟩ := hproper
      refine ((returns_againAll hsize body hbody hleaves.1).body hexact
        hleaves.1).branch hsize line hcond
          (returns_againBranches hsize more hmore hleaves.2) fun hnone => ?_
      rw [(hlast hnone).2, Branch.againAll]

end

end NovelScript.Reading
