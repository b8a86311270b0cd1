/-
What bounds the writing of a script. A writer stops for three things that lie
in no single statement: an indentation that cannot be made, statements that are
nested more deeply than it can follow, and an integer with more digits than are
written out. A script keeps `Within` the limits of a writer if none of these is
in it.

# Depths

The first is asked of the margins, the depths at which lines of the script come
to stand. A line below a header stands one level further in, a choice of a menu
one level below the menu, and a block without statements still has a line of
its own, so margins are not the depths of a walk: a walk counts how many bodies
a statement is nested in, and meets nothing in an empty body.

The second is asked of a walk. Writing a block takes calls only if something is
in the block, so the calls that are used at a statement are counted by the depth
at which a walk meets it, `blockCalls` for each body around it. The invariant of
the induction says just that: at a depth, what is left of the limit and what is
used up for that depth add up to a bound for everything that a walk still meets
(`Limits.Allow`). A block leads from a depth to the next and from the room
around it to the room inside, and the sum stays what it was.

# What follows

Within the limits the draft of a script comes to what the script comes to by the
rules of the language, refusals included (`topLines_eq`). Beyond them it does
not: a tower of labels is not written as soon as it is higher than the limit on
calls allows, and an integer is not written as soon as it is longer than the
limit on digits allows.
-/
import NovelScript.Proofs.Draft.Outlines
import NovelScript.Script

namespace NovelScript

-- ================================================================ margins

mutual

/-- The depths at which the lines of a statement stand. Code is one line or a
header with lines below it; the choices of a menu stand below it. -/
def Stmt.margins (depth : Int) : Stmt → List Int
  | .simple _ (.code c) =>
    match Phrase.code c.code (Written.isSet c.early) (Written.isSet c.hide)
      (Written.isSet c.init) with
    | [.line _] => [depth]
    | _ => [depth, depth + 1]
  | .simple _ _ => [depth]
  | .label _ _ _ body =>
    depth :: (if body.isEmpty then [depth + 1] else Stmt.marginsAll (depth + 1) body)
  | .menu _ _ choices => depth :: (depth + 1) :: Choice.marginsAll (depth + 1) choices
  | .conditional _ branches => Branch.marginsAll depth branches

/-- The depths at which the lines of statements stand. -/
def Stmt.marginsAll (depth : Int) : List Stmt → List Int
  | [] => []
  | s :: more => s.margins depth ++ Stmt.marginsAll depth more

/-- The depths at which the lines below the headers of choices stand. -/
def Choice.marginsAll (depth : Int) : List Choice → List Int
  | [] => []
  | .mk _ _ _ body :: more =>
    (if body.isEmpty then [depth + 1] else Stmt.marginsAll (depth + 1) body)
      ++ Choice.marginsAll depth more

/-- The depths at which the lines of branches stand. -/
def Branch.marginsAll (depth : Int) : List Branch → List Int
  | [] => []
  | .mk _ _ body :: more =>
    depth :: (if body.isEmpty then [depth + 1] else Stmt.marginsAll (depth + 1) body)
      ++ Branch.marginsAll depth more

end

/-- A walk through a statement begins with the statement. -/
theorem Walk.mem_ofStmt (depth : Nat) (s : Stmt) :
    (depth, s) ∈ Walk.ofStmt depth s := by
  cases s <;> exact List.mem_cons_self

section Margins

variable {depth : Int} {base top : Nat}

/-- The margins of what stands below a header, if those of its statements are
bounded. -/
theorem margins_body_le {body : List Stmt}
    (hwalk : ∀ m ∈ Walk.ofStmts (base + 1) body, m.1 ≤ top)
    (ih : base + 1 ≤ top → ∀ d ∈ Stmt.marginsAll (depth + 1) body,
      depth + 1 ≤ d ∧ d ≤ depth + 1 + 2 * (top - (base + 1 : Nat)) + 2)
    (hbase : base ≤ top) :
    ∀ d ∈ (if body.isEmpty then [depth + 1]
      else Stmt.marginsAll (depth + 1) body),
      depth + 1 ≤ d ∧ d ≤ depth + 1 + 2 * (top - base) := by
  intro d hd
  cases body with
  | nil =>
      obtain rfl := List.mem_singleton.mp hd
      omega
  | cons s more =>
      have hfirst := hwalk (base + 1, s)
        (List.mem_append_left _ (Walk.mem_ofStmt _ s))
      have := ih hfirst d hd
      omega

mutual

/-- The margins of a statement lie at its depth or deeper, and two levels for
each body that a walk goes into are enough for them. -/
theorem Stmt.margins_le : ∀ (s : Stmt) {depth : Int} {base : Nat},
    (∀ m ∈ Walk.ofStmt base s, m.1 ≤ top) → base ≤ top →
    ∀ d ∈ s.margins depth, depth ≤ d ∧ d ≤ depth + 2 * (top - base) + 2
  | .simple tag s, depth, base, _, hbase, d, hd => by
      have hmargin : d = depth ∨ d = depth + 1 := by
        cases s with
        | code c =>
            rw [Stmt.margins] at hd
            split at hd
            · exact .inl (List.mem_singleton.mp hd)
            · simpa using hd
        | _ => exact .inl (List.mem_singleton.mp hd)
      omega
  | .label tag name o body, depth, base, hwalk, hbase, d, hd => by
      have hinner := fun m hm => hwalk m (List.mem_cons_of_mem _ hm)
      rcases List.mem_cons.mp hd with rfl | hd
      · omega
      · have := margins_body_le hinner (Stmt.marginsAll_le body hinner) hbase
          d hd
        omega
  | .menu tag head choices, depth, base, hwalk, hbase, d, hd => by
      have hinner := fun m hm => hwalk m (List.mem_cons_of_mem _ hm)
      rcases List.mem_cons.mp hd with rfl | hd
      · omega
      rcases List.mem_cons.mp hd with rfl | hd
      · omega
      · have := Choice.marginsAll_le choices hinner hbase d hd
        omega
  | .conditional tag branches, depth, base, hwalk, hbase, d, hd => by
      have := Branch.marginsAll_le branches
        (fun m hm => hwalk m (List.mem_cons_of_mem _ hm)) hbase d hd
      omega

theorem Stmt.marginsAll_le : ∀ (ss : List Stmt) {depth : Int} {base : Nat},
    (∀ m ∈ Walk.ofStmts base ss, m.1 ≤ top) → base ≤ top →
    ∀ d ∈ Stmt.marginsAll depth ss,
      depth ≤ d ∧ d ≤ depth + 2 * (top - base) + 2
  | s :: more, depth, base, hwalk, hbase, d, hd => by
      rcases List.mem_append.mp hd with hd | hd
      · exact Stmt.margins_le s
          (fun m hm => hwalk m (List.mem_append_left _ hm)) hbase d hd
      · exact Stmt.marginsAll_le more
          (fun m hm => hwalk m (List.mem_append_right _ hm)) hbase d hd

theorem Choice.marginsAll_le : ∀ (cs : List Choice) {depth : Int} {base : Nat},
    (∀ m ∈ Walk.ofChoices (base + 1) cs, m.1 ≤ top) → base ≤ top →
    ∀ d ∈ Choice.marginsAll depth cs,
      depth + 1 ≤ d ∧ d ≤ depth + 1 + 2 * (top - base)
  | .mk _ _ _ body :: more, depth, base, hwalk, hbase, d, hd => by
      have hinner := fun m hm => hwalk m (List.mem_append_left _ hm)
      rcases List.mem_append.mp hd with hd | hd
      · exact margins_body_le hinner (Stmt.marginsAll_le body hinner) hbase d hd
      · exact Choice.marginsAll_le more
          (fun m hm => hwalk m (List.mem_append_right _ hm)) hbase d hd

theorem Branch.marginsAll_le : ∀ (bs : List Branch) {depth : Int} {base : Nat},
    (∀ m ∈ Walk.ofBranches (base + 1) bs, m.1 ≤ top) → base ≤ top →
    ∀ d ∈ Branch.marginsAll depth bs,
      depth ≤ d ∧ d ≤ depth + 1 + 2 * (top - base)
  | .mk _ _ body :: more, depth, base, hwalk, hbase, d, hd => by
      have hinner := fun m hm => hwalk m (List.mem_append_left _ hm)
      rcases List.mem_cons.mp hd with rfl | hd
      · omega
      rcases List.mem_append.mp hd with hd | hd
      · have := margins_body_le hinner (Stmt.marginsAll_le body hinner) hbase
          d hd
        omega
      · exact Branch.marginsAll_le more
          (fun m hm => hwalk m (List.mem_append_right _ hm)) hbase d hd

end

end Margins

-- ================================================================= limits

/-- The integers that are written with a statement itself. -/
def Stmt.integers : Stmt → List Int
  | .simple _ s => s.integers
  | _ => []

namespace Draft

/-- What a walk has met from a depth on keeps within limits that are left at
that depth. -/
structure Limits.Allow (l : Limits) (base : Nat) (met : List (Nat × Stmt)) :
    Prop where
  /-- Nothing is nested more deeply than there are calls left. -/
  nested : ∀ m ∈ met, ∀ n ∈ l.calls, blockCalls * m.1 ≤ n + blockCalls * base
  /-- No integer is longer than integers are written. -/
  spelled : ∀ m ∈ met, ∀ i ∈ m.2.integers, ∀ most ∈ l.digits,
    i.natAbs < 10 ^ most

namespace Limits

variable {l : Limits} {base : Nat}

theorem allow_append {as bs : List (Nat × Stmt)} :
    l.Allow base (as ++ bs) ↔ l.Allow base as ∧ l.Allow base bs := by
  constructor
  · rintro ⟨hnested, hspelled⟩
    rw [List.forall_mem_append] at hnested hspelled
    exact ⟨⟨hnested.1, hspelled.1⟩, ⟨hnested.2, hspelled.2⟩⟩
  · rintro ⟨ha, hb⟩
    exact ⟨List.forall_mem_append.mpr ⟨ha.nested, hb.nested⟩,
      List.forall_mem_append.mpr ⟨ha.spelled, hb.spelled⟩⟩

theorem Allow.tail {m : Nat × Stmt} {met : List (Nat × Stmt)}
    (h : l.Allow base (m :: met)) : l.Allow base met :=
  ⟨fun m hm => h.nested m (List.mem_cons_of_mem _ hm),
    fun m hm => h.spelled m (List.mem_cons_of_mem _ hm)⟩

end Limits

/-- Where a walk may still meet something a level further in, there is room for
the block that it stands in, and inside the block there is room for the same. -/
theorem Room.exists_inside {room : Room} {base : Nat} {s : Stmt}
    {more : List Stmt}
    (h : room.Allow base (Walk.ofStmts (base + 1) (s :: more))) :
    ∃ inner : Room, room.inside = .ok inner ∧ inner.pad = room.pad
      ∧ inner.Allow (base + 1) (Walk.ofStmts (base + 1) (s :: more)) := by
  unfold Room.inside
  cases hcalls : room.calls with
  | none =>
      refine ⟨room, rfl, rfl, fun m _ n hn => ?_, h.spelled⟩
      rw [hcalls] at hn
      cases hn
  | some n =>
      have hfirst : blockCalls * (base + 1) ≤ n + blockCalls * base :=
        h.nested (base + 1, s) (List.mem_append_left _ (Walk.mem_ofStmt _ s)) n hcalls
      have hroom : blockCalls ≤ n := by
        rw [Nat.mul_succ] at hfirst
        omega
      refine ⟨_, if_neg (Nat.not_lt.mpr hroom), rfl, fun m hm left hleft => ?_,
        h.spelled⟩
      obtain rfl := Option.some.inj hleft
      have hm := h.nested m hm n hcalls
      rw [Nat.mul_succ]
      omega

end Draft

/-- A script keeps within limits and within a layout: no statement is nested
deeper than there are calls for, every integer can be written out, and every
indentation can be made. -/
structure Script.Within (s : Script) (limits : Draft.Limits)
    (layout : Draft.Layout) : Prop where
  /-- Every indentation can be made. -/
  padded : ∀ depth ∈ Stmt.marginsAll 0 s.statements, layout.room depth = .ok ()
  /-- Nothing is nested too deeply, and no integer is too long. -/
  allowed : limits.Allow 0 (Walk.ofStmts 0 s.statements)

namespace Draft

open Outline (FitsAll fitsAll_block fitsAll_line)

variable {room : Room} {depth : Int}

-- ================================================================ results

section Results

variable {ε ε' α β : Type}

theorem mapError_bind (r : Except ε α) (k : α → Except ε β) (f : ε → ε') :
    (r >>= k).mapError f = r.mapError f >>= fun a => (k a).mapError f := by
  cases r <;> rfl

theorem mapError_pure (a : α) (f : ε → ε') :
    (pure a : Except ε α).mapError f = pure a := rfl

end Results

/-- What is written of statements, as the writer of drafts gives it. -/
abbrev lifted {α : Type} (r : Except WriteError α) : Except Fault α :=
  r.mapError .unwritable

-- ===================================================== simple statements

/-- A line that is refused is so before its indentation is made. -/
theorem sayLine_refused {tag : Tag} {d : Dialogue} {pad : Except Fault Unit}
    {e : WriteError} (h : Written.speaking tag.id d = .error e) :
    sayLine pad (ofTagged .dialogue tag (ofSimple (.say d)).2)
      = .error (.unwritable e) := by
  have hwho := who_eq d
  unfold Written.speaking at h
  generalize (if Written.isSet d.extend = true then ["extend"]
    else (Written.present d.speaker).toList) = names at hwho h
  simp only at h
  split at h
  · rename_i hnobody
    obtain ⟨hnames, hsome⟩ := Bool.and_eq_true_iff.mp hnobody
    obtain rfl := List.isEmpty_iff.mp hnames
    obtain rfl := Except.error.inj h
    have hpresent : (optTexts d.attributes).isPresent = true := by
      rw [isPresent_optTexts, hsome]
    simp [-bind_pure_comp, sayLine, ofTagged, ofSimple, bind_ok, hwho,
      hpresent]
    rfl
  · cases h

/-- The lines of a simple statement fit where it stands. -/
theorem fitsAll_simple {tag : Tag} {s : Simple} {os : List Outline}
    (hs : Written.simple tag.id s = .ok os)
    (hpad : ∀ d ∈ (Stmt.simple tag s).margins depth, room.pad d = .ok ()) :
    FitsAll room.pad depth os := by
  cases s with
  | say d =>
      obtain ⟨who, -, hline⟩ := bind_eq_ok.mp hs
      obtain rfl := pure_eq_ok.mp hline
      exact ⟨hpad depth List.mem_cons_self, trivial⟩
  | code c =>
      obtain rfl := pure_eq_ok.mp hs
      rw [Stmt.margins] at hpad
      rcases code_cases c.code (Written.isSet c.early) (Written.isSet c.hide)
        (Written.isSet c.init) with ⟨t, h⟩ | ⟨head, ts, h⟩
      · rw [h] at hpad ⊢
        exact ⟨hpad depth List.mem_cons_self, trivial⟩
      · rw [h] at hpad ⊢
        exact fitsAll_block.mpr ⟨hpad depth (by simp),
          hpad (depth + 1) (by simp)⟩
  | raw content =>
      obtain rfl := pure_eq_ok.mp hs
      exact (fitsAll_line (Text.splitLines_ne_nil content)).mpr
        (hpad depth List.mem_cons_self)
  | _ =>
      obtain rfl := pure_eq_ok.mp hs
      exact ⟨hpad depth List.mem_cons_self, trivial⟩

/-- Where its indentations can be made and its integers written out, the draft
of a simple statement comes to what the statement comes to. -/
theorem simpleOutline_eq (tag : Tag) (s : Simple)
    (hpad : ∀ d ∈ (Stmt.simple tag s).margins depth, room.pad d = .ok ())
    (hspells : ∀ i ∈ s.integers, room.Spells i) :
    simpleOutline room depth (ofSimple s).1
        (ofTagged (ofSimple s).1 tag (ofSimple s).2)
      = lifted (Written.simple tag.id s) := by
  cases hs : Written.simple tag.id s with
  | ok os =>
      exact (simpleOutline_eq_ok tag s hspells).mpr ⟨hs, fitsAll_simple hs hpad⟩
  | error e =>
      cases s with
      | say d =>
          have hspeaking : Written.speaking tag.id d = .error e := by
            cases hwho : Written.speaking tag.id d with
            | ok who => rw [Written.simple, hwho] at hs; cases hs
            | error e' =>
                rw [Written.simple, hwho] at hs
                exact congrArg Except.error (Except.error.inj hs)
          show (sayLine (room.pad depth) (ofTagged .dialogue tag
            (ofSimple (.say d)).2) >>= fun t => pure [Outline.line t]) = _
          rw [sayLine_refused hspeaking]
          rfl
      | _ => cases hs

-- ===================================================== nested statements

/-- A body without statements needs the indentation of one line. -/
theorem bodyOutline_nil (head : String) (more : List (String × Draft)) :
    bodyOutline room depth head (("body", .list (ofStmts [])) :: more)
      = (do
        room.pad depth
        pure (.block head [])) := by
  unfold bodyOutline
  rw [if_pos rfl]
  rfl

/-- A body with statements is written in the room inside the block. -/
theorem bodyOutline_cons (head : String) (s : Stmt) (ss : List Stmt)
    (more : List (String × Draft)) :
    bodyOutline room depth head (("body", .list (ofStmts (s :: ss))) :: more)
      = (do
        let inner ← room.inside
        pure (Written.headed head true
          (← outlines inner depth (ofStmts (s :: ss))))) := by
  unfold bodyOutline
  rw [if_pos rfl]
  rfl

/-- Where there is room for it, a body comes to what its statements come
to. -/
theorem bodyOutline_eq {body : List Stmt} {base : Nat}
    (ih : ∀ inner : Room,
      (∀ d ∈ Stmt.marginsAll depth body, inner.pad d = .ok ()) →
      inner.Allow (base + 1) (Walk.ofStmts (base + 1) body) →
      outlines inner depth (ofStmts body) = lifted (Written.stmts body))
    (hpad : ∀ d ∈ (if body.isEmpty then [depth]
      else Stmt.marginsAll depth body), room.pad d = .ok ())
    (hallow : room.Allow base (Walk.ofStmts (base + 1) body))
    (head : String) (more : List (String × Draft)) :
    bodyOutline room depth head (("body", .list (ofStmts body)) :: more)
      = lifted (do
          let inner ← Written.stmts body
          pure (Written.headed head (!body.isEmpty) inner)) := by
  cases body with
  | nil =>
      rw [bodyOutline_nil, hpad depth List.mem_cons_self]
      rfl
  | cons s ss =>
      obtain ⟨inner, hinside, hsame, hinner⟩ := Room.exists_inside hallow
      rw [bodyOutline_cons, hinside, bind_ok,
        ih inner (hsame ▸ hpad) hinner, lifted, lifted, mapError_bind]
      rfl

mutual

/-- Where there is room for it, the draft of a statement comes to what the
statement comes to. -/
theorem outline_eq : ∀ (s : Stmt) {room : Room} {depth : Int} {base : Nat},
    (∀ d ∈ s.margins depth, room.pad d = .ok ()) →
    room.Allow base (Walk.ofStmt base s) →
    outline room depth (ofStmt s) = lifted (Written.stmt s)
  | .simple tag s, room, depth, base, hpad, hallow => by
      have hspells : ∀ i ∈ s.integers, room.Spells i :=
        hallow.spelled (base, .simple tag s) List.mem_cons_self
      rw [Written.stmt, ← simpleOutline_eq tag s hpad hspells, ofStmt, ofTagged]
      obtain ⟨hlabel, hmenu, hconditional⟩ := kind_ofSimple s
      rw [outline] <;> simp [hlabel, hmenu, hconditional]
  | .label tag name o body, room, depth, base, hpad, hallow => by
      obtain ⟨hhere, hbody⟩ := List.forall_mem_cons.mp hpad
      rw [outline_label, hhere, bind_ok, bodyOutline_eq
        (fun inner hpad => outlines_eq body hpad) hbody hallow.tail,
        Written.stmt]
      simp only [lifted, mapError_bind, mapError_pure, bind_assoc, pure_bind]
  | .menu tag head choices, room, depth, base, hpad, hallow => by
      obtain ⟨hhere, hpad⟩ := List.forall_mem_cons.mp hpad
      obtain ⟨hnext, hchoices⟩ := List.forall_mem_cons.mp hpad
      rw [outline_menu, hhere, bind_ok, hnext, bind_ok,
        choiceOutlines_eq choices hchoices hallow.tail, Written.stmt]
      simp only [lifted, mapError_bind, mapError_pure]
  | .conditional tag branches, room, depth, base, hpad, hallow => by
      rw [outline_conditional, branchOutlines_eq branches hpad hallow.tail,
        Written.stmt]

theorem outlines_eq : ∀ (ss : List Stmt) {room : Room} {depth : Int}
    {base : Nat}, (∀ d ∈ Stmt.marginsAll depth ss, room.pad d = .ok ()) →
    room.Allow base (Walk.ofStmts base ss) →
    outlines room depth (ofStmts ss) = lifted (Written.stmts ss)
  | [], _, _, _, _, _ => rfl
  | s :: more, room, depth, base, hpad, hallow => by
      obtain ⟨hfirst, hrest⟩ := List.forall_mem_append.mp hpad
      obtain ⟨hs, hmore⟩ := Limits.allow_append.mp hallow
      rw [ofStmts, outlines, outline_eq s hfirst hs, outlines_eq more hrest
        hmore, Written.stmts]
      simp only [lifted, mapError_bind, mapError_pure]

theorem choiceOutlines_eq : ∀ (cs : List Choice) {room : Room} {depth : Int}
    {base : Nat}, (∀ d ∈ Choice.marginsAll depth cs, room.pad d = .ok ()) →
    room.Allow base (Walk.ofChoices (base + 1) cs) →
    choiceOutlines room depth (ofChoices cs) = lifted (Written.choiceBlocks cs)
  | [], _, _, _, _, _ => rfl
  | .mk said condition line body :: more, room, depth, base, hpad, hallow => by
      obtain ⟨hbody, hrest⟩ := List.forall_mem_append.mp hpad
      obtain ⟨hinner, hmore⟩ := Limits.allow_append.mp hallow
      rw [choiceOutlines_cons, bodyOutline_eq
        (fun inner hpad => outlines_eq body hpad) hbody hinner,
        choiceOutlines_eq more hrest hmore, Written.choiceBlocks]
      simp only [lifted, mapError_bind, mapError_pure, bind_assoc, pure_bind]

theorem branchOutlines_eq : ∀ (bs : List Branch) {room : Room} {depth : Int}
    {base : Nat} {first : Bool},
    (∀ d ∈ Branch.marginsAll depth bs, room.pad d = .ok ()) →
    room.Allow base (Walk.ofBranches (base + 1) bs) →
    branchOutlines room depth first (ofBranches bs)
      = lifted (Written.branchBlocks first bs)
  | [], _, _, _, _, _, _ => rfl
  | .mk condition line body :: more, room, depth, base, first, hpad,
      hallow => by
      obtain ⟨hhere, hpad⟩ := List.forall_mem_cons.mp hpad
      obtain ⟨hbody, hrest⟩ := List.forall_mem_append.mp hpad
      obtain ⟨hinner, hmore⟩ := Limits.allow_append.mp hallow
      rw [branchOutlines_cons, hhere, bind_ok, bodyOutline_eq
        (fun inner hpad => outlines_eq body hpad) hbody hinner,
        branchOutlines_eq more hrest hmore, Written.branchBlocks]
      simp only [lifted, mapError_bind, mapError_pure, bind_assoc, pure_bind]

end

/-- Within its bounds, the draft of a script comes to the lines that the script
comes to. -/
theorem topLines_eq (limits : Limits) (layout : Layout) : ∀ ss : List Stmt,
    (∀ d ∈ Stmt.marginsAll 0 ss, layout.room d = .ok ()) →
    limits.Allow 0 (Walk.ofStmts 0 ss) →
    topLines limits layout (ofStmts ss)
      = lifted (Written.topLines ⟨layout.width, layout.blankLines⟩ ss)
  | [], _, _ => rfl
  | s :: more, hpad, hallow => by
      obtain ⟨hfirst, hrest⟩ := List.forall_mem_append.mp hpad
      obtain ⟨hs, hmore⟩ := Limits.allow_append.mp hallow
      rw [ofStmts, topLines, gap_ofStmt,
        @outline_eq s ⟨limits, layout.room⟩ 0 0 hfirst hs,
        topLines_eq limits layout more hrest hmore, Written.topLines]
      simp only [lifted, mapError_bind, mapError_pure, bind_ok]

-- ======================================================== beyond the limits

/-- Labels nested in each other, so many below the first. -/
def tower : Nat → Stmt
  | 0 => .label ⟨"n_0", none⟩ "a" none []
  | n + 1 => .label ⟨"n_" ++ toString (n + 1), none⟩ "a" none [tower n]

/-- A tower is too high for whoever has fewer calls left than its blocks
take. -/
theorem outline_tower (n : Nat) {room : Room} {depth : Int} {calls : Nat}
    (hcalls : room.calls = some calls) (hhigh : calls < blockCalls * n)
    (hpad : ∀ d, depth ≤ d → d ≤ depth + n → room.pad d = .ok ()) :
    outline room depth (ofStmt (tower n)) = .error (.excess .depth) := by
  induction n generalizing room depth calls with
  | zero => exact absurd hhigh (Nat.not_lt_zero _)
  | succ n ih =>
      have hhere : room.pad depth = .ok () := hpad depth (by omega) (by omega)
      rw [tower, outline_label, hhere, bind_ok, bodyOutline_cons, Room.inside,
        hcalls]
      simp only
      split
      · rfl
      · next hleft =>
        have hinner := @ih { room with calls := some (calls - blockCalls) }
          (depth + 1) (calls - blockCalls) rfl
          (by rw [Nat.mul_succ] at hhigh; omega)
          fun d hlow hhigh => hpad d (by omega) (by push_cast; omega)
        rw [bind_ok, ofStmts, outlines, hinner]
        rfl

/-- An integer is too long for whoever writes no more than so many digits. -/
theorem outline_pause {room : Room} {depth : Int} {most : Nat} {i : Int}
    (hdigits : room.digits = some most) (hlong : 10 ^ most ≤ i.natAbs)
    (tag : Tag) :
    outline room depth (ofStmt (.simple tag (.pause (some (.int i)))))
      = .error (.unwritable .overlong) := by
  have hspell : room.spell (optNumber (some (.int i)))
      = .error (.unwritable .overlong) := by
    show room.spell (.number (.int i)) = _
    rw [Room.spell, hdigits]
    exact if_pos hlong
  rw [ofStmt, ofTagged]
  rw [outline] <;>
    simp [-bind_pure_comp, simpleOutline, ofSimple, Room.number?, hspell,
      bind_ok]
  rfl

end Draft

end NovelScript
