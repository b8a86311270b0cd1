/-
A page of one simple statement. If a page reads as a single statement, and that
is a simple one, then the reader took all of its lines for one item, and there
are few ways to do so: one line that is a statement, lines that are kept as raw
text, or the header of a code block and the code below it.

# Quiet items

The argument goes through what is complained about. An item of which nothing is
complained about is one statement (`quietItem_of_itemYield`): a block that
nobody asked for would be a second one, but not without a complaint. So several
items are several statements (`quietItem_cons`), and a page of one statement has
one item. The items are those of the yield, in which what is read of a line no
longer depends on what was read before it.

# Quiet pages

Lines above the first that stands at the margin are complained about, too, so
the page begins at the margin (`depth_of_linesYield`), and a single simple
statement took its first line and the block below it (`single_of_linesYield`).
It is read from them in one of the three ways (`SingleAs`).

# Elsewhere

Rows that read as statements on one page do so on every other, whatever their
numbers are and wherever they stand (`Laid.legible`). That is what turns a page
that was read once into a leaf that can be put anywhere.
-/
import NovelScript.Proofs.Grammar.Worded
import NovelScript.Proofs.Reading.Formed
import NovelScript.Proofs.RoundTrip.Page

namespace NovelScript

/-- Statements with other statements in them; a conditional has a branch. -/
def Stmt.Compound : Stmt → Prop
  | .simple .. => False
  | .conditional _ branches => branches ≠ []
  | _ => True

namespace Reading

open Grammar Source Text

-- ============================================================ elsewhere

/-- Lines with other numbers read the same. -/
theorem readAs_move {ls : List Line} {ss : List Stmt} (f : Nat → Nat) :
    ReadAs (ls.map (Line.move 0 0 f)) ss ↔ ReadAs ls ss := by
  have hyield : itemsYield (itemsOf (ls.map (Line.move 0 0 f)))
      = (itemsYield (itemsOf ls)).move 0 f := by
    rw [itemsOf_move, itemsYield_move]
  have hstarts : Item.NoBranch continuesConditional
      (ls.map (Line.move 0 0 f)) ↔ Item.NoBranch continuesConditional ls := by
    cases ls with
    | nil => exact Iff.rfl
    | cons l ls =>
        constructor
        · intro h m hm
          obtain rfl := Option.some.inj hm
          have hl : continuesConditional (Line.move 0 0 f l) = false :=
            h _ rfl
          exact hl
        · intro h m hm
          obtain rfl := Option.some.inj hm
          exact h l rfl
  constructor
  · rintro ⟨hs, hstmts, hquiet⟩
    rw [hyield] at hstmts hquiet
    refine ⟨hstarts.mp hs, ?_, List.map_eq_nil_iff.mp hquiet⟩
    rw [← hstmts, Yield.move, Stmt.unlabelAll_moveAll]
  · rintro ⟨hs, hstmts, hquiet⟩
    refine ⟨hstarts.mpr hs, ?_, ?_⟩
    · rw [hyield, Yield.move, Stmt.unlabelAll_moveAll, hstmts]
    · rw [hyield, Yield.move, hquiet]
      rfl

/-- Rows that read as statements somewhere do so everywhere. So it is enough to
read a page by itself. -/
theorem Laid.legible {rows : List Row} (h : Laid rows) {tabSize : Int}
    {number : Nat} {ls : List Line} {ss : List Stmt}
    (hscan : scanFrom tabSize [0] number (physical rows) = (ls, []))
    (hread : ReadAs ls ss) : Legible rows ss := by
  refine ⟨h, fun tabSize' number' => ?_⟩
  obtain ⟨as, rfl, hthere⟩ :=
    scanFrom_elsewhere tabSize' number' h.sound hscan
  exact ⟨_, hthere, (readAs_move _).mpr ((readAs_move _).mp hread)⟩

-- ========================================================== quiet items

variable {l : Line} {block : List Line} {us : List Stmt}

theorem single_of_rawYield (h : rawYield l block = ⟨us, []⟩) :
    ∃ s, us = [bareSimple l s] ∧ SingleAs l block s := by
  unfold rawYield at h
  split at h
  · obtain ⟨rfl, -⟩ := Yield.mk.inj h
    exact ⟨_, rfl, .raw⟩
  · obtain ⟨rfl, hfound⟩ := Yield.mk.inj h
    cases block with
    | cons b block => cases hfound
    | nil =>
        have hraw : SingleAs l [] (.raw (Line.relativeText [l])) := .raw
        rw [relativeText_single] at hraw
        exact ⟨_, rfl, hraw⟩

theorem single_of_simpleYield (hl : Scanned l)
    (h : simpleYield l block = ⟨us, []⟩) :
    ∃ s, us = [bareSimple l s] ∧ SingleAs l block s := by
  unfold simpleYield at h
  split at h
  · next s hkind =>
    obtain ⟨rfl, hfound⟩ := Yield.mk.inj h
    cases block with
    | cons b block => cases hfound
    | nil =>
        refine ⟨s, rfl, ?_⟩
        rcases spoken_lineKind hl.unbroken hkind with hs | ⟨rfl, -⟩
        · exact .spoken hs rfl
        · have hraw : SingleAs l [] (.raw (Line.relativeText [l])) := .raw
          rwa [relativeText_single, ← String.ofList_toList (s := l.content)]
            at hraw
  · exact single_of_rawYield h
  · cases (Yield.mk.inj h).2

theorem single_of_codeYield (h : codeYield l block = ⟨us, []⟩) :
    ∃ s, us = [bareSimple l s] ∧ SingleAs l block s := by
  unfold codeYield at h
  split at h
  · next flags hflags =>
    split at h
    · obtain ⟨rfl, -⟩ := Yield.mk.inj h
      exact ⟨_, rfl, .code hflags⟩
    · exact single_of_rawYield h
  · exact single_of_rawYield h

/-- What is read of an item of which nothing is complained about: a compound
statement, or a simple one that takes all lines. -/
inductive QuietItem : Item → Stmt → Prop where
  /-- A statement with others in it. -/
  | compound {i : Item} {u : Stmt} (h : u.Compound) : QuietItem i u
  /-- A simple statement. -/
  | single {l : Line} {items : List Item} {s : Simple}
    (h : SingleAs l (Item.linesOfAll items) s) :
    QuietItem (.plain l items) (bareSimple l s)

/-- An item of which nothing is complained about is one statement. -/
theorem quietItem_of_itemYield {i : Item} (hi : Scanned i.line)
    (h : itemYield i = ⟨us, []⟩) : ∃ u, us = [u] ∧ QuietItem i u := by
  have single : ∀ {l items}, (∃ s, us = [bareSimple l s]
      ∧ SingleAs l (Item.linesOfAll items) s) →
      ∃ u, us = [u] ∧ QuietItem (.plain l items) u := by
    rintro l items ⟨s, hs, hsingle⟩
    exact ⟨_, hs, .single hsingle⟩
  cases i with
  | chain l items branches =>
      rw [itemYield] at h
      obtain ⟨rfl, -⟩ := Yield.mk.inj h
      exact ⟨_, rfl, .compound (List.cons_ne_nil _ _)⟩
  | plain l items =>
      unfold itemYield at h
      split at h
      · split at h
        · exact single (single_of_rawYield h)
        · obtain ⟨rfl, -⟩ := Yield.mk.inj h
          exact ⟨_, rfl, .compound trivial⟩
      · split at h
        · exact single (single_of_rawYield h)
        · split at h
          · obtain ⟨rfl, -⟩ := Yield.mk.inj h
            exact ⟨_, rfl, .compound trivial⟩
          · simp at h
      · cases (Yield.mk.inj h).2
      · cases (Yield.mk.inj h).2
      · exact single (single_of_codeYield h)
      · exact single (single_of_codeYield h)
      · exact single (single_of_simpleYield hi h)

/-- The first of several items of which nothing is complained about. -/
theorem quietItem_cons {i : Item} {rest : List Item} (hi : Scanned i.line)
    (h : itemsYield (i :: rest) = ⟨us, []⟩) :
    ∃ u vs, us = u :: vs ∧ itemYield i = ⟨[u], []⟩ ∧ QuietItem i u
      ∧ itemsYield rest = ⟨vs, []⟩ := by
  rw [itemsYield, Yield.append] at h
  obtain ⟨rfl, hfound⟩ := Yield.mk.inj h
  obtain ⟨hitem, hrest⟩ := List.append_eq_nil_iff.mp hfound
  obtain ⟨u, hu, hquiet⟩ :=
    quietItem_of_itemYield hi (congrArg (Yield.mk _) hitem)
  refine ⟨u, _, by rw [hu]; rfl, ?_, hquiet, congrArg (Yield.mk _) hrest⟩
  rw [← hu, ← hitem]

/-- The line of an item of which nothing is complained about continues no
conditional. -/
theorem continuesConditional_of_quiet {items : List Item}
    (h : (itemYield (.plain l items)).found = []) :
    continuesConditional l = false := by
  by_contra hcont
  rw [itemYield.eq_1] at h
  rcases firstWord?_of_continues (l := l) (by simpa using hcont)
    with hword | hword
  · simp [hword] at h
  · simp [hword] at h

-- ========================================================== quiet pages

/-- Lines of which nothing is complained about begin at the margin. -/
theorem depth_of_linesYield {ls : List Line} (h : linesYield ls = ⟨us, []⟩) :
    ∀ l ∈ ls.head?, l.depth = 0 := by
  intro l hl
  obtain ⟨more, rfl⟩ := List.head?_eq_some_iff.mp hl
  by_contra hdepth
  rw [linesYield, List.takeWhile_cons_of_pos
    (by simpa using Nat.pos_of_ne_zero hdepth), strayYield] at h
  cases (Yield.mk.inj h).2

theorem linesOfAll_itemsOf (ls : List Line) :
    Item.linesOfAll (itemsOf ls) = ls :=
  Item.linesOfAll_ofLines _ _ _

/-- A page of lines that are nothing but one simple statement: a line at the
margin, and what stands below it. What else it could be is excluded by the
complaint or the second statement that it would give. -/
theorem single_of_linesYield {ls : List Line} {tag : Tag} {s : Simple}
    (hs : ∀ l ∈ ls, Scanned l)
    (h : linesYield ls = ⟨[.simple tag s], []⟩) :
    ∃ l block, ls = l :: block ∧ l.depth = 0 ∧ SingleAs l block s
      ∧ ReadAs ls [.simple ⟨"", none⟩ s] := by
  have hdepth := depth_of_linesYield h
  rw [linesYield_margin hdepth] at h
  have hlines := linesOfAll_itemsOf ls
  have hread : (itemsYield (itemsOf ls)).stmts = [.simple tag s]
      ∧ (itemsYield (itemsOf ls)).found = [] := by simp [h]
  cases hitems : itemsOf ls with
  | nil =>
      rw [hitems] at h
      cases (Yield.mk.inj h).1
  | cons i rest =>
      rw [hitems] at h hlines
      have hi : Scanned i.line := hs _ (by
        rw [← hlines]
        cases i <;> exact List.mem_cons_self)
      -- Without a complaint each item yields a statement at least, so there is
      -- one item.
      obtain ⟨u, vs, hstmts, hitem, hquiet, hrest⟩ := quietItem_cons hi h
      obtain ⟨rfl, rfl⟩ := List.cons.inj hstmts
      obtain rfl : rest = [] := by
        cases rest with
        | nil => rfl
        | cons j rest =>
            have hj : Scanned j.line := hs _ (by
              rw [← hlines, Item.linesOfAll]
              refine List.mem_append_right _ ?_
              cases j <;> exact List.mem_cons_self)
            obtain ⟨u, vs, hnil, -⟩ := quietItem_cons hj hrest
            cases hnil
      rw [Item.linesOfAll, Item.linesOfAll, List.append_nil] at hlines
      cases hquiet with
      | compound hcompound => cases hcompound
      | @single l items s hsingle =>
          rw [Item.lines] at hlines
          subst hlines
          refine ⟨l, _, rfl, hdepth l rfl, hsingle, ?_, ?_, hread.2⟩
          · intro b hb
            obtain rfl := Option.some.inj hb
            exact continuesConditional_of_quiet (congrArg Yield.found hitem)
          · rw [hread.1]
            rfl

end Reading

end NovelScript
