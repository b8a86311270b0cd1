/-
Reading never fails, whatever the source. Reading is a function without errors
here, so that alone says nothing; what is proved is that each thing a reading
does that could go wrong goes right (`Faultless`).

# What could go wrong

* A making might be refused. The script is made once more by hand
  (`makeScript`), with every statement, branch and choice on the way, and the
  making goes through and gives what was read (`run_makeScript`).
* A line might be left over. Every line of the source belongs to one of the
  statements, and they are in the order of the lines (`OwnsAll`).
* The depth of the lines might jump. It climbs one level at a time (`Climbs`).
* A literal or a numeral that a rule finds might not be one for the conversion
  behind it. Literals stand for a text, and numerals for the number that a tool
  gives for their characters, an integer or a double.

# What is complained about

Complaints come in the order of the lines, are about lines that are there, and
hold all that the scanner complained about. That they are about lines that are
there is shown over the yield, item by item (`Located`); a menu that is given up
adds the line that does not belong there, which is one of its own.
-/
import Mathlib.Data.List.Perm.Subperm
import NovelScript.Proofs.Number.Accepted
import NovelScript.Proofs.Reading.Making

namespace NovelScript.Reading

open Text Grammar Item

-- ========================================================== complaints

/-- Complaints about lines that are there. It is stated of lines in general, so
that it can be shown item by item. -/
def Located (ls : List Line) (ds : List Diagnostic) : Prop :=
  ∀ d ∈ ds, ∃ l ∈ ls, l.number = d.line

theorem located_nil (ls : List Line) : Located ls [] := by simp [Located]

theorem Located.cons {ls : List Line} {ds : List Diagnostic} {l : Line}
    (hl : l ∈ ls) (c : Cause) (h : Located ls ds) :
    Located ls (⟨l.number, c⟩ :: ds) :=
  List.forall_mem_cons.mpr ⟨⟨l, hl, rfl⟩, h⟩

theorem Located.append {ls : List Line} {as bs : List Diagnostic}
    (ha : Located ls as) (hb : Located ls bs) : Located ls (as ++ bs) :=
  List.forall_mem_append.mpr ⟨ha, hb⟩

theorem Located.mono {ls more : List Line} {ds : List Diagnostic}
    (h : Located ls ds) (hsub : ls ⊆ more) : Located more ds := by
  intro d hd
  obtain ⟨l, hl, hn⟩ := h d hd
  exact ⟨l, hsub hl, hn⟩

theorem located_colonFound {ls : List Line} {l : Line} (hl : l ∈ ls)
    (header : Header) : Located ls (colonFound l header) := by
  unfold colonFound
  split
  · exact located_nil ls
  · exact (located_nil ls).cons hl _

theorem located_strayYield (ls : List Line) :
    Located ls (strayYield ls).found := by
  cases ls with
  | nil => exact located_nil []
  | cons l ls => exact (located_nil _).cons List.mem_cons_self _

theorem located_rawYield (l : Line) (block : List Line) :
    Located (l :: block) (rawYield l block).found := by
  unfold rawYield
  split
  · exact located_nil _
  · exact (located_strayYield block).mono (List.subset_cons_self l block)

theorem located_simpleYield (l : Line) (block : List Line) :
    Located (l :: block) (simpleYield l block).found := by
  unfold simpleYield
  split
  · exact (located_strayYield block).mono (List.subset_cons_self l block)
  · exact located_rawYield l block
  · exact (located_rawYield l block).cons List.mem_cons_self _

theorem located_codeYield (l : Line) (block : List Line) :
    Located (l :: block) (codeYield l block).found := by
  unfold codeYield
  split
  · split
    · exact located_nil _
    · exact located_rawYield l block
  · exact located_rawYield l block

/-- Complaints about the lines of a menu, and a line that does not belong
there. -/
def MenuLocated (ls : List Line)
    (y : Except Line MenuParts × List Diagnostic) : Prop :=
  Located ls y.2 ∧ ∀ bad, y.1 = .error bad → bad ∈ ls

mutual

theorem located_itemYield : ∀ i, Located (lines i) (itemYield i).found
  | .plain l block => by
      have hl : l ∈ lines (.plain l block) := List.mem_cons_self
      have hsub : linesOfAll block ⊆ lines (.plain l block) :=
        List.subset_cons_self l _
      have hbody := (located_itemsYield block).mono hsub
      obtain ⟨hmenu, hbad⟩ := menuLocated_menuYield {} block
      have hraw := located_rawYield l (linesOfAll block)
      unfold itemYield
      split
      · split
        · exact hraw
        · exact (located_colonFound hl _).append hbody
      · split
        · exact hraw
        · split
          · next parts found hm =>
            rw [hm] at hmenu
            exact (located_colonFound hl _).append (hmenu.mono hsub)
          · -- The menu is given up with one complaint, which is about a line in
            -- its block.
            next bad found hm =>
            have := hsub (hbad bad (by rw [hm]))
            exact (located_colonFound hl _).append
              ((located_nil _).cons this _)
      · exact hraw.cons hl _
      · exact hraw.cons hl _
      · exact located_codeYield l _
      · exact located_codeYield l _
      · exact located_simpleYield l _
  | .chain l block branches => by
      have hl : l ∈ lines (.chain l block branches) := by simp [lines]
      unfold itemYield
      refine ((located_colonFound hl _).append
        ((located_itemsYield block).mono fun b hb => ?_)).append
        ((located_branchesYield false branches).mono fun b hb => ?_)
      · exact List.mem_append_left _ (List.mem_cons_of_mem l hb)
      · exact List.mem_append_right _ hb

theorem located_itemsYield :
    ∀ is, Located (linesOfAll is) (itemsYield is).found
  | [] => located_nil _
  | i :: more => by
      unfold itemsYield
      exact ((located_itemYield i).mono (List.subset_append_left _ _)).append
        ((located_itemsYield more).mono (List.subset_append_right _ _))

theorem located_branchesYield : ∀ seenElse bs,
    Located (linesOfBranches bs) (branchesYield seenElse bs).2
  | _, [] => located_nil _
  | seenElse, (l, block) :: more => by
      have hl : l ∈ linesOfBranches ((l, block) :: more) := by
        simp [linesOfBranches]
      unfold branchesYield
      refine (((?_ : Located _ _).append (located_colonFound hl _)).append
        ((located_itemsYield block).mono fun b hb => ?_)).append
        ((located_branchesYield _ more).mono fun b hb => ?_)
      · split
        · exact (located_nil _).cons hl _
        · exact located_nil _
      · exact List.mem_append_left _ (List.mem_cons_of_mem l hb)
      · exact List.mem_append_right _ hb

theorem menuLocated_menuYield : ∀ m is,
    MenuLocated (linesOfAll is) (menuYield m is)
  | _, [] => ⟨located_nil _, by rintro bad ⟨⟩⟩
  | m, .plain l block :: more => by
      have hl : l ∈ linesOfAll (.plain l block :: more) := by
        simp [linesOfAll, lines]
      have hsub : linesOfAll more ⊆ linesOfAll (.plain l block :: more) :=
        List.subset_append_right _ _
      have hrest : ∀ m, MenuLocated (linesOfAll (.plain l block :: more))
          (menuYield m more) := fun m =>
        ⟨(menuLocated_menuYield m more).1.mono hsub,
          fun bad hbad => hsub ((menuLocated_menuYield m more).2 bad hbad)⟩
      unfold menuYield
      split
      · exact hrest _
      · refine ⟨((located_colonFound hl _).append
          ((located_itemsYield block).mono fun b hb => ?_)).append
          (hrest _).1, (hrest _).2⟩
        exact List.mem_append_left _ (List.mem_cons_of_mem l hb)
      · exact ⟨located_nil _, by rintro bad ⟨⟩; exact hl⟩
  | m, .chain l block branches :: more => by
      have hl : l ∈ linesOfAll (.chain l block branches :: more) := by
        simp [linesOfAll, lines]
      have hsub : linesOfAll more
          ⊆ linesOfAll (.chain l block branches :: more) :=
        List.subset_append_right _ _
      unfold menuYield
      split
      · exact ⟨(menuLocated_menuYield _ more).1.mono hsub,
          fun bad hbad => hsub ((menuLocated_menuYield _ more).2 bad hbad)⟩
      · refine ⟨located_nil _, ?_⟩
        rintro bad ⟨⟩
        simp [linesOfAll, lines, linesOfBranches]
      · exact ⟨located_nil _, by rintro bad ⟨⟩; exact hl⟩

end

theorem located_linesYield (ls : List Line) :
    Located ls (linesYield ls).found := by
  have hitems := located_itemsYield (ofLines opensConditional
    continuesConditional (ls.dropWhile (0 < ·.depth)))
  rw [linesOfAll_ofLines] at hitems
  exact ((located_strayYield _).mono (List.takeWhile_sublist _).subset).append
    (hitems.mono (List.dropWhile_sublist _).subset)

/-- All complaints about a source are about lines that are there. -/
theorem located_found (tabSize : Int) (source : String) :
    Located (Source.scan tabSize source).1 ((Source.scan tabSize source).2
      ++ (linesYield (Source.scan tabSize source).1).found) :=
  Located.append (Source.exists_line_of_mem_scan tabSize source)
    (located_linesYield _)

-- ============================================================== scripts

variable (now : Timestamp) (tabSize : Int) (numbering : Numbering)
  (file version source : String)

/-- The script that reading a source gives, if it was asked for under a
version of the format. -/
def readScript : Script :=
  ⟨(read tabSize numbering source).1,
    ⟨file, now, if version = "" then formatVersion else version⟩⟩

/-- Making a script by hand from a source goes through, takes the same
identities as reading does, and complains about the same. -/
theorem run_makeScript :
    ∃ found, (makeScript now tabSize file version source).run { numbering }
        = .ok (Draft.ofScript
            (readScript now tabSize numbering file version source),
            ⟨(read tabSize numbering source).2.2, found⟩)
      ∧ (read tabSize numbering source).2.1
        = found.mergeSort (fun a b => a.line ≤ b.line) := by
  have hodd : (toldOnly (Source.scan tabSize source).2).run now { numbering }
      = .ok ((), { numbering, found := (Source.scan tabSize source).2 }) := rfl
  have hlines := @makes_lines now _ (Source.scanned_of_mem_scan tabSize source)
    { numbering, found := (Source.scan tabSize source).2 }
  refine ⟨_, ?_, rfl⟩
  show (planScript tabSize file version source).run now { numbering } = _
  unfold planScript
  rw [Plan.run_bind hodd, Plan.run_bind hlines,
    run_made (build_script now _ _ file version)]
  rfl

/-- What it means that a source is read without fault, one field for each thing
that could go wrong in a reading. -/
structure Faultless : Prop where
  /-- No making is refused. -/
  made : ∃ found,
    (makeScript now tabSize file version source).run { numbering }
        = .ok (Draft.ofScript
            (readScript now tabSize numbering file version source),
            ⟨(read tabSize numbering source).2.2, found⟩)
      ∧ (read tabSize numbering source).2.1
        = found.mergeSort (fun a b => a.line ≤ b.line)
  /-- All lines are used up. -/
  used : OwnsAll (read tabSize numbering source).1
    (Source.scan tabSize source).1 []
  /-- No depth jumps. -/
  climbs : Source.Climbs 0 (Source.scan tabSize source).1
  /-- A literal that a rule finds in a line stands for a text. -/
  literals : ∀ l ∈ (Source.scan tabSize source).1,
    ∀ cs, cs <:+: l.content.toList → ∀ literal rest,
      literal? cs = some (literal, rest) → (unquote? literal).isSome
  /-- A numeral that a rule finds in a line is converted to the number that
  it is taken for. -/
  numerals : ∀ l ∈ (Source.scan tabSize source).1,
    ∀ cs, cs <:+: l.content.toList → ∀ m, Numeral.read? cs = some m →
      some m.toNumber = if m.isInteger then (Number.readInt? cs).map .int
        else (Number.readDouble? cs).map .double
  /-- Complaints come in the order of their lines. -/
  ordered : (read tabSize numbering source).2.1.Pairwise
    (fun a b => a.line ≤ b.line)
  /-- All complaints of the scanner are among them. -/
  kept : (Source.scan tabSize source).2.Subperm
    (read tabSize numbering source).2.1
  /-- They are about lines that are there. -/
  located : Located (Source.scan tabSize source).1
    (read tabSize numbering source).2.1

/-- Every source is read without fault: the making of its statements is not
refused anywhere, every line belongs to one of them, literals and numerals stand
for something, and complaints are in order and about lines that are there. -/
theorem read_faultless :
    Faultless now tabSize numbering file version source := by
  have hperm := List.mergeSort_perm ((Source.scan tabSize source).2
    ++ (linesYield (Source.scan tabSize source).1).found)
    (fun a b => a.line ≤ b.line)
  have hfound := found_read tabSize numbering source
  constructor
  case made => exact run_makeScript now tabSize numbering file version source
  -- Which lines a statement owns does not depend on the names it is given.
  case used =>
    apply ownsAll_of_anonymous
    rw [anonymousAll_read]
    exact ownsAll_linesYield (Source.scanned_of_mem_scan tabSize source)
  case climbs => exact Source.climbs_scan tabSize source
  case literals =>
    intro l _ cs _ literal rest h
    obtain ⟨text, htext⟩ := exists_unquote?_of_literal? h
    rw [htext]
    rfl
  case numerals =>
    intro l hl cs hcs m h
    exact Number.accepted_of_read?
      ((Source.scanned_of_mem_scan tabSize source l hl).unbroken.subset
        fun c hc => hcs.subset hc) h
  case ordered =>
    rw [hfound]
    have := @List.pairwise_mergeSort _ (fun a b : Diagnostic =>
      decide (a.line ≤ b.line)) (by simp; omega) (by simp; omega)
      ((Source.scan tabSize source).2
        ++ (linesYield (Source.scan tabSize source).1).found)
    simpa using this
  case kept =>
    rw [hfound]
    exact ((List.sublist_append_left _ _).subperm).trans hperm.symm.subperm
  case located =>
    intro d hd
    rw [hfound] at hd
    rcases List.mem_append.mp (hperm.mem_iff.mp hd) with hd | hd
    · exact Source.exists_line_of_mem_scan tabSize source d hd
    · exact located_linesYield _ d hd

end NovelScript.Reading
