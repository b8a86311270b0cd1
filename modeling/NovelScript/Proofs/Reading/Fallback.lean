/-
A menu is read as a whole or not at all, and which it is shows on its lines
alone. Of the lines below the header those one block deeper are looked at in
turn (`heads`), each with whether a block follows it, and the first one that
does not belong in a menu decides (`firstRefused`).

# Lines and items

The reader does not look at lines but at items, which nest whatever they nest.
The items of a menu say the same as its lines (`heads_eq_rows`), so the reader
and the lines agree (`menuYield_rows`). The one place where they could part is a
question that begins with the word for a conditional: the block form gives it
the branches that follow it. But once a question is asked no second one is, and
a branch is nothing else to a menu, so the first branch is refused in either
form (`menuLine_of_opens`, `menuLine_of_continues`).

Of a choice it counts only that it is there, not what it says or nests. So the
lines are gone through with blanks for the choices that were read
(`MenuParts.Blank`), and the induction over the items carries that the parts on
both sides are the same but for these.

# At every stage of a reading

`MenuRead` says what becomes of a menu, told by the lines below its header:
where one of them is refused, a single raw statement of all lines of the menu
and a single complaint about the first refused line, whatever was complained
about inside; where none is, the menu. A complaint about a missing colon stands
in front in either case, and the lines behind the menu are left as they are.
`menuRead_of_reaches` says so for every stage at which a reading of a source can
come to a menu, that is, also for menus inside choices of menus that are given
up themselves.
-/
import NovelScript.Proofs.Grammar.Heading
import NovelScript.Proofs.Reading.Sequence
import NovelScript.Proofs.Reading.Stages

namespace NovelScript

-- ======================================================= lines looked at

/-- Lines that are not deeper than one before them, each with whether a deeper
line follows it. -/
def heads : List Line → List (Line × Bool)
  | [] => []
  | l :: more =>
    (l, more.head?.any (l.depth < ·.depth))
      :: heads (more.dropWhile (l.depth < ·.depth))
termination_by ls => ls.length
decreasing_by
  have := (List.dropWhile_sublist (p := (l.depth < ·.depth)) (l := more)).length_le
  simp only [List.length_cons]; omega

namespace Item

/-- The lines of items and of their branches, each with whether it has a
block. -/
def rows : List Item → List (Line × Bool)
  | [] => []
  | plain l block :: more => (l, !block.isEmpty) :: rows more
  | chain l block branches :: more =>
    (l, !block.isEmpty)
      :: (branches.map (fun b => (b.1, !b.2.isEmpty)) ++ rows more)

theorem Leaves.of_append {l : Line} {as bs : List Line}
    (h : Leaves l (as ++ bs)) : Leaves l as := by
  cases as with
  | nil => exact fun r hr => by cases hr
  | cons a as => exact h

theorem isEmpty_linesOfAll (items : List Item) :
    (linesOfAll items).isEmpty = items.isEmpty := by
  cases items with
  | nil => rfl
  | cons i more => cases i <;> rfl

/-- A line is looked at, the deeper ones below it are not, and what follows
is. -/
theorem heads_cons {l : Line} {block : List Item} {rest : List Line}
    (hbelow : Below l (linesOfAll block)) (hleaves : Leaves l rest) :
    heads (l :: (linesOfAll block ++ rest))
      = (l, !block.isEmpty) :: heads rest := by
  have hb : ∀ b ∈ linesOfAll block, decide (l.depth < b.depth) = true := by
    intro b hb
    simpa using hbelow b hb
  have hr : ∀ r ∈ rest.head?, decide (l.depth < r.depth) = false := by
    intro r hr
    simpa using hleaves r hr
  have hfollows : (linesOfAll block ++ rest).head?.any (l.depth < ·.depth)
      = !block.isEmpty := by
    rw [← isEmpty_linesOfAll]
    cases hlines : linesOfAll block with
    | nil =>
        cases rest with
        | nil => rfl
        | cons r rest => simpa using hr r rfl
    | cons b bs =>
        rw [hlines] at hb
        simpa using hb b List.mem_cons_self
  rw [heads, dropWhile_stop hb hr, hfollows]

section

variable {opens isBranch : Line → Bool}

theorem heads_branches {rest : List Line}
    {branches : List (Line × List Item)} (behind : List Line)
    (h : StandBranches opens isBranch (rest ++ behind) branches) :
    heads (linesOfBranches branches ++ rest)
      = branches.map (fun b => (b.1, !b.2.isEmpty)) ++ heads rest := by
  induction branches with
  | nil => rfl
  | cons b more ih =>
      obtain ⟨l, block⟩ := b
      obtain ⟨-, hbelow, hleaves, -, hmore⟩ := h
      rw [← List.append_assoc] at hleaves
      have hcons := heads_cons hbelow hleaves.of_append
      rw [linesOfBranches, List.cons_append, List.cons_append,
        List.append_assoc, hcons, ih hmore]
      rfl

/-- What is looked at of the lines of items are the items' own lines, each with
whether it has a block. The blocks and the branches are passed over. -/
theorem heads_eq_rows {items : List Item} {behind : List Line}
    (h : StandAll opens isBranch behind items) :
    heads (linesOfAll items) = rows items := by
  induction items with
  | nil => rw [linesOfAll, heads, rows]
  | cons i more ih =>
      obtain ⟨hi, hmore⟩ := h
      cases i with
      | plain l block =>
          obtain ⟨-, hbelow, hleaves, -⟩ := hi
          have hcons := heads_cons hbelow hleaves.of_append
          rw [linesOfAll, lines, List.cons_append, hcons, ih hmore, rows]
      | chain l block branches =>
          obtain ⟨-, hbelow, hleaves, -, hbranches⟩ := hi
          rw [← List.append_assoc] at hleaves
          have hcons := heads_cons hbelow hleaves.of_append
          rw [linesOfAll, lines, List.cons_append, List.cons_append,
            List.append_assoc, hcons, heads_branches behind hbranches,
            ih hmore, rows]

end

theorem depth_of_mem_rows {n : Nat} {items : List Item} (h : AllAt n items) :
    ∀ r ∈ rows items, r.1.depth = n := by
  have hbranches : ∀ {branches : List (Line × List Item)},
      BranchesAt n branches →
        ∀ r ∈ branches.map (fun b => (b.1, !b.2.isEmpty)), r.1.depth = n := by
    intro branches
    induction branches with
    | nil => simp
    | cons b more ih =>
        intro hb
        exact List.forall_mem_cons.mpr ⟨hb.1, ih hb.2.2⟩
  induction items with
  | nil => simp [rows]
  | cons i more ih =>
      obtain ⟨hi, hmore⟩ := h
      cases i with
      | plain l block => exact List.forall_mem_cons.mpr ⟨hi.1, ih hmore⟩
      | chain l block branches =>
          obtain ⟨hl, -, hmoreBranches⟩ := hi
          refine List.forall_mem_cons.mpr ⟨hl, ?_⟩
          exact List.forall_mem_append.mpr ⟨hbranches hmoreBranches, ih hmore⟩

end Item

namespace Reading

open Grammar Item Text

-- ======================================================== refused lines

/-- The first of some lines that does not belong in a menu. Of a choice it
counts only that it is there. -/
def firstRefused (m : MenuParts) : List (Line × Bool) → Option Line
  | [] => none
  | (l, hasBlock) :: more =>
    match menuLine m l hasBlock with
    | .parts m' => firstRefused m' more
    | .choice _ _ => firstRefused (m.withChoice (.mk "" none none [])) more
    | .refused => some l

theorem menuSet?_of_head? {head : List Char} (h : head.head? ≠ some 's') :
    menuSet? head = none := by
  have hkeyword : keyword? "set" head = none := by
    by_contra hsome
    obtain ⟨rest, hrest⟩ := Option.ne_none_iff_exists'.mp hsome
    obtain ⟨bs, -, -, -, hhead⟩ := keyword?_eq_some.mp hrest
    rw [hhead] at h
    exact h rfl
  rw [menuSet?, hkeyword]
  rfl

/-- A line that begins neither with a literal nor with the words for an aside
can be nothing but a question. -/
theorem menuLine_of_word (m : MenuParts) {l : Line} (hasBlock : Bool)
    (hquote : ∀ c ∈ (headOf l).head?, isQuote c = false)
    (hpass : (headOf l).head? ≠ some 'p') (hset : (headOf l).head? ≠ some 's') :
    match menuLine m l hasBlock with
    | .parts m' => m.canAsk = true ∧ m'.canAsk = false
    | .choice _ _ => False
    | .refused => True := by
  have hpass : headOf l ≠ "pass".toList := by
    intro h
    rw [h] at hpass
    exact hpass rfl
  unfold menuLine
  rw [choice?_of_not_quote hquote]
  simp only
  cases hasColon l || hasBlock with
  | true => trivial
  | false =>
      simp only [Bool.false_eq_true, if_false]
      unfold bareMenuLine
      rw [if_neg hpass, menuSet?_of_head? hset]
      cases menuPrompt? (headOf l) with
      | none => trivial
      | some asked =>
          simp only
          cases hask : m.canAsk with
          | true => exact ⟨rfl, rfl⟩
          | false => trivial

theorem head?_of_opens {l : Line} (h : opensConditional l = true) :
    (headOf l).head? = some 'i' := by
  obtain ⟨condition, hcond⟩ := Option.isSome_iff_exists.mp h
  obtain ⟨rest, hrest, -⟩ := Option.map_eq_some_iff.mp hcond
  obtain ⟨bs, -, -, -, hhead⟩ :=
    keyword?_eq_some.mp (afterKeyword?_eq_some.mp hrest).1
  rw [hhead]
  rfl

/-- A line that opens a conditional is a question of a menu, or nothing. It is a
question if it also reads as a line that is said. -/
theorem menuLine_of_opens (m : MenuParts) {l : Line} (hasBlock : Bool)
    (h : opensConditional l = true) :
    match menuLine m l hasBlock with
    | .parts m' => m.canAsk = true ∧ m'.canAsk = false
    | .choice _ _ => False
    | .refused => True := by
  have hhead := head?_of_opens h
  apply menuLine_of_word m hasBlock
  · rw [hhead]
    intro c hc
    obtain rfl := Option.some.inj hc
    decide
  · rw [hhead]
    decide
  · rw [hhead]
    decide

/-- A further branch is nothing to a menu that has its question, whether it
stands for itself or in a conditional. -/
theorem menuLine_of_continues {m : MenuParts} {l : Line} (hasBlock : Bool)
    (h : continuesConditional l = true) (hask : m.canAsk = false) :
    menuLine m l hasBlock = .refused := by
  have hhead := (isBranchHead_of_continues h).head?
  have hword : match menuLine m l hasBlock with
      | .parts m' => m.canAsk = true ∧ m'.canAsk = false
      | .choice _ _ => False
      | .refused => True := by
    apply menuLine_of_word m hasBlock
    · rw [hhead]
      intro c hc
      obtain rfl := Option.some.inj hc
      decide
    · rw [hhead]
      decide
    · rw [hhead]
      decide
  cases hline : menuLine m l hasBlock with
  | parts m' =>
      rw [hline, hask] at hword
      cases hword.1
  | choice text condition =>
      rw [hline] at hword
      cases hword
  | refused => rfl

-- ==================================================== items and lines

/-- How the lines of a menu end: at the first that does not belong there, or
with the menu's parts. -/
def EndsAt (result : Except Line MenuParts) : Option Line → Prop
  | some bad => result = .error bad
  | none => ∃ parts, result = .ok parts

/-- The items of a menu are refused at the line at which their rows are. The
parts that were read before may differ in what their choices hold, and in
nothing else. -/
theorem menuYield_rows {m m' : MenuParts} {items : List Item}
    {behind : List Line}
    (h : StandAll opensConditional continuesConditional behind items)
    (hm : m.Blank m') :
    EndsAt (menuYield m' items).1 (firstRefused m (rows items)) := by
  induction items generalizing m m' with
  | nil => exact ⟨m', rfl⟩
  | cons i more ih =>
      obtain ⟨hi, hmore⟩ := h
      cases i with
      | plain l block =>
          have hline := hm.menuLine l (!block.isEmpty)
          unfold menuYield
          rw [rows, firstRefused]
          cases hl : menuLine m' l (!block.isEmpty) with
          | parts n' =>
              rw [hl] at hline
              obtain ⟨n, hn, hblank⟩ := hline
              rw [hn]
              exact ih hmore hblank
          | choice text condition =>
              rw [hl] at hline
              rw [hline]
              exact ih hmore (hm.withChoice _ _)
          | refused =>
              rw [hl] at hline
              rw [hline]
              rfl
      | chain l block branches =>
          obtain ⟨hopens, -, -, -, hbranches⟩ := hi
          have hline := hm.menuLine l (!block.isEmpty)
          have hword := menuLine_of_opens m (!block.isEmpty) hopens
          unfold menuYield
          rw [rows, firstRefused]
          cases hl : menuLine m' l (!block.isEmpty) with
          | parts n' =>
              rw [hl] at hline
              obtain ⟨n, hn, hblank⟩ := hline
              rw [hn] at hword ⊢
              cases branches with
              | nil => exact ih hmore hblank
              | cons b bs =>
                  -- The question is asked, so the first branch is refused.
                  obtain ⟨bad, inner⟩ := b
                  have hrefused := menuLine_of_continues (!inner.isEmpty)
                    hbranches.1 hword.2
                  simp only [List.map_cons, List.cons_append, firstRefused,
                    hrefused]
                  rfl
          | choice text condition =>
              rw [hl] at hline
              rw [hline] at hword
              cases hword
          | refused =>
              rw [hl] at hline
              rw [hline]
              rfl

-- ================================================================ menus

/-- A menu is closed once its lines are read, which is after its header. -/
theorem run_readItem_menu {l : Line} {block : List Item}
    {name screen : Option String}
    (hword : firstWord? l.content.toList = some "menu")
    (hmenu : menu? (headOf l) = some (name, screen)) (p : Progress) :
    (readItem (.plain l block)).run p
      = (closeMenu l block name screen (p.after (expectColon l .menu))
          ((readMenu {} block).run (p.after (expectColon l .menu))).1).run
          ((readMenu {} block).run (p.after (expectColon l .menu))).2 := by
  simp only [readItem, hword, hmenu]
  rfl

/-- The reader ends at the line at which the lines of a menu do. -/
theorem readMenu_heads {block : List Item} {behind : List Line}
    (h : StandAll opensConditional continuesConditional behind block)
    (p : Progress) :
    EndsAt ((readMenu {} block).run p).1
      (firstRefused {} (heads (linesOfAll block))) := by
  have hblank : MenuParts.Blank {} {} := ⟨rfl, rfl⟩
  have hends := menuYield_rows h hblank
  rw [← heads_eq_rows h] at hends
  have hsame : ((readMenu {} block).run p).1.map MenuParts.anonymous
      = (menuYield {} block).1 := (says_readMenu {} block p).1
  cases hresult : ((readMenu {} block).run p).1 with
  | error bad =>
      rw [hresult] at hsame
      rw [← hsame] at hends
      cases hfirst : firstRefused {} (heads (linesOfAll block)) with
      | none =>
          rw [hfirst] at hends
          obtain ⟨parts, hparts⟩ := hends
          cases hparts
      | some bad' =>
          rw [hfirst] at hends
          cases hends
          rfl
  | ok parts =>
      rw [hresult] at hsame
      rw [← hsame] at hends
      cases hfirst : firstRefused {} (heads (linesOfAll block)) with
      | none => exact ⟨parts, rfl⟩
      | some bad =>
          rw [hfirst] at hends
          cases hends

/-- How a menu is read, told by the lines below its header: the result of
reading it from a progress, and what is complained about then. -/
structure MenuRead (tabSize : Int) (source : String) (l : Line)
    (block behind : List Line) (p : Progress) (result : List Stmt × Progress) :
    Prop where
  /-- The header, the lines below it and those behind are the last lines of
  the source. -/
  placed : l :: (block ++ behind) <:+ (Source.scan tabSize source).1
  /-- The lines below the header are deeper than it. -/
  below : Below l block
  /-- The reading goes on at the first line that is not. -/
  leaves : Leaves l behind
  /-- Each line that is looked at is one block deeper than the header. -/
  level : ∀ r ∈ heads block, r.1.depth = l.depth + 1
  /-- The complaints about the indentation are there before the menu. -/
  kept : (Source.scan tabSize source).2 <+: p.found
  /-- If a line does not belong in the menu, its lines are kept as one raw
  text. What was complained about before it remains, and of the menu only a
  missing colon and the first such line are. -/
  refused : ∀ bad ∈ firstRefused {} (heads block),
    (∃ id, result.1
        = [.simple ⟨id, some l.number⟩ (.raw (Line.relativeText (l :: block)))])
      ∧ result.2.found = p.found ++ colonFound l .menu
          ++ [⟨bad.number, .menuLine bad.content⟩]
  /-- If all lines belong there, they are a menu. -/
  taken : firstRefused {} (heads block) = none →
    ∃ id head choices, result.1 = [.menu ⟨id, some l.number⟩ head choices]

/-- The lines of a menu are read as they stand, at every stage of a reading at
which a line with the header of a menu comes: whole, or as one raw statement
with one complaint, as the lines below the header say. The stage may be inside a
menu that is given up itself. -/
theorem menuRead_of_reaches {tabSize : Int} {numbering : Numbering}
    {source : String} {i : Item} {p : Progress} {behind : List Line}
    {head : Option String × Option String}
    (h : Reaches tabSize numbering source ⟨.item i, p, behind⟩)
    (hmenu : menu? (headOf i.line) = some head) :
    ∃ block, i.lines = i.line :: block
      ∧ MenuRead tabSize source i.line block behind p ((readItem i).run p) := by
  obtain ⟨hplaced, hstands, ⟨n, hlevel⟩, hkept⟩ := sound_of_reaches _ _ _ h
  have hword := firstWord?_of_menu? hmenu
  cases i with
  | chain l block branches =>
      -- The line of a conditional has another first word.
      have hopens := firstWord?_of_opens hstands.1
      rw [line] at hword
      rw [hword] at hopens
      exact absurd hopens (by decide)
  | plain l block =>
      obtain ⟨-, hbelow, hleaves, hblock⟩ := hstands
      obtain ⟨hl, hlevel⟩ := hlevel
      obtain ⟨name, screen⟩ := head
      have hends := readMenu_heads hblock (p.after (expectColon l .menu))
      have hmenu : menu? (headOf l) = some (name, screen) := hmenu
      have hrun : (readItem (.plain l block)).run p = _ :=
        run_readItem_menu (firstWord?_of_menu? hmenu) hmenu p
      rw [hrun]
      refine ⟨linesOfAll block, rfl, hplaced, hbelow, hleaves, ?_, hkept, ?_, ?_⟩
      · rw [heads_eq_rows hblock]
        intro r hr
        rw [depth_of_mem_rows hlevel r hr, line, hl]
      · intro bad hbad
        rw [Option.mem_def.mp hbad] at hends
        rw [hends]
        refine ⟨⟨_, rfl⟩, ?_⟩
        -- The complaints go back to those right behind the header.
        show (p.after (expectColon l .menu)).found ++ _ = _
        rw [Progress.after, run_expectColon]
        rfl
      · intro hnone
        rw [hnone] at hends
        obtain ⟨parts, hparts⟩ := hends
        rw [hparts]
        exact ⟨_, _, _, rfl⟩

/-- A menu without a colon whose last line does not belong in it, behind a
choice with a menu in it that is kept as raw text itself. -/
theorem menuRead_nested :
    ∃ i p behind block, (⟨"menu", 0, 0, 1⟩ : Line) = i.line
      ∧ MenuRead 4 "menu\n  \"A\":\n    menu:\n      oops\n  stray" i.line
          block behind p ((readItem i).run p) := by
  generalize hsource : "menu\n  \"A\":\n    menu:\n      oops\n  stray" = source
  have hhead : (Source.scan 4 source).1.head? = some ⟨"menu", 0, 0, 1⟩ := by
    rw [← hsource]
    decide
  obtain ⟨ls, hls⟩ := List.head?_eq_some_iff.mp hhead
  cases hitems : itemsOf ((Source.scan 4 source).1.dropWhile (0 < ·.depth)) with
  | nil =>
      have hlines := congrArg linesOfAll hitems
      rw [itemsOf, linesOfAll_ofLines, hls] at hlines
      cases hlines
  | cons i more =>
      have hlines := congrArg linesOfAll hitems
      rw [itemsOf, linesOfAll_ofLines, hls] at hlines
      have hline : (⟨"menu", 0, 0, 1⟩ : Line) = i.line := by
        cases i <;> exact (List.cons.inj hlines).1
      have hreaches : Reaches 4 default source ⟨.item i,
          (firstStage 4 default source).progress, linesOfAll more ++ []⟩ := by
        apply Relation.ReflTransGen.single
        show Comes ⟨.items (itemsOf _), _, []⟩ _
        rw [hitems]
        exact .first
      have hmenu : menu? (headOf i.line) = some (none, none) := by
        rw [← hline]
        decide
      obtain ⟨block, -, hread⟩ := menuRead_of_reaches hreaches hmenu
      exact ⟨i, _, _, block, hline, hread⟩

end Reading

end NovelScript
