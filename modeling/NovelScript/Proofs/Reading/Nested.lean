/-
A source below a label. If every line of a source is moved to the right by as
many spaces and the header of a label put above it, then the source is the body
of the label: the same statements, one line further down, with the same
complaints, also where its indentation is out of order. The widths that such a
complaint names go along (`Diagnostic.move`).

# From the text to the items

The text is first cut into the same lines, moved: each one as far to the right
and one block deeper than before, since the header puts one level below all of
them. What is read of moved lines is what is read of the lines, moved, wherever
they stand (`Follows`), so nothing about single rules is needed here.

# A lone `pass`

One body is special. If it says nothing but `pass` it is empty below the label,
while at the margin `pass` is raw text like any other line that no rule takes.
So the statement tells the two cases apart, and the middle of this file shows
that there are no others: a line that says only `pass` is raw text alone
(`itemYield_pass`), whatever white space stands around the word, and no other
body is dropped (`bodyOf_itemsOf`).
-/
import NovelScript.Proofs.Grammar.Heading
import NovelScript.Proofs.Reading.Sequence
import NovelScript.Proofs.Source.Rows

namespace NovelScript

namespace Reading

open Grammar Source Text

-- ======================================================= a single line

variable {l : Line}

theorem rawYield_line (l : Line) :
    (rawYield l []).stmts = [bareSimple l (.raw l.content)] := by
  unfold rawYield
  rw [List.isEmpty_nil, Bool.not_true, Bool.and_false]
  rfl

/-- A line by itself that is kept as raw text is kept as it is. -/
theorem rawContent_of_itemYield_line (hl : Scanned l) {st : Stmt}
    (h : (itemYield (.plain l [])).stmts = [st]) :
    ∀ c ∈ st.rawContent?, c = l.content := by
  have hraw : ∀ {st}, (rawYield l []).stmts = [st] →
      ∀ c ∈ st.rawContent?, c = l.content := by
    intro st h c hc
    rw [rawYield_line] at h
    obtain rfl := (List.cons.inj h).1
    exact (Option.some.inj hc).symm
  have hcode : (codeYield l []).stmts = [st] →
      ∀ c ∈ st.rawContent?, c = l.content := by
    intro h
    unfold codeYield at h
    cases hflags : codeHeader? (headOf l) with
    | none =>
        rw [hflags] at h
        exact hraw h
    | some flags =>
        rw [hflags] at h
        cases hcolon : hasColon l with
        | false =>
            rw [hcolon] at h
            exact hraw h
        | true =>
            rw [hcolon] at h
            obtain rfl := (List.cons.inj h).1
            intro c hc
            cases hc
  rcases word_cases (firstWord? l.content.toList) with
    hw | hw | hw | hw | hw | hw | hw
  · -- a label
    simp only [itemYield, hw] at h
    cases hhead : label? (headOf l) with
    | none =>
        rw [hhead] at h
        exact hraw h
    | some head =>
        rw [hhead] at h
        obtain rfl := (List.cons.inj h).1
        intro c hc
        cases hc
  · -- a menu
    simp only [itemYield, hw] at h
    cases hhead : menu? (headOf l) with
    | none =>
        rw [hhead] at h
        exact hraw h
    | some head =>
        rw [hhead] at h
        obtain rfl := (List.cons.inj h).1
        intro c hc
        cases hc
  · -- `elif` that no conditional has
    simp only [itemYield, hw] at h
    exact hraw h
  · -- `else` that no conditional has
    simp only [itemYield, hw] at h
    exact hraw h
  · -- code behind `python`
    simp only [itemYield, hw] at h
    exact hcode h
  · -- code behind `init`
    simp only [itemYield, hw] at h
    exact hcode h
  · -- any other line
    rw [itemYield_unruled hw] at h
    unfold simpleYield at h
    cases hkind : lineKind l.content.toList with
    | simple s =>
        rw [hkind] at h
        obtain rfl := (List.cons.inj h).1
        intro c hc
        rcases spoken_lineKind hl.unbroken hkind with hs | ⟨rfl, -⟩
        · -- No rule of the grammar yields raw text, so the line is one of the
          -- two that are kept as they stand: a `pass`, or a line that no rule
          -- reads.
          cases s <;> first | exact hs.elim | cases hc
        · rw [String.ofList_toList] at hc
          exact (Option.some.inj hc).symm
    | raw =>
        rw [hkind] at h
        exact hraw h
    | openLiteral =>
        rw [hkind] at h
        exact hraw h

-- ============================================================== pass

/-- A text of which trimming leaves something. -/
theorem trim_eq_append {cs ink : List Char} (h : trim cs = ink) :
    ∃ as bs, Blanks as ∧ Blanks bs ∧ cs = as ++ (ink ++ bs) := by
  obtain ⟨as, ha, hcs⟩ := blanks_append_trimStart cs
  obtain ⟨bs, hb, hrest⟩ := trimEnd_append_blanks (trimStart cs)
  refine ⟨as, bs, ha, hb, ?_⟩
  rw [← h, trim, ← hrest]
  exact hcs

/-- Neither a name nor a literal begins with white space. -/
theorem name?_of_blank {cs : List Char}
    (h : ∀ c ∈ cs.head?, isBlank c = true) : name? cs = none := by
  cases cs with
  | nil => rfl
  | cons c cs =>
      have hstart : ¬ isNameStart c = true := by
        intro hstart
        have := isBlank_of_isWordChar (isWordChar_of_isNameStart hstart)
        rw [h c rfl] at this
        cases this
      rw [name?, if_neg hstart]

theorem say?_of_blank {cs : List Char}
    (h : ∀ c ∈ cs.head?, isBlank c = true) : say? cs = none := by
  have hliteral : literal? cs = none := by
    refine literal?_of_not_quote fun c hc => ?_
    by_contra hquote
    have := isBlank_of_isQuote (by simpa using hquote)
    rw [h c hc] at this
    cases this
  unfold say?
  rw [hliteral, name?_of_blank h]
  rfl

/-- A line that says nothing but `pass` begins with this word, or with white
space and then with no word. -/
theorem pass_cases {cs : List Char} (h : trim cs = "pass".toList) :
    (firstWord? cs = some "pass" ∧ trimEnd cs = "pass".toList)
      ∨ (firstWord? cs = none ∧ say? (trimEnd cs) = none) := by
  obtain ⟨as, bs, ha, hb, rfl⟩ := trim_eq_append h
  -- Without white space in front the line begins with the word; with some it
  -- begins with no word at all, and nothing can be said that begins so either.
  cases as with
  | nil =>
      have hpass : Name "pass".toList :=
        ⟨'p', ['a', 's', 's'], rfl, by decide, by decide⟩
      have hstop : Stops isWordChar bs := by
        cases bs with
        | nil => exact stops_nil _
        | cons b bs => exact (stops_of_blank (hb b List.mem_cons_self)).word
      have hend : EndsInk "pass".toList := by
        intro c hc
        obtain rfl := Option.some.inj hc
        decide
      left
      rw [List.nil_append]
      exact ⟨firstWord?_name hpass hstop, trimEnd_append hend hb⟩
  | cons a as =>
      have hblank : isBlank a = true := ha a List.mem_cons_self
      rw [List.cons_append]
      generalize as ++ ("pass".toList ++ bs) = cs
      right
      constructor
      · have hdollar : ∀ ds, a :: cs ≠ '$' :: ds := by
          intro ds hds
          rw [(List.cons.inj hds).1] at hblank
          exact absurd hblank (by decide)
        rw [firstWord?.eq_2 _ hdollar, name?_of_blank fun c hc => by
          rwa [← Option.some.inj hc]]
        rfl
      · refine say?_of_blank fun c hc => ?_
        obtain ⟨es, hes⟩ := trimEnd_isPrefix (a :: cs)
        have hhead : (a :: cs).head? = some c := by
          rw [← hes, List.head?_append, Option.mem_def.mp hc]
          rfl
        rwa [← Option.some.inj hhead]

/-- The word `pass` is kept as raw text, with whatever white space stands around
it. No rule takes it, which has to be checked for each rule that could. -/
theorem itemYield_pass (h : trim l.content.toList = "pass".toList) :
    (itemYield (.plain l [])).stmts = [bareSimple l (.raw l.content)] := by
  rcases pass_cases h with ⟨hword, htrim⟩ | ⟨hword, hsay⟩
  · have hkind : lineKind l.content.toList
        = .simple (.raw (String.ofList l.content.toList)) := by
      unfold lineKind
      rw [hword]
      simp only [keywordKind?, htrim, if_true]
      exact if_neg (by decide)
    rw [itemYield_unruled (by rw [hword]; decide)]
    unfold simpleYield
    rw [hkind, String.ofList_toList]
    rfl
  · rw [itemYield_unruled (by rw [hword]; decide)]
    unfold simpleYield lineKind
    rw [hword]
    simp only [sayKind, hsay]
    by_cases hopen : (looksSaid l.content.toList
        && hasOpenLiteral l.content.toList) = true
    · rw [if_pos hopen]
      exact rawYield_line l
    · rw [if_neg hopen]
      exact rawYield_line l

/-- A body of more than one line is the body that was read. -/
theorem bodyOf_of_ne {block : List Item} (h : ∀ l, block ≠ [.plain l []])
    (body : List Stmt) : bodyOf block body = body := by
  unfold bodyOf
  split
  · exact absurd rfl (h _)
  · rfl

/-- A body is empty if it is the line `pass`, and else what was read. The lines
tell this already, before they are put into items. -/
theorem bodyOf_itemsOf {ls : List Line} (hls : ∀ l ∈ ls, Scanned l) :
    bodyOf (itemsOf ls) (itemsYield (itemsOf ls)).stmts
      = if ls.map (fun l => trim l.content.toList) = ["pass".toList] then []
        else (itemsYield (itemsOf ls)).stmts := by
  have hlines := Item.linesOfAll_ofLines opensConditional
    continuesConditional ls
  -- Only a body of one line with nothing below it can be a lone `pass`; what it
  -- is read as shows what the line says.
  by_cases hsingle : ∃ l, itemsOf ls = [.plain l []]
  · obtain ⟨l, hl⟩ := hsingle
    rw [← itemsOf, hl] at hlines
    obtain rfl : [l] = ls := hlines
    rw [hl, List.map_cons, List.map_nil, itemsYield, itemsYield, Yield.append,
      List.append_nil]
    by_cases hpass : trim l.content.toList = "pass".toList
    · rw [if_pos (by rw [hpass]), itemYield_pass hpass]
      simp only [bodyOf, bareSimple, Stmt.rawContent?, hpass, if_true]
    · rw [if_neg fun h => hpass (List.cons.inj h).1]
      unfold bodyOf
      split
      · next l' st hblock hst =>
        have hcontent := rawContent_of_itemYield_line
          (hls l List.mem_cons_self) hst
        cases hraw : st.rawContent? with
        | none => rfl
        | some c =>
            rw [hcontent c hraw]
            exact if_neg hpass
      · rfl
  · rw [bodyOf_of_ne fun l hl => hsingle ⟨l, hl⟩]
    by_cases hpass : ls.map (fun l => trim l.content.toList)
        = ["pass".toList]
    · -- A single line that says `pass` is an item alone, since it heads
      -- nothing.
      exfalso
      obtain ⟨l, rfl⟩ : ∃ l, ls = [l] := by
        cases ls with
        | nil => cases hpass
        | cons l ls =>
            cases ls with
            | nil => exact ⟨l, rfl⟩
            | cons m ls => cases (List.cons.inj hpass).2
      have hopens : opensConditional l = false := by
        refine opensConditional_of_firstWord? ?_
        rcases pass_cases (List.cons.inj hpass).1 with ⟨hword, -⟩ | ⟨hword, -⟩
        · rw [hword]
          decide
        · rw [hword]
          decide
      exact hsingle ⟨l, itemsOf_line hopens⟩
    · rw [if_neg hpass]

-- ============================================================== nesting

/-- A text begins with its first line. -/
theorem isPrefix_physicalLines {cs first : List Char}
    {more : List (List Char)} (h : physicalLines cs = first :: more) :
    first <+: cs := by
  have key : ∀ line cs first more, physicalFrom line cs = first :: more →
      ∃ back, first = line.reverse ++ back ∧ back <+: cs := by
    intro line cs
    induction line, cs using physicalFrom.induct with
    | case1 line =>
        intro first more h
        rw [physicalFrom] at h
        exact ⟨[], by rw [(List.cons.inj h).1, List.append_nil],
          List.nil_prefix⟩
    | case2 line cs ih =>
        intro first more h
        rw [physicalFrom] at h
        exact ⟨[], by rw [(List.cons.inj h).1, List.append_nil],
          List.nil_prefix⟩
    | case3 line c cs hpair hc ih =>
        intro first more h
        rw [physicalFrom.eq_3 _ _ _ hpair, if_pos hc] at h
        exact ⟨[], by rw [(List.cons.inj h).1, List.append_nil],
          List.nil_prefix⟩
    | case4 line c cs hpair hc ih =>
        intro first more h
        rw [physicalFrom.eq_3 _ _ _ hpair, if_neg hc] at h
        obtain ⟨back, rfl, hback⟩ := ih first more h
        refine ⟨c :: back, ?_, List.prefix_cons_inj c |>.mpr hback⟩
        rw [List.reverse_cons, List.append_assoc]
        rfl
  obtain ⟨back, rfl, hback⟩ := key [] cs first more h
  exact hback

variable (tabSize : Int)

/-- A source below a label is the label's body, moved to the right by however
many columns and one line down. Only a source that says nothing but `pass` is
dropped there. -/
theorem read_nested {s t : String} {n : Nat} (hn : 0 < n)
    (hmark : s.toList.head? ≠ some '\uFEFF')
    (htabs : ∀ raw ∈ physicalLines s.toList, Tabless raw)
    (hmargin : ∀ l ∈ (scan tabSize s).1.head?, l.indent = 0)
    (ht : physicalLines t.toList
      = "label x:".toList :: (physicalLines s.toList).map (indented n))
    (numbering numbering' : Numbering) :
    Stmt.anonymousAll (read tabSize numbering t).1
        = [.label ⟨"", some 1⟩ "x" none
            (if (scan tabSize s).1.map (fun l => trim l.content.toList)
                = ["pass".toList] then []
              else Stmt.moveAll (· + 1)
                (Stmt.anonymousAll (read tabSize numbering' s).1))]
      ∧ (read tabSize numbering t).2.1
        = (read tabSize numbering' s).2.1.map
            (Diagnostic.move n (· + 1)) := by
  -- The header is a row at the margin, and the source a block behind it.
  have hscan : scan tabSize t
      = (headerLine "label x:" 1
          :: (scan tabSize s).1.map (Line.move n 1 (· + 1)),
        (scan tabSize s).2.map (Diagnostic.move n (· + 1))) := by
    have hmark' : t.toList.head? ≠ some '\uFEFF' := by
      obtain ⟨rest, hrest⟩ := isPrefix_physicalLines ht
      rw [← hrest]
      exact fun h => absurd (Option.some.inj h) (by decide)
    have hsource : scan tabSize s
        = scanFrom tabSize [0] 1 (physicalLines s.toList) := by
      rw [scan, withoutMark_eq_self hmark]
    have hwidth : ∀ r ∈ (numbered 1 (physicalLines s.toList)).head?,
        rawWidth tabSize r.2 = 0 := by
      intro r hr
      rw [hsource, scanFrom_numbered, head?_scanNumbered, hr] at hmargin
      exact hmargin _ rfl
    have hrow : Row.Sound ⟨0, "label x:"⟩ := by
      refine ⟨by unfold Unbroken; decide, fun c hc => ?_, by decide⟩
      obtain rfl : 'l' = c := Option.some.inj hc
      decide
    have hhead : (Row.written ⟨0, "label x:"⟩).toList
        = "label x:".toList := by
      rw [toList_written]
      rfl
    rw [scan, withoutMark_eq_self hmark', ht, ← hhead, scanFrom_row hrow,
      enter_zero levels_margin, scanFrom_block tabSize hn 1 1 htabs hwidth,
      hsource]
    rfl
  have hdepth : ∀ l ∈ (scan tabSize s).1.head?, l.depth = 0 :=
    fun l hl => head_depth_scan tabSize l hl (hmargin l hl)
  -- The lines of the source are moved, and an item of moved lines yields what
  -- it yielded before, moved.
  have hlabel : linesYield (scan tabSize t).1
      = ⟨[.label ⟨"", some 1⟩ "x" none (Stmt.moveAll (· + 1)
          (bodyOf (itemsOf (scan tabSize s).1)
            (linesYield (scan tabSize s).1).stmts))],
        (linesYield (scan tabSize s).1).found.map
          (Diagnostic.move n (· + 1))⟩ := by
    have hword : firstWord? (headerLine "label x:" 1).content.toList
        = some "label" := by decide
    have hopens : opensConditional (headerLine "label x:" 1) = false :=
      opensConditional_of_firstWord? (by rw [hword]; decide)
    have hmoved := itemsYield_move n 1 (· + 1) (itemsOf (scan tabSize s).1)
    have hbody := bodyOf_move n 1 (· + 1) (itemsOf (scan tabSize s).1)
      (itemsYield (itemsOf (scan tabSize s).1)).stmts
    have hhead : label? (headOf (headerLine "label x:" 1))
        = some ("x", none) := by decide
    have hcolon : colonFound (headerLine "label x:" 1) (.label "x") = [] := by
      decide
    rw [hscan, linesYield_margin (by simp [headerLine]),
      itemsOf_header n (· + 1) hopens, linesYield_margin hdepth]
    simp only [itemsYield, itemYield, hword, hhead, hcolon, hmoved, Yield.move,
      hbody, Yield.append, List.nil_append, List.append_nil]
    rfl
  have hscanned := scanned_of_mem_scan tabSize s
  constructor
  · rw [anonymousAll_read, anonymousAll_read, hlabel, linesYield_margin hdepth,
      bodyOf_itemsOf hscanned]
    -- Only here a body that says `pass` differs from what was read.
    by_cases hpass : (scan tabSize s).1.map
        (fun l => trim l.content.toList) = ["pass".toList]
    · rw [if_pos hpass, if_pos hpass]
      rfl
    · rw [if_neg hpass, if_neg hpass]
  · -- Moving keeps the order of lines, so sorting commutes with it.
    have hsort := List.map_mergeSort (f := Diagnostic.move n (· + 1))
      (r := fun a b : Diagnostic => decide (a.line ≤ b.line))
      (s := fun a b : Diagnostic => decide (a.line ≤ b.line))
      (l := (scan tabSize s).2 ++ (linesYield (scan tabSize s).1).found)
      fun a _ b _ => decide_eq_decide.mpr (Nat.add_le_add_iff_right).symm
    rw [found_read, found_read, hsort, hlabel, hscan, List.map_append]

/-- A source with an indentation that is out of order, below a label. -/
theorem read_nested_dedent :
    Stmt.anonymousAll (read 4 default
        "label x:\r\n  if a:\r\n      \"Hi.\"\r\n    return").1
      = [.label ⟨"", some 1⟩ "x" none
          (if (scan 4 "if a:\n    \"Hi.\"\n  return").1.map
              (fun l => trim l.content.toList) = ["pass".toList] then []
            else Stmt.moveAll (· + 1) (Stmt.anonymousAll
              (read 4 default "if a:\n    \"Hi.\"\n  return").1))]
    ∧ (read 4 default
        "label x:\r\n  if a:\r\n      \"Hi.\"\r\n    return").2.1
      = (read 4 default "if a:\n    \"Hi.\"\n  return").2.1.map
          (Diagnostic.move 2 (· + 1)) :=
  read_nested 4 (n := 2) (by decide) (by decide) (by decide) (by decide)
    (by decide) default default

end Reading

end NovelScript
