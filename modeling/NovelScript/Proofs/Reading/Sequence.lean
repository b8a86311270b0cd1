/-
One source behind another. A line at the margin that does not go on with a
conditional ends whatever the text before it left open, just as the end of the
text would: blocks, a conditional that waits for branches, a menu that waits for
choices. So two sources with a line break between them read as the one and then
the other, the lines of the second further down.

# From the text to the lines

The break ends the last line of the first text, and with a carriage return in
front of it both are one break (`physicalFrom_newline`); so the number of lines
that the second text moves down by is not always the number of lines of the
first. The scanner keeps a stack of widths from one line to the next, and here
the condition on the second text is used: its first line stands at the margin,
where the stack is cut down to what it is at the start (`scan_newline`).

# From the lines to the statements

The lines fall into items, and an item at the margin ends where the next begins,
unless that goes on with the conditional; this is the other condition
(`IsBranchHead`). So the yield of the lines is that of the first lines with that
of the others behind it (`linesYield_append`).

# The order of the complaints

The complaints of both are put into the order of their lines at once. That this
gives the complaints of the first and then those of the second needs the sorting
to be stable. What is used of it is that a sorted list is known by what it holds
for each line (`eq_of_sorted`), so the order in which complaints were made plays
no part but among those about one line.
-/
import NovelScript.Proofs.Reading.Faultless
import NovelScript.Proofs.Reading.Moving

namespace NovelScript

-- ============================================================== sorting

/-- Sorted complaints are known by those about each line, in their order. Two
complaints about one line may come in either order in different lists. -/
theorem eq_of_sorted {as bs : List Diagnostic}
    (ha : as.Pairwise fun a b => a.line ≤ b.line)
    (hb : bs.Pairwise fun a b => a.line ≤ b.line)
    (h : ∀ n, as.filter (·.line == n) = bs.filter (·.line == n)) :
    as = bs := by
  have hempty : ∀ c cs, ([] : List Diagnostic).filter (·.line == c.line)
      ≠ (c :: cs).filter (·.line == c.line) := by
    intro c cs
    rw [List.filter_cons_of_pos (by simp), List.filter_nil]
    exact (List.cons_ne_nil c _).symm
  induction as generalizing bs with
  | nil =>
      cases bs with
      | nil => rfl
      | cons b bs => exact absurd (h b.line) (hempty b bs)
  | cons a as ih =>
      cases bs with
      | nil => exact absurd (h a.line).symm (hempty a as)
      | cons b bs =>
          obtain ⟨hale, has⟩ := List.pairwise_cons.mp ha
          obtain ⟨hble, hbs⟩ := List.pairwise_cons.mp hb
          -- Each of the first two is in the other list too.
          have hab : a.line ≤ b.line := by
            have hmem : b ∈ (a :: as).filter (·.line == b.line) := by
              rw [h]
              simp
            rcases List.mem_cons.mp (List.mem_of_mem_filter hmem) with rfl | hm
            · exact le_refl _
            · exact hale b hm
          have hba : b.line ≤ a.line := by
            have hmem : a ∈ (b :: bs).filter (·.line == a.line) := by
              rw [← h]
              simp
            rcases List.mem_cons.mp (List.mem_of_mem_filter hmem) with rfl | hm
            · exact le_refl _
            · exact hble a hm
          have hline : a.line = b.line := le_antisymm hab hba
          have hhead := h a.line
          rw [List.filter_cons_of_pos (by simp),
            List.filter_cons_of_pos (by simp [hline])] at hhead
          obtain rfl : a = b := (List.cons.inj hhead).1
          rw [ih has hbs fun n => ?_]
          have hn := h n
          rw [List.filter_cons, List.filter_cons] at hn
          by_cases hp : (a.line == n) = true
          · rw [if_pos hp, if_pos hp] at hn
            exact (List.cons.inj hn).2
          · rwa [if_neg hp, if_neg hp] at hn

theorem pairwise_mergeSort_line (ds : List Diagnostic) :
    (ds.mergeSort fun a b => a.line ≤ b.line).Pairwise
      fun a b => a.line ≤ b.line := by
  have h := @List.pairwise_mergeSort _
    (fun a b : Diagnostic => decide (a.line ≤ b.line))
    (by simp; omega) (by simp; omega) ds
  simpa using h

/-- Sorting keeps the order of the complaints about one line. -/
theorem filter_mergeSort_line (ds : List Diagnostic) (n : Nat) :
    (ds.mergeSort fun a b => a.line ≤ b.line).filter (·.line == n)
      = ds.filter (·.line == n) := by
  have hsame : (ds.filter (·.line == n)).Pairwise
      fun a b => decide (a.line ≤ b.line) = true := by
    refine List.pairwise_of_forall_mem_list fun a ha b hb => ?_
    have ha' : a.line = n := by simpa using (List.mem_filter.mp ha).2
    have hb' : b.line = n := by simpa using (List.mem_filter.mp hb).2
    rw [ha', hb', decide_eq_true_eq]
  have hsub : (ds.filter (·.line == n)).Sublist
      (ds.mergeSort fun a b => a.line ≤ b.line) :=
    List.sublist_mergeSort (by simp; omega) (by simp; omega) hsame
      List.filter_sublist
  have hfilter := hsub.filter (·.line == n)
  simp only [List.filter_filter, Bool.and_self] at hfilter
  have hlen := ((List.mergeSort_perm ds
    fun a b => decide (a.line ≤ b.line)).filter (·.line == n)).length_eq
  exact (hfilter.eq_of_length hlen.symm).symm

/-- Complaints of which some are about earlier lines than others sort to
the sorted earlier ones and the sorted later ones. -/
theorem mergeSort_separated {m : Nat} {as bs cs ds : List Diagnostic}
    (hlow : ∀ d ∈ as ++ cs, d.line < m) (hhigh : ∀ d ∈ bs ++ ds, m ≤ d.line) :
    ((as ++ bs) ++ (cs ++ ds)).mergeSort (fun a b => a.line ≤ b.line)
      = (as ++ cs).mergeSort (fun a b => a.line ≤ b.line)
        ++ (bs ++ ds).mergeSort (fun a b => a.line ≤ b.line) := by
  -- A sorted list is known by what it holds at each line. Every line is before
  -- the border or behind it, and two of the four lists have nothing there.
  refine eq_of_sorted (pairwise_mergeSort_line _) ?_ fun n => ?_
  · refine List.pairwise_append.mpr ⟨pairwise_mergeSort_line _,
      pairwise_mergeSort_line _, fun a ha b hb => ?_⟩
    have ha' := hlow a (List.mem_mergeSort.mp ha)
    have hb' := hhigh b (List.mem_mergeSort.mp hb)
    omega
  · simp only [filter_mergeSort_line, List.filter_append]
    have hnone : ∀ xs : List Diagnostic, (∀ d ∈ xs, d.line ≠ n) →
        xs.filter (·.line == n) = [] := by
      intro xs hxs
      rw [List.filter_eq_nil_iff]
      intro d hd
      simpa using hxs d hd
    rcases Nat.lt_or_ge n m with hn | hn
    · have hb : bs.filter (·.line == n) = [] := hnone bs fun d hd => by
        have := hhigh d (List.mem_append_left ds hd)
        omega
      have hd : ds.filter (·.line == n) = [] := hnone ds fun d hd => by
        have := hhigh d (List.mem_append_right bs hd)
        omega
      rw [hb, hd]
      simp only [List.append_nil]
    · have ha : as.filter (·.line == n) = [] := hnone as fun d hd => by
        have := hlow d (List.mem_append_left cs hd)
        omega
      have hc : cs.filter (·.line == n) = [] := hnone cs fun d hd => by
        have := hlow d (List.mem_append_right as hd)
        omega
      rw [ha, hc]
      simp only [List.nil_append]

namespace Source

-- ======================================================= two texts

/-- A line break ends a line, and the text behind it does not matter to
what stands before it. If it comes behind a carriage return both are one
break; without it there would be an empty line more. -/
theorem physicalFrom_newline (line cs : List Char) :
    ∃ front, (∀ ds, physicalFrom line (cs ++ '\n' :: ds)
        = front ++ physicalLines ds)
      ∧ (physicalFrom line cs = front ∨ physicalFrom line cs = front ++ [[]]) := by
  -- The induction is that of the splitter. What is behind the break may be
  -- taken into the last line only by way of a carriage return before it.
  induction line, cs using physicalFrom.induct with
  | case1 line =>
      refine ⟨[line.reverse], fun ds => ?_, .inl rfl⟩
      rw [List.nil_append, physicalFrom.eq_3 _ _ _ (by simp),
        if_pos (.inr rfl)]
      rfl
  | case2 line cs ih =>
      obtain ⟨front, hfront, hend⟩ := ih
      refine ⟨line.reverse :: front, fun ds => ?_, ?_⟩
      · rw [List.cons_append, List.cons_append, physicalFrom, hfront,
          List.cons_append]
      · rw [physicalFrom]
        exact hend.imp (congrArg (line.reverse :: ·))
          (congrArg (line.reverse :: ·))
  | case3 line c cs hpair hc ih =>
      obtain ⟨front, hfront, hend⟩ := ih
      -- A carriage return at the very end would make one break with the line
      -- feed.
      by_cases hlast : c = '\r' ∧ cs = []
      · obtain ⟨rfl, rfl⟩ := hlast
        exact ⟨[line.reverse], fun ds => rfl, .inr rfl⟩
      · have hpair' : ∀ ds es, c = '\r' → cs ++ '\n' :: ds = '\n' :: es →
            False := by
          intro ds es hr heq
          cases cs with
          | nil => exact hlast ⟨hr, rfl⟩
          | cons d cs =>
              obtain ⟨rfl, -⟩ := List.cons.inj heq
              exact hpair cs hr rfl
        refine ⟨line.reverse :: front, fun ds => ?_, ?_⟩
        · rw [List.cons_append,
            physicalFrom.eq_3 _ _ _ (hpair' ds), if_pos hc, hfront,
            List.cons_append]
        · rw [physicalFrom.eq_3 _ _ _ hpair, if_pos hc]
          exact hend.imp (congrArg (line.reverse :: ·))
            (congrArg (line.reverse :: ·))
  | case4 line c cs hpair hc ih =>
      obtain ⟨front, hfront, hend⟩ := ih
      have hr : c ≠ '\r' := fun h => hc (.inl h)
      refine ⟨front, fun ds => ?_, ?_⟩
      · rw [List.cons_append,
          physicalFrom.eq_3 _ _ _ (fun _ h => absurd h hr), if_neg hc, hfront]
      · rwa [physicalFrom.eq_3 _ _ _ hpair, if_neg hc]

theorem withoutMark_newline (cs ds : List Char) :
    withoutMark (cs ++ '\n' :: ds) = withoutMark cs ++ '\n' :: ds := by
  cases cs with
  | nil => exact withoutMark_eq_self (by simp)
  | cons c cs =>
      by_cases hc : c = '\uFEFF'
      · subst hc
        rfl
      · have hhead : ∀ es, (c :: es).head? ≠ some '\uFEFF' := by simp [hc]
        rw [List.cons_append, withoutMark_eq_self (hhead _),
          withoutMark_eq_self (hhead _), List.cons_append]

variable (tabSize : Int)

/-- The first line that the scanner hands on. -/
theorem head?_scanNumbered (levels : List Nat) (rs : List (Nat × List Char)) :
    (scanNumbered tabSize levels rs).1.head?
      = rs.head?.map fun r => lineOf tabSize levels r.1 r.2 := by
  cases rs <;> rfl

/-- A first line without indentation stands at the margin. -/
theorem head_depth_scan {source : String} :
    ∀ l ∈ (scan tabSize source).1.head?, l.indent = 0 → l.depth = 0 := by
  intro l hl h0
  rw [scan, scanFrom_numbered, head?_scanNumbered] at hl
  obtain ⟨r, -, rfl⟩ := Option.map_eq_some_iff.mp hl
  have hwidth : rawWidth tabSize r.2 = 0 := h0
  rw [lineOf, hwidth, enter_zero levels_margin]
  rfl

/-- Numbers of lines do not go beyond the lines that there are. -/
theorem number_lt_scanFrom {levels : List Nat} {number : Nat}
    {raws : List (List Char)} :
    ∀ l ∈ (scanFrom tabSize levels number raws).1,
      l.number < number + raws.length := by
  have hnumbered : ∀ raws number, ∀ r ∈ numbered number raws,
      r.1 < number + raws.length := by
    intro raws
    induction raws with
    | nil => simp [numbered]
    | cons raw more ih =>
        intro number r hr
        rw [List.length_cons]
        rw [numbered] at hr
        split at hr
        · rcases List.mem_cons.mp hr with rfl | hr
          · simp only
            omega
          · have := ih (number + 1) r hr
            omega
        · have := ih (number + 1) r hr
          omega
  intro l hl
  rw [scanFrom_numbered] at hl
  have hmem := List.mem_map_of_mem (f := Line.number) hl
  rw [map_number_scanNumbered] at hmem
  obtain ⟨r, hr, hrl⟩ := List.mem_map.mp hmem
  rw [← hrl]
  exact hnumbered raws number r hr

/-- Two sources with a line break between them scan to the lines of the one
and then those of the other, if that begins at the margin. -/
theorem scan_newline (s₁ : String) {s₂ : String}
    (hmark : s₂.toList.head? ≠ some '\uFEFF')
    (hmargin : ∀ l ∈ (scan tabSize s₂).1.head?, l.indent = 0) :
    ∃ k, scan tabSize (s₁ ++ "\n" ++ s₂)
        = ((scan tabSize s₁).1
            ++ (scan tabSize s₂).1.map (Line.move 0 0 (· + k)),
          (scan tabSize s₁).2
            ++ (scan tabSize s₂).2.map (Diagnostic.move 0 (· + k)))
      ∧ ∀ l ∈ (scan tabSize s₁).1, l.number ≤ k := by
  obtain ⟨front, hfront, hend⟩ :=
    physicalFrom_newline [] (withoutMark s₁.toList)
  -- Whether or not the first source ends with an empty line makes no
  -- difference, since the scanner passes over it.
  have hfirst : scan tabSize s₁ = scanFrom tabSize [0] 1 front := by
    rw [scan, physicalLines]
    rcases hend with h | h
    · rw [h]
    · rw [h, scanFrom_append, scanFrom_idle isInked_nil]
      simp only [scanFrom, List.append_nil]
  have hsecond : scan tabSize s₂
      = scanFrom tabSize [0] 1 (physicalLines s₂.toList) := by
    rw [scan, withoutMark_eq_self hmark]
  -- What the claim supposes of the first line that is kept, for the first row
  -- with ink; back at the margin all levels are closed, with no complaint.
  have hwidth : ∀ r ∈ (numbered (1 + front.length)
      (physicalLines s₂.toList)).head?, rawWidth tabSize r.2 = 0 := by
    intro r hr
    rw [numbered_add, List.head?_map] at hr
    obtain ⟨q, hq, rfl⟩ := Option.map_eq_some_iff.mp hr
    rw [hsecond, scanFrom_numbered, head?_scanNumbered, hq] at hmargin
    exact hmargin _ rfl
  have hall : (s₁ ++ "\n" ++ s₂).toList = s₁.toList ++ '\n' :: s₂.toList := by
    rw [String.toList_append, String.toList_append, List.append_assoc]
    rfl
  refine ⟨front.length, ?_, fun l hl => ?_⟩
  · rw [scan, hall, withoutMark_newline, physicalLines, hfront,
      scanFrom_append, ← hfirst, scanFrom_numbered _ _ (1 + front.length),
      scanNumbered_margin tabSize
        (levels_margin.levelsAfter tabSize (numbered 1 front)) hwidth,
      ← scanFrom_numbered, scanFrom_later tabSize levels_margin, ← hsecond]
  · rw [hfirst] at hl
    have := number_lt_scanFrom tabSize l hl
    omega

end Source

namespace Reading

open Grammar Text

/-- A header of a further branch of a conditional: `else`, or `elif` and a
condition. -/
def IsBranchHead (head : List Char) : Prop :=
  head = "else".toList
    ∨ ∃ b cond, isBlank b = true ∧ cond ≠ []
      ∧ head = "elif".toList ++ b :: cond

theorem IsBranchHead.head? {head : List Char} (h : IsBranchHead head) :
    head.head? = some 'e' := by
  rcases h with rfl | ⟨b, cond, -, -, rfl⟩ <;> rfl

theorem isBranchHead_of_continues {l : Line}
    (h : continuesConditional l = true) : IsBranchHead (headOf l) := by
  obtain ⟨condition, hcond⟩ := Option.isSome_iff_exists.mp h
  unfold branchCondition? at hcond
  split at hcond
  · next rest hrest =>
    obtain ⟨hkey, hne⟩ := afterKeyword?_eq_some.mp hrest
    obtain ⟨bs, hbs, hblanks, -, hhead⟩ := keyword?_eq_some.mp hkey
    cases bs with
    | nil => exact absurd rfl hbs
    | cons b bs =>
        exact .inr ⟨b, bs ++ rest, hblanks b List.mem_cons_self, by simp [hne],
          hhead⟩
  · split at hcond
    · next helse => exact .inl helse
    · cases hcond

/-- A source behind which a line at the margin comes that opens no further
branch gives what it gives alone. -/
theorem linesYield_append (as : List Line) {bs : List Line}
    (hdepth : ∀ b ∈ bs.head?, b.depth = 0)
    (hstarts : Item.NoBranch continuesConditional bs) :
    linesYield (as ++ bs) = (linesYield as).append (linesYield bs) := by
  have hstop : ∀ b ∈ bs.head?, decide (0 < b.depth) = false := by
    intro b hb
    rw [hdepth b hb]
    rfl
  have hitems := itemsOf_append (as.dropWhile (0 < ·.depth)) hdepth hstarts
  rw [linesYield_margin hdepth, linesYield, linesYield,
    takeWhile_append_of_stop hstop, dropWhile_append_of_stop hstop,
    ← itemsOf, ← itemsOf, hitems, itemsYield_append]
  simp only [Yield.append, List.append_assoc]

variable (tabSize : Int)

/-- Two sources with a line break between them read as the one and then the
other, if the second begins at the margin and does not go on with a
conditional. -/
theorem read_newline (s₁ : String) {s₂ : String}
    (hmark : s₂.toList.head? ≠ some '\uFEFF')
    (hfirst : ∀ l ∈ (Source.scan tabSize s₂).1.head?,
      l.indent = 0 ∧ ¬ IsBranchHead (headOf l))
    (numbering numbering₁ numbering₂ : Numbering) :
    ∃ k, Stmt.anonymousAll (read tabSize numbering (s₁ ++ "\n" ++ s₂)).1
        = Stmt.anonymousAll (read tabSize numbering₁ s₁).1
          ++ Stmt.moveAll (· + k)
              (Stmt.anonymousAll (read tabSize numbering₂ s₂).1)
      ∧ (read tabSize numbering (s₁ ++ "\n" ++ s₂)).2.1
        = (read tabSize numbering₁ s₁).2.1
          ++ (read tabSize numbering₂ s₂).2.1.map
              fun d => { d with line := d.line + k } := by
  obtain ⟨k, hscan, hle⟩ := Source.scan_newline tabSize s₁ hmark
    fun l hl => (hfirst l hl).1
  have hyield : linesYield (Source.scan tabSize (s₁ ++ "\n" ++ s₂)).1
      = (linesYield (Source.scan tabSize s₁).1).append
          ((linesYield (Source.scan tabSize s₂).1).move 0 (· + k)) := by
    -- The second half begins at the margin and with no further branch, which is
    -- what keeps it from going on with an item of the first half.
    rw [hscan, linesYield_append, linesYield_move]
    · intro b hb
      rw [List.head?_map] at hb
      obtain ⟨l, hl, rfl⟩ := Option.map_eq_some_iff.mp hb
      exact Source.head_depth_scan tabSize l hl (hfirst l hl).1
    · intro b hb
      rw [List.head?_map] at hb
      obtain ⟨l, hl, rfl⟩ := Option.map_eq_some_iff.mp hb
      exact Bool.eq_false_iff.mpr fun hcont =>
        (hfirst l hl).2 (isBranchHead_of_continues (l := l) hcont)
  have hmove : Diagnostic.move 0 (· + k)
      = fun d => { d with line := d.line + k } := by
    funext d
    rw [Diagnostic.move, Cause.move_zero]
  refine ⟨k, ?_, ?_⟩
  · rw [anonymousAll_read, anonymousAll_read, anonymousAll_read, hyield]
    rfl
  · have hsort := List.map_mergeSort (f := Diagnostic.move 0 (· + k))
      (r := fun a b : Diagnostic => decide (a.line ≤ b.line))
      (s := fun a b : Diagnostic => decide (a.line ≤ b.line))
      (l := (Source.scan tabSize s₂).2
        ++ (linesYield (Source.scan tabSize s₂).1).found) fun a _ b _ =>
          decide_eq_decide.mpr (Nat.add_le_add_iff_right).symm
    rw [found_read, found_read, found_read, ← hmove, hsort, hyield, hscan,
      List.map_append]
    -- All complaints of the first source are about earlier lines.
    refine mergeSort_separated (m := k + 1) (fun d hd => ?_) fun d hd => ?_
    · obtain ⟨l, hl, hdl⟩ := located_found tabSize s₁ d hd
      have := hle l hl
      omega
    · rw [Yield.move, ← List.map_append] at hd
      obtain ⟨e, he, rfl⟩ := List.mem_map.mp hd
      obtain ⟨l, hl, hel⟩ := located_found tabSize s₂ e he
      have := Source.numbers_scanFrom.2.1 l hl
      rw [Diagnostic.move]
      simp only
      omega

/-- A menu that waits for choices is closed by a line at the margin, and a
carriage return in front of the break makes no further line. -/
theorem read_newline_menu :
    ∃ k, Stmt.anonymousAll (read 4 default
          ("menu\n  \"Where?\"\r" ++ "\n" ++ "return x\n  \"Hi.\"")).1
        = Stmt.anonymousAll (read 4 default "menu\n  \"Where?\"\r").1
          ++ Stmt.moveAll (· + k) (Stmt.anonymousAll
              (read 4 default "return x\n  \"Hi.\"").1)
      ∧ (read 4 default
          ("menu\n  \"Where?\"\r" ++ "\n" ++ "return x\n  \"Hi.\"")).2.1
        = (read 4 default "menu\n  \"Where?\"\r").2.1
          ++ (read 4 default "return x\n  \"Hi.\"").2.1.map
              fun d => { d with line := d.line + k } := by
  refine read_newline 4 _ (by decide) (fun l hl => ?_) default default default
  have hfirst : (Source.scan 4 "return x\n  \"Hi.\"").1.head?
      = some ⟨"return x", 0, 0, 1⟩ := by decide
  rw [hfirst] at hl
  obtain rfl := Option.some.inj hl
  exact ⟨rfl, fun h => absurd h.head? (by decide)⟩

end Reading

end NovelScript
