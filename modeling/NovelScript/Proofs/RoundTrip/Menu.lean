/-
Menus that read as they are written. The choices come last and can be read
behind anything, so they are put together first; the set line and the question
in front of them are then one line each.

# From the end to the front

`LegibleChoices.cons` puts a choice in front of others, just as a branch is put
in front of further ones. The lines of a menu are gone through with the parts
that were read so far, and `ChoicesAs` says of choices that they add themselves
to any such parts. In front of them stand a set line, if there is one
(`scans_tail`), and a question, if there is one (`legibleMenu`), each of which
changes the parts in one way: a question is the first thing that a menu can get,
and a set line can come at any time but only once.

# The head

A menu's head is written in two places: its name and its screen on the line of
the header, its question, speaker and set line below. `menuHead_partsOf` says
that the head comes back from its parts, with what was absent in one of several
ways now absent in one.

# Two corners

A question may be asked by somebody of any name, even one that opens a
conditional elsewhere: inside a menu a line without branches is looked at all
the same. And a menu in which nothing stands has a line that says `pass`, which
a menu takes for no part of itself (`legibleMenu_pass`).
-/
import NovelScript.Proofs.RoundTrip.Legible

namespace NovelScript.Reading

open Grammar Source Text

-- =============================================================== choices

/-- Lines that read as choices of a menu, with nothing to complain about. What
was read of the menu before them stays as it is. -/
structure ChoicesAs (ls : List Line) (cs : List Choice) : Prop where
  /-- They do not continue a conditional. -/
  starts : Item.NoBranch continuesConditional ls
  /-- They add the choices to whatever the menu has already. -/
  reads : ∃ found, Choice.unlabelAll found = cs
    ∧ ∀ m : MenuParts, menuYield m (itemsOf ls)
        = (.ok { m with choices := m.choices ++ found }, [])

/-- Rows that read as choices wherever they stand. -/
structure LegibleChoices (rows : List Row) (cs : List Choice) : Prop where
  /-- They begin at the margin. -/
  laid : Laid rows
  /-- They read as the choices. -/
  reads : Scans rows fun ls => ChoicesAs ls cs

theorem legibleChoices_nil : LegibleChoices [] [] := by
  refine ⟨laid_nil, fun _ _ => ⟨[], rfl, by simp [Item.NoBranch], [], rfl,
    fun m => ?_⟩⟩
  rw [itemsOf, Item.ofLines, menuYield, List.append_nil]

theorem heads_choice (said : String) {condition : Option String}
    (h : ∀ c ∈ condition, Condition c) :
    Heads (Phrase.choiceHead (quoted said) condition)
      (choicePart said condition) := by
  refine ⟨toList_choiceHead said condition, ?_, '"', _, rfl, by decide,
    by decide⟩
  cases condition with
  | none =>
      rw [choicePart, List.append_nil]
      exact ⟨endsInk_quote _, unbroken_quote _⟩
  | some c =>
      have hc := h c rfl
      have hif : EndsInk ("if".toList ++ ' ' :: c.toList) :=
        endsInk_word _ hc.tidy.ends hc.tidy.ne_nil
      exact ⟨endsInk_word _ hif (by simp), unbroken_word (unbroken_quote _)
        (unbroken_word (unbroken_of_ink (by decide)) hc.unbroken)⟩

/-- A choice in front of others is legible. -/
theorem LegibleChoices.cons (said : String) {condition : Option String}
    (hcond : ∀ c ∈ condition, Condition c) {rows rows' : List Row}
    {body : List Stmt} {more : List Choice} (hbody : LegibleBody rows body)
    (hmore : LegibleChoices rows' more) {p : Nat} (hp : 0 < p) :
    LegibleChoices ((⟨0, Phrase.choiceHead (quoted said) condition⟩
        :: rows.map (Row.shift p)) ++ rows')
      (.mk said condition none body :: more) := by
  have hheads := heads_choice said hcond
  have hlaid := hbody.laid.header hheads.content p
  refine ⟨hlaid.append hmore.laid, fun tabSize number => ?_⟩
  obtain ⟨ls, hscan, as, rest, rfl, ⟨n, bs, hb, rfl⟩, hrest, hdepth⟩ :=
    (hbody.reads.header hheads.content hbody.laid hp).append hmore.laid
      hmore.reads tabSize number
  obtain ⟨found, hfound, hmenu⟩ := hrest.reads
  obtain ⟨hbstmts, hbquiet⟩ := hb.moved p 1 id
  have hword : firstWord? (headerLine (Phrase.choiceHead (quoted said)
      condition) n).content.toList = none := by
    rw [headerLine, hheads.text_eq, firstWord?_choicePart]
  -- A choice begins with a quote, so no word of the language reads it; it takes
  -- the colon and the condition away that were written.
  have hcolon : hasColon (headerLine (Phrase.choiceHead (quoted said)
      condition) n) = true := congrArg Prod.snd hheads.split
  have hline : ∀ m hasBlock, menuLine m (headerLine (Phrase.choiceHead
      (quoted said) condition) n) hasBlock = .choice said.toList condition := by
    intro m hasBlock
    simp only [menuLine, hheads.headOf,
      choice?_written said fun c hc => (hcond c hc).tidy, hcolon]
    rfl
  -- The first choice with its body is one item, as the next line is at the
  -- margin.
  have hall := itemsOf_append (headerLine
    (Phrase.choiceHead (quoted said) condition) n
      :: bs.map (Line.move p 1 id)) hdepth hrest.starts
  rw [itemsOf_header p id (opensConditional_of_firstWord?
    (by rw [hword]; decide)) bs] at hall
  refine ⟨_, hscan, fun l hl => ?_, .mk said condition (some n) (bodyOf
    (Item.mapAll (Line.move p 1 id) (itemsOf bs)) (itemsYield
      (Item.mapAll (Line.move p 1 id) (itemsOf bs))).stmts) :: found, ?_,
    fun m => ?_⟩
  · obtain rfl : _ = l := Option.some.inj hl
    exact continuesConditional_of_firstWord? (by rw [hword]; decide)
      (by rw [hword]; decide)
  · rw [Choice.unlabelAll, Choice.relabelAll, ← Stmt.unlabelAll, hbstmts,
      ← Choice.unlabelAll, hfound]
  · rw [hall, List.singleton_append, menuYield, hline]
    simp only [hmenu, hheads.colonFound, hbquiet, String.ofList_toList,
      List.append_assoc, List.singleton_append]
    rfl

-- ================================================================= menus

/-- A line of a menu without a block, in front of others. -/
theorem menuYield_line {m m' : MenuParts} {l : Line} {ls : List Line}
    (hline : menuLine m l false = .parts m')
    (hdepth : ∀ b ∈ ls.head?, b.depth = 0)
    (hstarts : Item.NoBranch continuesConditional ls) :
    menuYield m (itemsOf (l :: ls)) = menuYield m' (itemsOf ls) := by
  have hall := itemsOf_append [l] hdepth hstarts
  rw [List.singleton_append] at hall
  rw [hall]
  rcases itemsOf_singleton l with h | h
  · rw [h, List.singleton_append]
    simp only [menuYield, List.isEmpty_nil, Bool.not_true, hline]
  · rw [h, List.singleton_append]
    simp only [menuYield, List.isEmpty_nil, Bool.not_true, hline]

/-- Lines that read as the end of a menu's block: a set line if there is
one, and the choices. -/
structure TailAs (ls : List Line) (setVar : Option String)
    (cs : List Choice) : Prop where
  /-- They do not continue a conditional. -/
  starts : Item.NoBranch continuesConditional ls
  /-- They add the set and the choices to whatever the menu has already. -/
  reads : ∃ found, Choice.unlabelAll found = cs
    ∧ ∀ m : MenuParts, m.setVar = none → menuYield m (itemsOf ls)
        = (.ok { m with setVar := setVar, choices := m.choices ++ found }, [])

/-- The row of a set line, if there is one. -/
def setRows (setVar : Option String) : List Row :=
  (setVar.map fun v => ⟨0, Phrase.menuSet v⟩).toList

theorem inline_menuSet {var : String} (h : Dotted var.toList) :
    LineEnd (Phrase.menuSet var).toList := by
  have hu : Unbroken var.toList := unbroken_of_ink fun c hc =>
    isBlank_of_isDottedChar (h.all c hc)
  rw [toList_menuSet]
  exact ⟨endsInk_word _ h.tidy.ends h.tidy.ne_nil,
    unbroken_word (unbroken_of_ink (by decide)) hu⟩

theorem content_menuSet {var : String} (h : Dotted var.toList) :
    Content (Phrase.menuSet var).toList := by
  have hu := (inline_menuSet h).unbroken
  rw [toList_menuSet] at hu ⊢
  exact content_cons hu (by decide) (by decide)

theorem menuLine_menuSet {var : String} (h : Dotted var.toList)
    (number : Nat) {m : MenuParts} (hm : m.setVar = none) :
    menuLine m (headerLine (Phrase.menuSet var) number) false
      = .parts { m with setVar := some var } := by
  have hlast : (Phrase.menuSet var).toList.getLast? ≠ some ':' := by
    intro hcolon
    rw [toList_menuSet, List.getLast?_append_of_ne_nil _ (by simp)] at hcolon
    have hmem : ':' ∈ ' ' :: var.toList := List.mem_of_getLast? hcolon
    rcases List.mem_cons.mp hmem with hc | hc
    · exact absurd hc (by decide)
    · exact absurd (h.all _ hc) (by decide)
  have hsplit := splitHeader_plain (inline_menuSet h).ends hlast
  have hhead : headOf (headerLine (Phrase.menuSet var) number)
      = "set".toList ++ ' ' :: var.toList :=
    (congrArg Prod.fst hsplit).trans (toList_menuSet var)
  have hcolon : hasColon (headerLine (Phrase.menuSet var) number) = false :=
    congrArg Prod.snd hsplit
  have hstart : ("set".toList ++ ' ' :: var.toList).head? = some 's' := rfl
  have hchoice : choice? ("set".toList ++ ' ' :: var.toList) = none := by
    refine choice?_of_not_quote fun c hc => ?_
    rw [hstart] at hc
    rw [← Option.some.inj hc]
    decide
  have hpass : "set".toList ++ ' ' :: var.toList ≠ "pass".toList := by
    intro hpass
    rw [hpass] at hstart
    exact absurd hstart (by decide)
  simp only [menuLine, hhead, hcolon, hchoice, bareMenuLine, if_neg hpass,
    menuSet?_written h, hm]
  rfl

/-- A set line in front of choices. -/
theorem scans_tail {setVar : Option String}
    (hset : ∀ v ∈ setVar, Dotted v.toList) {rows : List Row}
    {cs : List Choice} (h : LegibleChoices rows cs) :
    Laid (setRows setVar ++ rows)
      ∧ Scans (setRows setVar ++ rows) fun ls => TailAs ls setVar cs := by
  cases setVar with
  | none =>
      refine ⟨h.laid, fun tabSize number => ?_⟩
      obtain ⟨ls, hscan, hstarts, found, hfound, hmenu⟩ :=
        h.reads tabSize number
      refine ⟨ls, hscan, hstarts, found, hfound, fun m hm => ?_⟩
      rw [hmenu, ← hm]
  | some v =>
      have hv := hset v rfl
      have hcontent := content_menuSet hv
      refine ⟨(laid_row hcontent).append h.laid, fun tabSize number => ?_⟩
      obtain ⟨ls, hscan, n, rest, hrest, hdepth, rfl⟩ :=
        h.reads.line hcontent h.laid tabSize number
      obtain ⟨found, hfound, hmenu⟩ := hrest.reads
      have hset : Name "set".toList :=
        ⟨'s', ['e', 't'], rfl, by decide, by decide⟩
      have hword : firstWord? (headerLine (Phrase.menuSet v) n).content.toList
          = some "set" := by
        rw [headerLine, toList_menuSet, firstWord?_name hset (stops_space _),
          String.ofList_toList]
      refine ⟨_, hscan, fun l hl => ?_, found, hfound, fun m hm => ?_⟩
      · obtain rfl : _ = l := Option.some.inj hl
        exact continuesConditional_of_firstWord? (by rw [hword]; decide)
          (by rw [hword]; decide)
      · rw [menuYield_line (menuLine_menuSet hv n hm) hdepth hrest.starts,
          hmenu]

/-- Lines that read as the block of a menu, with nothing to complain
about. -/
def MenuAs (ls : List Line) (m : MenuParts) (cs : List Choice) : Prop :=
  ∃ found, Choice.unlabelAll found = cs
    ∧ menuYield {} (itemsOf ls) = (.ok { m with choices := found }, [])

/-- The row of a question, if there is one. -/
def askRows (speaker prompt : Option String) : List Row :=
  (prompt.map fun p => ⟨0, Phrase.menuPrompt speaker (quoted p)⟩).toList

theorem lineEnd_menuPrompt {speaker : Option String}
    (h : ∀ s ∈ speaker, Name s.toList) (prompt : String) :
    LineEnd (Phrase.menuPrompt speaker (quoted prompt)).toList := by
  have hquote := endsInk_quote prompt.toList
  rw [toList_menuPrompt]
  refine ⟨hquote.append (by simp [quote]),
    unbroken_append.mpr ⟨?_, unbroken_quote _⟩⟩
  cases speaker with
  | none => simp [speakerPart, Unbroken]
  | some s =>
      have hs : Unbroken s.toList := unbroken_of_ink fun c hc =>
        isBlank_of_isWordChar ((h s rfl).all c hc)
      exact unbroken_word hs (by simp [Unbroken])

theorem content_menuPrompt {speaker : Option String}
    (h : ∀ s ∈ speaker, Name s.toList) (prompt : String) :
    Content (Phrase.menuPrompt speaker (quoted prompt)).toList := by
  have hu := (lineEnd_menuPrompt h prompt).unbroken
  rw [toList_menuPrompt] at hu ⊢
  cases speaker with
  | none => exact content_cons hu (by decide) (by decide)
  | some s =>
      obtain ⟨c, ws, hcs, hc, -⟩ := h s rfl
      rw [speakerPart, hcs] at hu ⊢
      refine content_cons hu
        (isBlank_of_isWordChar (isWordChar_of_isNameStart hc)) ?_
      rintro rfl
      exact absurd hc (by decide)

/-- A question is the first thing that a menu can get. -/
theorem menuLine_menuPrompt {speaker : Option String}
    (h : ∀ s ∈ speaker, Name s.toList) (prompt : String) (number : Nat) :
    menuLine {} (headerLine (Phrase.menuPrompt speaker (quoted prompt))
        number) false
      = .parts { prompt := some prompt.toList, promptSpeaker := speaker } := by
  have hlast : (Phrase.menuPrompt speaker (quoted prompt)).toList.getLast?
      ≠ some ':' := by
    rw [toList_menuPrompt, quote, ← List.append_assoc, List.getLast?_concat]
    decide
  have hsplit := splitHeader_plain (lineEnd_menuPrompt h prompt).ends hlast
  have hhead : headOf (headerLine (Phrase.menuPrompt speaker
      (quoted prompt)) number) = speakerPart speaker ++ quote prompt.toList :=
    (congrArg Prod.fst hsplit).trans (toList_menuPrompt speaker prompt)
  have hcolon : hasColon (headerLine (Phrase.menuPrompt speaker
      (quoted prompt)) number) = false := congrArg Prod.snd hsplit
  -- Without a speaker the question looks like a choice, and is told from one by
  -- what it lacks. With a speaker it is none, since a name begins with no
  -- quote.
  cases speaker with
  | none =>
      have hchoice : choice? (quote prompt.toList)
          = some (prompt.toList, none) := by
        have hwritten : choice? (choicePart prompt none)
            = some (prompt.toList, none) := choice?_written prompt (by simp)
        rwa [choicePart, List.append_nil] at hwritten
      simp only [menuLine, hhead, hcolon, speakerPart, List.nil_append,
        hchoice]
      rfl
  | some s =>
      have hs := h s rfl
      have hchoice : choice? (speakerPart (some s) ++ quote prompt.toList)
          = none := by
        obtain ⟨d, ws, hcs, hd, -⟩ := hs
        refine choice?_of_not_quote fun c hc => ?_
        rw [speakerPart, hcs] at hc
        obtain rfl : d = c := Option.some.inj hc
        by_contra hquote
        have hcases : d = '"' ∨ d = '\'' := by
          rwa [isQuote, Bool.not_eq_false, Bool.or_eq_true,
            decide_eq_true_eq, decide_eq_true_eq] at hquote
        rcases hcases with rfl | rfl
        · exact absurd hd (by decide)
        · exact absurd hd (by decide)
      have hpass : speakerPart (some s) ++ quote prompt.toList
          ≠ "pass".toList := by
        intro hpass
        have hmem : '"' ∈ speakerPart (some s) ++ quote prompt.toList :=
          List.mem_append_right _ List.mem_cons_self
        rw [hpass] at hmem
        exact absurd hmem (by decide)
      have hprompt := menuPrompt?_written hs prompt
      have hsame : speakerPart (some s) ++ quote prompt.toList
          = s.toList ++ ' ' :: quote prompt.toList := by
        simp [speakerPart]
      simp only [menuLine, hhead, hcolon, hchoice, bareMenuLine,
        if_neg hpass, menuSet?_of_quote]
      rw [hsame, hprompt]
      rfl

/-- Rows that read as the block of a menu wherever they stand. -/
structure LegibleMenu (rows : List Row) (m : MenuParts) (cs : List Choice) :
    Prop where
  /-- They begin at the margin. -/
  laid : Laid rows
  /-- They read as the parts of the menu. -/
  reads : Scans rows fun ls => MenuAs ls m cs

/-- What the head of a menu gives to its parts. -/
def partsOf (h : MenuHead) : MenuParts where
  prompt := (Written.present h.prompt).map String.toList
  promptSpeaker := Written.present h.promptSpeaker
  setVar := Written.present h.setVar

/-- The rows of a menu: its question, its set line and its choices. -/
def menuRows (h : MenuHead) (rows : List Row) : List Row :=
  askRows (Written.present h.promptSpeaker) (Written.present h.prompt)
    ++ (setRows (Written.present h.setVar) ++ rows)

theorem menuLine_pass (number : Nat) :
    menuLine {} (headerLine "pass" number) false = .parts {} := by
  have hhead : headOf (headerLine "pass" number) = "pass".toList := by
    show (splitHeader "pass".toList).1 = _
    decide
  have hcolon : hasColon (headerLine "pass" number) = false := by
    show (splitHeader "pass".toList).2 = _
    decide
  have hchoice : choice? "pass".toList = none := by decide
  simp only [menuLine, hhead, hcolon, hchoice, bareMenuLine]
  rfl

/-- A menu in which only `pass` stands is empty. The word adds nothing to a
menu. -/
theorem legibleMenu_pass : LegibleMenu [⟨0, "pass"⟩] {} [] := by
  refine ⟨laid_row content_pass, scans_row content_pass fun number =>
    ⟨[], rfl, ?_⟩⟩
  rw [menuYield_line (menuLine_pass number) (by simp)
    (by simp [Item.NoBranch]), itemsOf, Item.ofLines, menuYield]

/-- No rows are no choices. -/
theorem LegibleChoices.eq_nil {cs : List Choice}
    (h : LegibleChoices [] cs) : cs = [] := by
  obtain ⟨ls, hscan, -, found, rfl, hmenu⟩ := h.reads 1 1
  obtain rfl : [] = ls := congrArg Prod.fst hscan
  have hempty := hmenu {}
  rw [itemsOf, Item.ofLines, menuYield] at hempty
  have hparts := Except.ok.inj (congrArg Prod.fst hempty)
  have hchoices : [] = [] ++ found := congrArg MenuParts.choices hparts
  rw [← List.nil_append found, ← hchoices]
  rfl

/-- The block of a menu is legible; one with nothing in it says so. The question
and the set line stand in front of the choices, each if it is there. -/
theorem legibleMenu {h : MenuHead} (hproper : h.Proper) {rows : List Row}
    {cs : List Choice} (hchoices : LegibleChoices rows cs) :
    LegibleMenu (Outline.bodyRows (menuRows h rows)) (partsOf h) cs := by
  obtain ⟨hlaid, htail⟩ := scans_tail hproper.setVar hchoices
  have hspeaker : ∀ s ∈ Written.present h.promptSpeaker, Name s.toList :=
    fun s hs => (hproper.speaker s hs).1
  cases hprompt : Written.present h.prompt with
  | some p =>
      have hrows : menuRows h rows
          = ⟨0, Phrase.menuPrompt (Written.present h.promptSpeaker)
              (quoted p)⟩ :: (setRows (Written.present h.setVar) ++ rows) := by
        rw [menuRows, hprompt]
        rfl
      have hcontent := content_menuPrompt hspeaker p
      rw [hrows, Outline.bodyRows, if_neg (by simp)]
      refine ⟨Laid.cons hcontent rfl hlaid.sound, fun tabSize number => ?_⟩
      obtain ⟨ls, hscan, n, rest, hrest, hdepth, rfl⟩ :=
        htail.line hcontent hlaid tabSize number
      obtain ⟨found, hfound, hmenu⟩ := hrest.reads
      refine ⟨_, hscan, found, hfound, ?_⟩
      rw [menuYield_line (menuLine_menuPrompt hspeaker p n) hdepth
        hrest.starts, hmenu _ rfl, partsOf, hprompt]
      rfl
  | none =>
      -- Nobody asks a question that is not there.
      have hnobody : Written.present h.promptSpeaker = none := by
        by_contra hsome
        obtain ⟨s, hs⟩ := Option.ne_none_iff_exists'.mp hsome
        obtain ⟨p, hp⟩ := (hproper.speaker s hs).2
        rw [hprompt] at hp
        cases hp
      have hrows : menuRows h rows
          = setRows (Written.present h.setVar) ++ rows := by
        rw [menuRows, hprompt]
        rfl
      have hparts : partsOf h
          = { setVar := Written.present h.setVar } := by
        rw [partsOf, hprompt, hnobody]
        rfl
      rw [hrows, hparts, Outline.bodyRows]
      split
      · next hempty =>
        obtain ⟨hset, rfl⟩ := List.append_eq_nil_iff.mp
          (List.isEmpty_iff.mp hempty)
        have hnone : Written.present h.setVar = none := by
          cases hv : Written.present h.setVar with
          | none => rfl
          | some v =>
              rw [hv] at hset
              cases hset
        rw [hnone, hchoices.eq_nil]
        exact legibleMenu_pass
      · refine ⟨hlaid, fun tabSize number => ?_⟩
        obtain ⟨ls, hscan, -, found, hfound, hmenu⟩ := htail tabSize number
        refine ⟨ls, hscan, found, hfound, ?_⟩
        rw [hmenu {} rfl]
        rfl

theorem heads_menu {name : Option String} (hname : ∀ n ∈ name, Name n.toList)
    (screen : Option String) :
    Heads (Phrase.menuHead name (screen.map quoted))
      ("menu".toList ++ (namePart name ++ screenPart screen)) :=
  ⟨toList_menuHead name screen, lineEnd_menu hname screen, 'm', _, rfl,
    by decide, by decide⟩

theorem ne_empty_of_present {o : Option String} {s : String}
    (h : Written.present o = some s) : s ≠ "" := by
  rintro rfl
  unfold Written.present at h
  split at h
  · cases h
  · next hne => exact hne h

/-- The head of a menu comes back from its parts, with what is empty left out.
-/
theorem menuHead_partsOf {h : MenuHead} (hproper : h.Proper)
    (found : List Choice) :
    menuHead { partsOf h with choices := found } (Written.present h.name)
        (Written.present h.screen) = h.again := by
  have hprompt : ((Written.present h.prompt).map String.toList).bind
        (fun cs => if cs.isEmpty then none else some (String.ofList cs))
      = Written.present h.prompt := by
    cases hp : Written.present h.prompt with
    | none => rfl
    | some p =>
        have hne : ¬p.toList.isEmpty = true := by
          rw [List.isEmpty_iff, String.toList_eq_nil_iff]
          exact ne_empty_of_present hp
        rw [Option.map_some, Option.bind_some, if_neg hne,
          String.ofList_toList]
  have hscreen : (Written.present h.screen).bind presentText
      = Written.present h.screen := by
    cases hs : Written.present h.screen with
    | none => rfl
    | some s =>
        rw [Option.bind_some, presentText, hproper.screen s hs]
        exact if_neg (ne_empty_of_present hs)
  have hspeaker : (if (Written.present h.prompt).isSome
        then Written.present h.promptSpeaker else none)
      = Written.present h.promptSpeaker := by
    cases hs : Written.present h.promptSpeaker with
    | none => split <;> rfl
    | some s =>
        obtain ⟨p, hp⟩ := (hproper.speaker s hs).2
        rw [hp, Option.isSome_some, if_pos rfl]
  simp only [menuHead, partsOf, hprompt, hscreen, hspeaker, MenuHead.again]

/-- A menu is legible. -/
theorem legible_menu {h : MenuHead} (hproper : h.Proper) {rows : List Row}
    {cs : List Choice} (hchoices : LegibleChoices rows cs) {p : Nat}
    (hp : 0 < p) :
    Legible (⟨0, Phrase.menuHead (Written.present h.name)
          ((Written.present h.screen).map quoted)⟩
        :: (Outline.bodyRows (menuRows h rows)).map (Row.shift p))
      [.menu ⟨"", none⟩ h.again cs] := by
  have hheads := heads_menu hproper.name (Written.present h.screen)
  have hblock := legibleMenu hproper hchoices
  refine ⟨hblock.laid.header hheads.content p, fun tabSize number => ?_⟩
  obtain ⟨ls, hscan, n, bs, ⟨found, hfound, hmenu⟩, rfl⟩ :=
    hblock.reads.header hheads.content hblock.laid hp tabSize number
  have hmenuName : Name "menu".toList :=
    ⟨'m', ['e', 'n', 'u'], rfl, by decide, by decide⟩
  have hstop : Stops isWordChar (namePart (Written.present h.name)
      ++ screenPart (Written.present h.screen) ++ [':']) := by
    cases Written.present h.name with
    | some m => exact stops_space _
    | none =>
        intro c hc
        cases hscreen : Written.present h.screen with
        | some s =>
            rw [hscreen] at hc
            obtain rfl : '(' = c := Option.some.inj hc
            decide
        | none =>
            rw [hscreen] at hc
            obtain rfl : ':' = c := Option.some.inj hc
            decide
  have hword : firstWord? (headerLine (Phrase.menuHead
      (Written.present h.name) ((Written.present h.screen).map quoted))
      n).content.toList = some "menu" :=
    hheads.firstWord? hmenuName rfl hstop
  have hitems := itemsOf_header p id (opensConditional_of_firstWord?
    (by rw [hword]; decide)) bs
  -- The parts of the menu do not depend on where it stands.
  have hparts : moveOutcome p 1 id (.ok { partsOf h with choices := found })
      = .ok { partsOf h with choices := Choice.moveAll id found } := rfl
  have hmoved := menuYield_move p 1 id (itemsOf bs)
  simp only [hmenu, hparts] at hmoved
  have hyield := itemYield.eq_1 (headerLine (Phrase.menuHead
      (Written.present h.name) ((Written.present h.screen).map quoted)) n)
    (Item.mapAll (Line.move p 1 id) (itemsOf bs))
  simp only [hword, hheads.headOf, menu?_written hproper.name,
    hheads.colonFound, hmoved] at hyield
  refine ⟨_, hscan, fun l hl => ?_, ?_, ?_⟩
  · obtain rfl : _ = l := Option.some.inj hl
    exact continuesConditional_of_firstWord? (by rw [hword]; decide)
      (by rw [hword]; decide)
  · rw [hitems, itemsYield, hyield, menuHead_partsOf hproper]
    simp only [itemsYield, Yield.append, List.append_nil, Stmt.unlabelAll,
      Stmt.relabelAll, Stmt.relabel]
    rw [← Choice.unlabelAll, Choice.unlabelAll_moveAll, hfound]
  · rw [hitems, itemsYield, hyield]
    rfl

end NovelScript.Reading
