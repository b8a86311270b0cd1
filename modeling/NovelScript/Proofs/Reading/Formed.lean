/-
The form of what is read. A statement comes from lines with something on them:
names are cut out as names, conditions as what stands on one line, and a simple
statement is what a line says, a block of code, or lines that were kept as they
were. All this holds whatever was complained about.

# What is said of a statement

`SingleAs` lists the ways in which a line and the block below it are one simple
statement, and a statement is `OfLines` if there are such lines for it.
`Stmt.Formed` says it of all simple statements in a tree, and of compound ones
that each text in their headers has the form that the header's rule gives it.
Nothing here is lost in what follows: what is written of a statement, how it is
saved, and whether it comes back are read off its form.

# Readings that give a property

A reading `Gives` a property if its result has it whatever was read before. That
is kept by doing one thing after another (`Gives.bind`), and steps of whose
result nothing is known are passed over (`Gives.after`), so the induction over
the items follows the reading line by line. The items have to be as the block
form puts them (`Stands`), since a conditional is only read as one because its
line opens one, and their lines as the scanner hands them on (`Readable`).

A menu is formed from its parts (`MenuParts.Formed`), which are carried through
its lines; when it falls back to raw text, what was read inside is dropped and
only its lines count.
-/
import NovelScript.Proofs.Reading.Making
import NovelScript.Proofs.Saving.Nested

namespace NovelScript

open Grammar Text

namespace Reading

/-- The ways in which a line and the block below it are one simple
statement. -/
inductive SingleAs (l : Line) (block : List Line) : Simple → Prop where
  /-- The line says the statement, and there is no block. -/
  | spoken {s : Simple} (hs : s.Spoken) (hblock : block = []) :
    SingleAs l block s
  /-- The lines are kept as they are. -/
  | raw : SingleAs l block (.raw (Line.relativeText (l :: block)))
  /-- The line is the header of a code block. -/
  | code {flags : Bool × Bool × Bool}
    (hflags : codeHeader? (headOf l) = some flags) :
    SingleAs l block (codeBlock flags (codeText block))

end Reading

/-- A simple statement that lines with something on them are: one that a line
says, code in a block, or lines that were kept as they were. -/
def Simple.OfLines (s : Simple) : Prop :=
  ∃ l block, (∀ m ∈ l :: block, Source.Scanned m) ∧ Reading.SingleAs l block s

/-- The head of a menu as it is read: names are names, the screen has no
blanks at its ends, and nobody asks a question that is not there. -/
structure MenuHead.Formed (h : MenuHead) : Prop where
  /-- A question is not empty. -/
  prompt : h.prompt ≠ some ""
  /-- Who asks has a name, and asks something. -/
  speaker : ∀ s ∈ h.promptSpeaker, Name s.toList ∧ h.prompt.isSome = true
  /-- The set of choices already taken is a dotted name. -/
  setVar : ∀ v ∈ h.setVar, Dotted v.toList
  /-- The screen is a text without blanks at its ends. -/
  screen : ∀ s ∈ h.screen, s ≠ "" ∧ trimmed s = s
  /-- The name is one. -/
  name : ∀ n ∈ h.name, Name n.toList

mutual

/-- A statement of the form that reading gives it, with all that is nested in
it. The first branch of a conditional has a condition, and lines count from one
on. -/
def Stmt.Formed : Stmt → Prop
  | .simple tag s => tag.Savable ∧ s.OfLines
  | .label tag name parameters body =>
    tag.Savable ∧ LabelName name.toList ∧ Arguments parameters
      ∧ Stmt.FormedAll body
  | .menu tag head choices => tag.Savable ∧ head.Formed ∧ Choice.FormedAll choices
  | .conditional tag branches =>
    tag.Savable ∧ (∃ condition line body more,
        branches = .mk (some condition) line body :: more)
      ∧ Branch.FormedAll branches

/-- Statements of the form that reading gives them. -/
def Stmt.FormedAll : List Stmt → Prop
  | [] => True
  | s :: more => s.Formed ∧ Stmt.FormedAll more

/-- Choices of the form that reading gives them. -/
def Choice.FormedAll : List Choice → Prop
  | [] => True
  | .mk _ condition line body :: more =>
    (∀ c ∈ condition, Inline c.toList) ∧ (∀ n ∈ line, 1 ≤ n)
      ∧ Stmt.FormedAll body ∧ Choice.FormedAll more

/-- Branches of the form that reading gives them. -/
def Branch.FormedAll : List Branch → Prop
  | [] => True
  | .mk condition line body :: more =>
    (∀ c ∈ condition, Inline c.toList) ∧ (∀ n ∈ line, 1 ≤ n)
      ∧ Stmt.FormedAll body ∧ Branch.FormedAll more

end

namespace Reading

open Item

-- ================================================================= readings

/-- A reading whose result has a property, wherever it sets out from. -/
def Gives {α : Type} (P : α → Prop) (r : Reader α) : Prop :=
  ∀ p, P (r.run p).1

section

variable {α β : Type} {P : α → Prop} {Q : β → Prop}

theorem gives_pure {a : α} (h : P a) : Gives P (pure a) := fun _ => h

/-- What is known of the first result may be used for the second one. -/
theorem Gives.bind {r : Reader α} {f : α → Reader β} (h : Gives P r)
    (hf : ∀ a, P a → Gives Q (f a)) : Gives Q (r >>= f) :=
  fun p => hf _ (h p) _

/-- A step of whose result nothing is known, such as a complaint. -/
theorem Gives.after {r : Reader α} {f : α → Reader β}
    (hf : ∀ a, Gives Q (f a)) : Gives Q (r >>= f) :=
  fun _ => hf _ _

theorem gives_fresh : Gives (· ≠ "") fresh := by
  intro p h
  have hlength := congrArg String.length h
  have hid : (fresh.run p).1
      = p.numbering.stem ++ "_" ++ toString (p.numbering.used + 1) := rfl
  rw [hid, String.length_append, String.length_append] at hlength
  have : "_".length = 1 := by decide
  simp at hlength

end

-- =================================================================== statements

/-- A line that the scanner may hand on: there is something on it, it is
trimmed, and it is one of the lines from one on. -/
structure Readable (l : Line) : Prop where
  /-- Something stands on it. -/
  scanned : Source.Scanned l
  /-- It counts from one on. -/
  counted : 1 ≤ l.number

theorem Readable.line {l : Line} (h : Readable l) :
    ∀ n ∈ some l.number, 1 ≤ n := by
  intro n hn
  obtain rfl := Option.some.inj hn
  exact h.counted

theorem Readable.tag {l : Line} (h : Readable l) {id : String} (hid : id ≠ "") :
    Tag.Savable ⟨id, some l.number⟩ := ⟨hid, h.line⟩

theorem formedAll_append {as bs : List Stmt} (ha : Stmt.FormedAll as)
    (hb : Stmt.FormedAll bs) : Stmt.FormedAll (as ++ bs) := by
  induction as with
  | nil => exact hb
  | cons a as ih => exact ⟨ha.1, ih ha.2⟩

theorem formedAll_bodyOf {block : List Item} {body : List Stmt}
    (h : Stmt.FormedAll body) : Stmt.FormedAll (bodyOf block body) := by
  unfold bodyOf
  split
  · split
    · split
      · trivial
      · exact h
    · exact h
  · exact h

theorem gives_simple {l : Line} {s : Simple} (hl : Readable l)
    (hs : s.OfLines) : Gives Stmt.Formed (simple l s) :=
  gives_fresh.bind fun _ hid => gives_pure ⟨hl.tag hid, hs⟩

/-- Lines that are kept as they are. -/
theorem gives_raw {l : Line} {block : List Line}
    (h : ∀ m ∈ l :: block, Readable m) :
    Gives Stmt.Formed (rawLines l (l :: block)) :=
  gives_simple (h l List.mem_cons_self)
    ⟨l, block, fun m hm => (h m hm).scanned, .raw⟩

/-- One line that is kept as it is. -/
theorem gives_rawLine {l : Line} (hl : Readable l) :
    Gives Stmt.Formed (simple l (.raw l.content)) := by
  have hone : ∀ m ∈ [l], Readable m := fun m hm => by
    obtain rfl := List.mem_singleton.mp hm
    exact hl
  rw [← relativeText_single]
  exact gives_raw hone

theorem gives_stray {ls : List Line} (h : ∀ l ∈ ls, Readable l) :
    Gives Stmt.FormedAll (strayBlock ls) := by
  cases ls with
  | nil => exact gives_pure trivial
  | cons l ls =>
      exact Gives.after fun _ =>
        (gives_raw h).bind fun _ hs => gives_pure ⟨hs, trivial⟩

/-- A line, and the block that it does not own. -/
theorem Gives.line {r : Reader Stmt} {block : List Line}
    (h : Gives Stmt.Formed r) (hblock : ∀ l ∈ block, Readable l) :
    Gives Stmt.FormedAll (do
      let s ← r
      pure (s :: (← strayBlock block))) :=
  h.bind fun _ hs => (gives_stray hblock).bind
    fun _ hmore => gives_pure ⟨hs, hmore⟩

theorem Gives.single {r : Reader Stmt} (h : Gives Stmt.Formed r) :
    Gives Stmt.FormedAll (do pure [← r]) :=
  h.bind fun _ hs => gives_pure ⟨hs, trivial⟩

theorem gives_rawItem {l : Line} {block : List Line} (hl : Readable l)
    (hblock : ∀ l ∈ block, Readable l) :
    Gives Stmt.FormedAll (rawItem l block) := by
  unfold rawItem
  split
  · exact (gives_raw (List.forall_mem_cons.mpr ⟨hl, hblock⟩)).single
  · exact (gives_rawLine hl).line hblock

theorem gives_simpleItem {l : Line} {block : List Line} (hl : Readable l)
    (hblock : ∀ l ∈ block, Readable l) :
    Gives Stmt.FormedAll (simpleItem l block) := by
  unfold simpleItem
  split
  · next s hs =>
    have hone : ∀ m ∈ [l], Source.Scanned m := fun m hm => by
      obtain rfl := List.mem_singleton.mp hm
      exact hl.scanned
    refine (gives_simple hl ⟨l, [], hone, ?_⟩).line hblock
    rcases spoken_lineKind hl.scanned.unbroken hs with h | ⟨rfl, -⟩
    · exact .spoken h rfl
    · rw [String.ofList_toList, ← relativeText_single]
      exact .raw
  · exact gives_rawItem hl hblock
  · exact .after fun _ => gives_rawItem hl hblock

theorem gives_code {l : Line} {block : List Line} (hl : Readable l)
    (hblock : ∀ l ∈ block, Readable l) :
    Gives Stmt.FormedAll (readCode l block) := by
  have hall : ∀ m ∈ l :: block, Readable m :=
    List.forall_mem_cons.mpr ⟨hl, hblock⟩
  unfold readCode
  split
  · next flags hflags =>
    split
    · exact (gives_simple hl
        ⟨l, block, fun m hm => (hall m hm).scanned, .code hflags⟩).single
    · exact gives_rawItem hl hblock
  · exact gives_rawItem hl hblock

-- ======================================================================= menus

/-- The parts of a menu as they are read. -/
structure MenuParts.Formed (m : MenuParts) : Prop where
  /-- Its names are names. -/
  named : m.Named
  /-- Its choices are of the form that reading gives them. -/
  choices : Choice.FormedAll m.choices

/-- What was read of a menu, if it was read to its end. -/
def MenuFormed : Except Line MenuParts → Prop
  | .ok m => m.Formed
  | .error _ => True

theorem formedAll_snoc {cs : List Choice} (h : Choice.FormedAll cs)
    {said : String} {condition : Option String} {line : Option Nat}
    {body : List Stmt} (hcondition : ∀ c ∈ condition, Inline c.toList)
    (hline : ∀ n ∈ line, 1 ≤ n) (hbody : Stmt.FormedAll body) :
    Choice.FormedAll (cs ++ [.mk said condition line body]) := by
  induction cs with
  | nil => exact ⟨hcondition, hline, hbody, trivial⟩
  | cons c cs ih =>
      cases c
      exact ⟨h.1, h.2.1, h.2.2.1, ih h.2.2.2⟩

theorem presentText_spec (s : String) :
    ∀ t ∈ presentText s, t ≠ "" ∧ trimmed t = t := by
  intro t ht
  unfold presentText at ht
  simp only at ht
  split at ht
  · cases ht
  · next h =>
    obtain rfl := Option.some.inj ht
    refine ⟨h, ?_⟩
    rw [trimmed, trimmed, String.toList_ofList, trim_trim]

/-- The head of a menu is of the form that reading gives it. -/
theorem MenuParts.Named.head {m : MenuParts} (h : m.Named)
    {name : Option String} (screen : Option String)
    (hname : ∀ n ∈ name, Name n.toList) :
    (menuHead m name screen).Formed where
  prompt := by
    show (m.prompt.bind _) ≠ _
    cases m.prompt with
    | none => exact nofun
    | some cs =>
        rw [Option.bind_some]
        split
        · exact nofun
        · next hcs =>
          intro heq
          have := congrArg String.toList (Option.some.inj heq)
          rw [String.toList_ofList] at this
          exact hcs (List.isEmpty_iff.mpr this)
  speaker := by
    unfold menuHead
    simp only
    split
    · next hprompt => exact fun s hs => ⟨h.speaker s hs, hprompt⟩
    · exact nofun
  setVar := h.setVar
  screen := fun t ht => by
    obtain ⟨s, -, hs⟩ := Option.bind_eq_some_iff.mp ht
    exact presentText_spec s t hs
  name := hname

-- =================================================================== all items

mutual

theorem gives_item : ∀ (i : Item) (rest : List Line),
    Stands opensConditional continuesConditional rest i →
      (∀ l ∈ lines i, Readable l) → Gives Stmt.FormedAll (readItem i)
  | .plain l block, rest => by
      rintro ⟨-, -, -, hblock⟩ hlines
      have hl := hlines l List.mem_cons_self
      have hinner : ∀ b ∈ linesOfAll block, Readable b :=
        fun b hb => hlines b (List.mem_cons_of_mem l hb)
      have hbody := gives_items block rest hblock hinner
      have hraw := gives_rawItem hl hinner
      rcases word_cases (firstWord? l.content.toList) with
        hw | hw | hw | hw | hw | hw | hw
      · -- a label
        simp only [readItem, hw]
        cases hlabel : label? (headOf l) with
        | none => exact hraw
        | some head =>
            obtain ⟨hname, hparameters⟩ := label?_eq_some
              (lineEnd_headOf hl.scanned).unbroken hlabel
            exact .after fun _ => hbody.bind fun body hb =>
              gives_fresh.bind fun id hid => gives_pure
                ⟨⟨hl.tag hid, hname, hparameters, formedAll_bodyOf hb⟩,
                  trivial⟩
      · -- a menu
        simp only [readItem, hw]
        cases hhead : menu? (headOf l) with
        | none => exact hraw
        | some head =>
            have hmenu := @gives_menu {} block rest
              ⟨⟨by simp, by simp⟩, trivial⟩ hblock hinner
            refine .after fun _ => .after fun before => hmenu.bind ?_
            intro result hresult
            cases result with
            | ok parts =>
                exact gives_fresh.bind fun id hid => gives_pure
                  ⟨⟨hl.tag hid, hresult.named.head _ (menu?_eq_some hhead),
                    hresult.choices⟩, trivial⟩
            -- The menu is given up, so nothing of what was read in it is left
            -- to be formed.
            | error bad =>
                exact .after fun _ => .after fun _ => (gives_raw
                  (List.forall_mem_cons.mpr ⟨hl, hinner⟩)).single
      · -- `elif` that no conditional has
        simp only [readItem, hw]
        exact .after fun _ => hraw
      · -- `else` that no conditional has
        simp only [readItem, hw]
        exact .after fun _ => hraw
      · -- code behind `python`
        simp only [readItem, hw]
        exact gives_code hl hinner
      · -- code behind `init`
        simp only [readItem, hw]
        exact gives_code hl hinner
      · -- any other line
        rw [readItem_unruled hw]
        exact gives_simpleItem hl hinner
  | .chain l block branches, rest => by
      rintro ⟨hopens, -, -, hblock, hbranches⟩ hlines
      obtain ⟨condition, hcond⟩ := Option.isSome_iff_exists.mp hopens
      have hl := hlines l (by simp [lines])
      have hinline : ∀ c ∈ some condition, Inline c.toList := fun c hc => by
        obtain rfl := Option.some.inj hc
        exact ifCondition?_eq_some (lineEnd_headOf hl.scanned) hcond
      have hbody := gives_items block _ hblock fun b hb => hlines b
        (List.mem_append_left _ (List.mem_cons_of_mem l hb))
      have hmore := gives_branches false branches rest hbranches
        fun b hb => hlines b (List.mem_append_right _ hb)
      unfold readItem
      simp only [hcond]
      exact .after fun _ => hbody.bind fun body hb => hmore.bind fun more hm =>
        gives_fresh.bind fun id hid => gives_pure
          ⟨⟨hl.tag hid, ⟨_, _, _, _, rfl⟩, hinline, hl.line,
            formedAll_bodyOf hb, hm⟩, trivial⟩

theorem gives_items : ∀ (items : List Item) (rest : List Line),
    StandAll opensConditional continuesConditional rest items →
      (∀ l ∈ linesOfAll items, Readable l) →
        Gives Stmt.FormedAll (readItems items)
  | [], _ => fun _ _ => gives_pure trivial
  | i :: more, rest => by
      rintro ⟨hi, hmore⟩ hlines
      have hfirst := gives_item i _ hi
        fun l hl => hlines l (List.mem_append_left _ hl)
      have hrest := gives_items more rest hmore
        fun l hl => hlines l (List.mem_append_right _ hl)
      unfold readItems
      exact hfirst.bind fun _ ha => hrest.bind fun _ hb =>
        gives_pure (formedAll_append ha hb)

theorem gives_branches : ∀ (seenElse : Bool)
    (branches : List (Line × List Item)) (rest : List Line),
    StandBranches opensConditional continuesConditional rest branches →
      (∀ l ∈ linesOfBranches branches, Readable l) →
        Gives Branch.FormedAll (readBranches seenElse branches)
  | _, [], _ => fun _ _ => gives_pure trivial
  | seenElse, (l, block) :: more, rest => by
      rintro ⟨hbranch, -, -, hblock, hmore⟩ hlines
      obtain ⟨condition, hcond⟩ := Option.isSome_iff_exists.mp hbranch
      have hl := hlines l (by simp [linesOfBranches])
      have hinline :=
        branchCondition?_eq_some (lineEnd_headOf hl.scanned) hcond
      have hbody := gives_items block _ hblock fun b hb => hlines b
        (List.mem_append_left _ (List.mem_cons_of_mem l hb))
      have hrest := gives_branches (seenElse || condition.isNone) more rest
        hmore fun b hb => hlines b (List.mem_append_right _ hb)
      have hall : Gives Branch.FormedAll (do
          let body ← readItems block
          let rest ← readBranches (seenElse || condition.isNone) more
          pure (.mk condition (some l.number) (bodyOf block body) :: rest)) :=
        hbody.bind fun body hb => hrest.bind fun _ hm =>
          gives_pure ⟨hinline, hl.line, formedAll_bodyOf hb, hm⟩
      unfold readBranches
      simp only [hcond, Option.getD_some]
      cases seenElse with
      | false => exact .after fun _ => hall
      | true => exact .after fun _ => .after fun _ => hall

theorem gives_menu : ∀ {m : MenuParts} (items : List Item)
    (rest : List Line), m.Formed →
    StandAll opensConditional continuesConditional rest items →
      (∀ l ∈ linesOfAll items, Readable l) →
        Gives MenuFormed (readMenu m items)
  | m, [], _ => fun hm _ _ => gives_pure hm
  | m, .plain l block :: more, rest => by
      intro hm
      rintro ⟨⟨-, -, -, hblock⟩, hmore⟩ hlines
      have hl := hlines l (by simp [linesOfAll, lines])
      have hrest : ∀ b ∈ linesOfAll more, Readable b :=
        fun b hb => hlines b (List.mem_append_right _ hb)
      have hspec := menuLine_spec m l (!block.isEmpty)
      unfold readMenu
      cases hline : menuLine m l (!block.isEmpty) with
      | parts m' =>
          rw [hline] at hspec
          exact gives_menu more rest
            ⟨hm.named.menuLine hline, hspec.2.2 ▸ hm.choices⟩ hmore hrest
      -- A choice: its body is formed by the induction on items, and it is put
      -- behind those that are there.
      | choice said condition =>
          rw [hline] at hspec
          have hinline := choice?_eq_some (lineEnd_headOf hl.scanned) hspec
          have hbody := gives_items block _ hblock fun b hb => hlines b
            (List.mem_append_left _ (List.mem_cons_of_mem l hb))
          exact .after fun _ => hbody.bind fun body hb =>
            gives_menu more rest ⟨⟨hm.named.speaker, hm.named.setVar⟩,
              formedAll_snoc hm.choices hinline hl.line (formedAll_bodyOf hb)⟩
              hmore hrest
      | refused => exact gives_pure trivial
  | m, .chain l block branches :: more, rest => by
      intro hm
      rintro ⟨-, hmore⟩ hlines
      have hrest : ∀ b ∈ linesOfAll more, Readable b :=
        fun b hb => hlines b (List.mem_append_right _ hb)
      have hspec := menuLine_spec m l (!block.isEmpty)
      unfold readMenu
      cases hline : menuLine m l (!block.isEmpty) with
      | parts m' =>
          rw [hline] at hspec
          cases branches with
          | nil =>
              exact gives_menu more rest
                ⟨hm.named.menuLine hline, hspec.2.2 ▸ hm.choices⟩ hmore hrest
          | cons b bs => exact gives_pure trivial
      | choice said condition => exact gives_pure trivial
      | refused => exact gives_pure trivial

end

-- ===================================================================== sources

/-- What is read of lines that a scanner hands on is of that form. -/
theorem gives_lines {ls : List Line} (h : ∀ l ∈ ls, Readable l) :
    Gives Stmt.FormedAll (readLines ls) := by
  have hstray := @gives_stray (ls.takeWhile (0 < ·.depth))
    fun l hl => h l ((List.takeWhile_sublist _).subset hl)
  have hitems := gives_items (ofLines opensConditional continuesConditional
      (ls.dropWhile (0 < ·.depth))) []
    (standAll_ofLines _ _ _ [] fun l _ r hr => by simp at hr) (by
      rw [linesOfAll_ofLines]
      exact fun l hl => h l ((List.dropWhile_sublist _).subset hl))
  exact hstray.bind fun _ ha => hitems.bind fun _ hb =>
    gives_pure (formedAll_append ha hb)

theorem readable_of_mem_scan {tabSize : Int} {source : String} :
    ∀ l ∈ (Source.scan tabSize source).1, Readable l := fun l hl =>
  ⟨Source.scanned_of_mem_scan tabSize source l hl,
    Source.numbers_scanFrom.2.1 l hl⟩

/-- Whatever is read is of that form. -/
theorem formedAll_read (tabSize : Int) (numbering : Numbering)
    (source : String) :
    Stmt.FormedAll (read tabSize numbering source).1 :=
  gives_lines readable_of_mem_scan _

end Reading

end NovelScript
