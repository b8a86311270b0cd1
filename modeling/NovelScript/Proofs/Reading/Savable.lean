/-
What is read can be saved. Saving leaves out what is empty: a name, a condition
or a clause that is there but says nothing would be gone when the file is loaded
again. So a statement can be saved without loss if none of its texts is empty
and its conditionals open with a condition (`Stmt.Savable`).

# Why nothing is empty

A reading cuts its texts out of lines with something on them. What it gives has
a form (`Stmt.Formed`) which says of every text what it was cut out as: a name,
a word, a condition that stands on one line, arguments. Each of these is
something, and the lemmas here say so one by one; the induction over the
statements only puts them together. An item that opens a conditional has its
condition, and so the first branch has one.

Nothing here depends on complaints: what is read of a broken source can be saved
as well.
-/
import NovelScript.Proofs.Reading.Formed

namespace NovelScript

open Grammar Text

-- ============================================================ spoken lines

theorem told_of_tidy {o : Option String} (h : TidyText o) : Told o := by
  rintro rfl
  exact ne_empty_of_tidy (h "" rfl) rfl

theorem Grammar.Arguments.listed {o : Option (List String)} (h : Arguments o) :
    Listed o := by
  rintro rfl
  exact (h [] rfl).1 rfl

theorem ClauseWord.told {o : Option String} (h : ∀ v ∈ o, ClauseWord v) :
    Told o :=
  told_of_tidy fun v hv => (h v hv).1.tidy

theorem ClauseValue.told {o : Option String} (h : ∀ v ∈ o, ClauseValue v) :
    Told o :=
  told_of_tidy fun v hv => (h v hv).tidy

theorem DisplayOptions.Spoken.savable {o : DisplayOptions} (h : o.Spoken) :
    o.Savable where
  attributes := by
    intro heq
    exact (h.attributes [] heq).1 rfl
  asTag := ClauseWord.told h.asTag
  atPosition := ClauseValue.told h.atPosition
  behind := ClauseValue.told h.behind
  layer := ClauseWord.told h.layer
  transition := ClauseValue.told h.transition

/-- A statement that one line said can be saved. -/
theorem Simple.Spoken.savable {s : Simple} (h : s.Spoken) : s.Savable := by
  cases s with
  | say d =>
      exact ⟨told_of_tidy fun s hs => (h.speaker s hs).1.tidy,
        fun heq => (h.attributes [] heq).1 rfl,
        told_of_tidy fun t ht => (h.transition t ht).tidy, h.arguments.listed⟩
  | display verb image o =>
      refine ⟨?_, h.2.2.savable⟩
      rintro rfl
      exact absurd h.1 (by decide)
  | transition name => exact ne_empty_of_tidy h.tidy
  | jump target expression =>
      rcases h with ⟨-, h⟩ | ⟨-, h⟩
      · exact ne_empty_of_tidy h.tidy
      · exact ne_empty_of_tidy h.tidy
  | call c =>
      refine ⟨?_, h.arguments.listed,
        told_of_tidy fun l hl => (h.fromLabel l hl).tidy⟩
      rcases h.target with ⟨-, h⟩ | ⟨-, h⟩
      · exact ne_empty_of_tidy h.tidy
      · exact ne_empty_of_tidy h.tidy
  | giveBack value => exact told_of_tidy fun v hv => (h v hv).tidy
  | assign target value operator => exact ⟨ne_empty_of_tidy h.1.tidy, h.2.2⟩
  | code c => trivial
  | define name value store =>
      exact ⟨ne_empty_of_tidy h.1.tidy,
        told_of_tidy fun s hs => (h.2.2 s hs).tidy⟩
  | default name value => exact ne_empty_of_tidy h.1.tidy
  | play channel file o => exact h.1
  | stop channel fadeOut => exact h.1
  | pause duration => trivial
  | nvl action => exact h
  | raw content => trivial

-- ======================================================= all statements

theorem Simple.OfLines.savable {s : Simple} (h : s.OfLines) : s.Savable := by
  obtain ⟨l, block, -, hs⟩ := h
  cases hs with
  | spoken hspoken _ => exact hspoken.savable
  | raw => trivial
  | code _ => trivial

theorem told_of_inline {o : Option String} (h : ∀ c ∈ o, Inline c.toList) :
    Told o :=
  told_of_tidy fun c hc => (h c hc).tidy

theorem MenuHead.Formed.savable {h : MenuHead} (hf : h.Formed) : h.Savable where
  prompt := hf.prompt
  promptSpeaker := told_of_tidy fun s hs => (hf.speaker s hs).1.tidy
  setVar := told_of_tidy fun v hv => (hf.setVar v hv).tidy
  screen := fun heq => (hf.screen "" heq).1 rfl
  name := told_of_tidy fun n hn => (hf.name n hn).tidy

mutual

/-- Saving loses nothing of a statement that was read. -/
theorem Stmt.Formed.savable : ∀ s : Stmt, s.Formed → s.Savable
  | .simple _ _, h => ⟨h.1, h.2.savable⟩
  | .label _ _ _ body, h =>
      ⟨h.1, ne_empty_of_tidy h.2.1.tidy, h.2.2.1.listed,
        Stmt.FormedAll.savable body h.2.2.2⟩
  | .menu _ _ choices, h =>
      ⟨h.1, h.2.1.savable, Choice.FormedAll.savable choices h.2.2⟩
  | .conditional _ branches, h =>
      ⟨h.1, h.2.1, Branch.FormedAll.savable branches h.2.2⟩

theorem Stmt.FormedAll.savable : ∀ ss : List Stmt,
    Stmt.FormedAll ss → Stmt.SavableAll ss
  | [], _ => trivial
  | s :: ss, h => ⟨Stmt.Formed.savable s h.1, Stmt.FormedAll.savable ss h.2⟩

theorem Choice.FormedAll.savable : ∀ cs : List Choice,
    Choice.FormedAll cs → Choice.SavableAll cs
  | [], _ => trivial
  | .mk _ _ _ body :: cs, h =>
      ⟨told_of_inline h.1, h.2.1, Stmt.FormedAll.savable body h.2.2.1,
        Choice.FormedAll.savable cs h.2.2.2⟩

theorem Branch.FormedAll.savable : ∀ bs : List Branch,
    Branch.FormedAll bs → Branch.SavableAll bs
  | [], _ => trivial
  | .mk _ _ body :: bs, h =>
      ⟨told_of_inline h.1, h.2.1, Stmt.FormedAll.savable body h.2.2.1,
        Branch.FormedAll.savable bs h.2.2.2⟩

end

/-- Whatever is read can be saved. -/
theorem Reading.savableAll_read (tabSize : Int) (numbering : Numbering)
    (source : String) :
    Stmt.SavableAll (read tabSize numbering source).1 :=
  Stmt.FormedAll.savable _ (formedAll_read tabSize numbering source)

end NovelScript
