/-
The lines that are written of what was read. Every text that goes into a header
or a line was cut out of one line, or is a literal, in which a line break is
escaped; and raw text and code are cut into their lines again. So no written
line is broken inside, whatever was complained about when the script was read.

# From fields to lines

`Formed` says of each field of a statement that reading gives it the form of
something that stands on one line. An outline is `Whole` if every header and
every line in it stands on one line; that is a statement about the outline
itself, without depths, and `whole_iff_lines` takes it to the lines at any
depth, since an indentation breaks no line. The induction is over the statement,
with one lemma in front for each kind of header (`oneLine_labelHead` and its
like).

# Pages

A page joins its lines with line feeds. So where no line has a line break in it,
the lines are found again, and no carriage return is on the page of a script
that was read (`return_not_mem_page`): the page survives a file system that
writes line breaks in its own way.
-/
import NovelScript.Proofs.Draft.Phrases
import NovelScript.Proofs.RoundTrip.Alone

namespace NovelScript

open Grammar Text

namespace Outline

-- ============================================================== all texts

mutual

/-- An outline in which every header and every line stands on one line. -/
def Whole : Outline → Prop
  | .line text => OneLine text
  | .block head body => OneLine head ∧ WholeAll body

/-- Outlines in which every header and every line stands on one line. -/
def WholeAll : List Outline → Prop
  | [] => True
  | o :: more => Whole o ∧ WholeAll more

end

theorem wholeAll_append {as bs : List Outline} :
    WholeAll (as ++ bs) ↔ WholeAll as ∧ WholeAll bs := by
  induction as with
  | nil => simp [WholeAll]
  | cons a as ih => simp [WholeAll, ih, and_assoc]

theorem oneLine_pad (indentSize depth : Int) : OneLine (pad indentSize depth) := by
  rw [OneLine, pad, String.toList_ofList]
  intro c hc
  rw [(List.mem_replicate.mp hc).2]
  decide

mutual

/-- The lines of such an outline stand on one line each, and of no other. -/
theorem whole_iff_lines (indentSize : Int) : ∀ (o : Outline) (depth : Int),
    (∀ t ∈ lines indentSize depth o, OneLine t) ↔ Whole o
  | .line text, depth => by
      simp [lines, Whole, oneLine_append, oneLine_pad]
  | .block head body, depth => by
      have hbody := wholeAll_iff_lines indentSize body (depth + 1)
      cases body with
      | nil =>
          have hpass : OneLine "pass" := Reading.content_pass.unbroken
          simp [lines, Whole, WholeAll, oneLine_append, oneLine_pad, hpass]
      | cons o more =>
          rw [Whole, ← hbody]
          simp [lines, oneLine_append, oneLine_pad]

theorem wholeAll_iff_lines (indentSize : Int) :
    ∀ (os : List Outline) (depth : Int),
    (∀ t ∈ linesOfAll indentSize depth os, OneLine t) ↔ WholeAll os
  | [], _ => by simp [linesOfAll, WholeAll]
  | o :: more, depth => by
      rw [WholeAll, ← whole_iff_lines indentSize o depth,
        ← wholeAll_iff_lines indentSize more depth, linesOfAll,
        List.forall_mem_append]

end

theorem whole_headed {head : String} {inner : List Outline} (hasBody : Bool)
    (hhead : OneLine head) (hinner : WholeAll inner) :
    Whole (Written.headed head hasBody inner) := by
  unfold Written.headed
  split
  · exact hhead
  · exact ⟨hhead, hinner⟩

end Outline

open Outline (WholeAll wholeAll_append wholeAll_iff_lines whole_headed)

-- ================================================================ headers

theorem oneLine_of_name {s : String} (h : Name s.toList) : OneLine s :=
  oneLine_of_dotted h.dotted

theorem oneLine_labelHead {name : String} {o : Option (List String)}
    (hname : LabelName name.toList) (ho : Arguments o) :
    OneLine (Phrase.labelHead name (Written.argumentRow o)) := by
  have hrow := oneLine_joinArguments ho
  have hmarks : OneLine "label " ∧ OneLine "(" ∧ OneLine ")" ∧ OneLine ":" := by
    unfold OneLine Unbroken
    decide
  unfold Phrase.labelHead
  cases hargs : Written.argumentRow o with
  | none => simp [oneLine_append, hmarks, oneLine_of_labelName hname]
  | some args =>
      simp [oneLine_append, hmarks, oneLine_of_labelName hname, hrow args hargs]

theorem oneLine_menuHead {name screen : Option String}
    (hname : ∀ n ∈ name, OneLine n) (hscreen : ∀ s ∈ screen, OneLine s) :
    OneLine (Phrase.menuHead name screen) := by
  have hmarks : OneLine "menu" ∧ OneLine " " ∧ OneLine "(screen=" ∧ OneLine ")"
      ∧ OneLine ":" ∧ OneLine "menu:" := by
    unfold OneLine Unbroken
    decide
  unfold Phrase.menuHead
  cases name <;> cases screen <;> simp_all [oneLine_append]

theorem oneLine_choiceHead {text : String} {condition : Option String}
    (htext : OneLine text) (hcondition : ∀ c ∈ condition, OneLine c) :
    OneLine (Phrase.choiceHead text condition) := by
  have hmarks : OneLine " if " ∧ OneLine ":" := by
    unfold OneLine Unbroken
    decide
  unfold Phrase.choiceHead
  cases condition <;> simp_all [oneLine_append]

theorem oneLine_branchHead (first : Bool) {condition : Option String}
    (hcondition : ∀ c ∈ condition, OneLine c) :
    OneLine (Phrase.branchHead first condition) := by
  have hmarks : OneLine "else:" ∧ OneLine "if " ∧ OneLine "elif " ∧ OneLine ":" := by
    unfold OneLine Unbroken
    decide
  unfold Phrase.branchHead
  cases condition <;> cases first <;> simp_all [oneLine_append]

/-- The lines of a menu before its choices. -/
theorem wholeAll_menuLines {head : MenuHead} (h : head.Formed) :
    WholeAll (Written.menuLines head) := by
  have hmarks : OneLine " " ∧ OneLine "set " := by
    unfold OneLine Unbroken
    decide
  have hprompt : ∀ p, OneLine (Phrase.menuPrompt
      (Written.present head.promptSpeaker) (quoted p)) := by
    intro p
    unfold Phrase.menuPrompt
    cases hspeaker : Written.present head.promptSpeaker with
    | none => simpa [oneLine_append] using oneLine_quoted p
    | some s =>
        have hs := h.speaker s (mem_present hspeaker)
        simp [oneLine_append, hmarks, oneLine_quoted, oneLine_of_name hs.1]
  refine wholeAll_append.mpr ⟨?_, ?_⟩
  · cases Written.present head.prompt with
    | none => trivial
    | some p => exact ⟨hprompt p, trivial⟩
  · cases hvar : Written.present head.setVar with
    | none => trivial
    | some v =>
        exact ⟨oneLine_append.mpr ⟨hmarks.2,
          oneLine_of_dotted (h.setVar v (mem_present hvar))⟩, trivial⟩

-- ============================================================= statements

theorem Simple.OfLines.whole {s : Simple} (h : s.OfLines) {id : String}
    {os : List Outline} (hw : Written.simple id s = .ok os) : WholeAll os := by
  obtain ⟨l, block, hs, hsingle⟩ := h
  have hwritten := hsingle.writtenAs hs (Written.simple_of_ok "" hw)
  exact (wholeAll_iff_lines 0 os 0).mp
    (hwritten.unbroken (Int.le_refl 0) hs)

mutual

/-- A statement of the form that reading gives it is written on whole
lines. -/
theorem Stmt.Formed.whole : ∀ (s : Stmt) {os : List Outline}, s.Formed →
    Written.stmt s = .ok os → WholeAll os
  | .simple tag s, os, h, hw => h.2.whole hw
  | .label tag name o body, os, h, hw => by
      obtain ⟨-, hname, ho, hbody⟩ := h
      obtain ⟨inner, hinner, hos⟩ := bind_eq_ok.mp hw
      obtain rfl := pure_eq_ok.mp hos
      exact ⟨whole_headed _ (oneLine_labelHead hname ho)
        (Stmt.FormedAll.whole body hbody hinner), trivial⟩
  | .menu tag head choices, os, h, hw => by
      obtain ⟨-, hhead, hchoices⟩ := h
      obtain ⟨inner, hinner, hos⟩ := bind_eq_ok.mp hw
      obtain rfl := pure_eq_ok.mp hos
      refine ⟨⟨oneLine_menuHead (fun n hn => ?_) fun s hs => ?_, ?_⟩, trivial⟩
      · exact oneLine_of_name (hhead.name n (mem_present hn))
      · obtain ⟨t, -, rfl⟩ := Option.map_eq_some_iff.mp hs
        exact oneLine_quoted t
      · exact wholeAll_append.mpr ⟨wholeAll_menuLines hhead,
          Choice.FormedAll.whole choices hchoices hinner⟩
  | .conditional tag branches, os, h, hw =>
      Branch.FormedAll.whole branches h.2.2 hw

theorem Stmt.FormedAll.whole : ∀ (ss : List Stmt) {os : List Outline},
    Stmt.FormedAll ss → Written.stmts ss = .ok os → WholeAll os
  | [], os, _, hw => by
      obtain rfl := pure_eq_ok.mp hw
      trivial
  | s :: ss, os, h, hw => by
      obtain ⟨as, has, hw⟩ := bind_eq_ok.mp hw
      obtain ⟨bs, hbs, hos⟩ := bind_eq_ok.mp hw
      obtain rfl := pure_eq_ok.mp hos
      exact wholeAll_append.mpr
        ⟨Stmt.Formed.whole s h.1 has, Stmt.FormedAll.whole ss h.2 hbs⟩

theorem Choice.FormedAll.whole : ∀ (cs : List Choice) {os : List Outline},
    Choice.FormedAll cs → Written.choiceBlocks cs = .ok os → WholeAll os
  | [], os, _, hw => by
      obtain rfl := pure_eq_ok.mp hw
      trivial
  | .mk said condition line body :: cs, os, h, hw => by
      obtain ⟨hcondition, -, hbody, hmore⟩ := h
      obtain ⟨inner, hinner, hw⟩ := bind_eq_ok.mp hw
      obtain ⟨bs, hbs, hos⟩ := bind_eq_ok.mp hw
      obtain rfl := pure_eq_ok.mp hos
      exact ⟨whole_headed _ (oneLine_choiceHead (oneLine_quoted said)
          fun c hc => (hcondition c (mem_present hc)).unbroken)
          (Stmt.FormedAll.whole body hbody hinner),
        Choice.FormedAll.whole cs hmore hbs⟩

theorem Branch.FormedAll.whole : ∀ (bs : List Branch) {first : Bool}
    {os : List Outline}, Branch.FormedAll bs →
    Written.branchBlocks first bs = .ok os → WholeAll os
  | [], _, os, _, hw => by
      obtain rfl := pure_eq_ok.mp hw
      trivial
  | .mk condition line body :: bs, first, os, h, hw => by
      obtain ⟨hcondition, -, hbody, hmore⟩ := h
      obtain ⟨inner, hinner, hw⟩ := bind_eq_ok.mp hw
      obtain ⟨as, has, hos⟩ := bind_eq_ok.mp hw
      obtain rfl := pure_eq_ok.mp hos
      exact ⟨whole_headed _ (oneLine_branchHead first
          fun c hc => (hcondition c hc).unbroken)
          (Stmt.FormedAll.whole body hbody hinner),
        Branch.FormedAll.whole bs hmore has⟩

end

-- ================================================================== pages

/-- Every line of the page of a script that was read stands on one line. -/
theorem oneLine_topLines {layout : PageLayout} : ∀ (ss : List Stmt)
    {lines : List String}, Stmt.FormedAll ss →
    Written.topLines layout ss = .ok lines → ∀ t ∈ lines, OneLine t
  | [], lines, _, hw => by
      obtain rfl := pure_eq_ok.mp hw
      simp
  | s :: ss, lines, h, hw => by
      obtain ⟨os, hos, hw⟩ := bind_eq_ok.mp hw
      obtain ⟨more, hmore, hw⟩ := bind_eq_ok.mp hw
      obtain rfl := pure_eq_ok.mp hw
      have hgap : ∀ t ∈ Written.gap layout s ss, OneLine t := by
        intro t ht
        have hempty : OneLine "" := by
          unfold OneLine Unbroken
          decide
        unfold Written.gap at ht
        split at ht
        · split at ht
          · rwa [List.mem_singleton.mp ht]
          · cases ht
        · cases ht
      intro t ht
      rcases List.mem_append.mp ht with ht | ht
      · rcases List.mem_append.mp ht with ht | ht
        · exact (wholeAll_iff_lines layout.indentSize os 0).mpr
            (Stmt.Formed.whole s h.1 hos) t ht
        · exact hgap t ht
      · exact oneLine_topLines ss h.2 hmore t ht

/-- There is no carriage return on the page of a script that was read. -/
theorem return_not_mem_page {lines : List String}
    (h : ∀ t ∈ lines, OneLine t) : '\r' ∉ (Written.page lines).toList := by
  rw [Written.toList_page, List.mem_flatMap]
  rintro ⟨t, ht, hmem⟩
  rcases List.mem_append.mp hmem with hmem | hmem
  · exact (h t ht _ hmem).2 rfl
  · exact absurd (List.mem_singleton.mp hmem) (by decide)

end NovelScript
