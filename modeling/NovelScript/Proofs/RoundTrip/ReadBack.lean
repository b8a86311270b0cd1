/-
One statement written alone and read again. `ReadsBack` says what is wanted of a
statement that fits on a line: its text is the whole source, and that source
reads as one statement, the same but for parts that are absent, and with nothing
to complain about.

# What is absent

What is absent can be held in several ways: a text or a list may be empty or not
there, and a flag may be lowered or unsaid. The reader leaves it in one way,
which `asRead` gives. It makes no difference on the page
(`Written.simple_asRead`).

# A line is enough

If the text is one line that begins with something, then it is read as the one
line of a script (`readsAlone_line`), and what the line is taken for is all that
remains to be shown of a statement. So `readsBack_iff` turns a question about a
writer and a reader into one about a single line: a statement that a line can
say reads back if and only if its line is taken for it. That the text exists is
no question at the margin, where there is room for the indentation whatever its
size (`room_margin`).

The modules on dialogue, on changes of the picture, on jumps and calls and on
assignments begin here.
-/
import NovelScript.Proofs.Draft.Spelling
import NovelScript.Proofs.RoundTrip.Alone

namespace NovelScript

open Grammar Reading Source Text
open Outline (FitsAll linesOfAll linesOfAll_line)
open Written (isSet present)

-- ======================================================= what is absent

/-- A statement as the reader leaves it: what is absent is not there, and a
flag that is not raised is unsaid. -/
def Simple.asRead : Simple → Simple
  | .say d => .say
    { d with
      speaker := present d.speaker
      attributes := presentItems d.attributes
      transition := present d.transition
      extend := raised (isSet d.extend)
      arguments := presentItems d.arguments }
  | .display verb image o => .display verb image o.normal
  | .jump target expression => .jump target (raised (isSet expression))
  | .call c => .call
    { c with
      arguments := presentItems c.arguments
      expression := raised (isSet c.expression)
      fromLabel := present c.fromLabel }
  | .code c => .code
    { c with
      early := raised (isSet c.early)
      hide := raised (isSet c.hide)
      init := raised (isSet c.init) }
  | s => s

theorem isSet_raised (b : Bool) : isSet (raised b) = b := by
  cases b <;> rfl

theorem isSet_eq_false {flag : Option Bool} (h : isSet flag = false) :
    raised (isSet flag) = none := by
  rw [h]
  rfl

/-- A list that is there is not empty. -/
theorem presentItems_eq_some {o : Option (List String)} {ts : List String} :
    presentItems o = some ts ↔ ts ≠ [] ∧ Written.items o = ts := by
  unfold presentItems
  by_cases hempty : (Written.items o).isEmpty = true
  · have hnil := List.isEmpty_iff.mp hempty
    rw [if_pos hempty, hnil]
    constructor
    · rintro ⟨⟩
    · rintro ⟨hne, rfl⟩
      exact absurd rfl hne
  · rw [if_neg hempty, Option.some.injEq]
    constructor
    · rintro rfl
      exact ⟨by simpa using hempty, rfl⟩
    · exact And.right

/-- Parameters are read as arguments. -/
theorem Grammar.Parameters.arguments {o : Option (List String)}
    (h : Parameters o) : Arguments (presentItems o) := by
  intro ts hts
  obtain ⟨hne, rfl⟩ := presentItems_eq_some.mp hts
  exact ⟨hne, fun t ht =>
    ⟨argument_of_balancedArguments? (h t ht).2, (h t ht).1⟩⟩

/-- What is absent leaves no trace on the page. -/
theorem Written.simple_asRead (id : String) (s : Simple) :
    Written.simple id s.asRead = Written.simple id s := by
  cases s <;>
    simp [Simple.asRead, Written.simple, Written.speaking,
      DisplayOptions.normal, isSet_raised, Draft.present_present,
      Draft.items_presentItems]

-- ======================================================= alone on a page

namespace Reading

variable {tabSize : Int} {text : String}

/-- Where all lines give one statement, it is what is read, and the complaints
are those about the lines. -/
theorem read_of_linesYield (numbering : Numbering) {ls : List Line}
    {odd found : List Diagnostic} {tag : Tag} {s : Simple}
    (hscan : scan tabSize text = (ls, odd))
    (hyield : linesYield ls = ⟨[.simple tag s], found⟩) :
    ∃ tag' found' after,
      read tabSize numbering text = ([.simple tag' s], found', after)
        ∧ (odd = [] → found = [] → found' = []) := by
  have hstmts := anonymousAll_read tabSize numbering text
  have hfound := found_read tabSize numbering text
  rw [hscan, hyield] at hstmts hfound
  generalize read tabSize numbering text = result at hstmts hfound
  obtain ⟨ss, found', after⟩ := result
  -- Taking identities away leaves no other statement than this one.
  obtain ⟨tag', rfl⟩ : ∃ tag', ss = [.simple tag' s] := by
    rw [Stmt.anonymousAll, Stmt.relabelAll_eq_map] at hstmts
    obtain ⟨t, rfl, ht⟩ := List.map_eq_singleton_iff.mp hstmts
    cases t with
    | simple tag' s' =>
        obtain ⟨-, rfl⟩ := Stmt.simple.inj ht
        exact ⟨tag', rfl⟩
    | _ => cases ht
  refine ⟨tag', found', after, rfl, ?_⟩
  rintro rfl rfl
  simpa using hfound

/-- A text that reads as one statement, without complaint, wherever identities
come from. -/
def ReadsAlone (text : String) (s : Simple) : Prop :=
  ∀ tabSize numbering, ∃ tag after,
    read tabSize numbering text = ([.simple tag s], [], after)

/-- A line that is taken for a statement begins with no word of a compound
one. -/
theorem firstWord?_ne_of_lineKind {cs : List Char} {s : Simple}
    (h : lineKind cs = .simple s) :
    ∀ w ∈ compoundWords, firstWord? cs ≠ some w := by
  intro w hw hfirst
  unfold lineKind at h
  rw [hfirst] at h
  dsimp only at h
  rw [if_pos (by simpa using hw)] at h
  cases h

/-- A line that begins with a word of its own is taken for what that word
makes of it. -/
theorem lineKind_word {word : String} {cs : List Char} {kind : LineKind}
    (hname : Name word.toList) (hcompound : compoundWords.contains word = false)
    (h : keywordKind? word (word.toList ++ ' ' :: cs) = some kind) :
    lineKind (word.toList ++ ' ' :: cs) = kind := by
  rw [lineKind, firstWord?_name hname (stops_space cs), String.ofList_toList]
  simp only [hcompound, h]
  rfl

/-- The one line of a script reads as what it is taken for. -/
theorem linesYield_headerLine {t : String} {s : Simple} (number : Nat)
    (h : lineKind t.toList = .simple s) :
    linesYield [headerLine t number]
      = ⟨[bareSimple (headerLine t number) s], []⟩ := by
  have hword := firstWord?_ne_of_lineKind h
  have hitems : itemsOf [headerLine t number]
      = [.plain (headerLine t number) []] :=
    itemsOf_line (opensConditional_of_firstWord? (hword "if" (by decide)))
  have hruled : ∀ r ∈ ruledWords, firstWord? t.toList ≠ some r := by
    intro r hr
    refine hword r ?_
    revert r
    decide
  have hyield : itemYield (.plain (headerLine t number) [])
      = ⟨[bareSimple (headerLine t number) s], []⟩ := by
    rw [itemYield_unruled hruled]
    simp only [simpleYield, headerLine, h]
    rfl
  rw [linesYield_margin (by simp [headerLine]), hitems, itemsYield, hyield]
  rfl

end Reading

theorem Opens.withoutMark_eq {cs : List Char} (h : Opens cs) :
    withoutMark cs = cs := by
  obtain ⟨c, rest, rfl, -, -, hmark⟩ := h
  exact withoutMark_eq_self fun heq => hmark (Option.some.inj heq)

/-- A text on one line that begins with something reads as what that line is
taken for. -/
theorem Reading.readsAlone_line {t : String} {s : Simple} (hone : OneLine t)
    (hopens : Opens t.toList) (hkind : lineKind t.toList = .simple s) :
    ReadsAlone t s := by
  intro tabSize numbering
  have hrow : Row.Sound ⟨0, t⟩ := hopens.content hone
  have hscan : scan tabSize t = ([headerLine t 1], []) := by
    have hwritten : Row.written ⟨0, t⟩ = t := Outline.written_margin t
    have hline := scanFrom_row hrow tabSize [0] 1 []
    rw [hwritten, enter_zero levels_margin] at hline
    rw [scan, hopens.withoutMark_eq, physicalLines_line hone, hline]
    rfl
  obtain ⟨tag, found, after, hread, hquiet⟩ :=
    read_of_linesYield numbering hscan
      (linesYield_headerLine 1 hkind)
  obtain rfl := hquiet rfl rfl
  exact ⟨tag, after, hread⟩

-- ============================================================ and back

/-- A statement that is written at the margin as one text, whatever the layout,
and comes back from there as it was. -/
def Simple.ReadsBack (s : Simple) : Prop :=
  ∃ text, (∀ tag indentSize blankLines,
      Draft.writtenAt ⟨.int indentSize, blankLines⟩ (.int 0)
        (Draft.ofStmt (.simple tag s)) = .ok text)
    ∧ ReadsAlone text s.asRead

/-- A simple statement at the margin is written as the lines of its outline,
if their indentations can be made. -/
theorem Draft.writtenAt_simple {layout : Draft.Layout} {tag : Tag} {s : Simple}
    {os : List Outline} (h : Written.simple tag.id s = .ok os)
    (hfits : FitsAll layout.room 0 os) :
    Draft.writtenAt layout (.int 0) (Draft.ofStmt (.simple tag s))
      = .ok (joinLines (linesOfAll layout.width 0 os)) := by
  have hroom : (fun deeper => layout.room (0 + deeper)) = layout.room :=
    funext fun deeper => congrArg layout.room (Int.zero_add deeper)
  have houtline : Draft.outline ⟨{}, fun deeper => layout.room (0 + deeper)⟩ 0
      (Draft.ofStmt (.simple tag s)) = .ok os := by
    rw [hroom]
    exact (Draft.outline_eq_ok (.simple tag s)).mpr ⟨h, hfits⟩
  exact congrArg (Except.map fun os =>
    joinLines (linesOfAll layout.width 0 os)) houtline

/-- At the margin there is room for the indentation, whatever its size. -/
theorem Draft.room_margin (indentSize : Int) (blankLines : Bool) :
    Draft.Layout.room ⟨.int indentSize, blankLines⟩ 0 = .ok () := by
  show Draft.padRoom (indentSize * 0) = .ok ()
  rw [Int.mul_zero]
  rfl

/-- A line at the margin is written whatever the layout. -/
theorem Draft.writtenAt_line {s : Simple} {t : String} (tag : Tag)
    (indentSize : Int) (blankLines : Bool)
    (h : Written.simple tag.id s = .ok [.line t]) :
    Draft.writtenAt ⟨.int indentSize, blankLines⟩ (.int 0)
      (Draft.ofStmt (.simple tag s)) = .ok t := by
  rw [Draft.writtenAt_simple h
    ⟨Draft.room_margin indentSize blankLines, trivial⟩]
  exact congrArg (fun lines => Except.ok (joinLines lines)) (linesOfAll_line [t])

/-- What a text reads as alone is one statement only. -/
theorem Reading.ReadsAlone.unique {t : String} {s s' : Simple}
    (h : ReadsAlone t s) (h' : ReadsAlone t s') : s = s' := by
  obtain ⟨tag, after, hread⟩ := h 4 default
  obtain ⟨tag', after', hread'⟩ := h' 4 default
  have hstmts := congrArg Prod.fst (hread.symm.trans hread')
  injection hstmts with hstmt
  injection hstmt

/-- A statement that a line can say reads back if its line is taken for it, and
not otherwise. -/
theorem Simple.readsBack_iff {s s' : Simple} {t : String}
    (hspoken : s.asRead.Spoken) (hwritten : Written.simple "" s = .ok [.line t])
    (hkind : lineKind t.toList = .simple s') :
    s.ReadsBack ↔ s' = s.asRead := by
  obtain ⟨t', hworded⟩ := hspoken.worded
  have hline : ∀ id, Written.simple id s = .ok [.line t'] := fun id => by
    rw [← Written.simple_asRead]
    exact hworded.written id
  obtain rfl : t' = t := by
    have hsame := (hline "").symm.trans hwritten
    injection hsame with hsame
    injection hsame with hsame
    injection hsame
  have hpage := fun tag indentSize blankLines =>
    Draft.writtenAt_line tag indentSize blankLines (hline tag.id)
  have hreads : ReadsAlone t' s' :=
    readsAlone_line hworded.oneLine (hworded.opens hspoken) hkind
  constructor
  · rintro ⟨text, htext, hback⟩
    have hsame := (htext ⟨"", none⟩ 4 true).symm.trans
      (hpage ⟨"", none⟩ 4 true)
    obtain rfl := Except.ok.inj hsame
    exact hreads.unique hback
  · rintro rfl
    exact ⟨t', hpage, hreads⟩

end NovelScript
