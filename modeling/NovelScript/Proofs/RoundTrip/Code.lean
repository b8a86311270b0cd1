/-
Code and assignments come back as what they were. A line behind the dollar sign
is an assignment if it gives a plain variable a value, and code otherwise. Code
that would be taken for an assignment there is written as a block, so neither
turns into the other.

# What is asked

Nothing is asked of the code but that no carriage return is in it. What is lost
on the way is its layout, where something else than spaces stands in front of a
line; and a comment. If neither occurs then what is read back compares as what
was written, however the lines are indented against each other (`Code.Regular`).
There is one exception, a header above a lone `pass`, which is how a block
without code is written.

# Three margins

Three rules for a common margin meet here: the writer's, which cuts what its
shallowest line has in front; the reader's, which goes by the widths that the
scanner measured; and that of the comparison, which cuts the longest beginning
that all lines share. For code with nothing but spaces in front of its lines
they come to the same rows: the rows of the code moved to the left as far as
they go (`leftmost`). So written below a header and scanned, the lines of code
are its rows again (`relativeRows_scanFrom`), and code with these rows compares
as it did (`normalCode_relativeText`).

# Two forms

Code of one line without flags is written behind the dollar sign
(`Code.reads_line`), all other code below a header (`Code.reads_block`). The
lines below the header are deeper than it whatever the depths among them are,
and that is all the reader asks in order to take them as one block
(`Item.Below`), so complaints about their dedents do no harm.
-/
import NovelScript.Proofs.RoundTrip.ReadBack
import NovelScript.Proofs.Source.Leftmost
import NovelScript.Proofs.Source.Minima

namespace NovelScript

open Grammar Reading Source Text
open Outline (bodyLines bodyLines_line fitsAll_block fitsAll_line level
  linesOfAll linesOfAll_block linesOfAll_line)
open Written (isSet)

-- ============================================================ assignments

namespace Grammar

theorem valueAfterEquals?_space {value : List Char} (h : Inline value) :
    valueAfterEquals? ('=' :: ' ' :: value) = some value := by
  have hone : isOneLine value = true := by
    rw [isOneLine, List.all_eq_true]
    exact fun c hc => by simpa using (h.unbroken c hc).1
  have htrim : trimStart (' ' :: value) = value :=
    trimStart_append blanks_space h.tidy.starts
  obtain ⟨c, cs, rfl⟩ := List.exists_cons_of_ne_nil h.tidy.ne_nil
  rw [valueAfterEquals?, if_neg (by simp), htrim]
  exact if_pos hone

theorem operator?_written {operator : String} (ho : operator ∈ assignOperators)
    {value : List Char} (h : Inline value) :
    operator? (operator.toList ++ ' ' :: value)
      = some (operator.toList, value) := by
  have hvalue := valueAfterEquals?_space h
  simp only [assignOperators, List.mem_cons, List.not_mem_nil, or_false] at ho
  rcases ho with rfl | rfl | rfl | rfl | rfl <;>
    exact congrArg (Option.map _) hvalue

theorem assignment?_written {target value : List Char} {operator : String}
    (ht : Dotted target) (ho : operator ∈ assignOperators) (h : Inline value) :
    assignment? (target ++ ' ' :: (operator.toList ++ ' ' :: value))
      = some (target, value, operator.toList) := by
  have hstop : Stops isDottedChar
      (' ' :: (operator.toList ++ ' ' :: value)) := stops_of_blank (by decide)
  have hdotted := dotted?_eq_some.mpr ⟨ht, hstop, rfl⟩
  have hstart : StartsInk (operator.toList ++ ' ' :: value) := by
    simp only [assignOperators, List.mem_cons, List.not_mem_nil, or_false] at ho
    rcases ho with rfl | rfl | rfl | rfl | rfl <;>
      exact startsInk_cons.mpr (by decide)
  have htrim : trimStart (' ' :: (operator.toList ++ ' ' :: value))
      = operator.toList ++ ' ' :: value :=
    trimStart_append blanks_space hstart
  simp only [assignment?, hdotted, htrim, operator?_written ho h,
    Option.bind_eq_bind, Option.bind_some]

/-- A line behind the dollar sign is what the rule for it says. -/
theorem lineKind_dollar {code : List Char} (h : Tidy code) {s : Simple}
    (hs : dollar? ('$' :: ' ' :: code) = some s) :
    lineKind ('$' :: ' ' :: code) = .simple s := by
  have hends : EndsInk ('$' :: ' ' :: code) :=
    endsInk_word ['$'] h.ends h.ne_nil
  have hkind : keywordKind? "$" ('$' :: ' ' :: code)
      = some (.ofOption (dollar? (trimEnd ('$' :: ' ' :: code)))) := rfl
  have hword : firstWord? ('$' :: ' ' :: code) = some "$" := rfl
  have hcompound : compoundWords.contains "$" = false := by decide
  rw [lineKind, hword]
  simp only [hcompound, hkind, trimEnd_of_ink hends, hs]
  rfl

theorem trim_tail_dollar {code : List Char} (h : Tidy code) :
    trim ('$' :: ' ' :: code).tail = code := by
  have htrim := trim_append_of_blanks code blanks_space blanks_nil
  rw [List.append_nil, h.trim_eq] at htrim
  exact htrim

/-- Behind the dollar sign a value for a variable is an assignment. -/
theorem dollar?_assign {code target value operator : List Char} (h : Tidy code)
    (ha : assignment? code = some (target, value, operator)) :
    dollar? ('$' :: ' ' :: code) = some (.assign (String.ofList target)
      (String.ofList value) (String.ofList operator)) := by
  obtain ⟨c, cs, rfl⟩ := List.exists_cons_of_ne_nil h.ne_nil
  rw [dollar?, trim_tail_dollar h]
  simp only [ha]

/-- Everything else is code. -/
theorem dollar?_code {code : List Char} (h : Tidy code)
    (ha : assignment? code = none) :
    dollar? ('$' :: ' ' :: code)
      = some (.code { code := String.ofList code }) := by
  obtain ⟨c, cs, rfl⟩ := List.exists_cons_of_ne_nil h.ne_nil
  rw [dollar?, trim_tail_dollar h]
  simp only [ha]

end Grammar

theorem readsBack_assign {target value operator : String}
    (ht : Dotted target.toList) (hv : Inline value.toList)
    (ho : operator ∈ assignOperators) :
    (Simple.assign target value operator).ReadsBack := by
  have hne : operator ≠ "" := by
    rintro rfl
    exact absurd ho (by decide)
  have hwritten : Written.simple "" (.assign target value operator)
      = .ok [.line (Phrase.assign target operator value)] := by
    rw [Written.simple, if_neg hne]
    rfl
  have hline : (Phrase.assign target operator value).toList
      = '$' :: ' ' :: (target.toList
          ++ ' ' :: (operator.toList ++ ' ' :: value.toList)) := by
    simp [Phrase.assign]
  have htidy : Tidy (target.toList
      ++ ' ' :: (operator.toList ++ ' ' :: value.toList)) :=
    ⟨by simp, ht.tidy.starts.append ht.tidy.ne_nil,
      endsInk_word _ (endsInk_word _ hv.tidy.ends hv.tidy.ne_nil) (by simp)⟩
  have hdollar := dollar?_assign htidy (assignment?_written ht ho hv)
  simp only [String.ofList_toList] at hdollar
  have hkind := lineKind_dollar htidy hdollar
  rw [← hline] at hkind
  have hspoken : (Simple.assign target value operator).asRead.Spoken :=
    ⟨ht, hv, ho⟩
  exact (Simple.readsBack_iff hspoken hwritten hkind).mpr rfl

-- ========================================================= below a header

namespace Source

/-- The lines of a body are scanned behind their header, and are deeper. -/
theorem scan_below {head : String} (hone : OneLine head)
    (hopens : Opens head.toList) {indentSize : Int} (hsize : 0 < indentSize)
    {body : List String} (hu : ∀ t ∈ body, OneLine t) (tabSize : Int) :
    ∃ ls odd, scan tabSize (joinLines (head :: body.map (level indentSize)))
        = (headerLine head 1 :: ls, odd)
      ∧ (scanFrom tabSize [0] 2
          (body.map fun t => indented indentSize.toNat t.toList)).1 = ls
      ∧ Item.Below (headerLine head 1) ls := by
  have hraws : (body.map (level indentSize)).map String.toList
      = body.map fun t => indented indentSize.toNat t.toList := by
    rw [List.map_map]
    refine List.map_congr_left fun t _ => ?_
    rw [Function.comp_apply, level, String.toList_append, String.toList_ofList]
    rfl
  -- The header begins with a letter, so nothing is dropped in front of it.
  have hmark : Opens
      (joinLines (head :: body.map (level indentSize))).toList := by
    cases body with
    | nil => rwa [List.map_nil, joinLines, String.intercalate_singleton]
    | cons t more =>
        rw [List.map_cons, toList_joinLines_cons_cons]
        exact hopens.append _
  have hlines : physicalLines
      (joinLines (head :: body.map (level indentSize))).toList = head.toList
        :: body.map fun t => indented indentSize.toNat t.toList := by
    rw [Written.physicalLines_joinLines (List.cons_ne_nil _ _), List.map_cons,
      hraws]
    intro t ht
    rcases List.mem_cons.mp ht with rfl | ht
    · exact hone
    · obtain ⟨u, hu', rfl⟩ := List.mem_map.mp ht
      exact unbroken_level.mpr (hu u hu')
  have hrow : Row.Sound ⟨0, head⟩ := hopens.content hone
  have hwritten : Row.written ⟨0, head⟩ = head := Outline.written_margin head
  have hscan := scanFrom_row hrow tabSize [0] 1
    (body.map fun t => indented indentSize.toNat t.toList)
  rw [hwritten, enter_zero levels_margin] at hscan
  refine ⟨_, (scanFrom tabSize [0] 2
    (body.map fun t => indented indentSize.toNat t.toList)).2, ?_, rfl, ?_⟩
  · rw [scan, hmark.withoutMark_eq, hlines, hscan]
    rfl
  · intro l hl
    -- Every line below the header is as wide as one level at least, so it is
    -- not at the margin, and what is not at the margin is in the header's
    -- block.
    have hwide : l.indent ∈ ((body.map fun t =>
        indented indentSize.toNat t.toList).filter isInked).map
          (rawWidth tabSize) := by
      rw [← map_indent_scanFrom tabSize [0] 2]
      exact List.mem_map_of_mem hl
    obtain ⟨raw, hraw, hindent⟩ := List.mem_map.mp hwide
    obtain ⟨t, -, rfl⟩ := List.mem_map.mp (List.mem_of_mem_filter hraw)
    have hle := le_rawWidth_indented tabSize indentSize.toNat t.toList
    have hdepth := depth_eq_zero_iff tabSize levels_margin l hl
    show 0 < l.depth
    omega

end Source

namespace Reading

-- =================================================================== blocks

/-- The line of the header of code, at the front of a script. -/
def codeFront (early hide init : Bool) : Line :=
  headerLine (codeHead early hide init) 1

/-- The header of code is read as it was written. -/
theorem codeHeader?_written (early hide init : Bool) :
    codeHeader? (headOf (codeFront early hide init)) = some (early, hide, init)
      ∧ hasColon (codeFront early hide init) = true := by
  cases early <;> cases hide <;> cases init <;> exact ⟨by decide, by decide⟩

/-- A header of code and all lines below it are one block of code. -/
theorem linesYield_code (early hide init : Bool) {ls : List Line}
    (hbelow : Item.Below (codeFront early hide init) ls) :
    linesYield (codeFront early hide init :: ls)
      = ⟨[bareSimple (codeFront early hide init)
          (codeBlock (early, hide, init) (codeText ls))], []⟩ := by
  obtain ⟨hflags, hcolon⟩ := codeHeader?_written early hide init
  have hyield : codeYield (codeFront early hide init) ls
      = ⟨[bareSimple (codeFront early hide init)
          (codeBlock (early, hide, init) (codeText ls))], []⟩ := by
    simp only [codeYield, hflags, hcolon, if_true]
  have hword : firstWord? (codeFront early hide init).content.toList
      = some (if init then "init" else "python") := by
    cases early <;> cases hide <;> cases init <;> decide
  have hopens : opensConditional (codeFront early hide init) = false := by
    refine opensConditional_of_firstWord? ?_
    rw [hword]
    cases init <;> decide
  have hitem : itemYield (.plain (codeFront early hide init) (itemsOf ls))
      = codeYield (codeFront early hide init) ls := by
    rw [itemYield, itemsOf, Item.linesOfAll_ofLines]
    simp only [hword]
    cases init <;> rfl
  have hitems : itemsOf (codeFront early hide init :: ls)
      = [.plain (codeFront early hide init) (itemsOf ls)] :=
    Item.ofLines_plain opensConditional continuesConditional hopens hbelow
  rw [linesYield_margin (by simp [codeFront, headerLine]), hitems, itemsYield,
    hitem, hyield]
  rfl

end Reading

-- ====================================================== compared as before

namespace Source

/-- Code on one line compares as that line. -/
theorem normalCode_line {code l : List Char} (h : Spaced code)
    (hreturn : '\r' ∉ code) (hl : inkLines code = [l]) :
    normalCode code = trim l := by
  have hrows : leftmost (codeRows code) = [⟨0, String.ofList (trim l)⟩] := by
    simp [codeRows, hl, leftmost, inkRow, least]
  rw [normalCode_spaced h hreturn, hrows, List.map_singleton, joinLines,
    String.intercalate_singleton, Outline.written_margin, String.toList_ofList]

theorem spaced_trim {code : List Char} (h : Spaced code)
    (hne : trim code ≠ []) (hone : '\n' ∉ trim code) : Spaced (trim code) := by
  obtain ⟨l, hl, htrim⟩ := exists_inkLine hne hone
  have htidy := tidy_trim hne
  intro m hm
  rw [inkLines_line hone, trim_trim, if_neg hne] at hm
  obtain rfl := List.mem_singleton.mp hm
  have hstart := (h l (hl ▸ List.mem_singleton_self l)).2
  rw [trimStart_of_ink htidy.starts]
  refine ⟨?_, ?_⟩
  · obtain ⟨c, cs, hcs⟩ := List.exists_cons_of_ne_nil hne
    have hc := htidy.starts c (by rw [hcs]; rfl)
    rw [hcs, List.takeWhile_cons_of_neg (by simp [hc])]
    simp
  · obtain ⟨back, hback⟩ := trimEnd_isPrefix (trimStart l)
    obtain ⟨c, cs, hcs⟩ := List.exists_cons_of_ne_nil hne
    rw [← hback, ← trim, ← htrim, hcs] at hstart
    rw [hcs]
    exact hstart

theorem relativeRows_eq (ls : List Line) :
    relativeRows ls = leftmost (ls.map fun l => ⟨l.indent, l.content⟩) := by
  rw [relativeRows, leftmost, List.map_map, List.map_map]
  rfl

section

variable {code : List Char} (h : Spaced code)
include h

/-- The lines of code as they are written. -/
theorem codeLines_spaced :
    codeLines code = (leftmost (codeRows code)).map Row.written := by
  have hlines := congrArg (List.map String.ofList) (cutMargin_inkLines h)
  rw [physical, List.map_map, List.map_map] at hlines
  refine Eq.trans hlines (List.map_congr_left fun r _ => ?_)
  exact String.ofList_toList

variable (hreturn : '\r' ∉ code)
include hreturn

/-- Written below a header and scanned, the lines of code are its rows
again. -/
theorem relativeRows_scanFrom (tabSize : Int) (levels : List Nat)
    (number p : Nat) :
    relativeRows (scanFrom tabSize levels number
        ((codeLines code).map fun t => indented p t.toList)).1
      = leftmost (codeRows code) := by
  have hsound := sound_leftmost (sound_codeRows h hreturn)
  have hraws : ((codeLines code).map fun t => indented p t.toList)
      = physical ((leftmost (codeRows code)).map (Row.shift p)) := by
    rw [physical_shift, physical, codeLines_spaced h, List.map_map,
      List.map_map]
    rfl
  have hshift : ∀ r ∈ (leftmost (codeRows code)).map (Row.shift p),
      r.Sound := by
    intro r hr
    obtain ⟨q, hq, rfl⟩ := List.mem_map.mp hr
    exact hsound q hq
  rw [hraws, relativeRows_eq, map_row_scanFrom _ _ _ hshift, leftmost_shift,
    leftmost_leftmost]

theorem trimEnd_codeRow {r : Row} (hr : r ∈ leftmost (codeRows code)) :
    trimEnd r.written.toList = r.written.toList := by
  have hsound := sound_leftmost (sound_codeRows h hreturn) r hr
  have hends : trimEnd r.content.toList = r.content.toList := by
    obtain ⟨q, hq, rfl⟩ := List.mem_map.mp hr
    obtain ⟨l, -, rfl⟩ := List.mem_map.mp hq
    rw [inkRow, String.toList_ofList, trim, trimEnd_of_ink (endsInk_trimEnd _)]
  rw [trimEnd_written hsound, hends, toList_written]

variable {ls : List Line} (hs : ∀ l ∈ ls, Scanned l) (hne : ls ≠ [])
  (hrows : relativeRows ls = leftmost (codeRows code))
include hs hne hrows

omit h hreturn in
theorem inkLines_relativeText :
    inkLines (Line.relativeText ls).toList
      = physical (leftmost (codeRows code)) := by
  rw [physical, ← hrows]
  exact splitAt_relativeText hs hne

/-- Code with these rows compares as it did, -/
theorem normalCode_relativeText :
    normalCode (Line.relativeText ls).toList = normalCode code := by
  have hsound := sound_leftmost (sound_codeRows h hreturn)
  have hlines : (inkLines (Line.relativeText ls).toList).map trimEnd
      = physical (leftmost (codeRows code)) := by
    rw [inkLines_relativeText hs hne hrows, physical, List.map_map]
    exact List.map_congr_left fun r hr => trimEnd_codeRow h hreturn hr
  rw [normalCode_rows hsound hlines, leftmost_leftmost,
    normalCode_spaced h hreturn]

/-- and says `pass` only where the code did. -/
theorem pass_of_relativeText
    (hpass : trim (Line.relativeText ls).toList = "pass".toList) :
    trim code = "pass".toList ∧ normalCode code = "pass".toList := by
  have hink : trim (Line.relativeText ls).toList ≠ []
      ∧ '\n' ∉ trim (Line.relativeText ls).toList := by
    rw [hpass]
    decide
  have htext : (Line.relativeText ls).toList = normalCode code := by
    rw [relativeText_rows, hrows, normalCode_spaced h hreturn]
  obtain ⟨m, hm, -⟩ := exists_inkLine hink.1 hink.2
  have hcount := congrArg List.length
    (inkLines_relativeText hs hne hrows)
  rw [hm] at hcount
  obtain ⟨l, hl⟩ : ∃ l, inkLines code = [l] := by
    rw [← List.length_eq_one_iff]
    simpa [physical, leftmost, codeRows] using hcount.symm
  have hcode := trim_of_inkLines hl
  rw [htext, normalCode_line h hreturn hl, trim_trim] at hpass
  exact ⟨hcode.trans hpass, (normalCode_line h hreturn hl).trans hpass⟩

end

end Source

-- =============================================================== all of code

/-- The text of code that is written alone. -/
def Code.text (indentSize : Int) (c : Code) : String :=
  joinLines (linesOfAll indentSize 0
    (Phrase.code c.code (isSet c.early) (isSet c.hide) (isSet c.init)))

/-- The lines of its body as they are scanned. -/
def Code.bodyScan (indentSize tabSize : Int) (c : Code) : List Line :=
  (scanFrom tabSize [0] 2 ((bodyLines indentSize
    ((codeLines c.code.toList).map .line)).map
      fun t => indented indentSize.toNat t.toList)).1

/-- Code that is written as a block. -/
def Code.InBlock (c : Code) : Prop :=
  Phrase.code c.code (isSet c.early) (isSet c.hide) (isSet c.init)
    = [.block (codeHead (isSet c.early) (isSet c.hide) (isSet c.init))
        ((codeLines c.code.toList).map .line)]

/-- Whether one of the flags is raised. -/
def Code.flagged (c : Code) : Bool :=
  isSet c.early || isSet c.hide || isSet c.init

/-- Code that compares with its rows: nothing but spaces stands in front of its
lines, no comment on a line of its own, and it is no lone `pass` below a header
with flags. -/
def Code.Regular (c : Code) : Prop :=
  Spaced c.code.toList
    ∧ ¬ (c.flagged = true ∧ normalCode c.code.toList = "pass".toList)

/-- Code that comes back as code: its text is written whatever the layout, if
the indentation can be made, and reads as code with the same flags, which
compares as before if it is regular. -/
structure Code.ComesBack (indentSize : Int) (c : Code) : Prop where
  /-- The text is written, at the margin and with or without empty lines, wherever
  the one indentation that a block of code has can be made. Beyond that there is
  no text to be read; what is read does not depend on it. -/
  written : Draft.padRoom indentSize = .ok () → ∀ tag blankLines,
    Draft.writtenAt ⟨.int indentSize, blankLines⟩ (.int 0)
      (Draft.ofStmt (.simple tag (.code c))) = .ok (c.text indentSize)
  /-- The text is read. -/
  reads : ∀ tabSize numbering, ∃ tag c' found after,
    read tabSize numbering (c.text indentSize)
        = ([.simple tag (.code c')], found, after)
      ∧ isSet c'.early = isSet c.early ∧ isSet c'.hide = isSet c.hide
      ∧ isSet c'.init = isSet c.init
      ∧ (c.Regular →
          normalCode c'.code.toList = normalCode c.code.toList)

theorem oneLine_codeLines {code : List Char} (hreturn : '\r' ∉ code)
    {t : String} (ht : t ∈ codeLines code) : OneLine t := by
  have hfeed := feed_not_mem_codeLines ht
  obtain ⟨l, hl, rfl⟩ := List.mem_map.mp ht
  obtain ⟨p, hp, rfl⟩ := List.mem_map.mp hl
  rw [OneLine, String.toList_ofList]
  rw [String.toList_ofList] at hfeed
  refine fun c hc => ⟨fun h => hfeed (h ▸ hc), ?_⟩
  rintro rfl
  exact hreturn (mem_of_mem_splitAt (List.mem_of_mem_filter hp)
    (List.mem_of_mem_drop ((trimEnd_isPrefix _).subset hc)))

section

variable {c : Code} {indentSize : Int}

theorem Code.writtenAt_text (c : Code)
    (hroom : Draft.padRoom indentSize = .ok ()) (tag : Tag) (blankLines : Bool) :
    Draft.writtenAt ⟨.int indentSize, blankLines⟩ (.int 0)
      (Draft.ofStmt (.simple tag (.code c))) = .ok (c.text indentSize) := by
  have hmargin := Draft.room_margin indentSize blankLines
  have hinner : Draft.Layout.room ⟨.int indentSize, blankLines⟩ (0 + 1)
      = .ok () := by
    show Draft.padRoom (indentSize * (0 + 1)) = .ok ()
    rwa [Int.zero_add, Int.mul_one]
  refine Draft.writtenAt_simple rfl ?_
  rcases code_cases c.code (isSet c.early) (isSet c.hide) (isSet c.init) with
    ⟨hline, -⟩ | ⟨-, -, hblock⟩
  · rw [hline]
    exact ⟨hmargin, trivial⟩
  · rw [hblock]
    exact fitsAll_block.mpr ⟨hmargin, hinner⟩

variable (hreturn : '\r' ∉ c.code.toList)
include hreturn

/-- Code on the line of a dollar sign comes back from there. -/
theorem Code.reads_line (indentSize : Int)
    (hline : Phrase.code c.code (isSet c.early) (isSet c.hide) (isSet c.init)
      = [.line ("$ " ++ String.ofList (trim c.code.toList))])
    (hfeed : '\n' ∉ trim c.code.toList) (hne : trim c.code.toList ≠ [])
    (hassign : isAssignment c.code.toList = false) :
    ReadsAlone (c.text indentSize)
      (.code { code := String.ofList (trim c.code.toList) }) := by
  have htext : c.text indentSize
      = "$ " ++ String.ofList (trim c.code.toList) := by
    have hlines : linesOfAll indentSize 0
        [.line ("$ " ++ String.ofList (trim c.code.toList))]
          = ["$ " ++ String.ofList (trim c.code.toList)] := linesOfAll_line [_]
    rw [Code.text, hline, hlines]
    exact String.intercalate_singleton
  have hlist : (c.text indentSize).toList
      = '$' :: ' ' :: trim c.code.toList := by
    simp [htext]
  have hunbroken : Unbroken (trim c.code.toList) := fun d hd =>
    ⟨fun h => hfeed (h ▸ hd), fun h => hreturn (h ▸ (trimStart_suffix _).subset
      ((trimEnd_isPrefix _).subset hd))⟩
  have hone : OneLine (c.text indentSize) := by
    have hfront : Unbroken ['$', ' '] := by
      unfold Unbroken
      decide
    rw [OneLine, hlist]
    exact unbroken_append.mpr ⟨hfront, hunbroken⟩
  have hopens : Opens (c.text indentSize).toList :=
    ⟨'$', _, hlist, by decide, by decide, by decide⟩
  have hno : assignment? (trim c.code.toList) = none := by
    simpa [isAssignment] using hassign
  refine readsAlone_line hone hopens ?_
  rw [hlist]
  exact lineKind_dollar (tidy_trim hne) (dollar?_code (tidy_trim hne) hno)

/-- Code on one line compares as before. -/
theorem normalCode_trim (h : Spaced c.code.toList)
    (hfeed : '\n' ∉ trim c.code.toList) (hne : trim c.code.toList ≠ []) :
    normalCode (trim c.code.toList) = normalCode c.code.toList := by
  obtain ⟨l, hl, htrim⟩ := exists_inkLine hne hfeed
  have hline : inkLines (trim c.code.toList) = [trim c.code.toList] := by
    rw [inkLines_line hfeed, trim_trim, if_neg hne]
  have hreturn' : '\r' ∉ trim c.code.toList := fun hr =>
    hreturn ((trimStart_suffix _).subset ((trimEnd_isPrefix _).subset hr))
  rw [normalCode_line (spaced_trim h hne hfeed) hreturn' hline,
    normalCode_line h hreturn hl, trim_trim, htrim]

/-- Code in a block comes back from there. -/
theorem Code.reads_block (hsize : 0 < indentSize) (hblock : c.InBlock)
    (hone : OneLine (codeHead (isSet c.early) (isSet c.hide) (isSet c.init)))
    (hopens : Opens
      (codeHead (isSet c.early) (isSet c.hide) (isSet c.init)).toList)
    (tabSize : Int) (numbering : Numbering) :
    ∃ tag found after, read tabSize numbering (c.text indentSize)
      = ([.simple tag (codeBlock (isSet c.early, isSet c.hide, isSet c.init)
          (codeText (c.bodyScan indentSize tabSize)))], found, after) := by
  have hbody : ∀ t ∈ bodyLines indentSize
      ((codeLines c.code.toList).map .line), OneLine t := by
    intro t ht
    by_cases hnone : codeLines c.code.toList = []
    · rw [hnone] at ht
      obtain rfl := List.mem_singleton.mp ht
      exact content_pass.unbroken
    · rw [bodyLines_line hnone] at ht
      exact oneLine_codeLines hreturn ht
  obtain ⟨ls, odd, hscan, hls, hbelow⟩ :=
    scan_below hone hopens hsize hbody tabSize
  have htext : c.text indentSize = joinLines
      (codeHead (isSet c.early) (isSet c.hide) (isSet c.init)
        :: (bodyLines indentSize ((codeLines c.code.toList).map .line)).map
          (level indentSize)) := by
    rw [Code.text, hblock, linesOfAll_block (Int.le_of_lt hsize)]
  rw [← htext] at hscan
  obtain ⟨tag, found, after, hread, -⟩ := read_of_linesYield
    numbering hscan (linesYield_code _ _ _ hbelow)
  exact ⟨tag, found, after, by rw [hread, Code.bodyScan, hls]⟩

omit hreturn in
/-- A lone `pass` below no flags is written on a line. -/
theorem Code.InBlock.flagged (h : c.InBlock)
    (hpass : trim c.code.toList = "pass".toList) : c.flagged = true := by
  by_contra hflags
  have hplain : (!"pass".toList.isEmpty && isOneLine "pass".toList
      && !(assignment? "pass".toList).isSome && !c.flagged) = true := by
    rw [Bool.eq_false_iff.mpr hflags]
    decide
  have hline : Phrase.code c.code (isSet c.early) (isSet c.hide)
      (isSet c.init) = [.line ("$ " ++ String.ofList "pass".toList)] := by
    simp only [Phrase.code, isAssignment, hpass]
    exact if_pos hplain
  rw [Code.InBlock, hline] at h
  cases h

omit hreturn in
/-- A block without code says `pass`. -/
theorem Code.codeText_of_blank (h : codeLines c.code.toList = [])
    (indentSize tabSize : Int) :
    codeText (c.bodyScan indentSize tabSize) = "pass" := by
  have hsound : ∀ r ∈ ([⟨indentSize.toNat, "pass"⟩] : List Row),
      r.Sound := by
    intro r hr
    obtain rfl := List.mem_singleton.mp hr
    exact content_pass
  obtain ⟨l, hl, hrow⟩ := List.map_eq_singleton_iff.mp
    (map_row_scanFrom tabSize [0] 2 hsound)
  rw [physical, List.map_singleton, toList_written] at hl
  have hscan : c.bodyScan indentSize tabSize = [l] := by
    rw [Code.bodyScan, h]
    exact hl
  have hcontent : l.content = "pass" := congrArg Row.content hrow
  rw [hscan, codeText, relativeText_single, hcontent]
  rfl

/-- Regular code in a block compares as before. -/
theorem Code.normalCode_block (h : c.Regular) (hblock : c.InBlock)
    (indentSize tabSize : Int) :
    normalCode (if trim (codeText (c.bodyScan indentSize tabSize)).toList
          = "pass".toList
        then "" else codeText (c.bodyScan indentSize tabSize)).toList
      = normalCode c.code.toList := by
  obtain ⟨hspaced, hlone⟩ := h
  have hlines := codeLines_spaced hspaced
  -- Code without ink is written as `pass` and read as an empty text; any other
  -- code comes back moved to the margin.
  by_cases hnone : inkLines c.code.toList = []
  · have hrows : codeRows c.code.toList = [] := by rw [codeRows, hnone, List.map_nil]
    rw [hrows] at hlines
    rw [Code.codeText_of_blank hlines, normalCode_spaced hspaced hreturn, hrows]
    rfl
  · have hne : codeLines c.code.toList ≠ [] := by
      rw [hlines]
      simpa [leftmost, codeRows] using hnone
    have hrows : relativeRows (c.bodyScan indentSize tabSize)
        = leftmost (codeRows c.code.toList) := by
      rw [Code.bodyScan, bodyLines_line hne]
      exact relativeRows_scanFrom hspaced hreturn tabSize [0] 2 _
    have hscan : c.bodyScan indentSize tabSize ≠ [] := by
      intro hnil
      rw [hnil] at hrows
      exact hnone (by simpa [relativeRows, leftmost, codeRows]
        using hrows.symm)
    have hs : ∀ l ∈ c.bodyScan indentSize tabSize, Scanned l := by
      intro l hl
      have hsound := sound_leftmost (sound_codeRows hspaced hreturn)
      rw [← hrows] at hsound
      exact hsound _ (List.mem_map_of_mem hl)
    have htext : codeText (c.bodyScan indentSize tabSize)
        = Line.relativeText (c.bodyScan indentSize tabSize) := by
      rw [codeText, if_neg (by simpa using hscan)]
    rw [htext, if_neg, normalCode_relativeText hspaced hreturn hs hscan hrows]
    -- Code that is one line with `pass` is the one that would be lost here; a
    -- regular block is not of this kind.
    intro hpass
    obtain ⟨htrim, hcode⟩ :=
      pass_of_relativeText hspaced hreturn hs hscan hrows hpass
    exact hlone ⟨hblock.flagged htrim, hcode⟩

/-- Code of any kind comes back as code. -/
theorem Code.comesBack (hsize : 1 ≤ indentSize) : c.ComesBack indentSize where
  written := fun hroom tag blankLines => c.writtenAt_text hroom tag blankLines
  reads := by
    intro tabSize numbering
    rcases code_cases c.code (isSet c.early) (isSet c.hide) (isSet c.init) with
      ⟨hline, hfeed, hne, hassign, hflags⟩ | ⟨hone, hopens, hblock⟩
    · obtain ⟨tag, after, hread⟩ := Code.reads_line
        hreturn indentSize hline hfeed hne hassign tabSize numbering
      simp only [Bool.or_eq_false_iff] at hflags
      obtain ⟨⟨hearly, hhide⟩, hinit⟩ := hflags
      refine ⟨tag, _, [], after, hread, hearly.symm, hhide.symm, hinit.symm,
        fun hregular => ?_⟩
      rw [String.toList_ofList]
      exact normalCode_trim hreturn hregular.1 hfeed hne
    · obtain ⟨tag, found, after, hread⟩ :=
        Code.reads_block hreturn hsize hblock hone hopens tabSize numbering
      rw [codeBlock] at hread
      refine ⟨tag, _, found, after, hread, isSet_raised _, isSet_raised _,
        isSet_raised _, fun hregular => ?_⟩
      simpa only using
        Code.normalCode_block hreturn hregular hblock indentSize tabSize

end

/-- Code and assignments come back as what they were: code with its flags and,
if it is regular, as the same code for a comparison, whatever its
indentation; an assignment as it stands. -/
theorem comesBack_code_assign :
    (∀ (c : Code) (indentSize : Int), '\r' ∉ c.code.toList → 1 ≤ indentSize →
        c.ComesBack indentSize)
      ∧ ∀ target value operator : String, Dotted target.toList →
        Inline value.toList → operator ∈ assignOperators →
        (Simple.assign target value operator).ReadsBack :=
  ⟨fun _ _ hreturn hsize => Code.comesBack hreturn hsize,
    fun _ _ _ ht hv ho => readsBack_assign ht hv ho⟩

/-- Code with an odd dedent below a header, and an assignment whose value goes
to the end of its line. -/
theorem comesBack_code_dedent :
    Code.Regular ⟨"  if x:\n      y = 1\n    z = 2", some true, none, none⟩
      ∧ Code.ComesBack 1
        ⟨"  if x:\n      y = 1\n    z = 2", some true, none, none⟩
      ∧ (Simple.assign "persistent.seen" "[1] + f('a')" "+=").ReadsBack := by
  refine ⟨?_, comesBack_code_assign.1 _ 1 (by decide) (by decide),
    comesBack_code_assign.2 _ _ _
      ⟨'p', "ersistent.seen".toList, rfl, by decide, by decide⟩
      ⟨tidy_iff.mpr (by decide), ?_⟩ (by decide)⟩
  · unfold Code.Regular Spaced
    decide +kernel
  · unfold Unbroken
    decide

end NovelScript
