/-
A simple statement alone on a page. If its page reads as one statement that
means the same and is written as the same page, then the lines of the page are
rows: something stands on each, spaces at most in front of it, and the first one
begins at the margin. Rows that read as a statement somewhere do so wherever
they stand, so the statement is a leaf of every tree it is put into.

# What could go wrong

The scanner might pass over a line, or take white space of another kind for a
line's beginning. The argument is a count: what is read from some lines is
written on as many lines at most, so a page that comes back has no line that was
passed over (`WrittenAs.rows`).

# How the count is made

* What is read alone was read from one line, or from a line and the block below
  it, and is written as that line, as the lines of the block against its margin,
  or as a header with the code of the block below it (`WrittenAs`).
* The lines of a block are cut at its margin and at their ends when they are
  written again (`cutLines`). If what is handed on of them are the contents that
  the lines had, then the cut lines are the rows of the block (`cutLines_eq`),
  which is where white space of another kind is excluded.
* A page that is handed on line by line carries no mark in front, whether its
  first line begins with something on it or is compared with what was handed on
  (`unmarked_of_opens`, `unmarked_of_contents`).

Texts that begin with something on them (`Opens`) are what the front of a line
is reduced to: names, the words of statements and the lines of all statements
that one line said begin so.
-/
import NovelScript.Proofs.RoundTrip.Single

namespace NovelScript

open Grammar Source Text
open Outline (Spells bodyLines bodyLines_line bodyRows level linesOfAll
  linesOfAll_block linesOfAll_line spells_line spells_nil)
open Written (Unmarked Unwraps)

-- ====================================================== how lines begin

/-- A text that begins with something on it: no white space, no comment and
no byte order mark. -/
def Opens (cs : List Char) : Prop :=
  ∃ c rest, cs = c :: rest ∧ isBlank c = false ∧ c ≠ '#' ∧ c ≠ '\uFEFF'

theorem Opens.append {cs : List Char} (h : Opens cs) (ds : List Char) :
    Opens (cs ++ ds) := by
  obtain ⟨c, rest, rfl, hc⟩ := h
  exact ⟨c, rest ++ ds, rfl, hc⟩

theorem opens_of_name {cs : List Char} (h : Name cs) : Opens cs := by
  obtain ⟨c, ws, rfl, hc, -⟩ := h
  refine ⟨c, ws, rfl, isBlank_of_isWordChar (isWordChar_of_isNameStart hc),
    ?_, ?_⟩
  · rintro rfl
    exact absurd hc (by decide)
  · rintro rfl
    exact absurd hc (by decide)

theorem Leads.opens {word t : String} (h : Leads word t)
    (hword : Opens word.toList) : Opens t.toList := by
  obtain ⟨rest, rfl, -⟩ := h
  rw [String.toList_append]
  exact hword.append _

theorem opens_lineWord {word : String} (h : word ∈ lineWords) :
    Opens word.toList := by
  have hall : ∀ w ∈ lineWords, w.toList.head?.any (fun c =>
      !isBlank c && c != '#' && c != '\uFEFF') = true := by decide
  have hword := hall word h
  cases hcs : word.toList with
  | nil =>
      rw [hcs] at hword
      cases hword
  | cons c rest =>
      rw [hcs] at hword
      exact ⟨c, rest, rfl, by simpa [and_assoc] using hword⟩

/-- The line of a statement that one line said begins with something. -/
theorem Simple.Worded.opens {s : Simple} {t : String} (h : s.Worded t)
    (hs : s.Spoken) : Opens t.toList := by
  have hbegins := h.begins
  cases s with
  | say d =>
      rcases hbegins with hquoted | ⟨who, hwho, hlead⟩ | hextend
      · refine hquoted.opens ?_
        rw [quoted, String.toList_ofList]
        exact ⟨'"', _, rfl, by decide, by decide, by decide⟩
      · exact hlead.opens (opens_of_name (Dialogue.Spoken.speaker hs who hwho).1)
      · exact hextend.opens
          ⟨'e', _, rfl, by decide, by decide, by decide⟩
  | _ =>
      obtain ⟨word, hword, hlead⟩ := hbegins
      exact hlead.opens (opens_lineWord hword)

theorem Opens.content {t : String} (h : Opens t.toList) (hone : OneLine t) :
    Content t.toList := by
  obtain ⟨c, rest, ht, hc, hhash, -⟩ := h
  rw [OneLine] at hone
  rw [ht] at hone ⊢
  exact content_cons hone hc hhash

-- ============================================================= as rows

namespace Reading

/-- Lines as rows, indented against the shallowest of them. -/
def relativeRows (ls : List Line) : List Row :=
  ls.map fun l => ⟨l.indent - least (ls.map Line.indent), l.content⟩

theorem relativeText_rows (ls : List Line) :
    Line.relativeText ls = joinLines ((relativeRows ls).map Row.written) := by
  rw [Line.relativeText, relativeRows, List.map_map]
  rfl

section

variable {ls : List Line} (hs : ∀ l ∈ ls, Scanned l)
include hs

theorem sound_relativeRows : ∀ r ∈ relativeRows ls, r.Sound := by
  intro r hr
  obtain ⟨l, hl, rfl⟩ := List.mem_map.mp hr
  exact hs l hl

/-- The lines of a text made of lines are found again. -/
theorem splitLines_relativeText (hne : ls ≠ []) :
    splitLines (Line.relativeText ls) = (relativeRows ls).map Row.written := by
  rw [relativeText_rows]
  refine splitLines_joinLines (by simpa [relativeRows] using hne) fun l hl => ?_
  obtain ⟨r, hr, rfl⟩ := List.mem_map.mp hl
  exact fun hfeed =>
    (unbroken_written (sound_relativeRows hs r hr) _ hfeed).1 rfl

/-- No line among them is broken in another way. -/
theorem return_not_mem_relativeText : '\r' ∉ (Line.relativeText ls).toList := by
  intro hreturn
  have hpage : '\r' ∈ (Written.page
      ((relativeRows ls).map Row.written)).toList := by
    rw [Written.page]
    split
    · next hempty =>
      rw [relativeText_rows, List.isEmpty_iff.mp hempty] at hreturn
      cases hreturn
    · rw [← relativeText_rows, String.toList_append]
      exact List.mem_append_left _ hreturn
  rw [Written.toList_page, List.mem_flatMap] at hpage
  obtain ⟨t, ht, hmem⟩ := hpage
  obtain ⟨r, hr, rfl⟩ := List.mem_map.mp ht
  rcases List.mem_append.mp hmem with hmem | hmem
  · exact (unbroken_written (sound_relativeRows hs r hr) _ hmem).2 rfl
  · exact absurd (List.mem_singleton.mp hmem) (by decide)

/-- None of them is blank. -/
theorem splitAt_relativeText (hne : ls ≠ []) :
    (splitAt '\n' (Line.relativeText ls).toList).filter
        (fun l => !(trim l).isEmpty)
      = (relativeRows ls).map fun r => r.written.toList := by
  have hlines := congrArg (List.map String.toList)
    (splitLines_relativeText hs hne)
  rw [splitLines, List.map_map, List.map_map] at hlines
  have hid : String.toList ∘ String.ofList = id := by
    funext cs
    exact String.toList_ofList
  rw [hid, List.map_id] at hlines
  rw [hlines]
  refine List.filter_eq_self.mpr fun cs hcs => ?_
  obtain ⟨r, hr, rfl⟩ := List.mem_map.mp hcs
  have hinked := isInked_written (sound_relativeRows hs r hr)
  rw [Bool.not_eq_true', List.isEmpty_eq_false_iff, ne_eq, trim_eq_nil]
  intro hblank
  have hall : r.written.toList.all isBlank = true := List.all_eq_true.mpr hblank
  rw [isInked, hall] at hinked
  cases hinked

end

-- ====================================================== what is written

/-- The lines of a block of code. -/
def codeLines (code : List Char) : List String :=
  (cutMargin ((splitAt '\n' code).filter fun l => !(trim l).isEmpty)).map
    fun l => String.ofList (trimEnd l)

theorem feed_not_mem_codeLines {code : List Char} {t : String}
    (ht : t ∈ codeLines code) : '\n' ∉ t.toList := by
  obtain ⟨l, hl, rfl⟩ := List.mem_map.mp ht
  obtain ⟨p, hp, rfl⟩ := List.mem_map.mp hl
  have hnone := not_mem_of_mem_splitAt (List.mem_of_mem_filter hp)
  rw [String.toList_ofList]
  exact fun hfeed => hnone
    (List.mem_of_mem_drop ((trimEnd_isPrefix _).subset hfeed))

/-- The header of a block of code. -/
def codeHead (early hide init : Bool) : String :=
  (if init then "init python" else "python") ++ (if early then " early" else "")
    ++ (if hide then " hide" else "") ++ ":"

/-- Code is written on one line, where no flag is raised and the line gives no
variable a value, or as a block. -/
theorem code_cases (code : String) (early hide init : Bool) :
    (Phrase.code code early hide init
        = [.line ("$ " ++ String.ofList (trim code.toList))]
      ∧ '\n' ∉ trim code.toList ∧ trim code.toList ≠ []
      ∧ isAssignment code.toList = false ∧ (early || hide || init) = false)
    ∨ (OneLine (codeHead early hide init)
      ∧ Opens (codeHead early hide init).toList
      ∧ Phrase.code code early hide init
        = [.block (codeHead early hide init)
            ((codeLines code.toList).map .line)]) := by
  by_cases hdollar : (!(trim code.toList).isEmpty
      && isOneLine (trim code.toList) && !isAssignment code.toList
      && !(early || hide || init)) = true
  · left
    refine ⟨if_pos hdollar, ?_⟩
    simp only [Bool.and_eq_true, Bool.not_eq_true', isOneLine, List.all_eq_true]
      at hdollar
    obtain ⟨⟨⟨hink, hone⟩, hassign⟩, hflags⟩ := hdollar
    refine ⟨fun hfeed => ?_, by simpa using hink, hassign, hflags⟩
    simpa using hone _ hfeed
  · right
    refine ⟨?_, ?_, (if_neg hdollar).trans ?_⟩
    · unfold OneLine Unbroken
      cases early <;> cases hide <;> cases init <;> decide
    · cases init <;> cases early <;> cases hide <;>
        exact ⟨_, _, rfl, by decide, by decide, by decide⟩
    · rw [codeLines, List.map_map]
      rfl

/-- The lines of a block, cut at both ends: at the front by the width that they
have in common, and behind by the white space at the end. -/
def cutLines (width : Nat) (block : List Line) : List String :=
  (relativeRows block).map fun r =>
    String.ofList (trimEnd (r.written.toList.drop width))

/-- What is written for a statement that was read from a line and the block
below it. -/
inductive WrittenAs (l : Line) (block : List Line) : List Outline → Prop where
  /-- One line. -/
  | line {t : String} (hone : OneLine t) (hopens : Opens t.toList) :
    WrittenAs l block [.line t]
  /-- The lines as they were. -/
  | raw : WrittenAs l block
    (((relativeRows (l :: block)).map Row.written).map .line)
  /-- A header with nothing below it. -/
  | empty {head : String} (hone : OneLine head) (hopens : Opens head.toList) :
    WrittenAs l block [.block head []]
  /-- A header and the lines of the block, cut at both ends. -/
  | code {head : String} (hone : OneLine head) (hopens : Opens head.toList)
    (hne : block ≠ []) (width : Nat) :
    WrittenAs l block [.block head ((cutLines width block).map .line)]

variable {l : Line} {block : List Line}

theorem codeLines_relativeText (hs : ∀ m ∈ block, Scanned m)
    (hne : block ≠ []) : ∃ width,
      codeLines (Line.relativeText block).toList = cutLines width block := by
  refine ⟨least (((relativeRows block).map
    fun r => r.written.toList).map leadWidth), ?_⟩
  simp only [codeLines, splitAt_relativeText hs hne, cutMargin, cutLines,
    List.map_map]
  rfl

theorem writtenAs_codeBlock (hs : ∀ m ∈ block, Scanned m)
    (flags : Bool × Bool × Bool) {os : List Outline}
    (hw : Written.simple "" (codeBlock flags (codeText block)) = .ok os) :
    WrittenAs l block os := by
  -- Where there is no block, or only `pass`, there is no code.
  obtain ⟨code, hcode, hcases⟩ : ∃ code, codeBlock flags (codeText block)
        = .code ⟨code, raised flags.1, raised flags.2.1, raised flags.2.2⟩
      ∧ (code = "" ∨ block ≠ [] ∧ code = Line.relativeText block) := by
    refine ⟨_, rfl, ?_⟩
    split
    · exact Or.inl rfl
    · unfold codeText
      split
      · exact Or.inl rfl
      · next hne => exact Or.inr ⟨by simpa using hne, rfl⟩
  rw [hcode] at hw
  obtain rfl := Except.ok.inj hw
  have hreturn : '\r' ∉ code.toList := by
    rcases hcases with rfl | ⟨-, rfl⟩
    · simp
    · exact return_not_mem_relativeText hs
  rcases code_cases code (Written.isSet (raised flags.1))
      (Written.isSet (raised flags.2.1)) (Written.isSet (raised flags.2.2))
    with ⟨hline, hfeed, -⟩ | ⟨hone, hopens, hblock⟩
  · rw [hline]
    refine .line (oneLine_append.mpr ⟨?_, ?_⟩) ?_
    · unfold OneLine Unbroken
      decide
    · rw [OneLine, String.toList_ofList]
      intro c hc
      refine ⟨fun h => hfeed (h ▸ hc), fun h => hreturn (h ▸ ?_)⟩
      exact (trimStart_suffix _).subset ((trimEnd_isPrefix _).subset hc)
    · rw [String.toList_append]
      exact Opens.append ⟨'$', _, rfl, by decide, by decide, by decide⟩ _
  · rw [hblock]
    rcases hcases with rfl | ⟨hne, rfl⟩
    · exact .empty hone hopens
    · obtain ⟨width, hlines⟩ := codeLines_relativeText hs hne
      rw [hlines]
      exact .code hone hopens hne width

/-- What is written for a statement that was read alone. -/
theorem SingleAs.writtenAs {s : Simple} (h : SingleAs l block s)
    (hs : ∀ m ∈ l :: block, Scanned m) {os : List Outline}
    (hw : Written.simple "" s = .ok os) : WrittenAs l block os := by
  cases h with
  | spoken hspoken hblock =>
      obtain ⟨t, ht⟩ := hspoken.worded
      obtain rfl := Except.ok.inj ((ht.written "").symm.trans hw)
      exact .line ht.oneLine (ht.opens hspoken)
  | raw =>
      obtain rfl := Except.ok.inj hw
      rw [Phrase.raw, splitLines_relativeText hs (by simp)]
      exact .raw
  | code hflags =>
      exact writtenAs_codeBlock (fun m hm => hs m (List.mem_cons_of_mem _ hm))
        _ hw

variable {indentSize : Int} {os : List Outline}

theorem unbroken_level {t : String} :
    Unbroken (level indentSize t).toList ↔ Unbroken t.toList := by
  rw [level, String.toList_append, String.toList_ofList, unbroken_append]
  refine and_iff_right fun c hc => ?_
  rw [(List.mem_replicate.mp hc).2]
  decide

/-- None of the lines is broken. -/
theorem WrittenAs.unbroken (h : WrittenAs l block os) (hsize : 0 ≤ indentSize)
    (hs : ∀ m ∈ l :: block, Scanned m) :
    ∀ t ∈ linesOfAll indentSize 0 os, Unbroken t.toList := by
  have hbelow : ∀ {head : String} {body : List Outline}, OneLine head →
      (∀ t ∈ bodyLines indentSize body, Unbroken t.toList) →
      ∀ t ∈ linesOfAll indentSize 0 [.block head body],
        Unbroken t.toList := by
    intro head body hone hbody t ht
    rw [linesOfAll_block hsize] at ht
    rcases List.mem_cons.mp ht with rfl | ht
    · exact hone
    · obtain ⟨u, hu, rfl⟩ := List.mem_map.mp ht
      exact unbroken_level.mpr (hbody u hu)
  have hrows : ∀ {ls : List Line}, (∀ m ∈ ls, Scanned m) →
      ∀ r ∈ relativeRows ls, Unbroken r.written.toList := fun hls r hr =>
    unbroken_written (sound_relativeRows hls r hr)
  -- Each shape of a page is made of words without breaks or of lines that were
  -- scanned, and a scanned line has none.
  cases h with
  | @line t hone hopens =>
      have hlines : linesOfAll indentSize 0 [.line t] = [t] :=
        linesOfAll_line [t]
      intro u hu
      rw [hlines] at hu
      obtain rfl := List.mem_singleton.mp hu
      exact hone
  | raw =>
      intro t ht
      rw [linesOfAll_line] at ht
      obtain ⟨r, hr, rfl⟩ := List.mem_map.mp ht
      exact hrows hs r hr
  | empty hone hopens =>
      refine hbelow hone fun t ht => ?_
      obtain rfl := List.mem_singleton.mp ht
      exact content_pass.unbroken
  | code hone hopens hne width =>
      refine hbelow hone fun t ht => ?_
      rw [bodyLines_line (by simpa [cutLines, relativeRows] using hne)] at ht
      obtain ⟨r, hr, rfl⟩ := List.mem_map.mp ht
      rw [String.toList_ofList]
      refine (hrows (fun m hm => hs m (List.mem_cons_of_mem _ hm)) r hr).subset
        fun c hc => ?_
      exact List.mem_of_mem_drop ((trimEnd_isPrefix _).subset hc)

-- ============================================================ counting

theorem trimEnd_written {r : Row} (h : r.Sound) :
    trimEnd r.written.toList = indented r.indent (trimEnd r.content.toList) := by
  have hne : trimEnd r.content.toList ≠ [] := by
    intro hnil
    have hmeaning := h.meaning
    rw [isTrivia, trim_eq_nil.mpr (trimEnd_eq_nil.mp hnil)] at hmeaning
    simp at hmeaning
  rw [toList_written, indented, trimEnd_append_right _ hne]
  rfl

/-- If what is handed on of a block's cut lines are its contents, then the
cut lines are its rows. -/
theorem cutLines_eq (hs : ∀ m ∈ block, Scanned m) {width : Nat}
    (h : block.map (·.content.toList) = (cutLines width block).map
      (·.toList.dropWhile isIndent)) :
    cutLines width block = (relativeRows block).map Row.written := by
  have hall : ∀ r ∈ relativeRows block, r.content.toList
      = (trimEnd (r.written.toList.drop width)).dropWhile isIndent := by
    have hrows : (relativeRows block).map (·.content.toList)
        = (relativeRows block).map fun r =>
          (trimEnd (r.written.toList.drop width)).dropWhile isIndent := by
      simp only [cutLines, List.map_map] at h
      simp only [relativeRows, List.map_map] at h ⊢
      simpa [Function.comp_def] using h
    exact List.map_inj_left.mp hrows
  cases hblock : block with
  | nil => rfl
  | cons m more =>
      rw [← hblock]
      have hsound := sound_relativeRows hs
      -- The shallowest line has nothing in front of its content to lose.
      obtain ⟨r, hr, hmargin⟩ : ∃ r ∈ relativeRows block, r.indent = 0 := by
        have hleast : least (block.map Line.indent) ∈ block.map Line.indent := by
          rw [hblock]
          exact (least_spec m.indent (more.map Line.indent)).1
        obtain ⟨b, hb, hindent⟩ := List.mem_map.mp hleast
        exact ⟨_, List.mem_map_of_mem hb, by
          rw [hindent, Nat.sub_self]⟩
      have hwidth : width = 0 := by
        have hr' := congrArg List.length (hall r hr)
        have hwritten : r.written.toList = r.content.toList := by
          rw [toList_written, hmargin]
          rfl
        have hdrop := (List.dropWhile_sublist isIndent
          (l := trimEnd (r.content.toList.drop width))).length_le
        have htrim := (trimEnd_isPrefix (r.content.toList.drop width)).length_le
        have hpos : 0 < r.content.toList.length := by
          refine List.length_pos_of_ne_nil fun hnil => ?_
          have hmeaning := (hsound r hr).meaning
          rw [hnil] at hmeaning
          cases hmeaning
        rw [hwritten] at hr'
        rw [List.length_drop] at htrim
        omega
      refine List.map_congr_left fun q hq => String.toList_inj.mp ?_
      have hq' := hall q hq
      rw [hwidth, List.drop_zero, trimEnd_written (hsound q hq),
        dropWhile_indented] at hq'
      rw [String.toList_ofList, hwidth, List.drop_zero,
        trimEnd_written (hsound q hq), toList_written]
      have hends : (trimEnd q.content.toList).dropWhile isIndent
          = trimEnd q.content.toList := by
        obtain ⟨back, hback⟩ := trimEnd_isPrefix q.content.toList
        cases htrim : trimEnd q.content.toList with
        | nil => rfl
        | cons c cs =>
            rw [htrim] at hback
            have hc := (hsound q hq).cut c (by rw [← hback]; rfl)
            exact List.dropWhile_cons_of_neg (by simp [hc])
      rw [hends] at hq'
      rw [← hq']

/-- Where something stands there is no mark. -/
theorem unmarked_of_opens {t : String} {more : List String}
    {raws : List (List Char)} (h : Unwraps (t :: more) raws)
    (ht : Opens t.toList) :
    Unmarked (t :: more) ∧ raws = (t :: more).map String.toList := by
  obtain ⟨c, rest, hc, -, -, hmark⟩ := ht
  rcases h with h | ⟨u, us, -, hmarked⟩
  · exact h
  · rw [List.map_cons, hc] at hmarked
    exact absurd (List.cons.inj (List.cons.inj hmarked).1).1 hmark

/-- Nor is there one where all lines are handed on as they are. -/
theorem unmarked_of_contents {lines : List String} {raws : List (List Char)}
    (h : Unwraps lines raws) (hfirst : ∀ t ∈ lines.head?,
      ∀ u ∈ raws.head?, t.toList = u.dropWhile isIndent) :
    Unmarked lines ∧ raws = lines.map String.toList := by
  rcases h with h | ⟨u, us, rfl, hmarked⟩
  · exact h
  · cases lines with
    | nil => cases hmarked
    | cons t more =>
        have ht := (List.cons.inj hmarked).1
        rw [hfirst t rfl u rfl] at ht
        have hlength := (List.dropWhile_sublist isIndent (l := u)).length_le
        rw [ht, List.length_cons] at hlength
        omega

/-- The rows of a page that reads as what it was written for. -/
theorem WrittenAs.rows (h : WrittenAs l block os) (hsize : 0 ≤ indentSize)
    (hs : ∀ m ∈ l :: block, Scanned m) {raws : List (List Char)}
    (hraws : Unwraps (linesOfAll indentSize 0 os) raws)
    (hcount : raws.length = (linesOfAll indentSize 0 os).length)
    {tabSize : Int}
    (hscan : scanFrom tabSize [0] 1 raws = (l :: block, []))
    (hdepth : l.depth = 0) :
    ∃ rows, Spells indentSize os rows ∧ Laid rows
      ∧ Unmarked (linesOfAll indentSize 0 os)
      ∧ raws = (linesOfAll indentSize 0 os).map String.toList := by
  have hbelow := fun m hm => hs m (List.mem_cons_of_mem l hm)
  -- Four shapes of a page. In two of them the first line is written with a word
  -- of its own, which shows that there is no mark; in the others the contents
  -- do.
  cases h with
  | @line t hone hopens =>
      have hlines : linesOfAll indentSize 0 [.line t] = [t] :=
        linesOfAll_line [t]
      rw [hlines] at hraws ⊢
      exact ⟨_, spells_line t, laid_row (hopens.content hone),
        unmarked_of_opens hraws hopens⟩
  | raw =>
      rw [linesOfAll_line] at hraws hcount ⊢
      have hlength : raws.length ≤ (l :: block).length := by
        simp [hcount, relativeRows]
      have hcontents := map_content_of_length_le tabSize hscan hlength
      have hmargin := indent_of_depth_zero tabSize hscan hdepth
      refine ⟨_, linesOfAll_line _, ⟨sound_relativeRows hs, ?_⟩,
        unmarked_of_contents hraws ?_⟩
      · intro r hr
        obtain rfl := Option.some.inj hr
        simp only [hmargin, Nat.zero_sub]
      · intro t ht u hu
        obtain rfl := Option.some.inj ht
        cases raws with
        | nil => cases hu
        | cons v vs =>
            obtain rfl : v = u := Option.some.inj hu
            have hl : l.content.toList = v.dropWhile isIndent :=
              (List.cons.inj hcontents).1
            simp only [toList_written, hmargin, Nat.zero_sub, hl]
            rfl
  | @empty head hone hopens =>
      have hlines := linesOfAll_block hsize head []
      have hsound : ∀ r ∈ ([⟨0, "pass"⟩] : List Row).map
          (Row.shift indentSize.toNat), r.Sound := by
        intro r hr
        obtain rfl := List.mem_singleton.mp hr
        exact content_pass
      rw [hlines] at hraws ⊢
      exact ⟨_, spells_nil.block hsize, Laid.cons (hopens.content hone) rfl hsound,
        unmarked_of_opens hraws hopens⟩
  | @code head hone hopens hne width =>
      have hcut : cutLines width block ≠ [] := by
        simpa [cutLines, relativeRows] using hne
      have hlines := linesOfAll_block hsize head
        ((cutLines width block).map .line)
      rw [bodyLines_line hcut] at hlines
      rw [hlines] at hraws hcount ⊢
      have hunmarked := unmarked_of_opens hraws hopens
      have hlength : raws.length ≤ (l :: block).length := by
        simp [hcount, cutLines, relativeRows]
      have hcontents := map_content_of_length_le tabSize hscan hlength
      have hrows : cutLines width block
          = (relativeRows block).map Row.written := by
        refine cutLines_eq hbelow ?_
        rw [hunmarked.2] at hcontents
        have hbody := (List.cons.inj hcontents).2
        rw [hbody, List.map_map, List.map_map]
        refine List.map_congr_left fun t _ => ?_
        simp only [Function.comp_apply, level, String.toList_append,
          String.toList_ofList]
        exact dropWhile_indented _ _
      have hspells : Spells indentSize ((cutLines width block).map .line)
          (relativeRows block) := by
        rw [Spells, linesOfAll_line, hrows]
      refine ⟨_, hspells.block hsize, Laid.cons (hopens.content hone) rfl ?_,
        hunmarked⟩
      intro r hr
      rw [bodyRows, if_neg (by simpa [relativeRows] using hne)] at hr
      obtain ⟨q, hq, rfl⟩ := List.mem_map.mp hr
      exact sound_relativeRows hbelow q hq

end Reading

end NovelScript
