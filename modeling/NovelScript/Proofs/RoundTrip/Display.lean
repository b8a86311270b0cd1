/-
Changes of the picture come back as they were. Words may hold brackets and
literals with white space and clause words inside; what is asked of them is that
each leaves nothing open.

# Words

The line is cut into words at the white space that is inside no bracket and no
literal. So where all parts leave nothing open, the words of the line are the
words of its parts, one part after the other (`wordsOf_intercalate`), and a part
that is a closed word is one word (`wordsOf_closed`).

# Clauses

The words behind the image are dealt out to the clauses again: a clause goes
from the word that begins it up to the next such word, because no other word is
one of these (`Clause.Clear`, `clauses?_written`). Each clause is written once
at most and under a word of its own, so it is found again under it
(`lookup_clauses`), and one that is not written is not found. The five clauses
of a change of the picture are a list (`DisplayOptions.clauses`), and what holds
of them is said once for all clauses.

# Lines

An integer of any size and sign is a closed word (`closedWord_int`), and so are
the image and the attributes. What remains to be excluded is a line that ends in
a colon: it would open a block.
-/
import NovelScript.Proofs.Number.Whole
import NovelScript.Proofs.RoundTrip.ReadBack
import NovelScript.Proofs.Text.Closed

namespace NovelScript

open Grammar Reading Text
open Written (isSet items present)

-- ================================================================ clauses

/-- A closed word that begins no clause. -/
def ClosedWord (w : String) : Prop :=
  Closed w.toList ∧ beginsClause w = false

instance (w : String) : Decidable (ClosedWord w) :=
  inferInstanceAs (Decidable (Closed w.toList ∧ beginsClause w = false))

/-- Closed words in a row that begin no clause. -/
def ClosedRow (v : String) : Prop :=
  ∃ ws, ws ≠ [] ∧ v = String.intercalate " " ws ∧ ∀ w ∈ ws, ClosedWord w

/-- The words of a text. -/
def wordsOf (v : String) : List String := (words v.toList).map String.ofList

/-- Settled texts with single spaces between them have the words that each has.
-/
theorem wordsOf_intercalate {ws : List String}
    (h : ∀ w ∈ ws, Settled w.toList) :
    wordsOf (String.intercalate " " ws) = ws.flatMap wordsOf := by
  have hsettled : ∀ cs ∈ ws.map String.toList, Settled cs := by
    intro cs hcs
    obtain ⟨w, hw, rfl⟩ := List.mem_map.mp hcs
    exact h w hw
  have hlist : (String.intercalate " " ws).toList
      = [' '].intercalate (ws.map String.toList) := String.toList_intercalate
  rw [wordsOf, hlist, words_intercalate hsettled, List.map_flatMap,
    List.flatMap_map]
  rfl

theorem settled_row {ws : List String} (hne : ws ≠ [])
    (h : ∀ w ∈ ws, Settled w.toList) :
    Settled (String.intercalate " " ws).toList := by
  rw [String.toList_intercalate]
  refine settled_intercalate (by simpa using hne) fun cs hcs => ?_
  obtain ⟨w, hw, rfl⟩ := List.mem_map.mp hcs
  exact h w hw

/-- A closed word is its own only word. -/
theorem wordsOf_closed {w : String} (h : Closed w.toList) : wordsOf w = [w] := by
  rw [wordsOf, h.alone, List.map_singleton, String.ofList_toList]

theorem ClosedWord.row {w : String} (h : ClosedWord w) : ClosedRow w :=
  ⟨[w], by simp, String.intercalate_singleton.symm, by simpa using h⟩

/-- A row of closed words is settled, and its words are the words of a
clause. -/
theorem ClosedRow.spec {v : String} (h : ClosedRow v) :
    Settled v.toList ∧ wordsOf v ≠ [] ∧ String.intercalate " " (wordsOf v) = v
      ∧ ∀ w ∈ wordsOf v, beginsClause w = false := by
  obtain ⟨ws, hne, rfl, hws⟩ := h
  have hsettled : ∀ w ∈ ws, Settled w.toList := fun w hw =>
    (hws w hw).1.settled
  have hwords : wordsOf (String.intercalate " " ws) = ws := by
    rw [wordsOf_intercalate hsettled,
      List.flatMap_congr fun w hw => wordsOf_closed (hws w hw).1,
      List.flatMap_singleton']
  rw [hwords]
  exact ⟨settled_row hne hsettled, hne, rfl, fun w hw => (hws w hw).2⟩

/-- A clause as it may be written: its word, and what it says if it is
there. -/
abbrev Clause := String × Option String

/-- The words of a clause on the line. -/
def Clause.words (c : Clause) : List String :=
  c.2.elim [] fun v => c.1 :: wordsOf v

/-- The clause as it is read, if it is there. -/
def Clause.read? (c : Clause) : Option (String × String) :=
  c.2.map (c.1, ·)

/-- A clause that is read as it is written: its word begins one, and no word
behind it does. -/
structure Clause.Clear (c : Clause) : Prop where
  /-- Its word is one that begins a clause. -/
  begins : beginsClause c.1 = true
  /-- What it says is a row of words, -/
  row : ∀ v ∈ c.2, ClosedRow v
  /-- and a single word where no more may stand. -/
  single : c.1 ∈ oneWordClauses → ∀ v ∈ c.2, ClosedWord v

/-- What follows a clause begins another one. -/
theorem begins_of_clauses {cs : List Clause} (h : ∀ c ∈ cs, c.Clear) :
    ∀ w ∈ (cs.flatMap Clause.words).head?, beginsClause w = true := by
  induction cs with
  | nil => simp
  | cons c cs ih =>
      obtain ⟨word, o⟩ := c
      obtain ⟨hc, hcs⟩ := List.forall_mem_cons.mp h
      cases o with
      | none => exact ih hcs
      | some v =>
          intro w hw
          obtain rfl : word = w := Option.some.inj hw
          exact hc.begins

/-- Clauses are read as they are written, each once. A clause whose value holds
the words of another one is still one clause, as its words are closed. -/
theorem clauses?_written {cs : List Clause} (h : ∀ c ∈ cs, c.Clear)
    (hnodup : (cs.map Prod.fst).Nodup) {done : List (String × String)}
    (hdone : ∀ c ∈ cs, done.lookup c.1 = none) :
    clauses? done (cs.flatMap Clause.words)
      = some (done ++ cs.filterMap Clause.read?) := by
  induction cs generalizing done with
  | nil =>
      rw [List.flatMap_nil, clauses?, List.filterMap_nil, List.append_nil]
  | cons c cs ih =>
      obtain ⟨word, o⟩ := c
      obtain ⟨hc, hcs⟩ := List.forall_mem_cons.mp h
      obtain ⟨hnew, hmore⟩ := List.nodup_cons.mp hnodup
      obtain ⟨hfirst, hlater⟩ := List.forall_mem_cons.mp hdone
      cases o with
      | none => exact ih hcs hmore hlater
      | some v =>
          obtain ⟨-, hne, hrow, hplain⟩ := (hc.row v rfl).spec
          -- The words of the value are taken up to the word of the next clause.
          have hrun : ∀ w ∈ wordsOf v, (!beginsClause w) = true := fun w hw => by
            rw [hplain w hw]
            rfl
          have hstop : ∀ w ∈ (cs.flatMap Clause.words).head?,
              (!beginsClause w) = false := fun w hw => by
            rw [begins_of_clauses hcs w hw]
            rfl
          have hlength : ((wordsOf v).isEmpty || oneWordClauses.contains word
              && decide ((wordsOf v).length ≠ 1)) = false := by
            have hempty : (wordsOf v).isEmpty = false := by simpa using hne
            rw [hempty, Bool.false_or]
            by_cases hone : word ∈ oneWordClauses
            · rw [wordsOf_closed (hc.single hone v rfl).1]
              simp
            · simp [hone]
          have hagain : ∀ c ∈ cs, (done ++ [(word, v)]).lookup c.1 = none := by
            intro c hmem
            have hother : c.1 ≠ word := by
              rintro rfl
              exact hnew (List.mem_map.mpr ⟨c, hmem, rfl⟩)
            have hbeq : (c.1 == word) = false := beq_eq_false_iff_ne.mpr hother
            rw [List.lookup_append, hlater c hmem, Option.none_or,
              List.lookup_cons, hbeq]
            rfl
          have hdup : ((done.lookup word).isSome) = false := by
            rw [hfirst]
            rfl
          rw [List.flatMap_cons, Clause.words, Option.elim_some,
            List.cons_append, clauses?]
          simp only [takeWhile_stop hrun hstop, dropWhile_stop hrun hstop, hrow,
            hlength, hdup, Bool.false_eq_true, if_false]
          rw [ih hcs hmore hagain, List.append_assoc]
          rfl

/-- Where no clause has a word, nothing is found under it. -/
theorem lookup_of_no_clause {cs : List Clause} {word : String}
    (h : word ∉ cs.map Prod.fst) :
    (cs.filterMap Clause.read?).lookup word = none := by
  refine List.lookup_eq_none_iff.mpr fun p hp => ?_
  obtain ⟨c, hc, hread⟩ := List.mem_filterMap.mp hp
  obtain ⟨v, -, rfl⟩ := Option.map_eq_some_iff.mp hread
  have hother : word ≠ c.1 := by
    rintro rfl
    exact h (List.mem_map.mpr ⟨c, hc, rfl⟩)
  exact bne_iff_ne.mpr hother

/-- Each clause is found again under its word, and one that is not written is
not found. -/
theorem lookup_clauses {cs : List Clause} (hnodup : (cs.map Prod.fst).Nodup) :
    ∀ c ∈ cs, (cs.filterMap Clause.read?).lookup c.1 = c.2 := by
  induction cs with
  | nil => simp
  | cons d cs ih =>
      obtain ⟨word, o⟩ := d
      obtain ⟨hnew, hmore⟩ := List.nodup_cons.mp hnodup
      have hrest := ih hmore
      intro c hc
      rcases List.mem_cons.mp hc with rfl | hmem
      · cases o with
        | none =>
            show (cs.filterMap Clause.read?).lookup word = none
            exact lookup_of_no_clause hnew
        | some v =>
            rw [List.filterMap_cons, Clause.read?, Option.map_some]
            exact List.lookup_cons_self
      · have hother : (c.1 == word) = false := by
          refine beq_eq_false_iff_ne.mpr ?_
          rintro rfl
          exact hnew (List.mem_map.mpr ⟨c, hmem, rfl⟩)
        cases o with
        | none => exact hrest c hmem
        | some v =>
            show List.lookup c.1 ((word, v) :: cs.filterMap Clause.read?) = c.2
            rw [List.lookup_cons, hother]
            exact hrest c hmem

-- ================================================================ options

/-- The clauses of a change of the picture, in the order in which they are
written. -/
def DisplayOptions.clauses (o : DisplayOptions) : List Clause :=
  [("as", present o.asTag), ("at", present o.atPosition),
    ("behind", present o.behind), ("onlayer", present o.layer),
    ("zorder", o.zorder.map toString), ("with", present o.transition)]

/-- What is written behind the image. -/
def DisplayOptions.written (o : DisplayOptions) : List String :=
  items o.attributes ++ o.clauses.flatMap fun c => Phrase.clause c.1 c.2

/-- Options that are read as they are: closed words that begin no clause. -/
structure DisplayOptions.Closed (o : DisplayOptions) : Prop where
  /-- The attributes are closed words. -/
  attributes : ∀ a ∈ items o.attributes, ClosedWord a
  /-- The tag is one. -/
  asTag : ∀ v ∈ present o.asTag, ClosedWord v
  /-- The place is a row of them. -/
  atPosition : ∀ v ∈ present o.atPosition, ClosedRow v
  /-- The images in front are a row of them. -/
  behind : ∀ v ∈ present o.behind, ClosedRow v
  /-- The layer is one. -/
  layer : ∀ v ∈ present o.layer, ClosedWord v
  /-- The transition is a row of them. -/
  transition : ∀ v ∈ present o.transition, ClosedRow v

/-- An integer is a closed word, and none that begins a clause. -/
theorem closedWord_int (z : Int) : ClosedWord (toString z) := by
  obtain ⟨hne, hchars⟩ := chars_int z
  refine ⟨closed_of_plain hne fun c hc => plain_of_isDottedChar ?_, ?_⟩
  · rcases hchars c hc with hdigit | hminus
    · exact Or.inl (isDottedChar_of_isWordChar (isWordChar_of_common hdigit))
    · exact Or.inr hminus
  · have hall : ∀ w ∈ clauseWords,
        ¬ ∀ c ∈ w.toList, c.isDigit = true ∨ c = '-' := by decide
    by_contra hbegins
    exact hall _ (by simpa [beginsClause] using hbegins) hchars

theorem closed_image {image : String} (h : isImage image.toList = true) :
    Closed image.toList := by
  cases hcs : image.toList with
  | nil =>
      rw [hcs] at h
      cases h
  | cons c cs =>
      rw [hcs, isImage, Bool.and_eq_true, List.all_eq_true] at h
      refine closed_of_plain (by simp) (List.forall_mem_cons.mpr
        ⟨plain_of_isDottedChar (Or.inl (isDottedChar_of_isWordChar h.1)),
          fun d hd => plain_of_isDottedChar (by simpa using h.2 d hd)⟩)

theorem closed_clauseWord {word : String} (h : beginsClause word = true) :
    Closed word.toList := by
  have hall : ∀ w ∈ clauseWords, w.toList ≠ []
      ∧ ∀ c ∈ w.toList, isDottedChar c = true := by decide
  obtain ⟨hne, hchars⟩ := hall word (by simpa [beginsClause] using h)
  exact closed_of_plain hne fun c hc => plain_of_isDottedChar (Or.inl (hchars c hc))

section

variable {o : DisplayOptions}

theorem nodup_clauses (o : DisplayOptions) : (o.clauses.map Prod.fst).Nodup := by
  show ["as", "at", "behind", "onlayer", "zorder", "with"].Nodup
  decide

theorem DisplayOptions.Closed.clear (h : o.Closed) :
    ∀ c ∈ o.clauses, c.Clear := by
  have hzorder : ∀ v ∈ o.zorder.map toString, ClosedWord v := by
    intro v hv
    obtain ⟨z, -, rfl⟩ := Option.map_eq_some_iff.mp hv
    exact closedWord_int z
  have hone : ∀ {word : String} {v : Option String}, beginsClause word = true →
      (∀ t ∈ v, ClosedWord t) → Clause.Clear (word, v) := fun hword hv =>
    ⟨hword, fun t ht => (hv t ht).row, fun _ => hv⟩
  have hrow : ∀ {word : String} {v : Option String}, beginsClause word = true →
      word ∉ oneWordClauses → (∀ t ∈ v, ClosedRow t) →
        Clause.Clear (word, v) := fun hword hmany hv =>
    ⟨hword, hv, fun hmem => absurd hmem hmany⟩
  simp only [DisplayOptions.clauses, List.forall_mem_cons]
  exact ⟨hone (by decide) h.asTag,
    hrow (by decide) (by decide) h.atPosition,
    hrow (by decide) (by decide) h.behind,
    hone (by decide) h.layer, hone (by decide) hzorder,
    hrow (by decide) (by decide) h.transition, by simp⟩

/-- The options are read as they are written. -/
theorem displayOptions?_written (h : o.Closed) :
    displayOptions? (items o.attributes ++ o.clauses.flatMap Clause.words)
      = some o.normal := by
  have hrun : ∀ a ∈ items o.attributes, (!beginsClause a) = true := by
    intro a ha
    rw [(h.attributes a ha).2]
    rfl
  have hstop : ∀ w ∈ (o.clauses.flatMap Clause.words).head?,
      (!beginsClause w) = false := by
    intro w hw
    rw [begins_of_clauses h.clear w hw]
    rfl
  have hclauses : clauses? [] (o.clauses.flatMap Clause.words)
      = some (o.clauses.filterMap Clause.read?) :=
    clauses?_written h.clear (nodup_clauses o) (by simp)
  have hlookup := lookup_clauses (nodup_clauses o)
  have hattributes : (if (items o.attributes).isEmpty then none
      else some (items o.attributes)) = presentItems o.attributes := rfl
  generalize o.clauses.filterMap Clause.read? = found at hclauses hlookup
  simp only [DisplayOptions.clauses, List.forall_mem_cons] at hlookup
  obtain ⟨has, hat, hbehind, hlayer, hzorder, hwith, -⟩ := hlookup
  have hnumber : zorder? found = some o.zorder := by
    rw [zorder?, hzorder]
    cases o.zorder with
    | none => rfl
    | some z =>
        simp only [Option.map_some, integer?_toString]
  simp only [displayOptions?, displayClauses?, takeWhile_stop hrun hstop,
    dropWhile_stop hrun hstop, hclauses, Option.bind_eq_bind,
    Option.bind_some, hnumber, has, hat, hbehind, hlayer, hwith, hattributes]
  rfl

/-- The parts behind the verb are settled. -/
theorem settled_written {image : String} (himage : isImage image.toList = true)
    (h : o.Closed) : ∀ w ∈ image :: o.written, Settled w.toList := by
  intro w hw
  rcases List.mem_cons.mp hw with rfl | hw
  · exact (closed_image himage).settled
  · rcases List.mem_append.mp hw with hw | hw
    · exact (h.attributes w hw).1.settled
    · obtain ⟨c, hc, hw⟩ := List.mem_flatMap.mp hw
      have hclear := h.clear c hc
      obtain ⟨word, v⟩ := c
      cases v with
      | none => cases hw
      | some v =>
          rcases List.mem_cons.mp hw with rfl | hw
          · exact (closed_clauseWord hclear.begins).settled
          · obtain rfl := List.mem_singleton.mp hw
            exact (hclear.row _ rfl).spec.1

/-- The words behind the verb are those of the parts. -/
theorem wordsOf_written {image : String} (himage : isImage image.toList = true)
    (h : o.Closed) :
    wordsOf (Phrase.row (image :: o.written))
      = image :: (items o.attributes ++ o.clauses.flatMap Clause.words) := by
  have hattributes : (items o.attributes).flatMap wordsOf
      = items o.attributes := by
    rw [List.flatMap_congr fun a ha => wordsOf_closed (h.attributes a ha).1,
      List.flatMap_singleton']
  have hclauses : o.clauses.flatMap (fun c =>
      (Phrase.clause c.1 c.2).flatMap wordsOf)
        = o.clauses.flatMap Clause.words := by
    refine List.flatMap_congr fun c hc => ?_
    have hclear := h.clear c hc
    obtain ⟨word, v⟩ := c
    cases v with
    | none => rfl
    | some v =>
        show wordsOf word ++ (wordsOf v ++ []) = word :: wordsOf v
        rw [wordsOf_closed (closed_clauseWord hclear.begins), List.append_nil]
        rfl
  rw [Phrase.row, wordsOf_intercalate (settled_written himage h),
    List.flatMap_cons, wordsOf_closed (closed_image himage),
    DisplayOptions.written, List.flatMap_append, hattributes,
    List.flatMap_assoc, hclauses]
  rfl

end

-- ================================================================= lines

/-- The last character of a row is that of its last part. -/
theorem getLast?_intercalate {ws : List (List Char)} {w : List Char}
    (h : ws.getLast? = some w) (hne : w ≠ []) :
    ([' '].intercalate ws).getLast? = w.getLast? := by
  induction ws with
  | nil => cases h
  | cons v ws ih =>
      by_cases hws : ws = []
      · subst hws
        obtain rfl : v = w := Option.some.inj h
        rw [List.intercalate_singleton]
      · rw [List.getLast?_cons_of_ne_nil hws] at h
        have hlast := ih h
        have hmore : [' '].intercalate ws ≠ [] := by
          intro hnil
          rw [hnil] at hlast
          exact hne (List.getLast?_eq_none_iff.mp hlast.symm)
        rw [List.intercalate_cons_of_ne_nil hws,
          List.getLast?_append_of_ne_nil _ hmore, hlast]

variable {verb : DisplayVerb} {image : String} {o : DisplayOptions}

/-- A change of the picture is a row of words. -/
theorem Written.simple_display (verb : DisplayVerb) (image : String)
    (o : DisplayOptions) :
    Written.simple "" (.display verb image o)
      = .ok [.line (Phrase.row (verb.word :: image :: o.written))] := by
  rw [Written.simple, Phrase.display, DisplayOptions.written,
    DisplayOptions.clauses]
  simp only [List.flatMap_cons, List.flatMap_nil, List.append_nil,
    List.append_assoc, List.cons_append, List.nil_append]
  rfl

theorem toList_displayRow (verb : DisplayVerb) (image : String)
    (more : List String) :
    (Phrase.row (verb.word :: image :: more)).toList
      = verb.word.toList ++ ' ' :: (Phrase.row (image :: more)).toList := by
  rw [Phrase.row, String.intercalate_cons_cons, String.toList_append,
    String.toList_append, List.append_assoc]
  rfl

section

variable (himage : isImage image.toList = true)
  (hexpression : image ≠ "expression") (ho : o.Closed)
include himage hexpression ho

/-- What the reader leaves of the options is what a line can say. -/
theorem spoken_display : (Simple.display verb image o).asRead.Spoken := by
  have hword : ∀ {w : String}, ClosedWord w → ClauseWord w := fun h =>
    ⟨⟨h.1.tidy, h.1.unbroken⟩, h.2⟩
  have hrow : ∀ {v : String}, ClosedRow v → ClauseValue v := by
    rintro v ⟨ws, hne, rfl, hws⟩
    exact ⟨ws, hne, rfl, fun w hw => hword (hws w hw)⟩
  refine ⟨himage, hexpression, ?_, fun v hv => hword (ho.asTag v hv),
    fun v hv => hrow (ho.atPosition v hv), fun v hv => hrow (ho.behind v hv),
    fun v hv => hword (ho.layer v hv), fun v hv => hrow (ho.transition v hv)⟩
  intro as has
  obtain ⟨hne, rfl⟩ := presentItems_eq_some.mp has
  exact ⟨hne, fun a ha => hword (ho.attributes a ha)⟩

variable (hlast : ∀ w ∈ (image :: o.written).getLast?,
  w.toList.getLast? ≠ some ':')
include hlast

/-- The words behind the verb are read as the image and the options. -/
theorem display?_written :
    display? verb (Phrase.row (verb.word :: image :: o.written)).toList
      = some (.display verb image o.normal) := by
  have hsettled : Settled (Phrase.row (image :: o.written)).toList :=
    settled_row (by simp) (settled_written himage ho)
  -- The last word is the last of what is displayed, of which it is supposed
  -- that it ends with no colon.
  have hcolon : (Phrase.row (verb.word :: image :: o.written)).toList.getLast?
      ≠ some ':' := by
    obtain ⟨w, hw⟩ : ∃ w, (image :: o.written).getLast? = some w :=
      Option.isSome_iff_exists.mp (by simp)
    have hne : w.toList ≠ [] :=
      (settled_written himage ho w (List.mem_of_getLast? hw)).tidy.ne_nil
    have hend : ((verb.word :: image :: o.written).map String.toList).getLast?
        = some w.toList := by
      rw [List.getLast?_map, List.getLast?_cons_of_ne_nil (by simp), hw]
      rfl
    have hline := getLast?_intercalate hend hne
    rw [Phrase.row, String.toList_intercalate]
    exact fun hcolon => hlast w hw (hline.symm.trans hcolon)
  have hwords : words (Phrase.row (image :: o.written)).toList
      = image.toList :: (items o.attributes
          ++ o.clauses.flatMap Clause.words).map String.toList := by
    have hback := congrArg (List.map String.toList) (wordsOf_written himage ho)
    have hid : String.toList ∘ String.ofList = id := by
      funext cs
      exact String.toList_ofList
    rw [wordsOf, List.map_map, hid, List.map_id] at hback
    exact hback
  have hname : image.toList ≠ "expression".toList := fun h =>
    hexpression (String.toList_inj.mp h)
  rw [display?, displayWords?, if_neg hcolon, toList_displayRow,
    afterKeyword?_space verb.word hsettled.tidy]
  simp only [Option.bind_eq_bind, Option.bind_some, hwords, hname, himage,
    map_ofList_toList, String.ofList_toList, displayOptions?_written ho,
    Bool.not_true, Bool.or_false, decide_false, Bool.false_eq_true, if_false]

/-- The line of a change of the picture is taken for it. -/
theorem lineKind_display :
    lineKind (Phrase.row (verb.word :: image :: o.written)).toList
      = .simple (.display verb image o.normal) := by
  have hsettled : Settled (Phrase.row (image :: o.written)).toList :=
    settled_row (by simp) (settled_written himage ho)
  have hends : EndsInk
      (Phrase.row (verb.word :: image :: o.written)).toList := by
    rw [toList_displayRow]
    exact endsInk_word _ hsettled.tidy.ends hsettled.tidy.ne_nil
  have hdisplay : display? verb
      (Phrase.row (verb.word :: image :: o.written)).toList
        = some (.display verb image o.normal) :=
    display?_written himage hexpression ho hlast
  rw [toList_displayRow] at hends hdisplay ⊢
  have hname : Name verb.word.toList := by
    cases verb <;> exact ⟨_, _, rfl, by decide, by decide⟩
  refine lineKind_word hname (by cases verb <;> rfl) ?_
  have hkind : keywordKind? verb.word (verb.word.toList
      ++ ' ' :: (Phrase.row (image :: o.written)).toList)
        = some (.ofOption (display? verb (trimEnd (verb.word.toList
          ++ ' ' :: (Phrase.row (image :: o.written)).toList)))) := by
    cases verb <;> rfl
  rw [hkind, trimEnd_of_ink hends, hdisplay]
  rfl

/-- A change of the picture comes back with its image and its options, if the
line does not end in a colon, which would open a block. -/
theorem readsBack_display : (Simple.display verb image o).ReadsBack :=
  (Simple.readsBack_iff (spoken_display himage hexpression ho)
    (Written.simple_display verb image o)
    (lineKind_display himage hexpression ho hlast)).mpr rfl

end

/-- Words that hold clause words and white space, but leave nothing open. -/
theorem readsBack_display_nested :
    (Simple.display .reveal "eileen"
      { attributes := some ["happy", "f('at me', [with x])"]
        asTag := some "guest"
        atPosition := some "left, far(1, 2)"
        behind := some "lucy"
        layer := some ""
        zorder := some (-3)
        transition := some "Dissolve(0.5, alpha=True)" }).ReadsBack :=
  readsBack_display (by decide) (by decide)
    { attributes := by decide +kernel
      asTag := by
        rintro v ⟨⟩
        decide
      atPosition := by
        rintro v ⟨⟩
        exact ⟨["left,", "far(1, 2)"], by decide, by decide, by decide⟩
      behind := by
        rintro v ⟨⟩
        exact ⟨["lucy"], by decide, by decide, by decide⟩
      layer := by rintro v ⟨⟩
      transition := by
        rintro v ⟨⟩
        exact ⟨["Dissolve(0.5, alpha=True)"], by decide, by decide,
          by decide⟩ }
    (by
      rintro w ⟨⟩
      decide)

end NovelScript
