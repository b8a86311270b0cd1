/-
The reading loses, doubles and moves no line. `Owns` says which lines a
statement stands for: a statement of one line that line, raw text a run of lines
word for word, a code block its header and everything deeper, and a compound
statement its headers in between the lines of what is nested in it. Lines that
no nested statement owns are few, and each is named by its constructor: headers,
a lone `pass`, and what a menu says besides its choices.

# Ownership as a relation

`Owns s ls rest` has the lines behind the statement as an argument, since where
a block ends is decided by the line that follows. Ownership of statements in a
row is a tiling by construction: the lines are those of the first followed by
those of the others (`OwnsAll`). So nothing has to be shown about sets of lines,
and nothing about numbers: that no line is lost, doubled or moved is what it
means to be related.

# One induction

One induction along the items proves all of it, whatever is complained about.
The stand of an item (`Stands`) gives what the relation asks of the lines
behind. A menu is read under a hypothesis about how it ends (`MenuOwned`): if it
is read to its end its choices stand for its lines, with the asides in between;
and if it falls back it is one more run of lines.
-/
import NovelScript.Proofs.Grammar.Spoken
import NovelScript.Proofs.Reading.Yield
import NovelScript.Proofs.Source.Nesting
import NovelScript.Proofs.Source.Scan
import NovelScript.Proofs.Text.Lines

namespace NovelScript.Reading

open Text Grammar Item

-- ========================================================== ownership

/-- Lines of a menu that are no choice: its question, its set of choices
already taken, or a word that stands for nothing. -/
inductive Aside (l : Line) : Prop where
  /-- A bare literal asks. -/
  | ask {text : List Char} (h : choice? (headOf l) = some (text, none))
      (hcolon : hasColon l = false)
  /-- A speaker asks. -/
  | prompt {asked : String × List Char}
      (h : menuPrompt? (headOf l) = some asked) (hcolon : hasColon l = false)
  /-- The set of choices is named. -/
  | set {var : String} (h : menuSet? (headOf l) = some var)
      (hcolon : hasColon l = false)
  /-- Nothing is said. -/
  | pass (h : headOf l = "pass".toList) (hcolon : hasColon l = false)

mutual

/-- A statement stands for some lines, with others behind them. For each kind of
statement there is a constructor that says what its lines are. -/
inductive Owns : Stmt → List Line → List Line → Prop where
  /-- A statement of one line. -/
  | line {id : String} {l : Line} {s : Simple} {rest : List Line}
      (h : lineKind l.content.toList = .simple s)
      (hraw : ∀ content, s ≠ .raw content) :
    Owns (.simple ⟨id, some l.number⟩ s) [l] rest
  /-- Raw text is its lines, each indented by what it is wider than the
  narrowest of them. -/
  | raw {id : String} {l : Line} {ls rest : List Line} {base : Nat}
      (hmem : ∃ m ∈ l :: ls, m.indent = base)
      (hle : ∀ m ∈ l :: ls, base ≤ m.indent) :
    Owns (.simple ⟨id, some l.number⟩ (.raw (joinLines ((l :: ls).map
        fun m => String.ofList (List.replicate (m.indent - base) ' ')
          ++ m.content))))
      (l :: ls) rest
  /-- A code block is its header and everything deeper. -/
  | code {id : String} {l : Line} {block rest : List Line}
      {flags : Bool × Bool × Bool} (h : codeHeader? (headOf l) = some flags)
      (hbelow : Below l block) (hleaves : Leaves l rest) :
    Owns (.simple ⟨id, some l.number⟩ (codeBlock flags (codeText block)))
      (l :: block) rest
  /-- A label is its header and its body. -/
  | label {id name : String} {parameters : Option (List String)} {l : Line}
      {body : List Stmt} {ls rest : List Line}
      (h : label? (headOf l) = some (name, parameters))
      (hbody : OwnsBody body ls rest) :
    Owns (.label ⟨id, some l.number⟩ name parameters body) (l :: ls) rest
  /-- A menu is its header, its asides and its choices. -/
  | menu {id : String} {head : MenuHead} {name screen : Option String}
      {l : Line} {choices : List Choice} {ls rest : List Line}
      (h : menu? (headOf l) = some (name, screen))
      (hchoices : OwnsChoices choices ls rest) :
    Owns (.menu ⟨id, some l.number⟩ head choices) (l :: ls) rest
  /-- A conditional is its headers and its bodies. -/
  | conditional {id condition : String} {l : Line} {body : List Stmt}
      {branches : List Branch} {ls more rest : List Line}
      (h : ifCondition? (headOf l) = some condition)
      (hbody : OwnsBody body ls (more ++ rest))
      (hbranches : OwnsBranches branches more rest) :
    Owns (.conditional ⟨id, some l.number⟩
        (.mk (some condition) (some l.number) body :: branches))
      (l :: ls ++ more) rest

/-- Statements in a row stand for the lines of each in turn. Behind the lines of
one stand those of the next, and behind those of the last the lines behind all
of them. -/
inductive OwnsAll : List Stmt → List Line → List Line → Prop where
  /-- No statements, no lines. -/
  | nil {rest : List Line} : OwnsAll [] [] rest
  /-- The lines of the first, and those of the others. -/
  | cons {s : Stmt} {ss : List Stmt} {ls more rest : List Line}
      (h : Owns s ls (more ++ rest)) (hmore : OwnsAll ss more rest) :
    OwnsAll (s :: ss) (ls ++ more) rest

/-- A body stands for the lines of its statements, or for a lone `pass`. -/
inductive OwnsBody : List Stmt → List Line → List Line → Prop where
  /-- Statements. -/
  | stmts {body : List Stmt} {ls rest : List Line}
      (h : OwnsAll body ls rest) : OwnsBody body ls rest
  /-- An empty body that says so. -/
  | pass {l : Line} {rest : List Line}
      (h : trim l.content.toList = "pass".toList) : OwnsBody [] [l] rest

/-- The choices of a menu, with the asides around them. -/
inductive OwnsChoices : List Choice → List Line → List Line → Prop where
  /-- Behind the last choice there are only asides. -/
  | nil {asides rest : List Line} (hasides : ∀ a ∈ asides, Aside a) :
    OwnsChoices [] asides rest
  /-- A choice is its header and its body, behind asides. -/
  | choice {text : List Char} {condition : Option String} {l : Line}
      {body : List Stmt} {choices : List Choice}
      {asides ls more rest : List Line} (hasides : ∀ a ∈ asides, Aside a)
      (h : choice? (headOf l) = some (text, condition))
      (hbody : OwnsBody body ls (more ++ rest))
      (hchoices : OwnsChoices choices more rest) :
    OwnsChoices (.mk (String.ofList text) condition (some l.number) body
      :: choices) (asides ++ (l :: ls ++ more)) rest

/-- The further branches of a conditional. -/
inductive OwnsBranches : List Branch → List Line → List Line → Prop where
  /-- No branches, no lines. -/
  | nil {rest : List Line} : OwnsBranches [] [] rest
  /-- A branch is its header and its body. -/
  | branch {condition : Option String} {l : Line} {body : List Stmt}
      {branches : List Branch} {ls more rest : List Line}
      (h : branchCondition? (headOf l) = some condition)
      (hbody : OwnsBody body ls (more ++ rest))
      (hbranches : OwnsBranches branches more rest) :
    OwnsBranches (.mk condition (some l.number) body :: branches)
      (l :: ls ++ more) rest

end

/-- What stands for lines stands for one at least, and has the number of the
first. -/
theorem Owns.exists_first {s : Stmt} {ls rest : List Line}
    (h : Owns s ls rest) :
    ∃ l more, ls = l :: more ∧ s.tag.line = some l.number := by
  cases h with
  | line _ _ => exact ⟨_, [], rfl, rfl⟩
  | raw _ _ => exact ⟨_, _, rfl, rfl⟩
  | code _ _ _ => exact ⟨_, _, rfl, rfl⟩
  | label _ _ => exact ⟨_, _, rfl, rfl⟩
  | menu _ _ => exact ⟨_, _, rfl, rfl⟩
  | conditional _ _ _ => exact ⟨_, _, rfl, rfl⟩

theorem OwnsAll.append {as bs : List Stmt} {ls more rest : List Line}
    (ha : OwnsAll as ls (more ++ rest)) (hb : OwnsAll bs more rest) :
    OwnsAll (as ++ bs) (ls ++ more) rest := by
  induction as generalizing ls with
  | nil => cases ha; exact hb
  | cons a as ih =>
      cases ha with
      | cons h hmore =>
          rw [List.append_assoc]
          refine .cons ?_ (ih hmore)
          rw [List.append_assoc]
          exact h

/-- One more aside in front. -/
theorem OwnsChoices.aside {l : Line} {choices : List Choice}
    {ls rest : List Line} (hl : Aside l)
    (h : OwnsChoices choices ls rest) :
    OwnsChoices choices (l :: ls) rest := by
  cases h with
  | nil hasides => exact .nil (List.forall_mem_cons.mpr ⟨hl, hasides⟩)
  | choice hasides hc hbody hchoices =>
      rw [← List.cons_append]
      exact .choice (List.forall_mem_cons.mpr ⟨hl, hasides⟩) hc hbody
        hchoices

/-- One statement on its own. -/
theorem OwnsAll.single {s : Stmt} {ls rest : List Line}
    (h : Owns s ls rest) : OwnsAll [s] ls rest := by
  rw [← List.append_nil ls]
  exact .cons h .nil

-- ============================================================ one item

/-- Raw text made of lines stands for them. -/
theorem owns_bareRaw (l : Line) (ls rest : List Line) :
    Owns (bareRaw l (l :: ls)) (l :: ls) rest := by
  obtain ⟨hmem, hle⟩ := least_spec l.indent (ls.map Line.indent)
  exact .raw (List.mem_map.mp hmem)
    fun m hm => hle _ (List.mem_map_of_mem hm)

theorem owns_raw (l : Line) (rest : List Line) :
    Owns (bareSimple l (.raw l.content)) [l] rest := by
  rw [← relativeText_single l]
  exact owns_bareRaw l [] rest

theorem ownsAll_strayYield (ls rest : List Line) :
    OwnsAll (strayYield ls).stmts ls rest := by
  cases ls with
  | nil => exact .nil
  | cons l ls => exact .single (owns_bareRaw l ls rest)

/-- A line and the block below it, each on its own. -/
theorem ownsAll_line_stray {s : Stmt} {l : Line} (block rest : List Line)
    (h : Owns s [l] (block ++ rest)) :
    OwnsAll (s :: (strayYield block).stmts) (l :: block) rest :=
  .cons h (ownsAll_strayYield block rest)

theorem ownsAll_rawYield (l : Line) (block rest : List Line) :
    OwnsAll (rawYield l block).stmts (l :: block) rest := by
  unfold rawYield
  split
  · exact .single (owns_bareRaw l block rest)
  · exact ownsAll_line_stray block rest (owns_raw l _)

theorem ownsAll_simpleYield {l : Line} (hl : Source.Scanned l)
    (block rest : List Line) :
    OwnsAll (simpleYield l block).stmts (l :: block) rest := by
  unfold simpleYield
  cases hk : lineKind l.content.toList with
  | simple s =>
      refine ownsAll_line_stray block rest ?_
      rcases spoken_lineKind hl.unbroken hk with hs | ⟨rfl, -⟩
      · refine .line hk ?_
        rintro content rfl
        exact hs
      · rw [String.ofList_toList]
        exact owns_raw l _
  | raw => exact ownsAll_rawYield l block rest
  | openLiteral => exact ownsAll_rawYield l block rest

theorem ownsAll_codeYield {l : Line} {block rest : List Line}
    (hbelow : Below l block) (hleaves : Leaves l rest) :
    OwnsAll (codeYield l block).stmts (l :: block) rest := by
  unfold codeYield
  split
  · next flags hf =>
    split
    · exact .single (.code hf hbelow hleaves)
    · exact ownsAll_rawYield l block rest
  · exact ownsAll_rawYield l block rest

/-- A statement on its own stands for all the lines. -/
theorem OwnsAll.owns_of_single {s : Stmt} {ls rest : List Line}
    (h : OwnsAll [s] ls rest) : Owns s ls rest := by
  generalize hss : [s] = ss at h
  cases h with
  | nil => cases hss
  | cons hown hmore =>
      obtain ⟨rfl, rfl⟩ := List.cons.inj hss
      cases hmore
      rwa [List.append_nil]

/-- Raw text of one line is that line. -/
theorem content_of_ownsAll_single {s : Stmt} {l : Line} {rest : List Line}
    {content : String} (h : OwnsAll [s] [l] rest)
    (hs : s.rawContent? = some content) : content = l.content := by
  have hown := h.owns_of_single
  generalize hls : [l] = ls at hown
  cases hown with
  | line _ hraw =>
      rename_i t _
      cases t with
      | raw content' => exact absurd rfl (hraw content')
      | _ => cases hs
  | raw hmem hle =>
      obtain ⟨rfl, rfl⟩ := List.cons.inj hls
      obtain rfl := Option.some.inj hs
      obtain ⟨m, hm, rfl⟩ := hmem
      obtain rfl := List.mem_singleton.mp hm
      simp [joinLines]
  | code hf hbelow hleaves =>
      unfold codeBlock at hs
      split at hs <;> cases hs
  | label _ _ => cases hs
  | menu _ _ => cases hs
  | conditional _ _ _ => cases hs

/-- The lines of a body, after a lone `pass` is taken for none. -/
theorem ownsBody_bodyOf {block : List Item} {body : List Stmt}
    {rest : List Line} (h : OwnsAll body (linesOfAll block) rest) :
    OwnsBody (bodyOf block body) (linesOfAll block) rest := by
  unfold bodyOf
  split
  · next l st =>
    split
    · next content hc =>
      split
      · next hpass =>
        rw [content_of_ownsAll_single h hc] at hpass
        exact .pass hpass
      · exact .stmts h
    · exact .stmts h
  · exact .stmts h

/-- A line that adds something to a menu is one of its asides, without a
block, or the header of a choice. -/
theorem menuLine_spec (m : MenuParts) (l : Line) (hasBlock : Bool) :
    match menuLine m l hasBlock with
    | .parts m' =>
      Aside l ∧ hasBlock = false ∧ m'.choices = m.choices
    | .choice text condition =>
      choice? (headOf l) = some (text, condition)
    | .refused => True := by
  unfold menuLine
  cases hc : choice? (headOf l) with
  | some found =>
      obtain ⟨text, condition⟩ := found
      simp only
      split
      · next h =>
        split at h
        · -- A literal without a condition, a colon and a block is a question as
          -- long as a question can be asked.
          next hask =>
          simp only [Bool.and_eq_true, Bool.not_eq_true',
            Option.isNone_iff_eq_none] at hask
          obtain ⟨⟨⟨hcolon, hblock⟩, hcond⟩, -⟩ := hask
          rw [hcond] at hc
          obtain rfl := MenuLine.parts.inj h
          exact ⟨.ask hc hcolon, hblock, rfl⟩
        · cases h
      · next h =>
        split at h
        · cases h
        · cases h
          rfl
      · trivial
  | none =>
      simp only
      by_cases hb : (hasColon l || hasBlock) = true
      · rw [if_pos hb]
        trivial
      · rw [if_neg hb]
        simp only [Bool.or_eq_true, not_or, Bool.not_eq_true] at hb
        obtain ⟨hcolon, hblock⟩ := hb
        unfold bareMenuLine
        by_cases hpass : headOf l = "pass".toList
        · rw [if_pos hpass]
          exact ⟨.pass hpass hcolon, hblock, rfl⟩
        · rw [if_neg hpass]
          cases hset : menuSet? (headOf l) with
          | some var =>
              simp only
              cases m.setVar.isNone with
              | true => exact ⟨.set hset hcolon, hblock, rfl⟩
              | false => trivial
          | none =>
              cases hp : menuPrompt? (headOf l) with
              | some asked =>
                  simp only
                  cases m.canAsk with
                  | true => exact ⟨.prompt hp hcolon, hblock, rfl⟩
                  | false => trivial
              | none => trivial

-- =============================================================== all items

/-- The choices of a menu that is read to its end, with its asides, stand
for its lines. What was read before keeps what it stands for. -/
def MenuOwned (m : MenuParts) (items : List Item) (rest : List Line) :
    Prop :=
  ∀ parts found, menuYield m items = (.ok parts, found) →
    ∃ choices, parts.choices = m.choices ++ choices
      ∧ OwnsChoices choices (linesOfAll items) rest

/-- An aside in front of the lines of a menu. -/
theorem MenuOwned.aside {m m' : MenuParts} {l : Line} {items : List Item}
    {rest : List Line} (h : Aside l) (hchoices : m'.choices = m.choices)
    (hitems : MenuOwned m' items rest) {parts : MenuParts}
    {found : List Diagnostic} (hread : menuYield m' items = (.ok parts, found)) :
    ∃ choices, parts.choices = m.choices ++ choices
      ∧ OwnsChoices choices (l :: linesOfAll items) rest := by
  obtain ⟨choices, hparts, howned⟩ := hitems parts found hread
  exact ⟨choices, hchoices ▸ hparts, howned.aside h⟩

mutual

theorem ownsAll_itemYield : ∀ (i : Item) (rest : List Line),
    Stands opensConditional continuesConditional rest i →
      (∀ l ∈ lines i, Source.Scanned l) →
        OwnsAll (itemYield i).stmts (lines i) rest
  | .plain l block, rest => by
      rintro ⟨-, hbelow, hleaves, hblock⟩ hscan
      have hl := hscan l List.mem_cons_self
      have hinner := ownsAll_itemsYield block rest hblock
        fun b hb => hscan b (List.mem_cons_of_mem l hb)
      have hmenu := menuOwned_menuYield {} block rest hblock
        fun b hb => hscan b (List.mem_cons_of_mem l hb)
      have hraw := ownsAll_rawYield l (linesOfAll block) rest
      -- The cases are those of the reader: each header whole or given up as raw
      -- text, then code, then the single lines.
      unfold itemYield
      split
      · split
        · exact hraw
        · next h => exact .single (.label h (ownsBody_bodyOf hinner))
      · split
        · exact hraw
        · next h =>
          split
          · next parts found hparts =>
            obtain ⟨choices, hchoices, howned⟩ := hmenu parts found hparts
            rw [hchoices]
            exact .single (.menu h howned)
          · exact .single (owns_bareRaw l _ rest)
      · exact hraw
      · exact hraw
      · exact ownsAll_codeYield hbelow hleaves
      · exact ownsAll_codeYield hbelow hleaves
      · exact ownsAll_simpleYield hl _ _
  | .chain l block branches, rest => by
      rintro ⟨hopens, -, -, hblock, hbranches⟩ hscan
      obtain ⟨condition, hcond⟩ := Option.isSome_iff_exists.mp hopens
      unfold itemYield
      simp only [hcond]
      refine .single (.conditional hcond (ownsBody_bodyOf
        (ownsAll_itemsYield block _ hblock fun b hb => hscan b ?_))
        (ownsBranches_branchesYield false branches rest hbranches
          fun b hb => hscan b ?_))
      · exact List.mem_append_left _ (List.mem_cons_of_mem l hb)
      · exact List.mem_append_right _ hb

theorem ownsAll_itemsYield : ∀ (items : List Item) (rest : List Line),
    StandAll opensConditional continuesConditional rest items →
      (∀ l ∈ linesOfAll items, Source.Scanned l) →
        OwnsAll (itemsYield items).stmts (linesOfAll items) rest
  | [], _ => fun _ _ => .nil
  | i :: more, rest => by
      rintro ⟨hi, hmore⟩ hscan
      unfold itemsYield
      exact (ownsAll_itemYield i _ hi
          fun l hl => hscan l (List.mem_append_left _ hl)).append
        (ownsAll_itemsYield more rest hmore
          fun l hl => hscan l (List.mem_append_right _ hl))

theorem ownsBranches_branchesYield :
    ∀ (seenElse : Bool) (branches : List (Line × List Item))
      (rest : List Line),
      StandBranches opensConditional continuesConditional rest branches →
        (∀ l ∈ linesOfBranches branches, Source.Scanned l) →
          OwnsBranches (branchesYield seenElse branches).1
            (linesOfBranches branches) rest
  | _, [], _ => fun _ _ => .nil
  | seenElse, (l, block) :: more, rest => by
      rintro ⟨hbranch, -, -, hblock, hmore⟩ hscan
      obtain ⟨condition, hcond⟩ := Option.isSome_iff_exists.mp hbranch
      unfold branchesYield
      simp only [hcond, Option.getD_some]
      refine .branch hcond (ownsBody_bodyOf
        (ownsAll_itemsYield block _ hblock fun b hb => hscan b ?_))
        (ownsBranches_branchesYield _ more rest hmore fun b hb => hscan b ?_)
      · exact List.mem_append_left _ (List.mem_cons_of_mem l hb)
      · exact List.mem_append_right _ hb

theorem menuOwned_menuYield :
    ∀ (m : MenuParts) (items : List Item) (rest : List Line),
      StandAll opensConditional continuesConditional rest items →
        (∀ l ∈ linesOfAll items, Source.Scanned l) →
          MenuOwned m items rest
  | m, [], _ => by
      intro _ _ parts found h
      obtain ⟨hparts, -⟩ := Prod.mk.inj h
      cases hparts
      exact ⟨[], by simp, .nil (by simp [linesOfAll])⟩
  | m, .plain l block :: more, rest => by
      rintro ⟨⟨-, -, -, hblock⟩, hmore⟩ hscan parts found h
      have hinner := ownsAll_itemsYield block _ hblock
        fun b hb => hscan b (List.mem_append_left _
          (List.mem_cons_of_mem l hb))
      have hrest : ∀ m, MenuOwned m more rest := fun m =>
        menuOwned_menuYield m more rest hmore
          fun b hb => hscan b (List.mem_append_right _ hb)
      have hspec := menuLine_spec m l (!block.isEmpty)
      unfold menuYield at h
      cases hl : menuLine m l (!block.isEmpty) with
      | parts m' =>
          simp only [hl] at h hspec
          obtain ⟨haside, hblock', hchoices⟩ := hspec
          obtain rfl : block = [] := by simpa using hblock'
          exact (hrest m').aside haside hchoices h
      | choice text condition =>
          simp only [hl] at h hspec
          obtain ⟨hparts, -⟩ := Prod.mk.inj h
          obtain ⟨choices, hchoices, howned⟩ :=
            hrest _ parts _ (Prod.ext hparts rfl)
          have hnone : ∀ a ∈ ([] : List Line), Aside a := by simp
          refine ⟨_ :: choices, ?_, .choice hnone hspec
            (ownsBody_bodyOf hinner) howned⟩
          rw [hchoices, List.append_assoc, List.singleton_append]
      | refused =>
          simp only [hl] at h
          cases (Prod.mk.inj h).1
  -- A conditional in a menu is refused, unless its line is a question and it
  -- has neither a block nor further branches.
  | m, .chain l block branches :: more, rest => by
      rintro ⟨-, hmore⟩ hscan parts found h
      have hrest : ∀ m, MenuOwned m more rest := fun m =>
        menuOwned_menuYield m more rest hmore
          fun b hb => hscan b (List.mem_append_right _ hb)
      have hspec := menuLine_spec m l (!block.isEmpty)
      unfold menuYield at h
      cases hl : menuLine m l (!block.isEmpty) with
      | parts m' =>
          simp only [hl] at h hspec
          obtain ⟨haside, hblock', hchoices⟩ := hspec
          obtain rfl : block = [] := by simpa using hblock'
          cases branches with
          | nil => exact (hrest m').aside haside hchoices h
          | cons b bs => cases (Prod.mk.inj h).1
      | choice text condition =>
          simp only [hl] at h
          cases (Prod.mk.inj h).1
      | refused =>
          simp only [hl] at h
          cases (Prod.mk.inj h).1

end

-- ============================================================ identities

mutual

/-- Who owns a line does not depend on identities. -/
theorem owns_of_anonymous : ∀ (s : Stmt) {ls rest : List Line},
    Owns (s.relabel Tag.anonymous id) ls rest → Owns s ls rest
  | .simple ⟨_, _⟩ _, _, _, h => by
      unfold Stmt.relabel at h
      cases h with
      | line hkind hraw => exact .line hkind hraw
      | raw hmem hle => exact .raw hmem hle
      | code hf hbelow hleaves => exact .code hf hbelow hleaves
  | .label ⟨_, _⟩ _ _ body, _, _, h => by
      unfold Stmt.relabel at h
      cases h with
      | label hl hbody => exact .label hl (ownsBody_of_anonymous body hbody)
  | .menu ⟨_, _⟩ _ choices, _, _, h => by
      unfold Stmt.relabel at h
      cases h with
      | menu hm hchoices =>
          exact .menu hm (ownsChoices_of_anonymous choices hchoices)
  | .conditional ⟨_, _⟩ [], _, _, h => by
      unfold Stmt.relabel Branch.relabelAll at h
      cases h
  | .conditional ⟨_, _⟩ (.mk _ _ body :: branches), _, _, h => by
      unfold Stmt.relabel Branch.relabelAll at h
      cases h with
      | conditional hif hbody hbranches =>
          exact .conditional hif (ownsBody_of_anonymous body hbody)
            (ownsBranches_of_anonymous branches hbranches)

theorem ownsAll_of_anonymous : ∀ (ss : List Stmt) {ls rest : List Line},
    OwnsAll (Stmt.anonymousAll ss) ls rest → OwnsAll ss ls rest
  | [], _, _, h => by
      cases h
      exact .nil
  | s :: ss, _, _, h => by
      unfold Stmt.anonymousAll Stmt.relabelAll at h
      cases h with
      | cons hs hmore =>
          exact .cons (owns_of_anonymous s hs) (ownsAll_of_anonymous ss hmore)

theorem ownsBody_of_anonymous : ∀ (ss : List Stmt) {ls rest : List Line},
    OwnsBody (Stmt.relabelAll Tag.anonymous id ss) ls rest →
      OwnsBody ss ls rest
  | ss, _, _, h => by
      generalize hbody : Stmt.relabelAll Tag.anonymous id ss = body at h
      cases h with
      | stmts h =>
          subst hbody
          exact .stmts (ownsAll_of_anonymous ss h)
      | pass h =>
          cases ss with
          | nil => exact .pass h
          | cons s ss => cases hbody

theorem ownsChoices_of_anonymous :
    ∀ (choices : List Choice) {ls rest : List Line},
      OwnsChoices (Choice.relabelAll Tag.anonymous id choices) ls rest →
        OwnsChoices choices ls rest
  | [], _, _, h => by
      unfold Choice.relabelAll at h
      cases h with
      | nil hasides => exact .nil hasides
  | .mk _ _ _ body :: choices, _, _, h => by
      unfold Choice.relabelAll at h
      cases h with
      | choice hasides hc hbody hchoices =>
          exact .choice hasides hc (ownsBody_of_anonymous body hbody)
            (ownsChoices_of_anonymous choices hchoices)

theorem ownsBranches_of_anonymous :
    ∀ (branches : List Branch) {ls rest : List Line},
      OwnsBranches (Branch.relabelAll Tag.anonymous id branches) ls rest →
        OwnsBranches branches ls rest
  | [], _, _, h => by
      unfold Branch.relabelAll at h
      cases h
      exact .nil
  | .mk _ _ body :: branches, _, _, h => by
      unfold Branch.relabelAll at h
      cases h with
      | branch hcond hbody hbranches =>
          exact .branch hcond (ownsBody_of_anonymous body hbody)
            (ownsBranches_of_anonymous branches hbranches)

end

-- ============================================================== scripts

/-- Lines that no block is open in front of: those above the first one at
the margin, and all others, stand for what is read from them. -/
theorem ownsAll_linesYield {ls : List Line}
    (hscan : ∀ l ∈ ls, Source.Scanned l) :
    OwnsAll (linesYield ls).stmts ls [] := by
  have hsplit := ls.takeWhile_append_dropWhile (p := (0 < ·.depth))
  have hitems := ownsAll_itemsYield (Item.ofLines opensConditional
      continuesConditional (ls.dropWhile (0 < ·.depth))) []
    (standAll_ofLines _ _ _ [] fun l _ r hr => by simp at hr)
    (by
      rw [linesOfAll_ofLines]
      exact fun l hl => hscan l ((List.dropWhile_sublist _).subset hl))
  rw [linesOfAll_ofLines] at hitems
  conv => arg 2; rw [← hsplit]
  exact (ownsAll_strayYield _ _).append hitems

/-- The statements of a script stand for the lines of its source, one
after the other: every line is owned exactly once, in order, whatever is
complained about. -/
theorem ownsAll_read (tabSize : Int) (numbering : Numbering)
    (source : String) :
    OwnsAll (read tabSize numbering source).1
      (Source.scan tabSize source).1 [] := by
  apply ownsAll_of_anonymous
  rw [anonymousAll_read]
  exact ownsAll_linesYield (Source.scanned_of_mem_scan tabSize source)

end NovelScript.Reading
