/-
Lines that carry no meaning. Empty lines and comments may be put into a script
and taken out of it, and the ends of its lines may be written in another way: as
long as the lines with something on them are the same, the script reads the
same, with the same identities and the same complaints. Only the numbers of the
lines go along, and they keep their order.

# Renumbering

The numbers of the lines with something on them increase. If two sources have
the same such lines then there are as many numbers on both sides, and one map
takes the first ones to the second ones and keeps their order
(`exists_renumbering`). The scanner hands on the same lines under these numbers
and complains about the same (`scan_of_meaningful`): neither the width of an
indentation nor the levels that are open depend on a line that is passed over.

# Reading under other numbers

The reader follows (`follows_readLines`): a number is never looked at, only
handed on to tags and complaints. At the end the complaints are put into the
order of their lines, and since the new numbers are in the order of the old ones
they come into the same order (`read_renumbered`). `Renumbered` says all of it,
of statements, complaints and identities.

A byte order mark is left out of this: a source is taken without one in front,
since the mark is dropped before it is cut into lines.
-/
import NovelScript.Proofs.Reading.Faultless
import NovelScript.Proofs.Reading.Moving

namespace NovelScript

-- ========================================================== renumbering

/-- Increasing numbers that are as many as others are a renumbering of them
that keeps their order. -/
theorem exists_renumbering {as bs : List Nat} (ha : as.Pairwise (· < ·))
    (hb : bs.Pairwise (· < ·)) (hlen : as.length = bs.length) :
    ∃ f : Nat → Nat, bs = as.map f
      ∧ ∀ a ∈ as, ∀ b ∈ as, a < b ↔ f a < f b := by
  have hmap : ∃ f : Nat → Nat, bs = as.map f := by
    clear hb
    induction as generalizing bs with
    | nil =>
        obtain rfl := List.length_eq_zero_iff.mp hlen.symm
        exact ⟨id, rfl⟩
    | cons a as ih =>
        cases bs with
        | nil => cases hlen
        | cons b bs =>
            obtain ⟨hlt, hmore⟩ := List.pairwise_cons.mp ha
            obtain ⟨f, rfl⟩ := ih hmore (Nat.succ.inj hlen)
            refine ⟨fun n => if n = a then b else f n, ?_⟩
            rw [List.map_cons, if_pos rfl]
            congr 1
            refine List.map_congr_left fun n hn => ?_
            have hne : n ≠ a := (hlt n hn).ne'
            rw [if_neg hne]
  obtain ⟨f, rfl⟩ := hmap
  refine ⟨f, rfl, ?_⟩
  have hboth : as.Pairwise fun a b => a < b ∧ f a < f b :=
    ha.and (List.pairwise_map.mp hb)
  have hall := List.Pairwise.forall_of_forall_of_flip
    (R := fun a b => a < b ↔ f a < f b)
    (fun _ _ => iff_of_false (Nat.lt_irrefl _) (Nat.lt_irrefl _))
    (hboth.imp fun h => iff_of_true h.1 h.2)
    (hboth.imp fun h => iff_of_false (Nat.lt_asymm h.1) (Nat.lt_asymm h.2))
  exact fun a ha b hb => hall ha hb

namespace Source

/-- The lines of a source on which something stands. -/
def meaningful (source : String) : List (List Char) :=
  (physicalLines source.toList).filter isInked

/-- The numbers of the lines of a source on which something stands. -/
def meaningfulNumbers (source : String) : List Nat :=
  (numbered 1 (physicalLines source.toList)).map Prod.fst

variable {source : String} (hmark : source.toList.head? ≠ some '\uFEFF')
  (tabSize : Int)
include hmark

/-- A source scans by its numbered lines on which something stands. -/
theorem scan_eq : scan tabSize source
    = scanNumbered tabSize [0] (numbered 1 (physicalLines source.toList)) := by
  rw [scan, withoutMark_eq_self hmark, scanFrom_numbered]

theorem map_number_scan :
    (scan tabSize source).1.map Line.number = meaningfulNumbers source := by
  rw [scan_eq hmark, map_number_scanNumbered, meaningfulNumbers]

theorem increasing_meaningfulNumbers :
    (meaningfulNumbers source).Pairwise (· < ·) := by
  rw [← map_number_scan hmark 1, List.pairwise_map]
  exact increasing_scan 1 source

omit hmark

/-- Sources with the same lines on which something stands scan to the same
lines under other numbers. -/
theorem scan_of_meaningful {s s' : String}
    (hs : s.toList.head? ≠ some '\uFEFF')
    (hs' : s'.toList.head? ≠ some '\uFEFF')
    (hsame : meaningful s = meaningful s') {f : Nat → Nat}
    (hf : meaningfulNumbers s' = (meaningfulNumbers s).map f) :
    scan tabSize s'
      = ((scan tabSize s).1.map (Line.move 0 0 f),
          (scan tabSize s).2.map (Diagnostic.move 0 f)) := by
  have hmoved : numbered 1 (physicalLines s'.toList)
      = (numbered 1 (physicalLines s.toList)).map
          fun r => (f r.1, r.2) := by
    refine (List.zip_of_prod hf ((map_snd_numbered 1 _).trans
      hsame.symm)).trans (List.zip_of_prod ?_ ?_).symm
    · rw [meaningfulNumbers, List.map_map, List.map_map]
      rfl
    · rw [List.map_map, meaningful, ← map_snd_numbered 1]
      rfl
  rw [scan_eq hs', hmoved, scanNumbered_renumber tabSize levels_margin,
    scan_eq hs]

end Source

-- =============================================================== reading

namespace Reading

/-- How a reading starts. -/
def start (tabSize : Int) (numbering : Numbering) (source : String) :
    Progress :=
  { numbering, found := (Source.scan tabSize source).2 }

/-- A reading is a run of the reader on the lines of the source, and its
complaints are put in order. -/
theorem read_eq (tabSize : Int) (numbering : Numbering) (source : String) :
    read tabSize numbering source
      = (((readLines (Source.scan tabSize source).1).run
            (start tabSize numbering source)).1,
          ((readLines (Source.scan tabSize source).1).run
            (start tabSize numbering source)).2.found.mergeSort
              (fun a b => a.line ≤ b.line),
          ((readLines (Source.scan tabSize source).1).run
            (start tabSize numbering source)).2.numbering) :=
  rfl

/-- Where lines and complaints are those of another source under other
numbers that keep their order, the source reads the same under these
numbers. -/
theorem read_renumbered {tabSize : Int} {s s' : String} {f : Nat → Nat}
    (hscan : Source.scan tabSize s'
      = ((Source.scan tabSize s).1.map (Line.move 0 0 f),
          (Source.scan tabSize s).2.map (Diagnostic.move 0 f)))
    (hf : ∀ a ∈ (Source.scan tabSize s).1, ∀ b ∈ (Source.scan tabSize s).1,
      a.number < b.number ↔ f a.number < f b.number)
    (numbering : Numbering) :
    read tabSize numbering s'
      = (Stmt.moveAll f (read tabSize numbering s).1,
          (read tabSize numbering s).2.1.map (Diagnostic.move 0 f),
          (read tabSize numbering s).2.2) := by
  have hstart : start tabSize numbering s'
      = (start tabSize numbering s).move 0 f := by
    rw [start, hscan]
    rfl
  have hrun := follows_readLines 0 f (Source.scan tabSize s).1
    (start tabSize numbering s)
  have hfound := (says_readLines (Source.scan tabSize s).1
    (start tabSize numbering s)).2
  have hlocated := located_found tabSize s
  -- The complaints are sorted by their lines, and the new numbers are in the
  -- order of the old.
  have hsort := List.map_mergeSort (f := Diagnostic.move 0 f)
    (r := fun a b : Diagnostic => decide (a.line ≤ b.line))
    (s := fun a b : Diagnostic => decide (a.line ≤ b.line))
    (l := (Source.scan tabSize s).2
      ++ (linesYield (Source.scan tabSize s).1).found) ?_
  · rw [start] at hfound
    rw [← hfound, ← start] at hsort
    rw [read_eq, read_eq, hstart, hscan, hrun, hsort]
    rfl
  · intro a ha b hb
    obtain ⟨l, hl, hal⟩ := hlocated a ha
    obtain ⟨m, hm, hbm⟩ := hlocated b hb
    have hlt := hf m hm l hl
    rw [hal, hbm] at hlt
    have hle : a.line ≤ b.line ↔ f a.line ≤ f b.line := by omega
    exact decide_eq_decide.mpr hle

section

variable (now : Timestamp) (tabSize : Int) (numbering : Numbering)
  (file version : String)

/-- What it means that a source reads as another one does, its lines having
other numbers. -/
structure Renumbered (s s' : String) (f : Nat → Nat) : Prop where
  /-- Its lines have the new numbers. -/
  numbers : (Source.scan tabSize s').1.map Line.number
    = ((Source.scan tabSize s).1.map Line.number).map f
  /-- They are in the order of the old ones. -/
  increasing : ∀ a ∈ (Source.scan tabSize s).1,
    ∀ b ∈ (Source.scan tabSize s).1,
      a.number < b.number ↔ f a.number < f b.number
  /-- The scripts differ in the numbers of lines alone. -/
  script : readScript now tabSize numbering file version s'
    = { readScript now tabSize numbering file version s with
        statements := Stmt.moveAll f
          (readScript now tabSize numbering file version s).statements }
  /-- The complaints are the same, in the same order. -/
  found : (read tabSize numbering s').2.1
    = (read tabSize numbering s).2.1.map fun d => { d with line := f d.line }
  /-- As many identities are used up. -/
  used : (read tabSize numbering s').2.2 = (read tabSize numbering s).2.2

/-- Sources with the same lines on which something stands read the same, but for
the numbers of the lines: the numbers correspond one to one, in order, and
statements and complaints go along. -/
theorem renumbered_of_meaningful {s s' : String}
    (hs : s.toList.head? ≠ some '\uFEFF')
    (hs' : s'.toList.head? ≠ some '\uFEFF')
    (hsame : Source.meaningful s = Source.meaningful s') :
    ∃ f, Renumbered now tabSize numbering file version s s' f := by
  -- Both sources have equally many meaningful lines, and their numbers grow in
  -- both.
  obtain ⟨f, hmap, hmono⟩ := exists_renumbering
    (Source.increasing_meaningfulNumbers hs)
    (Source.increasing_meaningfulNumbers hs') (by
      have hlen := congrArg List.length hsame
      rw [Source.meaningful, Source.meaningful,
        ← Source.map_snd_numbered 1, ← Source.map_snd_numbered 1,
        List.length_map, List.length_map] at hlen
      rwa [Source.meaningfulNumbers, Source.meaningfulNumbers,
        List.length_map, List.length_map])
  have hf : ∀ a ∈ (Source.scan tabSize s).1,
      ∀ b ∈ (Source.scan tabSize s).1,
        a.number < b.number ↔ f a.number < f b.number := by
    have hmem : ∀ l ∈ (Source.scan tabSize s).1,
        l.number ∈ Source.meaningfulNumbers s := by
      intro l hl
      rw [← Source.map_number_scan hs tabSize]
      exact List.mem_map_of_mem hl
    exact fun a ha b hb => hmono _ (hmem a ha) _ (hmem b hb)
  have hread := read_renumbered
    (Source.scan_of_meaningful tabSize hs hs' hsame hmap) hf numbering
  have hmove : Diagnostic.move 0 f = fun d => { d with line := f d.line } := by
    funext d
    rw [Diagnostic.move, Cause.move_zero]
  refine ⟨f, ?_, hf, ?_, ?_, ?_⟩
  · rw [Source.map_number_scan hs', Source.map_number_scan hs, hmap]
  · rw [readScript, hread]
    rfl
  · rw [hread, hmove]
  · rw [hread]

end

/-- A comment, empty lines and other ends of lines make no difference, also
not to what is wrong with a source. -/
theorem renumbered_comment :
    ∃ f, Renumbered default 4 default "day.rpy" ""
      "label day\n    \"Hi.\"\n  return"
      "# One.\r\n\rlabel day\r\n \t\n    \"Hi.\"\r  # Two.\r  return\n" f :=
  renumbered_of_meaningful default 4 default "day.rpy" "" (by decide)
    (by decide) (by decide)

end Reading

end NovelScript
