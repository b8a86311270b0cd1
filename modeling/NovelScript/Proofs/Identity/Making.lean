/-
What the identities that were given out belong to. A numbering only tells how
many identities were given out on a way; here each of them gets its owner.

# Owners

Whoever reads a script by making it notes all that is made on the way
(`Reading.makings`): statements, branches and choices, those of a menu too that
is kept as raw text in the end. Reading gives out one identity for each
statement among them, in the order in which they are made, and none besides
(`Reading.given_read`). So an identity that no statement of the script has is
that of a statement that was made and dropped.

# Turns

In a session the same holds of every turn that succeeds, unless an identity is
asked for by itself or the numbering is restarted (`Session.given_entry`): what
the record of the turn says was given out is what was made in it. A making that
is refused may have taken an identity before, but one at most. That nothing
comes twice (`unrepeated_history`) is then said of all that was ever made, for
the owners are the makings themselves.
-/
import NovelScript.Proofs.Identity.Session
import NovelScript.Proofs.Reading.Faultless

namespace NovelScript

namespace Reading

section

variable (now : Timestamp) (tabSize : Int) (n : Numbering)
  (file version source : String)

/-- All that is made when the script of a source is made by hand, in the order
of the makings. -/
def makings : List Draft :=
  (planScript tabSize file version source).log now { numbering := n }

/-- The identities that reading a source gives out are those of the statements
that are made on the way, and those in the script are some of them. -/
theorem given_read :
    (makings now tabSize n file version source).flatMap Draft.identityOf
        = n.given (read tabSize n source).2.2
      ∧ (Walk.identities (Walk.ofStmts 0 (read tabSize n source).1)).Subperm
        ((makings now tabSize n file version source).flatMap
          Draft.identityOf) := by
  obtain ⟨found, hrun, -⟩ := run_makeScript now tabSize n file version source
  have hmade : (planScript tabSize file version source).run now
      { numbering := n } = _ := hrun
  have hgiven := (Plan.identities_log hmade).2
  refine ⟨hgiven, ?_⟩
  rw [makings, hgiven]
  exact (supplies_read tabSize n source).taken

end

/-- A menu that is kept as raw text: the jump below its choice was made first,
and the text takes the identity after that of the jump. -/
example : (makings default 4 ⟨"n", 0⟩ "" ""
    "menu:\n    \"Go\":\n        jump a\n    what\n").map Draft.identityOf
      = [["n_1"], [], ["n_2"], []] := by
  decide +kernel

end Reading

/-- A reading that succeeds under settings gives out the identities of what is
made on the way. -/
theorem Settings.given_parse {s : Settings} {now : Timestamp} {n : Numbering}
    {file source : String} {tabSize : Int} {p : Parsed}
    (htab : tabStops s.tabSize source = .ok tabSize)
    (h : (s.parse now n file source).1 = .ok p) :
    n.given (s.parse now n file source).2
      = (Reading.makings now tabSize n file s.version source).flatMap
        Draft.identityOf := by
  have hgiven := Reading.given_read now tabSize n file s.version source
  unfold Settings.parse at h ⊢
  rw [htab] at h ⊢
  unfold Reading.readWithin at h ⊢
  dsimp only at h ⊢
  cases hstop : Reading.linesStop? (Source.scan tabSize source).1 with
  | some stop =>
      rw [hstop] at h
      cases h
  | none => exact hgiven.1.symm

namespace Session

variable (s : Session) (t : Turn)

/-- All that is made in a turn, in the order of the makings. -/
def makings : List Draft :=
  match t.act with
  | .make maker row byName =>
    (Draft.build t.now s.numbering maker row byName).1.toOption.toList
  | .parse file source =>
    match tabStops t.settings.tabSize source with
    | .ok tabSize =>
      Reading.makings t.now tabSize s.numbering file t.settings.version source
    | .error _ => []
  | _ => []

/-- What a turn gives out, if it succeeds and neither asks for an identity nor
restarts the numbering, is what is made in it, kept or dropped. -/
theorem given_entry {a : Answer} (h : (s.entry t).answer = .ok a)
    (hasked : t.act ≠ .identity) (hstarted : t.act ≠ .restart) :
    (s.entry t).given = (s.makings t).flatMap Draft.identityOf := by
  obtain ⟨settings, now, act⟩ := t
  simp only [entry, answer_step] at h
  obtain ⟨⟨answer, d⟩, hperform, -⟩ := map_eq_ok.mp h
  simp only [entry, behind, numbering_step, makings]
  have hkept : s.numbering.given s.numbering = [] := s.numbering.given_self
  cases act with
  | make maker row byName =>
      have hmade := Draft.taking_build now s.numbering maker row byName
      obtain ⟨e, hbuild, -⟩ := map_eq_ok.mp hperform
      have hbuild : (Draft.build now s.numbering maker row byName).1 = .ok e :=
        hbuild
      show s.numbering.given (Draft.build now s.numbering maker row byName).2 = _
      rw [hmade.given e hbuild]
      simp [hbuild, Except.toOption]
  | parse file source =>
      obtain ⟨p, hparse, -⟩ := map_eq_ok.mp hperform
      have hparse : (settings.parse now s.numbering file source).1 = .ok p :=
        hparse
      cases htab : tabStops settings.tabSize source with
      | ok tabSize =>
          simp only [htab]
          exact Settings.given_parse htab hparse
      | error e =>
          unfold Settings.parse at hparse
          rw [htab] at hparse
          cases hparse
  | identity => exact absurd rfl hasked
  | restart => exact absurd rfl hstarted
  | _ => exact hkept

/-- A turn that makes something by hand gives out one identity at most, also
if the making is refused. -/
theorem length_given_make {maker : String} {row : List Draft}
    {byName : List (String × Draft)} (h : t.act = .make maker row byName) :
    (s.entry t).given.length ≤ 1 := by
  obtain ⟨settings, now, act⟩ := t
  obtain rfl : act = .make maker row byName := h
  simp only [entry, behind, numbering_step]
  exact (Draft.taking_build now s.numbering maker row byName).single

end Session

end NovelScript
