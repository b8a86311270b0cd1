/-
An editing session. It has one source of identities and one reader of scripts,
and remembers what each of its steps made, so that later steps can use it. A
step that fails makes nothing, and the session goes on.

What a step does (`Act`) is making something by hand, reading a source, writing,
comparing, saving or loading what was made before, walking through it, taking an
identity or starting the numbering again. What it uses is picked by the number
of the step that made it, and by a path into it (`Pick`). Numbers count from the
end if they are negative, as indices in paths do.

All that steps share is the numbering: settings may change from step to step,
and what was made is never changed afterwards.
-/
import NovelScript.Draft.Built
import NovelScript.Draft.Loaded
import NovelScript.Draft.OfScript
import NovelScript.Draft.Saved
import NovelScript.Settings

namespace NovelScript

/-- A session. -/
structure Session where
  /-- The point in time at which scripts are read. -/
  now : Timestamp
  /-- Where identities come from. -/
  numbering : Numbering
  /-- The settings. -/
  settings : Settings := {}
  /-- What the steps made, in order. -/
  made : List Draft := []
  /-- The next mark of what is no number. -/
  nextMark : Nat := 1

/-- A step from a draft to a part of it. -/
inductive Pick where
  /-- To a field of a record. -/
  | field (name : String)
  /-- To what stands at a place. -/
  | place (v : Json)

/-- What a step does. Drafts that earlier steps made are given by value. -/
inductive Act where
  /-- Makes something. -/
  | make (maker : String) (row : List Draft) (byName : List (String × Draft))
  /-- Reads a script. -/
  | parse (file source : String)
  /-- Loads a statement. -/
  | load (v : Json)
  /-- Writes a script. -/
  | write (d : Draft) (layout : Draft.Layout)
  /-- Writes one statement at a depth. -/
  | writeAt (d : Draft) (depth : Json) (layout : Draft.Layout)
  /-- Saves a script or statement. -/
  | save (d : Draft)
  /-- Picks a part. -/
  | pick (d : Draft) (path : List Pick)
  /-- Walks through statements. -/
  | walk (d : Draft)
  /-- Compares two drafts. -/
  | compare (a b : Draft)
  /-- Takes an identity. -/
  | identity
  /-- Restarts the numbering. -/
  | restart

/-- What a step answers. -/
inductive Answer where
  /-- What was made. -/
  | draft (d : Draft)
  /-- A script that was read. -/
  | parsed (p : Parsed)
  /-- A text. -/
  | text (s : String)
  /-- A saved script or statement. -/
  | saved (d : Draft)
  /-- The statements of a walk. -/
  | steps (ss : List Draft.Step)
  /-- Nothing. -/
  | nothing

namespace Session

/-- The part of a draft that has a name: a field of a record, the kind of a statement or a part of a
point in time. -/
def named (name : String) (d : Draft) : Except Fault Draft :=
  match d, d.stmtKind? with
  | .moment t, _ => match t.part? name with
    | some n => .ok (.int n)
    | none => .error .noMember
  | d, some k => if name = "kind" then .ok (.text k.word) else d.get name
  | d, none => d.get name

/-- What stands at an index, from the end if it is negative. -/
def itemAt (items : List Draft) (i : Int) : Except Fault Draft :=
  let index := if i < 0 then i + items.length else i
  if index < 0 then .error .noIndex
  else match items[index.toNat]? with
    | some item => .ok item
    | none => .error .noIndex

/-- What stands at a place of a list or a text; an object has nothing at a place. -/
def placed (v : Json) (d : Draft) : Except Fault Draft :=
  match d, v, v.size? with
  | .object _, .list _, _ | .object _, .object _, _ => .error .wrongType
  | .object _, _, _ => .error .noKey
  | .list items, _, some i => itemAt items i
  | .text s, _, some i => itemAt (s.toList.map fun c => .text (String.singleton c)) i
  | _, _, _ => .error .wrongType

/-- Follows a path into a draft. -/
def pickFrom (d : Draft) : List Pick → Except Fault Draft
  | [] => .ok d
  | .field name :: more => do pickFrom (← named name d) more
  | .place v :: more => do pickFrom (← placed v d) more

/-- What an earlier step made; a negative number counts from the last step. -/
def earlier (s : Session) (i : Int) : Except Fault Draft := itemAt s.made i

/-- The statements that a walk through a draft begins with. -/
def walkStart : Draft → List Draft
  | .record .script fields => match Draft.field? "statements" fields with
    | some (.list items) => items
    | _ => []
  | .list items => items
  | d => [d]

/-- What an act gives: its answer, what it makes if it makes something, and the numbering after
it. -/
def perform (s : Session) : Act → Except Fault (Answer × Draft) × Numbering
  | .make maker row byName =>
    let (result, n) := Draft.build s.now s.numbering maker row byName
    (result.map fun d => (.draft d, d), n)
  | .parse file source =>
    let (result, n) := s.settings.parse s.now s.numbering file source
    (result.map fun p => (.parsed p, Draft.ofScript p.script), n)
  | .load v => ((Draft.loaded v).map fun d => (.draft d, d), s.numbering)
  | .write d layout => ((Draft.writtenWithin .usual layout d).map fun t => (.text t, .null), s.numbering)
  | .writeAt d depth layout =>
    ((Draft.writtenAtWithin .usual layout depth d).map fun t => (.text t, .null), s.numbering)
  | .save d =>
    ((match d with
      | .record .script _ => Draft.savedScript d
      | d => Draft.saved d).map fun v => (.saved v, .null), s.numbering)
  | .pick d path => ((pickFrom d path).map fun d => (.draft d, d), s.numbering)
  | .walk d => ((Draft.walkAll 0 (walkStart d)).map fun ss => (.steps ss, .null), s.numbering)
  | .compare a b =>
    ((Draft.difference "node" a b).map fun found =>
      (match found with
        | some m => .text m
        | none => .nothing, .null), s.numbering)
  | .identity => (.ok (.text s.numbering.next.1, .null), s.numbering.next.2)
  | .restart => (.ok (.nothing, .null), s.numbering.restart)

/-- The session after a step that made nothing. -/
def skip (s : Session) : Session := { s with made := s.made ++ [.null] }

/-- One step: its answer, and the session after it. -/
def step (s : Session) (a : Act) : Except Fault Answer × Session :=
  let (result, n) := s.perform a
  match result with
  | .ok (answer, d) =>
    let (d, nextMark) := d.marked s.nextMark
    (.ok answer, { s with numbering := n, made := s.made ++ [d], nextMark })
  | .error e => (.error e, { s with numbering := n }.skip)

end Session

end NovelScript
