/-
The round trip: a script is read, written, read again and written again. It
holds if the second reading has nothing to complain about, both readings mean
the same, and both texts are the same.
-/
import NovelScript.Draft.OfScript
import NovelScript.Draft.Written
import NovelScript.Settings

namespace NovelScript

/-- How drafts are laid out by the settings. -/
def Settings.draftLayout (s : Settings) : Draft.Layout :=
  ⟨s.indentSize, Draft.isTruthyJson s.insertBlankLines⟩

/-- The lines of statements, laid out as the settings ask. An indentation that is no whole number, or
one beyond all measure, is of no use as soon as it is needed. -/
def Settings.lines (s : Settings) (statements : List Stmt) : Except Fault (List String) :=
  match s.layout? with
  | some layout => (Written.topLines layout statements).mapError .unwritable
  | none => Draft.topLines {} s.draftLayout (Draft.ofStmts statements)

/-- Writes statements as the settings ask. -/
def Settings.write (s : Settings) (statements : List Stmt) : Except Fault String :=
  (s.lines statements).map Written.page

/-- The first difference of the statements of two scripts. -/
def Script.difference (a b : Script) : Except Fault (Option String) :=
  Draft.listDifference (Draft.ofStmts a.statements) (Draft.ofStmts b.statements)

/-- A round trip. -/
structure RoundTrip where
  /-- The first reading. -/
  first : Parsed
  /-- The text written from it. -/
  text : String
  /-- The second reading. -/
  second : Parsed
  /-- The first difference of the two readings. -/
  difference : Option String
  /-- The text written from the second reading. -/
  again : String

namespace RoundTrip

/-- Makes the round trip. Each reading numbers its statements from the start. -/
def run (s : Settings) (now : Timestamp) (stem file source : String) : Except Fault RoundTrip := do
  let first ← (s.parse now { stem } file source).1
  let text ← s.write first.script.statements
  let second ← (s.parse now { stem } (file ++ " (regenerated)") text).1
  let again ← s.write second.script.statements
  let difference ← first.script.difference second.script
  pure ⟨first, text, second, difference, again⟩

/-- What speaks against a round trip. -/
def problems (r : RoundTrip) : List String :=
  (r.second.diagnostics.map fun d => "regenerated text: " ++ d.format "") ++
    (match r.difference with
      | some d => ["not equivalent after round trip at " ++ d]
      | none => []) ++
    (if r.again = r.text then [] else ["generation is not idempotent"])

end RoundTrip

end NovelScript
