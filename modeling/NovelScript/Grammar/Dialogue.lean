/-
Lines that are said: an optional speaker with attributes, a string literal, and
behind it optional arguments and an optional transition.
-/
import NovelScript.Grammar.Header
import NovelScript.Script

namespace NovelScript.Grammar

open Text

/-- The transition behind a line that is said, if there is one. -/
def sayTransition? (cs : List Char) : Option (Option (List Char)) :=
  if cs.isEmpty then some none
  else match afterKeyword? "with" cs with
    | some name => if isOneLine name then some (some (trim name)) else none
    | none => none

/-- The arguments and the transition behind a line that is said. -/
def sayTail? (cs : List Char) : Option (Option (List (List Char)) × Option (List Char)) :=
  let rest := trim cs
  if rest.head? = some '(' then
    match closing? rest with
    | none => none
    | some i =>
      (sayTransition? (trim (rest.drop (i + 1)))).map fun transition =>
        (some (splitArguments ((rest.take i).drop 1)), transition)
  else (sayTransition? rest).map fun transition => (none, transition)

/-- An attribute at the front: word characters after an optional minus sign. -/
def attribute? : List Char → Option (List Char × List Char)
  | '-' :: cs => (wordRun? cs).map fun (w, rest) => ('-' :: w, rest)
  | cs => wordRun? cs

theorem length_of_attribute? {cs a rest : List Char} (h : attribute? cs = some (a, rest)) :
    rest.length ≤ cs.length := by
  unfold attribute? at h
  split at h
  · simp only [Option.map_eq_some_iff, Prod.mk.injEq] at h
    obtain ⟨⟨w, r⟩, hw, -, rfl⟩ := h
    have := length_of_wordRun? hw
    simp only [List.length_cons]
    omega
  · exact length_of_wordRun? h

/-- The attributes between a speaker and the literal, and the text from the literal's quote on. -/
def attributes? (cs : List Char) : Option (List (List Char) × List Char) :=
  match _h : blanks? cs with
  | none => none
  | some rest =>
    if (rest.head?.map isQuote).getD false then some ([], rest)
    else match _h' : attribute? rest with
      | none => none
      | some (a, rest') => (attributes? rest').map fun (more, after) => (a :: more, after)
termination_by cs.length
decreasing_by
  have := length_of_blanks? _h
  have := length_of_attribute? _h'
  omega

/-- A line that is said, from its literal on. -/
def sayFrom? (speaker : Option String) (attributes : List (List Char)) (extend : Option Bool)
    (cs : List Char) : Option Simple := do
  let (literal, rest) ← literal? cs
  let text ← unquote? literal
  let (arguments, transition) ← sayTail? rest
  some (.say {
    speaker := speaker
    text := String.ofList text
    attributes := presentList attributes
    transition := transition.map String.ofList
    extend := extend
    arguments := arguments.bind presentList })

/-- A line that is said by the narrator or by a speaker. -/
def say? (cs : List Char) : Option Simple :=
  if (literal? cs).isSome then sayFrom? none [] none cs
  else do
    let (speaker, rest) ← name? cs
    let (attributes, rest) ← attributes? rest
    sayFrom? (some (String.ofList speaker)) attributes none rest

/-- A line that continues the one before it. -/
def extend? (cs : List Char) : Option Simple := do
  let rest ← after? "extend".toList cs
  let (attributes, rest) ← attributes? rest
  sayFrom? none attributes (some true) rest

/-- Whether a line that continues another has its literal in full, whatever follows it. -/
def hasExtendLiteral (cs : List Char) : Bool :=
  match (after? "extend".toList cs).bind attributes? with
  | some (_, rest) => (literal? rest).isSome
  | none => false

/-- Whether a line looks as if somebody said something: up to a quote there is only a speaker with
attributes, or nothing. -/
def looksSaid (cs : List Char) : Bool :=
  (cs.head?.map isQuote).getD false || ((name? cs).bind fun (_, rest) => attributes? rest).isSome

end NovelScript.Grammar
