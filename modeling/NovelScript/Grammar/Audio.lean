/-
Sound, pauses and the text page. The options of a sound may stand in any
order, each at most once.
-/
import NovelScript.Grammar.Header
import NovelScript.Script

namespace NovelScript.Grammar

open Text

/-- The options of a sound statement, from its words on; nothing if one is repeated, unknown or
lacks its number. -/
def audioOptionsFrom (options : AudioOptions) : List (List Char) → Option AudioOptions
  | [] => some options
  | word :: more =>
    let word := String.ofList word
    if word = "fadein" ∨ word = "fadeout" ∨ word = "volume" then
      match more with
      | number :: more =>
        if !Number.isNumeral number then none
        else
          let n := Number.read? number
          if word = "fadein" then
            if options.fadeIn.isSome then none else audioOptionsFrom { options with fadeIn := n } more
          else if word = "fadeout" then
            if options.fadeOut.isSome then none
            else audioOptionsFrom { options with fadeOut := n } more
          else if options.volume.isSome then none
          else audioOptionsFrom { options with volume := n } more
      | [] => none
    else if word = "loop" ∨ word = "noloop" then
      if options.loop.isSome then none
      else audioOptionsFrom { options with loop := some (word = "loop") } more
    else if word = "if_changed" then
      if options.ifChanged.isSome then none
      else audioOptionsFrom { options with ifChanged := some true } more
    else none

/-- The options of a sound statement. -/
def audioOptions? (cs : List Char) : Option AudioOptions := audioOptionsFrom {} (fields cs)

/-- A channel at the front, if it is a known one. -/
def channel? (cs : List Char) : Option (String × List Char) := do
  let (word, rest) ← wordRun? cs
  let channel := String.ofList word
  if channels.contains channel then some (channel, rest) else none

/-- The channel and the file of a sound, with what follows them. -/
def sound? (queue : Bool) (cs : List Char) : Option (String × List Char × List Char) := do
  let rest ← keyword? (if queue then "queue" else "play") cs
  let (channel, rest) ← channel? rest
  let rest ← blanks? rest
  let (literal, rest) ← literal? rest
  let file ← unquote? literal
  some (channel, file, rest)

/-- A sound that plays at once, or after the one before it. -/
def play? (queue : Bool) (cs : List Char) : Option Simple := do
  let (channel, file, rest) ← sound? queue cs
  let options ← audioOptions? rest
  some (.play channel (String.ofList file) { options with queue := if queue then some true else none })

/-- A voice. -/
def voice? (cs : List Char) : Option Simple := do
  let rest ← keyword? "voice" cs
  match literal? rest with
  | some (literal, []) => (unquote? literal).map fun file => .play "voice" (String.ofList file) {}
  | _ => none

/-- A numeral after white space, or nothing at all. -/
def optionalNumeral? (cs : List Char) : Option (Option Numeral) :=
  if cs.isEmpty then some none
  else do
    let rest ← blanks? cs
    let n ← Numeral.read? rest
    some (some n)

/-- The channel that falls silent, and the numeral of how fast it does. -/
def stopParts? (cs : List Char) : Option (String × Option Numeral) := do
  let rest ← keyword? "stop" cs
  let (channel, rest) ← channel? rest
  if rest.isEmpty then some (channel, none)
  else
    let rest ← blanks? rest
    let rest ← after? "fadeout".toList rest
    match ← optionalNumeral? rest with
    | some n => some (channel, some n)
    | none => none

/-- A channel that falls silent. -/
def stop? (cs : List Char) : Option Simple :=
  (stopParts? cs).map fun (channel, n) => .stop channel (n.map Numeral.toNumber)

/-- The numeral of how long a pause is. -/
def pauseParts? (cs : List Char) : Option (Option Numeral) := do
  let rest ← after? "pause".toList cs
  optionalNumeral? rest

/-- A pause. -/
def pause? (cs : List Char) : Option Simple :=
  (pauseParts? cs).map fun n => .pause (n.map Numeral.toNumber)

/-- A change of the text page. -/
def nvl? (cs : List Char) : Option Simple := do
  let rest ← keyword? "nvl" cs
  let action := String.ofList rest
  if nvlActions.contains action then some (.nvl action) else none

end NovelScript.Grammar
