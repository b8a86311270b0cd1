/-
The wording of statements. Each function spells one line or header from texts;
an absent part is left out together with the word that introduces it.

The texts are put in as they are. Whoever calls these functions has made a
literal of what has to be one, put arguments into a row, and left out what is
empty; nothing is looked at here. So the wording is shared by the two writers,
of statements and of drafts, and a change of wording concerns this module and
what is shown about single lines.
-/
import NovelScript.Grammar.Code
import NovelScript.Text.Lines
import NovelScript.Written.Outline

namespace NovelScript.Phrase

/-- Words in a row. -/
def row (words : List String) : String := String.intercalate " " words

/-- A clause: its word and what follows, or nothing. -/
def clause (word : String) : Option String → List String
  | some value => [word, value]
  | none => []

/-- The header of a label; the parameters are already in a row. -/
def labelHead (name : String) (parameters : Option String) : String :=
  "label " ++ name ++ (match parameters with
    | some ps => "(" ++ ps ++ ")"
    | none => "") ++ ":"

/-- A jump. -/
def jump (expression : Bool) (target : String) : String :=
  "jump " ++ (if expression then "expression " else "") ++ target

/-- A call of a named label. -/
def call (target : String) (arguments : Option String) (fromLabel : Option String) : String :=
  row (["call", match arguments with
    | some args => target ++ "(" ++ args ++ ")"
    | none => target] ++ clause "from" fromLabel)

/-- A call of the label that an expression gives. -/
def callExpression (target : String) (arguments : Option String) (fromLabel : Option String) :
    String :=
  row (["call", "expression", target] ++
    clause "pass" (arguments.map fun args => "(" ++ args ++ ")") ++ clause "from" fromLabel)

/-- A return. -/
def giveBack (value : Option String) : String := "return" ++ (match value with
  | some v => " " ++ v
  | none => "")

/-- The header of a branch: the first one, a further one, or the last resort. -/
def branchHead (first : Bool) (condition : Option String) : String :=
  match condition with
  | none => "else:"
  | some c => (if first then "if " else "elif ") ++ c ++ ":"

/-- The header of a menu; the screen is already a literal. -/
def menuHead (name screen : Option String) : String :=
  "menu" ++ (match name with
    | some n => " " ++ n
    | none => "") ++ (match screen with
    | some s => "(screen=" ++ s ++ ")"
    | none => "") ++ ":"

/-- The question of a menu; it is already a literal. -/
def menuPrompt (speaker : Option String) (prompt : String) : String :=
  (match speaker with
    | some s => s ++ " "
    | none => "") ++ prompt

/-- The set line of a menu. -/
def menuSet (name : String) : String := "set " ++ name

/-- The header of a choice; its text is already a literal. -/
def choiceHead (text : String) (condition : Option String) : String :=
  text ++ (match condition with
    | some c => " if " ++ c
    | none => "") ++ ":"

/-- A line that is said: who says it with which attributes, and what, which is already a literal. -/
def say (speaking : List String) (text : String) (arguments transition : Option String) : String :=
  row (speaking ++ [text ++ (match arguments with
    | some args => " (" ++ args ++ ")"
    | none => "")] ++ clause "with" transition)

/-- A change of the picture. -/
def display (verb image : String) (attributes : List String)
    (asTag atPosition behind layer zorder transition : Option String) : String :=
  row ([verb, image] ++ attributes ++ clause "as" asTag ++ clause "at" atPosition ++
    clause "behind" behind ++ clause "onlayer" layer ++ clause "zorder" zorder ++
    clause "with" transition)

/-- A transition. -/
def transition (name : String) : String := "with " ++ name

/-- An assignment. -/
def assign (target operator value : String) : String := "$ " ++ target ++ " " ++ operator ++ " " ++ value

/-- Code: on one line after the dollar sign where that reads back as code, else as a block. -/
def code (code : String) (early hide init : Bool) : List Outline :=
  let cs := code.toList
  let bare := Text.trim cs
  if !bare.isEmpty && Text.isOneLine bare && !Grammar.isAssignment cs && !(early || hide || init) then
    [.line ("$ " ++ String.ofList bare)]
  else
    let head := (if init then "init python" else "python") ++ (if early then " early" else "") ++
      (if hide then " hide" else "") ++ ":"
    let kept := (Text.splitAt '\n' cs).filter fun l => !(Text.trim l).isEmpty
    [.block head ((Text.cutMargin kept).map fun l => .line (String.ofList (Text.trimEnd l)))]

/-- A definition. -/
def define (store : Option String) (name value : String) : String :=
  "define " ++ (match store with
    | some s => s ++ "."
    | none => "") ++ name ++ " = " ++ value

/-- A variable's first value. -/
def default (name value : String) : String := "default " ++ name ++ " = " ++ value

/-- The options of a sound, without the one that makes it wait. -/
def audioOptions (fadeIn fadeOut volume : Option String) (loop : Option Bool) (ifChanged : Bool) :
    List String :=
  clause "fadein" fadeIn ++ clause "fadeout" fadeOut ++ clause "volume" volume ++
    (match loop with
      | some true => ["loop"]
      | some false => ["noloop"]
      | none => []) ++
    (if ifChanged then ["if_changed"] else [])

/-- A sound; the file is already a literal. A voice without options has a word of its own. -/
def play (queue : Bool) (channel file : String) (options : List String) : String :=
  row ((if queue then ["queue", channel, file]
    else if channel = "voice" && options.isEmpty then ["voice", file]
    else ["play", channel, file]) ++ options)

/-- A channel that falls silent. -/
def stop (channel : String) (fadeOut : Option String) : String :=
  "stop " ++ channel ++ (match fadeOut with
    | some n => " fadeout " ++ n
    | none => "")

/-- A pause. -/
def pause (duration : Option String) : String := "pause" ++ (match duration with
  | some n => " " ++ n
  | none => "")

/-- A change of the text page. -/
def nvl (action : String) : String := "nvl " ++ action

/-- Raw text, line by line. -/
def raw (content : String) : List Outline := (Text.splitLines content).map .line

end NovelScript.Phrase
