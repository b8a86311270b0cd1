/-
The scripts of visual novels. A simple statement stands on one line (raw text
and code may take several); a label, a menu and a conditional own nested
statements. Every statement has an identity and, if it was read from a text, the
number of its first line.

# Identities

Identities come from a numbering, which has a stem of its own and counts from
one. So identities of one numbering are all different, and numberings with
different stems share none.

# Walks

A walk through a script meets every statement with the number of bodies it is
nested in, each before the statements nested in it.
-/
import NovelScript.Number.Numeral
import NovelScript.Timestamp

namespace NovelScript

/-- The identity of a statement and the line it was read from. -/
structure Tag where
  /-- The identity. -/
  id : String
  /-- The number of the first line. -/
  line : Option Nat := none
deriving DecidableEq, Repr, Inhabited

-- ====================================================== simple statements

/-- The three ways of changing the picture. -/
inductive DisplayVerb where
  /-- Clears the picture and puts up a background. -/
  | scene
  /-- Puts up an image. -/
  | reveal
  /-- Takes an image away. -/
  | hide
deriving DecidableEq, Repr

/-- The word of a display statement. -/
def DisplayVerb.word : DisplayVerb → String
  | scene => "scene"
  | reveal => "show"
  | hide => "hide"

/-- The clauses of a display statement, in the order in which they are written. -/
structure DisplayOptions where
  /-- The attributes of the image. -/
  attributes : Option (List String) := none
  /-- The tag under which the image is known. -/
  asTag : Option String := none
  /-- Where the image stands. -/
  atPosition : Option String := none
  /-- The images it stands behind. -/
  behind : Option String := none
  /-- The layer it stands on. -/
  layer : Option String := none
  /-- Its place in the order of its layer. -/
  zorder : Option Int := none
  /-- The transition that brings it in. -/
  transition : Option String := none
deriving DecidableEq, Repr, Inhabited

/-- The clauses of a sound statement. -/
structure AudioOptions where
  /-- Seconds of fading in. -/
  fadeIn : Option Number := none
  /-- Seconds of fading out what played before. -/
  fadeOut : Option Number := none
  /-- The relative volume. -/
  volume : Option Number := none
  /-- Whether the sound is repeated; unsaid if absent. -/
  loop : Option Bool := none
  /-- Whether the sound waits for the one before it. -/
  queue : Option Bool := none
  /-- Whether a sound that already plays goes on. -/
  ifChanged : Option Bool := none
deriving DecidableEq, Repr, Inhabited

/-- A line that is said. -/
structure Dialogue where
  /-- Who says it; the narrator if absent. -/
  speaker : Option String := none
  /-- What is said. -/
  text : String
  /-- Attributes for the speaker's image. -/
  attributes : Option (List String) := none
  /-- The transition that follows. -/
  transition : Option String := none
  /-- Whether it continues the line before. -/
  extend : Option Bool := none
  /-- Arguments for the display of the line. -/
  arguments : Option (List String) := none
deriving DecidableEq, Repr, Inhabited

/-- A call of a label. -/
structure Call where
  /-- The label, or an expression for it. -/
  target : String
  /-- The arguments. -/
  arguments : Option (List String) := none
  /-- Whether the target is an expression. -/
  expression : Option Bool := none
  /-- The label to come back to. -/
  fromLabel : Option String := none
deriving DecidableEq, Repr, Inhabited

/-- A piece of code in the scripting language. -/
structure Code where
  /-- The code. -/
  code : String
  /-- Whether it runs before everything else. -/
  early : Option Bool := none
  /-- Whether its names are its own. -/
  hide : Option Bool := none
  /-- Whether it runs when the game starts. -/
  init : Option Bool := none
deriving DecidableEq, Repr, Inhabited

/-- A statement without nested statements. -/
inductive Simple where
  /-- Somebody says something. -/
  | say (d : Dialogue)
  /-- The picture changes. -/
  | display (verb : DisplayVerb) (image : String) (options : DisplayOptions)
  /-- A transition runs. -/
  | transition (name : String)
  /-- Play goes on at another label. -/
  | jump (target : String) (expression : Option Bool)
  /-- Another label is played and comes back. -/
  | call (c : Call)
  /-- Play goes back to where it was called from. -/
  | giveBack (value : Option String)
  /-- A variable changes. -/
  | assign (target value operator : String)
  /-- Code runs. -/
  | code (c : Code)
  /-- A constant is defined. -/
  | define (name value : String) (store : Option String)
  /-- A variable gets its first value. -/
  | default (name value : String)
  /-- A sound plays. -/
  | play (channel file : String) (options : AudioOptions)
  /-- A channel falls silent. -/
  | stop (channel : String) (fadeOut : Option Number)
  /-- Play waits, for some seconds or for a click. -/
  | pause (duration : Option Number)
  /-- The text page is shown, hidden or cleared. -/
  | nvl (action : String)
  /-- Lines that are kept as they are. -/
  | raw (content : String)
deriving DecidableEq, Repr, Inhabited

-- ==================================================== compound statements

/-- What a menu says besides its choices. -/
structure MenuHead where
  /-- The question. -/
  prompt : Option String := none
  /-- Who asks it. -/
  promptSpeaker : Option String := none
  /-- The set of choices already taken. -/
  setVar : Option String := none
  /-- The screen that shows the menu. -/
  screen : Option String := none
  /-- The menu's own label. -/
  name : Option String := none
deriving DecidableEq, Repr, Inhabited

mutual

/-- A statement. -/
inductive Stmt where
  /-- A statement without nested statements. -/
  | simple (tag : Tag) (s : Simple)
  /-- A named place and what is played there. -/
  | label (tag : Tag) (name : String) (parameters : Option (List String)) (body : List Stmt)
  /-- A menu. -/
  | menu (tag : Tag) (head : MenuHead) (choices : List Choice)
  /-- A conditional. -/
  | conditional (tag : Tag) (branches : List Branch)

/-- A choice of a menu. -/
inductive Choice where
  /-- The text, the condition under which it is offered, its line, and what it leads to. -/
  | mk (text : String) (condition : Option String) (line : Option Nat) (body : List Stmt)

/-- A branch of a conditional. -/
inductive Branch where
  /-- The condition (none for the last resort), the line, and what is played. -/
  | mk (condition : Option String) (line : Option Nat) (body : List Stmt)

end

/-- The sound channels. -/
def channels : List String := ["music", "sound", "voice"]

/-- What can be done with the text page. -/
def nvlActions : List String := ["show", "hide", "clear"]

/-- The operators of an assignment. -/
def assignOperators : List String := ["=", "+=", "-=", "*=", "/="]

namespace Stmt

/-- The identity and line of a statement. -/
def tag : Stmt → Tag
  | simple t _ | label t .. | menu t .. | conditional t _ => t

/-- Whether a statement is raw text. -/
def rawContent? : Stmt → Option String
  | simple _ (.raw content) => some content
  | _ => none

end Stmt

-- ================================================================ scripts

/-- The version of the format that scripts are saved in. -/
def formatVersion : String := "1.0.0"

/-- Where a script comes from. -/
structure Metadata where
  /-- The file. -/
  filePath : String := ""
  /-- When it was read. -/
  parseTime : Timestamp
  /-- The version of the format. -/
  version : String := formatVersion
deriving DecidableEq, Repr, Inhabited

/-- A script. -/
structure Script where
  /-- The statements at the margin. -/
  statements : List Stmt
  /-- Where the script comes from. -/
  metadata : Metadata

-- ============================================================= identities

/-- A source of fresh identities. -/
structure Numbering where
  /-- What every identity begins with. -/
  stem : String
  /-- How many identities were given out. -/
  used : Nat := 0
deriving DecidableEq, Repr, Inhabited

namespace Numbering

/-- The identity with a number. -/
def identity (n : Numbering) (k : Nat) : String := n.stem ++ "_" ++ toString k

/-- The next identity, and the numbering after it. -/
def next (n : Numbering) : String × Numbering :=
  (n.identity (n.used + 1), { n with used := n.used + 1 })

/-- The numbering from its beginning. -/
def restart (n : Numbering) : Numbering := { n with used := 0 }

end Numbering

-- ================================================================== walks

namespace Walk

mutual

/-- A statement at a depth, and those nested in it. -/
def ofStmt (depth : Nat) : Stmt → List (Nat × Stmt)
  | .simple tag s => [(depth, .simple tag s)]
  | .label tag name parameters body =>
    (depth, .label tag name parameters body) :: ofStmts (depth + 1) body
  | .menu tag head choices => (depth, .menu tag head choices) :: ofChoices (depth + 1) choices
  | .conditional tag branches => (depth, .conditional tag branches) :: ofBranches (depth + 1) branches

/-- Statements at a depth, and those nested in them. -/
def ofStmts (depth : Nat) : List Stmt → List (Nat × Stmt)
  | [] => []
  | s :: more => ofStmt depth s ++ ofStmts depth more

/-- The statements nested in choices. -/
def ofChoices (depth : Nat) : List Choice → List (Nat × Stmt)
  | [] => []
  | .mk _ _ _ body :: more => ofStmts depth body ++ ofChoices depth more

/-- The statements nested in branches. -/
def ofBranches (depth : Nat) : List Branch → List (Nat × Stmt)
  | [] => []
  | .mk _ _ body :: more => ofStmts depth body ++ ofBranches depth more

end

end Walk

end NovelScript
