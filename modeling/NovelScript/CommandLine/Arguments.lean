/-
The arguments of a command: options, and operands between them. An option has
one or more names; a long name may be shortened as long as only one option fits
it, and a value may follow behind an equals sign, or, for a short name, at once.
Several short options without value may share one dash. What looks like an
option and is none is left over, as are operands that nobody asked for; a pair
of dashes ends the options.

# Roles

Each argument is first taken for something, by how it looks: an option, an
operand, or one that could be either. An argument with a dash in front is an
operand if it is a negative number and no option looks like one, or if there is
a blank in it. All arguments get their roles before any option is carried out,
so an argument of two possible names is a misuse wherever it stands.

# Reading

Then the arguments are gone through in order. An option with a value takes the
argument behind it if that is an operand, and a command takes the operands that
it asks for and everything behind its own name. What an option does to the
record of options is its `Effect`, so that the same reading serves the program
and each of its commands.
-/
import NovelScript.Number.Numeral
import NovelScript.Json.Value
import NovelScript.Text.Shown

namespace NovelScript

/-- Why arguments cannot be used. -/
inductive Misuse where
  /-- An option lacks its value. -/
  | noValue (option : String)
  /-- The value of an option is no integer. -/
  | notInteger (option value : String)
  /-- An option has a value and takes none. -/
  | spareValue (option value : String)
  /-- More than one option begins like this. -/
  | ambiguous (argument : String) (names : List String)
  /-- There is no such command. -/
  | noCommand (word : String) (known : List String)
  /-- An operand is missing. -/
  | missing (operand : String)
  /-- Arguments are left over. -/
  | leftOver (arguments : List String)
  /-- An operand should be a file and is none. -/
  | noFile (path : String)
deriving DecidableEq, Repr

/-- The wording of a misuse. -/
def Misuse.message : Misuse → String
  | noValue option => "argument " ++ option ++ ": expected one argument"
  | notInteger option value =>
    "argument " ++ option ++ ": invalid int value: " ++ Text.shown value
  | spareValue option value =>
    "argument " ++ option ++ ": ignored explicit argument " ++ Text.shown value
  | ambiguous argument names =>
    "ambiguous option: " ++ argument ++ " could match " ++ String.intercalate ", " names
  | noCommand word known =>
    "argument command: invalid choice: " ++ Text.shown word ++ " (choose from " ++
      String.intercalate ", " (known.map Text.shown) ++ ")"
  | missing operand => "the following arguments are required: " ++ operand
  | leftOver arguments => "unrecognized arguments: " ++ String.intercalate " " arguments
  | noFile path => "file not found: " ++ path

/-- Why nothing is run. -/
inductive Halt where
  /-- Help was asked for. -/
  | help (program : String)
  /-- The arguments of a program cannot be used. -/
  | misuse (program : String) (why : Misuse)
deriving DecidableEq, Repr

namespace Arguments

/-- What an option does to the record of options. -/
inductive Effect (α : Type) where
  /-- It asks for help. -/
  | help
  /-- It stands by itself. -/
  | flag (set : α → α)
  /-- It has a text for a value. -/
  | text (set : String → α → α)
  /-- It has an integer for a value; an empty value is an empty list. -/
  | integer (set : Json → α → α)

/-- An option. -/
structure Rule (α : Type) where
  /-- Its names, with their dashes. -/
  names : List String
  /-- What it does. -/
  effect : Effect α

variable {α : Type}

/-- How messages call an option. -/
def Rule.title (r : Rule α) : String := String.intercalate "/" r.names

/-- Whether an option has a value. -/
def Rule.hasValue (r : Rule α) : Bool :=
  match r.effect with
  | .text _ | .integer _ => true
  | .help | .flag _ => false

/-- The option that asks for help. -/
def helpRule : Rule α := ⟨["-h", "--help"], .help⟩

/-- All names with their options. -/
def named (rules : List (Rule α)) : List (String × Rule α) :=
  rules.flatMap fun r => r.names.map fun n => (n, r)

/-- The option of a name. -/
def find? (rules : List (Rule α)) (name : String) : Option (Rule α) := (named rules).lookup name

-- ======================================================= one argument

/-- What an argument is taken for. -/
inductive Role (α : Type) where
  /-- An operand. -/
  | operand
  /-- The pair of dashes that ends the options. -/
  | divider
  /-- An option with the text that stands behind its name, if there is one, and whether the name is
  a long one. -/
  | option (rule : Rule α) (text : Option (Bool × List Char))
  /-- Something that looks like an option. -/
  | unknown

/-- An argument cut at its first equals sign. -/
def cutEquals (cs : List Char) : List Char × Option (List Char) :=
  (cs.takeWhile (· ≠ '='),
    match cs.dropWhile (· ≠ '=') with
    | [] => none
    | _ :: text => some text)

/-- Whether a name is a long one: two dashes begin it. -/
def isLong (name : List Char) : Bool := ['-', '-'].isPrefixOf name

/-- Whether an argument is a negative number. -/
def isNegativeNumber : List Char → Bool
  | '-' :: cs =>
    let body := if cs.getLast? = some '\n' then cs.dropLast else cs
    match body.dropWhile Text.isDigit with
    | [] => !body.isEmpty
    | '.' :: ds => !ds.isEmpty && ds.all Text.isDigit
    | _ => false
  | _ => false

/-- What an argument may be taken for if it is no name of an option: the options with a long name
that begins like it, or the one whose short name it begins with. -/
def candidates (rules : List (Rule α)) (cs : List Char) : List (String × Role α) :=
  match cs with
  | '-' :: '-' :: _ =>
    let (start, text) := cutEquals cs
    ((named rules).filter fun (n, _) => start.isPrefixOf n.toList).map
      fun (n, r) => (n, .option r (text.map fun t => (true, t)))
  | a :: b :: text =>
    (named rules).filterMap fun (n, r) =>
      if n.toList = [a, b] then some (n, .option r (some (false, text)))
      else if cs.isPrefixOf n.toList then some (n, .option r none)
      else none
  | _ => []

/-- What an argument that no divider precedes is taken for. -/
def roleOf (rules : List (Rule α)) (argument : String) : Except Misuse (Role α) :=
  let cs := argument.toList
  if cs.head? ≠ some '-' || cs.length = 1 then .ok .operand
  else match find? rules argument with
    | some r => .ok (.option r none)
    | none =>
      let (name, text) := cutEquals cs
      match text.bind fun _ => find? rules (String.ofList name) with
      | some r => .ok (.option r (text.map fun t => (isLong name, t)))
      | none =>
        match candidates rules cs with
        | [(_, role)] => .ok role
        | _ :: _ :: _ => .error (.ambiguous argument ((candidates rules cs).map (·.1)))
        | [] => .ok (if isNegativeNumber cs || cs.contains ' ' then .operand else .unknown)

/-- The arguments with what each of them is taken for. -/
def rolesOf (rules : List (Rule α)) : List String → Except Misuse (List (String × Role α))
  | [] => .ok []
  | argument :: more =>
    if argument = "--" then .ok ((argument, .divider) :: more.map fun a => (a, .operand))
    else do
      let role ← roleOf rules argument
      let roles ← rolesOf rules more
      pure ((argument, role) :: roles)

-- ====================================================== all arguments

/-- What the operands of a program are. -/
inductive Operands where
  /-- One operand. -/
  | one
  /-- A command, which takes all that follows. -/
  | command
deriving DecidableEq, Repr

/-- What has been read of the arguments. -/
structure Read (α : Type) where
  /-- The record of options. -/
  options : α
  /-- The operands, once they are there. -/
  operands : Option (List String) := none
  /-- What is left over. -/
  leftOver : List String := []

/-- Why the reading of arguments ends early. -/
inductive End where
  /-- Help was asked for. -/
  | help
  /-- The arguments cannot be used. -/
  | misuse (why : Misuse)

/-- The record of options after an option without value. -/
def Rule.raise (r : Rule α) (options : α) : Except End α :=
  match r.effect with
  | .help => .error .help
  | .flag set => .ok (set options)
  | .text _ | .integer _ => .error (.misuse (.noValue r.title))

/-- The record of options after an option with a value. A pair of dashes is an empty value. -/
def Rule.assign (r : Rule α) (value : String) (options : α) : Except End α :=
  match r.effect with
  | .text set => .ok (set (if value = "--" then "" else value) options)
  | .integer set =>
    if value = "--" then .ok (set (.list []) options)
    else match Number.readInt? value.toList, Number.intExcess? value.toList with
      | some i, none => .ok (set (.int i) options)
      | _, _ => .error (.misuse (.notInteger r.title value))
  | .help | .flag _ => .error (.misuse (.spareValue r.title value))

/-- How the options in one argument end. -/
inductive Tail (α : Type) where
  /-- By an option with nothing behind it. -/
  | bare (rule : Rule α)
  /-- By an option with its value. -/
  | value (rule : Rule α) (value : String)

/-- The options in one argument, from one with a text behind its name on: those without value, and
how they end. The text is the value of an option that has one; behind a short name of an option
without value its characters are the names of more short options. -/
def cluster (rules : List (Rule α)) (r : Rule α) (long : Bool) (text : List Char) :
    Except End (List (Rule α) × Tail α) :=
  if r.hasValue then .ok ([], .value r (String.ofList text))
  else
    let spare : Except End (List (Rule α) × Tail α) :=
      .error (.misuse (.spareValue r.title (String.ofList text)))
    if long then spare
    else match text with
      | [] => spare
      | c :: cs =>
        match find? rules (String.ofList ['-', c]) with
        | none => spare
        | some next =>
          if cs.isEmpty then .ok ([r], .bare next)
          else (cluster rules next false cs).map fun (rs, t) => (r :: rs, t)

/-- The options in one argument: those without value, and how they end. -/
def optionsIn (rules : List (Rule α)) (r : Rule α) :
    Option (Bool × List Char) → Except End (List (Rule α) × Tail α)
  | none => .ok ([], .bare r)
  | some (long, text) => cluster rules r long text

/-- The record of options after several options without value. -/
def raiseAll (options : α) : List (Rule α) → Except End α
  | [] => .ok options
  | r :: more => do raiseAll (← r.raise options) more

/-- Takes the arguments in order. -/
def take (rules : List (Rule α)) (operands : Operands) (done : Read α) :
    List (String × Role α) → Except End (Read α)
  | [] => .ok done
  | (argument, .unknown) :: more =>
    take rules operands { done with leftOver := done.leftOver ++ [argument] } more
  | (_, .option r text) :: more => do
    let (flags, tail) ← optionsIn rules r text
    match tail with
    | .value last value =>
      let options ← last.assign value (← raiseAll done.options flags)
      take rules operands { done with options } more
    -- A value in a word of its own, which must not look like an option.
    | .bare last =>
      if last.hasValue then
        match more with
        | (value, .operand) :: more =>
          let options ← last.assign value (← raiseAll done.options flags)
          take rules operands { done with options } more
        | _ => .error (.misuse (.noValue last.title))
      else
        let options ← last.raise (← raiseAll done.options flags)
        take rules operands { done with options } more
  | (argument, .operand) :: more =>
    match done.operands, operands, more with
    -- The command takes all that is left, its own options among them.
    | none, .command, more => .ok { done with operands := some (argument :: more.map (·.1)) }
    | none, .one, (_, .divider) :: more =>
      take rules operands { done with operands := some [argument] } more
    | none, .one, more => take rules operands { done with operands := some [argument] } more
    | some _, _, more =>
      take rules operands { done with leftOver := done.leftOver ++ [argument] } more
  | (argument, .divider) :: more =>
    match done.operands, operands, more with
    | none, .command, next :: more =>
      .ok { done with operands := some (argument :: next.1 :: more.map (·.1)) }
    | none, .one, (next, _) :: more => take rules operands { done with operands := some [next] } more
    | none, .one, [] => .ok { done with operands := some [] }
    | _, _, more => take rules operands { done with leftOver := done.leftOver ++ [argument] } more

/-- Reads arguments into a record of options that begins as given. -/
def read (rules : List (Rule α)) (operands : Operands) (start : α) (arguments : List String) :
    Except End (Read α) :=
  match rolesOf rules arguments with
  | .error why => .error (.misuse why)
  | .ok roles => take rules operands { options := start } roles

end Arguments

end NovelScript
