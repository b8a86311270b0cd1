/-
Assignments, code and definitions. A line after the dollar sign is an
assignment if it gives one plain variable a value, and code otherwise.
-/
import NovelScript.Grammar.Header
import NovelScript.Script

namespace NovelScript.Grammar

open Text

/-- The value after an equals sign that no second one follows; it has to be there, and on one
line. -/
def valueAfterEquals? : List Char → Option (List Char)
  | '=' :: cs =>
    if cs.head? = some '=' then none
    else match trimStart cs with
      | [] => none
      | value => if isOneLine value then some value else none
  | _ => none

/-- The operator of an assignment at the front, and the value after it. -/
def operator? : List Char → Option (List Char × List Char)
  | c :: cs =>
    if c = '-' || c = '+' || c = '*' || c = '/' then
      (valueAfterEquals? cs).map fun value => ([c, '='], value)
    else (valueAfterEquals? (c :: cs)).map fun value => (['='], value)
  | [] => none

/-- The variable, the value and the operator of an assignment. -/
def assignment? (cs : List Char) : Option (List Char × List Char × List Char) := do
  let (target, rest) ← dotted? cs
  let (operator, value) ← operator? (trimStart rest)
  some (target, value, operator)

/-- Whether code that is written after a dollar sign would be read as an assignment. -/
def isAssignment (code : List Char) : Bool := (assignment? (trim code)).isSome

/-- A line of code or an assignment. -/
def dollar? (cs : List Char) : Option Simple :=
  match trim cs.tail with
  | [] => none
  | code =>
    match assignment? code with
    | some (target, value, operator) =>
      some (.assign (String.ofList target) (String.ofList value) (String.ofList operator))
    | none => some (.code { code := String.ofList code })

/-- A flag that is either raised or unsaid. -/
def raised (b : Bool) : Option Bool := if b then some true else none

/-- The flags in the header of a code block: whether it is early, hidden, and runs at the start. -/
def codeHeader? (head : List Char) : Option (Bool × Bool × Bool) := do
  let (init, rest) := match keyword? "init" head with
    | some rest => (true, rest)
    | none => (false, head)
  let rest ← after? "python".toList rest
  if rest.isEmpty || (blanks? rest).isSome then
    let flags := (fields rest).map String.ofList
    if flags.all (fun f => f = "early" || f = "hide") && flags.eraseDups.length = flags.length then
      some (flags.contains "early", flags.contains "hide", init)
    else none
  else none

/-- The code block of a header and the text below it; a lone `pass` stands for no code. -/
def codeBlock (flags : Bool × Bool × Bool) (code : String) : Simple :=
  .code {
    code := if trim code.toList = "pass".toList then "" else code
    early := raised flags.1
    hide := raised flags.2.1
    init := raised flags.2.2 }

/-- The names of a dotted path, each a proper name. -/
def path? (cs : List Char) : Option (List (List Char)) :=
  let parts := splitAt '.' cs
  if parts.all fun p => match name? p with
    | some (_, []) => true
    | _ => false
  then some parts else none

/-- A definition: the last name of the path is the constant's own. -/
def define? (cs : List Char) : Option Simple := do
  let rest ← keyword? "define" cs
  let parts ← path? (rest.takeWhile isDottedChar)
  let value ← valueAfterEquals? (trimStart (rest.dropWhile isDottedChar))
  let name ← parts.getLast?
  let store := parts.dropLast
  some (.define (String.ofList name) (String.ofList value)
    (if store.isEmpty then none else some (String.ofList (joined ['.'] store))))

/-- A variable's first value. -/
def default? (cs : List Char) : Option Simple := do
  let rest ← keyword? "default" cs
  let (name, rest) ← dotted? rest
  let value ← valueAfterEquals? (trimStart rest)
  some (.default (String.ofList name) (String.ofList value))

end NovelScript.Grammar
