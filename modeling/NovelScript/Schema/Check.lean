/-
Checking values against schemas. All violations are listed, depth first, in the
order of the keywords and of the parts of the value.

# The one that is reported

Where only one is reported it is the one nearest to the root; among those the
last in the order of their places; among those one whose value lacks the type
that was asked for. So a violation knows its place, its message and whether the
schema that it comes from asked for a type and got it.

# Recursion

A schema may refer to a definition, whose rules refer to definitions in turn.
What makes this end is the value: a definition is only asked of the items of a
list, which are parts of the value. Keywords that ask several schemas of one
value, or one if another accepts it, go down along the schema.
-/
import NovelScript.Schema.Basic
import NovelScript.Text.Classes
import NovelScript.Text.Lines

namespace NovelScript.Schema

/-- Whether a text is three rows of digits with points between them; a line feed may follow. -/
def isVersion (s : String) : Bool :=
  match Text.splitAt '.' s.toList with
  | [a, b, c] =>
    let c := if c.getLast? = some '\n' then c.dropLast else c
    [a, b, c].all fun ds => !ds.isEmpty && ds.all Text.isDigit
  | _ => false

/-- The pattern of versions as messages show it. -/
def versionPattern : String := "'^\\\\d+\\\\.\\\\d+\\\\.\\\\d+$'"

/-- The message about members that should not be there. -/
def unexpectedText (names : List String) : String :=
  "Additional properties are not allowed (" ++ String.intercalate ", " (names.map Text.shown) ++
    (if names.length = 1 then " was" else " were") ++ " unexpected)"

/-- The message of a keyword that looks at nothing but the value itself, if it refuses it. -/
def plainMessages (k : Keyword) (v : Json) : List String :=
  match k, v with
  | .type t, v => if v.hasType t then [] else [v.shown ++ " is not of type '" ++ t.name ++ "'"]
  | .constant s, .text t => if s = t then [] else [Text.shown s ++ " was expected"]
  | .constant s, _ => [Text.shown s ++ " was expected"]
  | .oneOf ss, v =>
    if (match v with
      | .text t => ss.contains t
      | _ => false) then []
    else [v.shown ++ " is not one of [" ++ String.intercalate ", " (ss.map Text.shown) ++ "]"]
  | .nonEmpty, .text s => if s = "" then [v.shown ++ " should be non-empty"] else []
  | .nonEmpty, .list items => if items.isEmpty then [v.shown ++ " should be non-empty"] else []
  | .atLeast b, .number n =>
    if n.isBelow b then [v.shown ++ " is less than the minimum of " ++ toString b] else []
  | .atMost b, .number n =>
    if n.isAbove b then [v.shown ++ " is greater than the maximum of " ++ toString b] else []
  | .version, .text s => if isVersion s then [] else [v.shown ++ " does not match " ++ versionPattern]
  | .required names, .object ms =>
    (names.filter fun n => (Json.member? n ms).isNone).map fun n =>
      Text.shown n ++ " is a required property"
  | .closed names, .object ms =>
    let extra := (ms.map (·.1)).filter fun n => !names.contains n
    if extra.isEmpty then [] else [unexpectedText (extra.mergeSort fun a b => !(b < a))]
  | _, _ => []

/-- The type that a schema asks for, if it does. -/
def typeOf? : Schema → Option JsonType
  | [] => none
  | .type t :: _ => some t
  | _ :: more => typeOf? more

/-- Whether a value has the type that a schema asks for. -/
def isTyped (s : Schema) (v : Json) : Bool := ((typeOf? s).map v.hasType).getD false

section

variable (defs : String → Schema)

mutual

/-- The violations of a schema. -/
def violations (path : List PathPart) (s : Schema) (v : Json) : List Violation :=
  keywordsFrom path (isTyped s v) s v
termination_by (sizeOf v, 2 * sizeOf s + 1)
decreasing_by
  apply Prod.Lex.right
  omega

/-- The violations of a row of keywords. -/
def keywordsFrom (path : List PathPart) (typed : Bool) (s : Schema) (v : Json) : List Violation :=
  match s with
  | [] => []
  | k :: more => keyword path typed k v ++ keywordsFrom path typed more v
termination_by (sizeOf v, 2 * sizeOf s)
decreasing_by
  all_goals
    apply Prod.Lex.right
    simp only [List.cons.sizeOf_spec]
    omega

/-- The violations of a keyword. -/
def keyword (path : List PathPart) (typed : Bool) (k : Keyword) (v : Json) : List Violation :=
  match k, v with
  | .properties ps, .object ms => properties path ps ms
  | .firstItems ss, .list items => firstItems path 0 ss items
  | .items skipped s, .list items => itemsFrom path s 0 skipped items
  | .itemsOf d, .list items => itemsFrom path (defs d) 0 0 items
  | .all ss, v => allOf path ss v
  | .implies condition conclusion, v =>
    if (violations path condition v).isEmpty then violations path conclusion v else []
  | .also s, v => violations path s v
  | k, v => (plainMessages k v).map fun m => ⟨path, m, typed⟩
termination_by (sizeOf v, 2 * sizeOf k)
decreasing_by
  · apply Prod.Lex.left; simp only [Json.object.sizeOf_spec]; omega
  · apply Prod.Lex.left; simp only [Json.list.sizeOf_spec]; omega
  · apply Prod.Lex.left; simp only [Json.list.sizeOf_spec]; omega
  · apply Prod.Lex.left; simp only [Json.list.sizeOf_spec]; omega
  · apply Prod.Lex.right; simp only [Keyword.all.sizeOf_spec]; omega
  · apply Prod.Lex.right; simp only [Keyword.implies.sizeOf_spec]; omega
  · apply Prod.Lex.right; simp only [Keyword.implies.sizeOf_spec]; omega
  · apply Prod.Lex.right; simp only [Keyword.also.sizeOf_spec]; omega

/-- The violations of the rules of an object's members. -/
def properties (path : List PathPart) (ps : List (String × Schema)) (ms : List (String × Json)) :
    List Violation :=
  match ps with
  | [] => []
  | (name, s) :: more =>
    (match _h : Json.member? name ms with
      | some v => violations (path ++ [.name name]) s v
      | none => []) ++ properties path more ms
termination_by (sizeOf ms, sizeOf ps)
decreasing_by
  · apply Prod.Lex.left; exact Json.sizeOf_of_member? _h
  · apply Prod.Lex.right; simp only [List.cons.sizeOf_spec]; omega

/-- The violations of the rules of the first items of a list. -/
def firstItems (path : List PathPart) (i : Nat) (ss : List Schema) (items : List Json) :
    List Violation :=
  match ss, items with
  | s :: ss, v :: vs => violations (path ++ [.index i]) s v ++ firstItems path (i + 1) ss vs
  | _, _ => []
termination_by (sizeOf items, 0)
decreasing_by
  all_goals
    apply Prod.Lex.left
    simp only [List.cons.sizeOf_spec]
    omega

/-- The violations of the rule of the items of a list, some of which are skipped. -/
def itemsFrom (path : List PathPart) (s : Schema) (i skipped : Nat) (items : List Json) :
    List Violation :=
  match items with
  | [] => []
  | v :: vs =>
    (if i < skipped then [] else violations (path ++ [.index i]) s v) ++
      itemsFrom path s (i + 1) skipped vs
termination_by (sizeOf items, 0)
decreasing_by
  all_goals
    apply Prod.Lex.left
    simp only [List.cons.sizeOf_spec]
    omega

/-- The violations of several schemas. -/
def allOf (path : List PathPart) (ss : List Schema) (v : Json) : List Violation :=
  match ss with
  | [] => []
  | s :: more => violations path s v ++ allOf path more v
termination_by (sizeOf v, 2 * sizeOf ss)
decreasing_by
  · apply Prod.Lex.right; simp only [List.cons.sizeOf_spec]; omega
  · apply Prod.Lex.right; simp only [List.cons.sizeOf_spec]; omega

end

end

-- ============================================================ reports

/-- The order of two ways by the texts of their steps. -/
def textsLe : List String → List String → Bool
  | [], _ => true
  | _ :: _, [] => false
  | a :: as, b :: bs => if a = b then textsLe as bs else a < b

/-- All reports, in the order of their places. -/
def reports (es : List Violation) : List String :=
  (es.mergeSort fun a b => textsLe (a.path.map PathPart.text) (b.path.map PathPart.text)).map
    Violation.report

/-- Whether a step comes after another one: names by their texts, indexes by their numbers. -/
def stepAfter : PathPart → PathPart → Bool
  | .name a, .name b => b < a
  | .index i, .index j => j < i
  | _, _ => false

/-- Whether a way comes after another one of the same length. -/
def pathAfter : List PathPart → List PathPart → Bool
  | a :: as, b :: bs => if a = b then pathAfter as bs else stepAfter a b
  | _ :: _, [] => true
  | [], _ => false

/-- Whether a violation is to be reported rather than another one that comes before it. -/
def outranks (a b : Violation) : Bool :=
  if a.path.length ≠ b.path.length then a.path.length < b.path.length
  else if a.path ≠ b.path then pathAfter a.path b.path
  else !a.typed && b.typed

/-- The violation to be reported. -/
def foremost? : List Violation → Option Violation
  | [] => none
  | e :: more => some (more.foldl (fun best e => if outranks e best then e else best) e)

end NovelScript.Schema
