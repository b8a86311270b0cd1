/-
When two drafts mean the same, and where they first differ if they do not.

# What counts

* Identities and lines never count.
* Nothing, an empty text and an empty list are all "absent".
* Numbers within a small tolerance are the same. An integer beyond the doubles
  cannot be compared, and then there is no answer.
* Some flags only count as raised or not.
* Code is compared without its layout.
* A body that only says `pass` is an empty one.

Everything else is compared part by part, in order, and the first difference is
told with the path to it. Statements of different kinds are told by their kinds.
Whether a field is a flag of that sort, or holds code, depends on the kind of
record and the name of the field.

# Walks

A walk goes through the statements of a draft, each before those nested in it.
It follows fields by name: a body, choices, branches. A draft without an
identity, or with something else than statements where these should be, ends it.

How deep drafts are nested has no bound here, neither for comparing nor for
walks.
-/
import NovelScript.Draft.Basic
import NovelScript.Text.Lines

namespace NovelScript.Draft

-- =========================================================== equality

/-- A value as a number, if it is one; a truth value counts as one or zero. -/
def asNumber? : Draft → Option Number
  | .number n => some n
  | .bool b => some (.int (if b then 1 else 0))
  | _ => none

mutual

/-- Whether two drafts are equal as values; the order of an object's members does not count, and
what is no number equals itself. -/
def same : Draft → Draft → Bool
  | .null, .null => true
  | .bool a, d => ((d.asNumber?).map (Number.eq (.int (if a then 1 else 0)))).getD false
  | .number n, d => ((d.asNumber?).map (Number.same n)).getD false
  | .text a, .text b => a = b
  | .moment a, .moment b => a.same b
  | .list as, .list bs => as.length = bs.length && sameItems as bs
  | .object as, .object bs => as.length = bs.length && sameMembers as bs
  | .record k as, .record l bs => k = l && sameMembers as bs
  | _, _ => false

/-- Whether drafts are equal one by one. -/
def sameItems : List Draft → List Draft → Bool
  | a :: as, b :: bs => same a b && sameItems as bs
  | _, _ => true

/-- Whether each of the named drafts is equal to the one of its name. -/
def sameMembers : List (String × Draft) → List (String × Draft) → Bool
  | [], _ => true
  | (n, a) :: as, bs => (match field? n bs with
    | some b => same a b
    | none => false) && sameMembers as bs

end

-- ======================================================= what is compared

/-- Whether a flag only counts as raised or not. -/
def unraisedIsAbsent (k : RecordKind) (name : String) : Bool :=
  match k with
  | .stmt .jump | .stmt .call => name = "expression"
  | .stmt .dialogue => name = "extend"
  | .stmt .code => name = "early" || name = "hide" || name = "init"
  | .audioOptions => name = "queue" || name = "if_changed"
  | _ => false

/-- The text of a field that may be absent. -/
def textOrEmpty (d : Draft) : Except Fault String :=
  if !d.isTruthy then .ok ""
  else match d with
    | .text s => .ok s
    | _ => .error .noMember

/-- A field's code without its layout. -/
def codeOf (d : Draft) : Except Fault (List Char) :=
  (textOrEmpty d).map fun s => Text.normalCode s.toList

/-- Whether a body holds one raw statement that only says `pass`. -/
def isPassBody : Draft → Except Fault Bool
  | .list [.record (.stmt .raw) fields] => do
    let content ← textOrEmpty ((field? "content" fields).getD .null)
    pure (Text.trimmed content = "pass")
  | _ => .ok false

/-- How a message shows the kind of a statement, if the draft is one. -/
def shownKind (d : Draft) : String :=
  match d.stmtKind? with
  | some k => Text.shown k.word
  | none => Json.shownNull

/-- The message about two parts that differ. -/
def unlike (path : String) (a b : Draft) : String := path ++ ": " ++ a.shown ++ " != " ++ b.shown

/-- The difference of two drafts that are neither statements nor both records or lists. -/
def leafDifference (path : String) (a b : Draft) : Except Fault (Option String) :=
  if a.isAbsent || b.isAbsent then
    .ok (if a.isAbsent && b.isAbsent then none else some (unlike path a b))
  else match a, b with
    | .bool x, .bool y => .ok (if x = y then none else some (unlike path a b))
    | .bool _, _ | _, .bool _ => .ok (some (unlike path a b))
    | .number x, .number y => match x.close? y with
      | some true => .ok none
      | some false => .ok (some (unlike path a b))
      | none => .error .tooLarge
    | _, _ => .ok (if a.same b then none else some (unlike path a b))

/-- The message about two drafts of which one at least is a statement, and not of the other's kind. -/
def kindDifference (path : String) (a b : Draft) : String :=
  path ++ ": kind " ++ a.shownKind ++ " != " ++ b.shownKind

mutual

/-- The first difference of two drafts; nothing if they mean the same. -/
def difference (path : String) : Draft → Draft → Except Fault (Option String)
  | .record ka fa, b =>
    match b with
    | .record kb fb =>
      if ka = kb then fieldDifference ka path fa fb
      else if ka.isStmt || kb.isStmt then .ok (some (kindDifference path (.record ka fa) b))
      else .ok (some (path ++ ": " ++ ka.title ++ " != " ++ kb.title))
    | b =>
      if ka.isStmt then .ok (some (kindDifference path (.record ka fa) b))
      else leafDifference path (.record ka fa) b
  | .list xs, b =>
    if (b.stmtKind?).isSome then .ok (some (kindDifference path (.list xs) b))
    else match b with
      | .list ys =>
        if xs.isEmpty || ys.isEmpty then leafDifference path (.list xs) b
        else if xs.length ≠ ys.length then
          .ok (some (path ++ ": length " ++ toString xs.length ++ " != " ++ toString ys.length))
        else itemDifference path 0 xs ys
      | b => leafDifference path (.list xs) b
  -- A leaf, which is compared by its value unless the other is a statement.
  | a, b =>
    if (b.stmtKind?).isSome then .ok (some (kindDifference path a b))
    else leafDifference path a b

/-- The first difference of the items of two lists, from an index on. -/
def itemDifference (path : String) (i : Nat) : List Draft → List Draft → Except Fault (Option String)
  | x :: xs, y :: ys => do
    match ← difference (path ++ "[" ++ toString i ++ "]") x y with
    | some found => pure (some found)
    | none => itemDifference path (i + 1) xs ys
  | _, _ => .ok none

/-- The first difference of the fields of two records of a kind. -/
def fieldDifference (k : RecordKind) (path : String) :
    List (String × Draft) → List (String × Draft) → Except Fault (Option String)
  | [], _ => .ok none
  | (name, a) :: more, fb => do
    let b := (field? name fb).getD .null
    let sub := path ++ "." ++ name
    let found ←
      -- What is not compared: the name of a statement and its line.
      if name = "id" || name = "line" then pure none
      else if name = "body" then do
        -- A body that only says `pass` is an empty one.
        let emptyA ← isPassBody a
        let b' := if ← isPassBody b then .list [] else b
        if emptyA then leafDifference sub (.list []) b' else difference sub a b'
      -- A flag that is not raised and one that is absent say the same.
      else if unraisedIsAbsent k name then
        pure (if a.isTruthy = b.isTruthy then none else some (unlike sub a b))
      else if k = .stmt .code && name = "code" then do
        let codeA ← codeOf a
        let codeB ← codeOf b
        pure (if codeA = codeB then none else some (sub ++ ": code differs"))
      else difference sub a b
    match found with
    | some message => pure (some message)
    | none => fieldDifference k path more fb

end

/-- The first difference of two lists of statements. -/
def listDifference (as bs : List Draft) : Except Fault (Option String) :=
  difference "statements" (.list as) (.list bs)

-- ============================================================== walks

/-- A statement met on a walk: how deep it is nested, its kind and its identity. -/
structure Step where
  /-- How many bodies it is nested in. -/
  depth : Nat
  /-- Its kind. -/
  kind : StmtKind
  /-- Its identity. -/
  id : Draft

mutual

/-- All statements of a draft, each before those nested in it. -/
def walk (depth : Nat) : Draft → Except Fault (List Step)
  | .record (.stmt k) fields => do
    let id ← match field? "id" fields with
      | some id => pure id
      | none => .error .noMember
    let nested ← walkFields (depth + 1) fields
    pure (⟨depth, k, id⟩ :: nested)
  | _ => .error .noMember

/-- All statements of several drafts. -/
def walkAll (depth : Nat) : List Draft → Except Fault (List Step)
  | [] => .ok []
  | d :: more => do
    let first ← walk depth d
    let rest ← walkAll depth more
    pure (first ++ rest)

/-- All statements nested in the fields of a statement. -/
def walkFields (depth : Nat) : List (String × Draft) → Except Fault (List Step)
  | [] => .ok []
  | (name, d) :: more => do
    let nested ← match d with
      | .list items =>
        if name = "body" then walkAll depth items
        else if name = "choices" || name = "branches" then walkSections depth items
        else pure []
      | _ => pure []
    let rest ← walkFields depth more
    pure (nested ++ rest)

/-- All statements nested in choices or branches; whatever has a body counts as one. -/
def walkSections (depth : Nat) : List Draft → Except Fault (List Step)
  | [] => .ok []
  | .record _ fields :: more => do
    let nested ← walkBody depth fields
    let rest ← walkSections depth more
    pure (nested ++ rest)
  | _ :: _ => .error .noMember

/-- All statements nested in the body among the fields of a choice or branch. -/
def walkBody (depth : Nat) : List (String × Draft) → Except Fault (List Step)
  | [] => .error .noMember
  | (name, d) :: more =>
    if name = "body" then match d with
      | .list items => walkAll depth items
      | _ => .error .wrongType
    else walkBody depth more

end

end NovelScript.Draft
