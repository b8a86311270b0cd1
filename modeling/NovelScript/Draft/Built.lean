/-
Making statements by hand. Every way of making something has parameters, some of
which have to be given by name. Texts are trimmed, texts and lists that end up
empty become nothing, an image name is split into the image and its attributes,
and what makes no sense is refused.

# Arguments

Arguments are of any kind, and little is asked of them. What is read as a text
may be any value that has a text; a flag is whatever counts as true or not; a
list may be any value with parts. Only numbers, channels and the parts of a
conditional are looked at for what they are, and refused.

# Identities

A fresh identity is taken at a fixed point of each making, so whether a refusal
uses one up depends on what is refused. What is looked at before that point
stands in front of the identity, and what is looked at behind it comes too late
to give it back (`withIdentity`). Choices, branches and scripts have no
identity.
-/
import NovelScript.Draft.Written
import NovelScript.Script

namespace NovelScript.Draft

-- ========================================================= parameters

/-- A parameter of a way of making something. -/
structure Parameter where
  /-- Its name. -/
  name : String
  /-- Whether it has to be given by name. -/
  byName : Bool := false
  /-- What it is if it is not given; it has to be given if this is none. -/
  start : Option Draft := none

/-- A parameter that has to be given. -/
def needed (name : String) : Parameter := { name }

/-- A parameter that may be left out. -/
def free (name : String) : Parameter := { name, start := some .null }

/-- A parameter that may be left out and is given by name. -/
def named (name : String) : Parameter := { name, byName := true, start := some .null }

/-- The parameters of a display statement. -/
def displayParameters : List Parameter :=
  needed "image" :: (["attributes", "as_tag", "at_position", "behind", "layer", "zorder",
    "transition", "line"].map named)

/-- The ways of making something, with their parameters. -/
def makers : List (String × List Parameter) :=
  [("label", [needed "name", free "body", named "parameters", named "line"]),
   ("jump", [needed "target", named "expression", named "line"]),
   ("call",
    [needed "target", named "arguments", named "expression", named "from_label", named "line"]),
   ("return_", [free "value", named "line"]),
   ("if_branch", [needed "condition", free "body", free "line"]),
   ("if_", [needed "branches", named "line"]),
   ("menu_choice", [needed "text", free "body", free "condition", free "line"]),
   ("menu",
    [free "choices", named "prompt", named "prompt_speaker", named "set_var", named "screen",
     named "name", named "line"]),
   ("dialogue",
    [needed "text", free "speaker", named "attributes", named "transition", named "extend",
     named "arguments", named "line"]),
   ("scene", displayParameters),
   ("show", displayParameters),
   ("hide", displayParameters),
   ("with_", [needed "transition", named "line"]),
   ("set",
    [needed "variable", needed "value",
     { name := "operator", byName := true, start := some (.text "=") }, named "line"]),
   ("python", [needed "code", named "early", named "hide", named "init", named "line"]),
   ("define", [needed "name", needed "value", named "store", named "line"]),
   ("default", [needed "name", needed "value", named "line"]),
   ("play",
    [needed "channel", needed "file", named "fade_in", named "fade_out", named "volume",
     named "loop", named "queue", named "if_changed", named "line"]),
   ("stop", [needed "channel", named "fade_out", named "line"]),
   ("pause", [free "duration", named "line"]),
   ("nvl", [needed "action", named "line"]),
   ("raw", [needed "content", named "line"]),
   ("script",
    [free "statements", { name := "file_path", byName := true, start := some (.text "") },
     named "parse_time",
     { name := "version", byName := true, start := some (.text formatVersion) }])]

/-- Gives the values in a row to the parameters that need no name; nothing if there are too many. -/
def bindRow : List Parameter → List Draft → Option (List (String × Draft))
  | _, [] => some []
  | p :: ps, d :: ds =>
    if p.byName then none else (bindRow ps ds).map ((p.name, d) :: ·)
  | [], _ :: _ => none

/-- Gives values to parameters: those in a row first, then those by name. Each parameter gets one
value, and one that has to be given is. -/
def bind (ps : List Parameter) (row : List Draft) (byName : List (String × Draft)) :
    Except Fault (List (String × Draft)) :=
  match bindRow ps row with
  | none => .error .wrongType
  | some first =>
    if byName.any fun (n, _) => (field? n first).isSome || !(ps.any (·.name = n)) then
      .error .wrongType
    else
      let given := first ++ byName
      ps.mapM fun p => match (field? p.name given), p.start with
        | some d, _ => .ok (p.name, d)
        | none, some d => .ok (p.name, d)
        | none, none => .error .wrongType

-- ============================================================= values

/-- A value as a trimmed text. -/
def trimmedText (d : Draft) : Draft := .text (Text.trimmed d.inLine)

/-- A value as a trimmed text, nothing if it is empty. -/
def presentText (d : Draft) : Draft :=
  if d.isNull then .null
  else
    let s := Text.trimmed d.inLine
    if s = "" then .null else .text s

/-- The trimmed texts of the parts of a value, empty ones left out, nothing if none is left. -/
def presentTexts (d : Draft) : Except Fault Draft :=
  if d.isNull then .ok .null
  else do
    let parts ← partsOf d
    let texts := (parts.filter fun p => !p.isNull).map fun p => Text.trimmed p.inLine
    let kept := texts.filter (· ≠ "")
    pure (if kept.isEmpty then .null else .list (kept.map .text))

/-- A value as a flag, unless it is nothing. -/
def flag (d : Draft) : Draft := if d.isNull then .null else .bool d.isTruthy

/-- The parts of a value as a list; a value that counts as false has none. -/
def itemsOf (d : Draft) : Except Fault (List Draft) :=
  if d.isTruthy then partsOf d else .ok []

/-- A value that has to be a number or nothing. -/
def needNumber (name : String) (d : Draft) : Except Fault Draft :=
  match d with
  | .null => .ok .null
  | .number n => .ok (.number n)
  | d => .error (.refused (.number name d.shown))

/-- Whether a value is one of some texts. -/
def isOneOf (options : List String) : Draft → Bool
  | .text s => options.contains s
  | _ => false

/-- The image and the attributes that an image name and further attributes give. -/
def splitImage (image attributes : Draft) : Except Fault (Draft × Draft) := do
  let name := if image.isTruthy then image.inLine else ""
  match Text.fields name.toList with
  | [] => .error (.refused .image)
  | first :: more => do
    let extra ← itemsOf attributes
    let all ← presentTexts (.list (more.map (fun w => .text (String.ofList w)) ++ extra))
    pure (.text (String.ofList first), all)

-- ============================================================= making

/-- A making that takes an identity: what is done before, and what is done with the identity. -/
def withIdentity {α : Type} (n : Numbering) (before : Except Fault α)
    (rest : α → Draft → Except Fault Draft) : Except Fault Draft × Numbering :=
  match before with
  | .error e => (.error e, n)
  | .ok a => (rest a (.text n.next.1), n.next.2)

/-- A statement of a kind, with its identity and the line that was given. -/
def stmt (k : StmtKind) (id line : Draft) (own : List (String × Draft)) : Draft :=
  make (.stmt k) (("id", id) :: ("line", line) :: own)

/-- The image and options of a display statement. -/
def displayParts (get : String → Draft) : Except Fault (Draft × Draft) := do
  let (image, attributes) ← splitImage (get "image") (get "attributes")
  match get "zorder" with
  | .null | .number (.int _) => pure ()
  | d => .error (.refused (.zorder d.shown))
  pure (image, make .displayOptions
    [("attributes", attributes), ("as_tag", presentText (get "as_tag")),
     ("at_position", presentText (get "at_position")), ("behind", presentText (get "behind")),
     ("layer", presentText (get "layer")), ("zorder", get "zorder"),
     ("transition", presentText (get "transition"))])

/-- The speaker and attributes of a line that is said. -/
def speakingParts (get : String → Draft) : Except Fault (Draft × Draft) := do
  let speaker := presentText (get "speaker")
  let extended := (get "extend").isTruthy
  if extended && !speaker.isNull then .error (.refused .extendedSpeaker)
  let attributes ← presentTexts (get "attributes")
  if !attributes.isNull && speaker.isNull && !extended then .error (.refused .narration)
  pure (speaker, attributes)

/-- The options of a sound statement. -/
def audioParts (get : String → Draft) : Except Fault Draft := do
  let fadeIn ← needNumber "fade_in" (get "fade_in")
  let fadeOut ← needNumber "fade_out" (get "fade_out")
  let volume ← needNumber "volume" (get "volume")
  pure (make .audioOptions
    [("fade_in", fadeIn), ("fade_out", fadeOut), ("volume", volume), ("loop", flag (get "loop")),
     ("queue", flag (get "queue")), ("if_changed", flag (get "if_changed"))])

/-- A sound channel that is known. -/
def needChannel (d : Draft) : Except Fault Draft :=
  if isOneOf channels d then .ok d else .error (.refused (.channel d.shown))

/-- The branches of a conditional: there is one, and the first has a condition. -/
def needBranches (d : Draft) : Except Fault (List Draft) := do
  match ← itemsOf d with
  | [] => .error (.refused .noBranch)
  | first :: more =>
    if (← first.get "condition").isNull then .error (.refused .noCondition)
    else pure (first :: more)

/-- Makes something from the values of its parameters. -/
def construct (now : Timestamp) (n : Numbering) (maker : String) (get : String → Draft) :
    Except Fault Draft × Numbering :=
  let line := get "line"
  -- A name is taken before the fields are checked, so it is used up even by
  -- what is refused; `withIdentity` checks what is checked before that.
  let tagged (k : StmtKind) (own : Except Fault (List (String × Draft))) :=
    withIdentity n (.ok ()) fun _ id => own.map (stmt k id line)
  let shows (k : StmtKind) := withIdentity n (displayParts get) fun (image, options) id =>
    .ok (stmt k id line [("image", image), ("options", options)])
  match maker with
  | "label" => tagged .label do
    let body ← itemsOf (get "body")
    let parameters ← presentTexts (get "parameters")
    pure [("name", trimmedText (get "name")), ("body", .list body), ("parameters", parameters)]
  | "jump" => tagged .jump (.ok
    [("target", trimmedText (get "target")), ("expression", flag (get "expression"))])
  | "call" => tagged .call do
    let arguments ← presentTexts (get "arguments")
    pure [("target", trimmedText (get "target")), ("arguments", arguments),
      ("expression", flag (get "expression")), ("from_label", presentText (get "from_label"))]
  | "return_" => tagged .giveBack (.ok [("value", presentText (get "value"))])
  | "if_branch" => (do
    let body ← itemsOf (get "body")
    pure (make .branch
      [("condition", presentText (get "condition")), ("body", .list body), ("line", line)]), n)
  | "if_" => withIdentity n (needBranches (get "branches")) fun branches id =>
    .ok (stmt .conditional id line [("branches", .list branches)])
  | "menu_choice" => (do
    let body ← itemsOf (get "body")
    pure (make .choice
      [("text", get "text"), ("body", .list body), ("condition", presentText (get "condition")),
       ("line", line)]), n)
  | "menu" => tagged .menu do
    let choices ← itemsOf (get "choices")
    -- Who asks is kept only with a question.
    let asked := (get "prompt").isTruthy
    pure [("choices", .list choices), ("prompt", if asked then get "prompt" else .null),
      ("prompt_speaker", if asked then presentText (get "prompt_speaker") else .null),
      ("set_var", presentText (get "set_var")), ("screen", presentText (get "screen")),
      ("name", presentText (get "name"))]
  | "dialogue" => withIdentity n (speakingParts get) fun (speaker, attributes) id => do
    let arguments ← presentTexts (get "arguments")
    pure (stmt .dialogue id line
      [("speaker", speaker), ("text", get "text"), ("attributes", attributes),
       ("transition", presentText (get "transition")), ("extend", flag (get "extend")),
       ("arguments", arguments)])
  | "scene" => shows .scene
  | "show" => shows .reveal
  | "hide" => shows .hide
  | "with_" => tagged .transition (.ok [("transition", trimmedText (get "transition"))])
  | "set" =>
    let operator := if (get "operator").isTruthy then get "operator" else .text "="
    withIdentity n
      (if isOneOf assignOperators operator then .ok ()
       else .error (.refused (.operator operator.shown))) fun _ id =>
      .ok (stmt .assign id line
        [("variable", trimmedText (get "variable")), ("value", trimmedText (get "value")),
         ("operator", operator)])
  | "python" => tagged .code (.ok
    [("code", if (get "code").isTruthy then get "code" else .text ""), ("early", flag (get "early")),
     ("hide", flag (get "hide")), ("init", flag (get "init"))])
  | "define" => tagged .define (.ok
    [("name", trimmedText (get "name")), ("value", trimmedText (get "value")),
     ("store", presentText (get "store"))])
  | "default" => tagged .default (.ok
    [("name", trimmedText (get "name")), ("value", trimmedText (get "value"))])
  | "play" => withIdentity n (audioParts get) fun options id => do
    let channel ← needChannel (get "channel")
    pure (stmt .play id line [("channel", channel), ("file", get "file"), ("options", options)])
  | "stop" => tagged .stop do
    let channel ← needChannel (get "channel")
    let fadeOut ← needNumber "fade_out" (get "fade_out")
    pure [("channel", channel), ("fade_out", fadeOut)]
  | "pause" => tagged .pause do
    let duration ← needNumber "duration" (get "duration")
    pure [("duration", duration)]
  | "nvl" => withIdentity n
    (if isOneOf nvlActions (get "action") then .ok ()
     else .error (.refused (.nvl (get "action").shown))) fun _ id =>
    .ok (stmt .nvl id line [("action", get "action")])
  | "raw" => tagged .raw (.ok [("content", get "content")])
  | "script" => (do
    let statements ← itemsOf (get "statements")
    let orElse (d e : Draft) := if d.isTruthy then d else e
    pure (make .script
      [("statements", .list statements),
       ("metadata", make .metadata
         [("file_path", orElse (get "file_path") (.text "")),
          ("parse_time", if (get "parse_time").isNull then .moment now else get "parse_time"),
          ("version", orElse (get "version") (.text formatVersion))])]), n)
  | _ => (.error .noMember, n)

/-- Makes something from values in a row and values by name. -/
def build (now : Timestamp) (n : Numbering) (maker : String) (row : List Draft)
    (byName : List (String × Draft)) : Except Fault Draft × Numbering :=
  match makers.lookup maker with
  | none => (.error .noMember, n)
  | some ps =>
    match bind ps row byName with
    | .error e => (.error e, n)
    | .ok given => construct now n maker fun name => (field? name given).getD .null

end NovelScript.Draft
