/-
Every script is a draft: its statements, choices, branches and options become
records, and parts that are absent become nothing.

This is how what is known about statements becomes something about drafts. A
script that was read goes on as a draft: it is compared, written, saved and
walked through by functions that do not know that its fields are of the right
types, since they are also used for what was made by hand or loaded. The order
of the fields is that of `Draft/Kind`, and a field that is absent is there with
nothing in it.
-/
import NovelScript.Draft.Basic

namespace NovelScript.Draft

/-- A text that may be absent. -/
def optText : Option String → Draft := optional .text

/-- A list of texts that may be absent. -/
def optTexts : Option (List String) → Draft := optional fun ts => .list (ts.map .text)

/-- A flag that may be unsaid. -/
def optFlag : Option Bool → Draft := optional .bool

/-- A number that may be absent. -/
def optNumber : Option Number → Draft := optional .number

/-- A line that may be absent. -/
def optLine : Option Nat → Draft := optional fun n => int n

/-- The clauses of a display statement. -/
def ofDisplayOptions (o : DisplayOptions) : Draft :=
  .record .displayOptions
    [("attributes", optTexts o.attributes), ("as_tag", optText o.asTag),
     ("at_position", optText o.atPosition), ("behind", optText o.behind),
     ("layer", optText o.layer), ("zorder", optional int o.zorder),
     ("transition", optText o.transition)]

/-- The clauses of a sound statement. -/
def ofAudioOptions (o : AudioOptions) : Draft :=
  .record .audioOptions
    [("fade_in", optNumber o.fadeIn), ("fade_out", optNumber o.fadeOut),
     ("volume", optNumber o.volume), ("loop", optFlag o.loop), ("queue", optFlag o.queue),
     ("if_changed", optFlag o.ifChanged)]

/-- The kind of a simple statement and its own fields. -/
def ofSimple : Simple → StmtKind × List (String × Draft)
  | .say d => (.dialogue,
    [("speaker", optText d.speaker), ("text", .text d.text), ("attributes", optTexts d.attributes),
     ("transition", optText d.transition), ("extend", optFlag d.extend),
     ("arguments", optTexts d.arguments)])
  | .display verb image o =>
    (match verb with
      | .scene => .scene
      | .reveal => .reveal
      | .hide => .hide,
     [("image", .text image), ("options", ofDisplayOptions o)])
  | .transition name => (.transition, [("transition", .text name)])
  | .jump target expression => (.jump, [("target", .text target), ("expression", optFlag expression)])
  | .call c => (.call,
    [("target", .text c.target), ("arguments", optTexts c.arguments),
     ("expression", optFlag c.expression), ("from_label", optText c.fromLabel)])
  | .giveBack value => (.giveBack, [("value", optText value)])
  | .assign target value operator => (.assign,
    [("variable", .text target), ("value", .text value), ("operator", .text operator)])
  | .code c => (.code,
    [("code", .text c.code), ("early", optFlag c.early), ("hide", optFlag c.hide),
     ("init", optFlag c.init)])
  | .define name value store => (.define,
    [("name", .text name), ("value", .text value), ("store", optText store)])
  | .default name value => (.default, [("name", .text name), ("value", .text value)])
  | .play channel file o => (.play,
    [("channel", .text channel), ("file", .text file), ("options", ofAudioOptions o)])
  | .stop channel fadeOut => (.stop, [("channel", .text channel), ("fade_out", optNumber fadeOut)])
  | .pause duration => (.pause, [("duration", optNumber duration)])
  | .nvl action => (.nvl, [("action", .text action)])
  | .raw content => (.raw, [("content", .text content)])

/-- A statement's record: its identity, its own fields and its line. -/
def ofTagged (k : StmtKind) (tag : Tag) (own : List (String × Draft)) : Draft :=
  .record (.stmt k) (("id", .text tag.id) :: own ++ [("line", optLine tag.line)])

mutual

/-- A statement as a draft. -/
def ofStmt : Stmt → Draft
  | .simple tag s => ofTagged (ofSimple s).1 tag (ofSimple s).2
  | .label tag name parameters body => ofTagged .label tag
    [("name", .text name), ("body", .list (ofStmts body)), ("parameters", optTexts parameters)]
  | .menu tag head choices => ofTagged .menu tag
    [("choices", .list (ofChoices choices)), ("prompt", optText head.prompt),
     ("prompt_speaker", optText head.promptSpeaker), ("set_var", optText head.setVar),
     ("screen", optText head.screen), ("name", optText head.name)]
  | .conditional tag branches => ofTagged .conditional tag
    [("branches", .list (ofBranches branches))]

/-- Statements as drafts. -/
def ofStmts : List Stmt → List Draft
  | [] => []
  | s :: more => ofStmt s :: ofStmts more

/-- Choices as drafts. -/
def ofChoices : List Choice → List Draft
  | [] => []
  | .mk said condition line body :: more =>
    .record .choice
      [("text", .text said), ("body", .list (ofStmts body)), ("condition", optText condition),
       ("line", optLine line)] :: ofChoices more

/-- Branches as drafts. -/
def ofBranches : List Branch → List Draft
  | [] => []
  | .mk condition line body :: more =>
    .record .branch
      [("condition", optText condition), ("body", .list (ofStmts body)), ("line", optLine line)] ::
      ofBranches more

end

/-- Where a script comes from, as a draft. -/
def ofMetadata (m : Metadata) : Draft :=
  .record .metadata
    [("file_path", .text m.filePath), ("parse_time", .moment m.parseTime),
     ("version", .text m.version)]

/-- A script as a draft. -/
def ofScript (s : Script) : Draft :=
  .record .script [("statements", .list (ofStmts s.statements)), ("metadata", ofMetadata s.metadata)]

end NovelScript.Draft

namespace NovelScript

/-- The kind of a statement. -/
def Stmt.kind : Stmt → StmtKind
  | .simple _ s => (Draft.ofSimple s).1
  | .label .. => .label
  | .menu .. => .menu
  | .conditional .. => .conditional

end NovelScript
