/-
Outlines that are written twice: once as they are, and once more after they were
read. The second writing has as many lines as the first, and `Echo` keeps
account of when they are the same lines.

# An account

`Echo os os' rows same` says three things of an outline and the one that was
written of it again: which rows it has, that the second has as many lines, and
that the lines are the same if and only if `same` holds. The account is put
together like the outline. In a row, two outlines are the same if and only if
both parts are, since the parts have as many lines each (`Echo.append`); below a
header it is the header and the body.

# Bodies

A body without lines says `pass`, and a body that says `pass` is read as one
without lines. So a body has an account of its own (`EchoBody`), in which both
are the same line.
-/
import NovelScript.Proofs.Written.Lines

namespace NovelScript.Outline

open Source

variable {indentSize : Int}

/-- An outline with its rows, and a second one with as many lines, which are
the same if and only if something holds. -/
structure Echo (indentSize : Int) (os os' : List Outline) (rows : List Row)
    (same : Prop) : Prop where
  /-- The rows are those of the first outline. -/
  spells : Spells indentSize os rows
  /-- The second one has as many lines. -/
  count : (linesOfAll indentSize 0 os').length = rows.length
  /-- The lines are the same only then. -/
  same : linesOfAll indentSize 0 os' = rows.map Row.written ↔ same

theorem echo_nil : Echo indentSize [] [] [] True :=
  ⟨spells_nil, rfl, iff_of_true rfl trivial⟩

/-- Outlines in a row are the same if and only if both are. -/
theorem Echo.append {as bs as' bs' : List Outline} {rows rows' : List Row}
    {same same' : Prop} (ha : Echo indentSize as as' rows same)
    (hb : Echo indentSize bs bs' rows' same') :
    Echo indentSize (as ++ bs) (as' ++ bs') (rows ++ rows') (same ∧ same') := by
  refine ⟨ha.spells.append hb.spells, ?_, ?_⟩
  · rw [linesOfAll_append, List.length_append, List.length_append, ha.count,
      hb.count]
  · have hcount : (linesOfAll indentSize 0 as').length
        = (rows.map Row.written).length := by
      rw [ha.count, List.length_map]
    rw [linesOfAll_append, List.map_append, ← ha.same, ← hb.same]
    constructor
    · exact fun h => List.append_inj h hcount
    · rintro ⟨h, h'⟩
      rw [h, h']

-- ================================================================ bodies

/-- The lines of a body at the margin; one without lines says `pass`. -/
def bodyLines (indentSize : Int) (os : List Outline) : List String :=
  if os.isEmpty then ["pass"] else linesOfAll indentSize 0 os

theorem bodyLines_line {ts : List String} (hne : ts ≠ []) :
    bodyLines indentSize (ts.map .line) = ts := by
  rw [bodyLines, if_neg (by simpa using hne), linesOfAll_line]

/-- An outline whose lines stand below a header, with their rows, and a
second one with as many lines there, which are the same if and only if
something holds. -/
structure EchoBody (indentSize : Int) (os os' : List Outline)
    (rows : List Row) (same : Prop) : Prop where
  /-- The rows are those of the first body. -/
  spells : bodyLines indentSize os = rows.map Row.written
  /-- The second one has as many lines. -/
  count : (bodyLines indentSize os').length = rows.length
  /-- The lines are the same only then. -/
  same : bodyLines indentSize os' = rows.map Row.written ↔ same

/-- A lone `pass` may be left out. -/
theorem echoBody_pass :
    EchoBody indentSize [.line "pass"] [] [⟨0, "pass"⟩] True := by
  have hline := @spells_line indentSize "pass"
  have hrow : [(⟨0, "pass"⟩ : Row)].map Row.written = ["pass"] := by
    rw [List.map_cons, List.map_nil, written_margin]
  refine ⟨?_, rfl, ?_⟩
  · rw [bodyLines, if_neg (by decide), hline]
  · rw [hrow]
    exact iff_of_true rfl trivial

/-- An outline is a body. -/
theorem Echo.body {os os' : List Outline} {rows : List Row} {same : Prop}
    (h : Echo indentSize os os' rows same) :
    EchoBody indentSize os os' (bodyRows rows) same := by
  have hempty := h.spells.isEmpty_eq
  cases rows with
  | nil =>
      have hos : os = [] := List.isEmpty_iff.mp hempty
      have hos' : os' = [] := by
        cases os' with
        | nil => rfl
        | cons o more =>
            have hnil := List.length_eq_zero_iff.mp h.count
            rw [linesOfAll] at hnil
            exact absurd (List.append_eq_nil_iff.mp hnil).1 (lines_ne_nil 0 o)
      have hsame : same := h.same.mp (by rw [hos']; rfl)
      have hrow : (bodyRows []).map Row.written = ["pass"] := by
        rw [bodyRows, List.isEmpty_nil, if_pos rfl, List.map_cons,
          List.map_nil, written_margin]
      rw [hos, hos']
      exact ⟨hrow.symm, rfl, by rw [hrow]; exact iff_of_true rfl hsame⟩
  | cons r rows =>
      have hne : os'.isEmpty = false := by
        cases os' with
        | nil => exact absurd h.count (by simp [linesOfAll])
        | cons o more => rfl
      have hlines : bodyLines indentSize os' = linesOfAll indentSize 0 os' :=
        if_neg (by rw [hne]; decide)
      have hrows : bodyRows (r :: rows) = r :: rows := if_neg (by simp)
      refine ⟨?_, ?_, ?_⟩
      · rw [hrows, ← h.spells, bodyLines, if_neg (by rw [hempty]; simp)]
      · rw [hlines, hrows, h.count]
      · rw [hlines, hrows, h.same]

theorem level_injective (indentSize : Int) :
    Function.Injective (level indentSize) := by
  intro s t h
  have hlist := congrArg String.toList h
  simp only [level, String.toList_append, List.append_cancel_left_eq] at hlist
  exact String.toList_inj.mp hlist

/-- The lines of a header and its body. -/
theorem linesOfAll_block (hsize : 0 ≤ indentSize) (head : String)
    (body : List Outline) :
    linesOfAll indentSize 0 [.block head body]
      = head :: (bodyLines indentSize body).map (level indentSize) := by
  have hpad : pad indentSize (0 + 1) ++ "pass" = level indentSize "pass" := by
    rw [pad_succ hsize (Int.le_refl 0), pad_zero, String.append_empty]
    rfl
  simp only [linesOfAll, lines, pad_zero, String.empty_append, List.append_nil]
  rw [linesOfAll_succ hsize (Int.le_refl 0), hpad, bodyLines]
  cases body with
  | nil => rfl
  | cons o more => rfl

/-- Two bodies below the same header. -/
theorem EchoBody.block (hsize : 0 ≤ indentSize) (head : String)
    {os os' : List Outline} {rows : List Row} {same : Prop}
    (h : EchoBody indentSize os os' rows same) :
    Echo indentSize [.block head os] [.block head os']
      (⟨0, head⟩ :: rows.map (Row.shift indentSize.toNat)) same := by
  have hrows : (⟨0, head⟩ :: rows.map (Row.shift indentSize.toNat)).map
        Row.written
      = head :: (rows.map Row.written).map (level indentSize) := by
    rw [List.map_cons, written_margin, List.map_map, List.map_map]
    exact congrArg (head :: ·)
      (List.map_congr_left fun r _ => written_shift indentSize r)
  refine ⟨?_, ?_, ?_⟩
  · rw [Spells, linesOfAll_block hsize, h.spells, hrows]
  · rw [linesOfAll_block hsize, List.length_cons, List.length_map, h.count,
      List.length_cons, List.length_map]
  · rw [linesOfAll_block hsize, hrows, ← h.same, List.cons.injEq,
      (level_injective indentSize).list_map.eq_iff]
    exact and_iff_right rfl

end NovelScript.Outline
