/-
Writing to a file. What is written is what is read next, as long as no line of
it ends in another way than by a line feed and no byte order mark is in front.
Nothing else changes: all other files are as they were, and every name leads
where it led, because a file stays a file.

# Texts and bytes

A text becomes its bytes, and these are decoded again to the text. Reading does
two things more. It makes one line feed of each carriage return with the line
feed behind it, and of each carriage return alone, so a text without them comes
back; and where a mark may be in front it drops one. Bytes that end inside a
mark are no text, but those of a text end there only if it is empty
(`eq_empty_of_isPrefixOf`).

# Files in a row

The files are a row in which the first of a name counts. Putting a file changes
it where it is, or adds it at the end (`names_putFile`).
-/
import NovelScript.Files.Folder

namespace NovelScript

-- ================================================================ texts

namespace Text

theorem unifyNewlines_eq_self {cs : List Char} (h : '\r' ∉ cs) :
    unifyNewlines cs = cs := by
  induction cs with
  | nil => rfl
  | cons c cs ih =>
      rw [List.mem_cons, not_or] at h
      rw [unifyNewlines.eq_3 _ _ (by rintro _ rfl; exact absurd rfl h.1),
        if_neg (Ne.symm h.1), ih h.2]

end Text

namespace Folder

theorem fromUTF8?_toUTF8 (text : String) :
    String.fromUTF8? text.toUTF8 = some text := by
  rw [String.fromUTF8?, String.toUTF8_eq_toByteArray, dif_pos text.isValidUTF8]
  rfl

/-- The only text of which the bytes end inside a byte order mark is the empty
one. -/
theorem eq_empty_of_isPrefixOf {text : String} (hsize : text.toUTF8.size < 3)
    (hstart : text.toUTF8.data.toList.isPrefixOf markBytes = true) :
    text = "" := by
  have htake := List.prefix_iff_eq_take.mp (List.isPrefixOf_iff_prefix.mp hstart)
  have hsome := fromUTF8?_toUTF8 text
  generalize text.toUTF8 = bytes at *
  obtain ⟨⟨bytes⟩⟩ := bytes
  replace hsize : bytes.length < 3 := hsize
  replace htake : bytes = markBytes.take bytes.length := htake
  have hcases : bytes.length = 0 ∨ bytes.length = 1 ∨ bytes.length = 2 := by
    omega
  rcases hcases with h | h | h
  · rw [htake, h] at hsome
    exact Option.some.inj (hsome.symm.trans (by decide))
  · have hnone : String.fromUTF8? ⟨⟨markBytes.take 1⟩⟩ = none := by decide
    rw [htake, h, hnone] at hsome
    cases hsome
  · have hnone : String.fromUTF8? ⟨⟨markBytes.take 2⟩⟩ = none := by decide
    rw [htake, h, hnone] at hsome
    cases hsome

theorem textOf_toUTF8 {text : String} (hreturn : '\r' ∉ text.toList) :
    textOf text.toUTF8 = .ok text := by
  rw [textOf, fromUTF8?_toUTF8]
  simp only [Text.unifyNewlines_eq_self hreturn, String.ofList_toList]

/-- A text of which nothing is unified or dropped is read as it was
written. -/
theorem markedTextOf_toUTF8 {text : String} (hreturn : '\r' ∉ text.toList)
    (hmark : text.toList.head? ≠ some '\uFEFF') :
    markedTextOf text.toUTF8 = .ok text := by
  unfold markedTextOf
  split
  · next hshort =>
    obtain ⟨hsize, hstart⟩ := Bool.and_eq_true_iff.mp hshort
    rw [eq_empty_of_isPrefixOf (of_decide_eq_true hsize) hstart]
  · rw [textOf_toUTF8 hreturn, Except.map]
    split
    · next hcs => exact absurd (congrArg List.head? hcs) hmark
    · rfl

-- ================================================================ files

section

variable {place : Path} {content : ByteArray}

theorem lookup_putFile (q : Path) (files : List (Path × ByteArray)) :
    (putFile place content files).lookup q
      = if q = place then some content else files.lookup q := by
  induction files with
  | nil =>
      by_cases hq : q = place
      · simp [putFile, hq]
      · simp [putFile, List.lookup_cons, hq, beq_false_of_ne hq]
  | cons e more ih =>
      obtain ⟨name, old⟩ := e
      rw [putFile]
      split
      · next hname =>
        subst hname
        by_cases hq : q = name
        · simp [hq]
        · simp [List.lookup_cons, hq, beq_false_of_ne hq]
      · next hname =>
        by_cases hq : q = name
        · subst hq
          simp [hname]
        · simp [List.lookup_cons, beq_false_of_ne hq, ih]

/-- A file that is there stays where it is in the row, and one that is not comes
last. -/
theorem names_putFile (place : Path) (content : ByteArray)
    (files : List (Path × ByteArray)) :
    (putFile place content files).map Prod.fst
      = files.map Prod.fst
        ++ if (files.lookup place).isSome then [] else [place] := by
  induction files with
  | nil => rfl
  | cons e more ih =>
      obtain ⟨name, old⟩ := e
      rw [putFile]
      split
      · next hname =>
        subst hname
        simp
      · next hname =>
        rw [List.lookup_cons, beq_false_of_ne (Ne.symm hname), List.map_cons, ih,
          List.map_cons, List.cons_append]

theorem putFile_eq_self {files : List (Path × ByteArray)}
    (h : files.lookup place = some content) :
    putFile place content files = files := by
  induction files with
  | nil => cases h
  | cons e more ih =>
      obtain ⟨name, old⟩ := e
      rw [putFile]
      split
      · next hname =>
        subst hname
        rw [List.lookup_cons, beq_self_eq_true] at h
        rw [Option.some.inj h]
      · next hname =>
        rw [List.lookup_cons, beq_false_of_ne (Ne.symm hname)] at h
        rw [ih h]

end

/-- The folder with a file put in a place. -/
def put (f : Folder) (place : Path) (content : ByteArray) : Folder :=
  { f with files := putFile place content f.files }

variable {f g : Folder} {place : Path} {content old : ByteArray} {p : Path}

theorem file?_put (q : Path) :
    (f.put place content).file? q
      = if q = place then some content else f.file? q :=
  lookup_putFile q f.files

theorem put_eq_self (h : f.file? place = some content) :
    f.put place content = f := by
  rw [put, putFile_eq_self h]

theorem entry_eq_file {q : Path} :
    f.entry q = .file content ↔ f.file? q = some content := by
  unfold entry
  cases f.file? q with
  | some c => simp
  | none =>
      simp only [reduceCtorEq, iff_false]
      split <;> simp

/-- What is below a name depends on the names of the files alone. -/
theorem hasBelow_eq (f : Folder) (q : Path) :
    f.hasBelow q
      = (f.files.map Prod.fst).any fun name => (nextBelow? q name).isSome := by
  rw [List.any_map]
  rfl

section

variable (h : f.file? place = some old)
include h

theorem entry_put (q : Path) :
    (f.put place content).entry q
      = if q = place then .file content else f.entry q := by
  have hthere : (f.files.lookup place).isSome := by
    rw [← file?, h]
    rfl
  have hbelow : (f.put place content).hasBelow q = f.hasBelow q := by
    rw [hasBelow_eq, hasBelow_eq, put, names_putFile, if_pos hthere,
      List.append_nil]
  by_cases hq : q = place
  · rw [if_pos hq, entry_eq_file, file?_put, if_pos hq]
  · rw [if_neg hq]
    unfold entry
    rw [file?_put, if_neg hq, hbelow]
    rfl

theorem follow_put (q : Path) (parts : List String) :
    (f.put place content).follow q parts = f.follow q parts := by
  induction parts generalizing q with
  | nil => rfl
  | cons part more ih =>
      rw [follow, follow, entry_put h]
      by_cases hq : q = place
      · rw [if_pos hq, hq, entry_eq_file.mpr h]
      · rw [if_neg hq]
        split
        · rw [ih]
        · rfl
        · rfl

/-- Every name leads where it led. -/
theorem locate_put (p : Path) : (f.put place content).locate p = f.locate p := by
  unfold locate
  rw [follow_put h]

theorem readBytes_put (hplace : f.locate p = .ok place) :
    (f.put place content).readBytes p = .ok content := by
  rw [readBytes, locate_put h, hplace]
  simp [bind, Except.bind, entry_put h, pure, Except.pure]

theorem readBytes_put_ne (hplace : f.locate p ≠ .ok place) :
    (f.put place content).readBytes p = f.readBytes p := by
  rw [readBytes, readBytes, locate_put h]
  cases hq : f.locate p with
  | error e => rfl
  | ok q =>
      have hne : q ≠ place := by
        rintro rfl
        exact hplace hq
      simp [bind, Except.bind, entry_put h, hne]

end

-- ============================================================== writing

/-- Only a file can be read. -/
theorem readBytes_eq_ok :
    f.readBytes p = .ok content
      ↔ ∃ place, f.locate p = .ok place ∧ f.file? place = some content := by
  simp only [← entry_eq_file]
  unfold readBytes
  cases f.locate p with
  | error e => simp [bind, Except.bind]
  | ok q =>
      simp only [bind, Except.bind, Except.ok.injEq, exists_eq_left']
      cases f.entry q <;> simp [pure, Except.pure]

theorem isFile_of_file (hplace : f.locate p = .ok place)
    (h : f.file? place = some old) : f.isFile p = .ok true := by
  rw [isFile, found, hplace]
  simp only [entry_eq_file.mpr h]
  rfl

/-- Where there is a file a text can be written. -/
theorem writeText_of_file (hplace : f.locate p = .ok place)
    (h : f.file? place = some old) (text : String) :
    f.writeText p text = .ok (f.put place text.toUTF8) := by
  rw [writeText, hplace]
  simp only [bind, Except.bind, entry_eq_file.mpr h]
  rfl

theorem readText_put (hplace : f.locate p = .ok place)
    (h : f.file? place = some old) {text : String}
    (hreturn : '\r' ∉ text.toList) :
    (f.put place text.toUTF8).readText p = .ok text := by
  rw [readText, readBytes_put h hplace]
  exact textOf_toUTF8 hreturn

/-- What was written is read. -/
theorem readMarkedText_put (hplace : f.locate p = .ok place)
    (h : f.file? place = some old) {text : String}
    (hreturn : '\r' ∉ text.toList)
    (hmark : text.toList.head? ≠ some '\uFEFF') :
    (f.put place text.toUTF8).readMarkedText p = .ok text := by
  rw [readMarkedText, readBytes_put h hplace]
  exact markedTextOf_toUTF8 hreturn hmark

end Folder

end NovelScript
