/-
Names put together and taken apart. The parts of a name as it is kept say
something and hold no slash (`Part`), so the text of such a name is cut at its
slashes into the same parts again. What is put behind the text of a name goes to
its last part.

In front of the parts there may be a root, of one slash or two; more than two
count as one. Cut at its slashes, the root gives empty parts, which are left
out, as are parts that are a single point; so the parts are found again whatever
the root is, and the root is found by the slashes in front. A name without parts
has a text of its own, and is not looked at here.
-/
import NovelScript.Files.Path
import NovelScript.Proofs.Text.Lines

namespace NovelScript.Path

open Text

-- ================================================================= parts

/-- A part as names keep it: it says something, is no single point, and no slash
is in it. -/
structure Part (part : String) : Prop where
  /-- It says something. -/
  speaks : saysNothing part = false
  /-- It is not divided. -/
  whole : '/' ∉ part.toList

theorem Part.ne_empty {part : String} (h : Part part) : part ≠ "" := by
  rintro rfl
  cases h.speaks

/-- A name as names are kept. -/
structure Kept (p : Path) : Prop where
  /-- One of three things stands in front. -/
  root : p.root = "" ∨ p.root = "/" ∨ p.root = "//"
  /-- Its parts are parts. -/
  parts : ∀ part ∈ p.parts, Part part

theorem Kept.child {p : Path} (h : p.Kept) {part : String} (hpart : Part part) :
    (p.child part).Kept := by
  refine ⟨h.root, fun q hq => ?_⟩
  rcases List.mem_append.mp hq with hq | hq
  · exact h.parts q hq
  · obtain rfl := List.mem_singleton.mp hq
    exact hpart

@[simp] theorem name_child (p : Path) (part : String) : (p.child part).name = part := by
  simp [name, child, List.getLastD_eq_getLast?]

/-- Every text is the text of a name. -/
theorem kept_ofString (s : String) : (ofString s).Kept := by
  constructor
  case root =>
    show rootOf s.toList = "" ∨ rootOf s.toList = "/" ∨ rootOf s.toList = "//"
    unfold rootOf
    split <;> simp
  case parts =>
    intro part hpart
    obtain ⟨hraw, hspeaks⟩ := List.mem_filter.mp hpart
    obtain ⟨cs, hcs, rfl⟩ := List.mem_map.mp hraw
    refine ⟨by simpa using hspeaks, ?_⟩
    rw [String.toList_ofList]
    exact not_mem_of_mem_splitAt hcs

-- ================================================================= texts

/-- The text of a name that leads somewhere. -/
theorem text_eq {p : Path} (hne : p.parts ≠ []) :
    p.text = p.root ++ String.intercalate "/" p.parts :=
  if_neg fun h => hne h.2

/-- A text that is cut at its slashes begins with what stood between them. -/
theorem splitAt_root {root : String}
    (h : root = "" ∨ root = "/" ∨ root = "//") (cs : List Char) :
    ∃ k, splitAt '/' (root.toList ++ cs)
        = List.replicate k [] ++ splitAt '/' cs := by
  have hcut : ∀ cs : List Char, splitAt '/' ('/' :: cs) = [] :: splitAt '/' cs :=
    fun cs => splitAt_append List.not_mem_nil cs
  rcases h with rfl | rfl | rfl
  · exact ⟨0, rfl⟩
  · exact ⟨1, hcut cs⟩
  · exact ⟨2, (hcut ('/' :: cs)).trans (congrArg _ (hcut cs))⟩

/-- What stands in front of a name is found again in front of a text that
begins with no slash. -/
theorem rootOf_append {root : String}
    (h : root = "" ∨ root = "/" ∨ root = "//") {cs : List Char}
    (hcs : cs.head? ≠ some '/') : rootOf (root.toList ++ cs) = root := by
  have htake : cs.takeWhile (· = '/') = [] := by
    cases cs with
    | nil => rfl
    | cons c cs =>
        have hc : c ≠ '/' := fun hc => hcs (congrArg some hc)
        rw [List.takeWhile_cons, if_neg (by simpa using hc)]
  have hlength : ((root.toList ++ cs).takeWhile (· = '/')).length
      = root.toList.length := by
    rw [List.takeWhile_append_of_pos, htake, List.append_nil]
    rcases h with rfl | rfl | rfl <;> decide
  rw [rootOf, hlength]
  rcases h with rfl | rfl | rfl <;> rfl

/-- A name is found again from its text. -/
theorem Kept.ofString_text {p : Path} (h : p.Kept) (hne : p.parts ≠ []) :
    ofString p.text = p := by
  have hsplit : splitAt '/' (String.intercalate "/" p.parts).toList
      = p.parts.map String.toList :=
    splitAt_intercalate hne fun part hpart => (h.parts part hpart).whole
  -- A slash at the front would make the first part empty.
  have hhead : (String.intercalate "/" p.parts).toList.head? ≠ some '/' := by
    obtain ⟨first, more, hparts⟩ := List.exists_cons_of_ne_nil hne
    have hfirst := h.parts first (hparts ▸ List.mem_cons_self)
    intro hslash
    obtain ⟨cs, hcs⟩ := List.head?_eq_some_iff.mp hslash
    rw [hcs, hparts, List.map_cons] at hsplit
    have hempty := (List.cons.inj
      ((splitAt_append List.not_mem_nil cs).symm.trans hsplit)).1
    exact hfirst.ne_empty (String.toList_eq_nil_iff.mp hempty.symm)
  have hfilter : p.parts.filter (!saysNothing ·) = p.parts :=
    List.filter_eq_self.mpr fun part hpart => by
      rw [(h.parts part hpart).speaks]
      rfl
  obtain ⟨k, hk⟩ := splitAt_root h.root (String.intercalate "/" p.parts).toList
  have hparts : (rawParts p.text).filter (!saysNothing ·) = p.parts := by
    have hempty : (List.replicate k "").filter (!saysNothing ·) = [] := by
      rw [List.filter_eq_nil_iff]
      intro part hpart
      obtain ⟨-, rfl⟩ := List.mem_replicate.mp hpart
      decide
    have hsame : (p.parts.map String.toList).map String.ofList = p.parts := by
      rw [List.map_map]
      exact (List.map_congr_left fun s _ => String.ofList_toList).trans
        (List.map_id _)
    rw [rawParts, text_eq hne, String.toList_append, hk, hsplit,
      List.map_append, hsame, List.map_replicate, List.filter_append, hfilter]
    exact (congrArg (· ++ p.parts) hempty).trans (List.nil_append _)
  have hroot : rootOf p.text.toList = p.root := by
    rw [text_eq hne, String.toList_append]
    exact rootOf_append h.root hhead
  rw [ofString, hparts, hroot]

/-- What is put behind the text of a name goes to its last part. -/
theorem text_child_append (p : Path) (part s : String) :
    (p.child part).text ++ s = (p.child (part ++ s)).text := by
  have hlast : ∀ parts : List String,
      String.intercalate "/" (parts ++ [part]) ++ s
        = String.intercalate "/" (parts ++ [part ++ s]) := by
    intro parts
    induction parts with
    | nil => rw [List.nil_append, List.nil_append, String.intercalate_singleton,
        String.intercalate_singleton]
    | cons first more ih =>
        obtain ⟨second, rest, hmore⟩ := List.exists_cons_of_ne_nil
          (List.append_ne_nil_of_right_ne_nil more (List.cons_ne_nil part []))
        obtain ⟨second', rest', hmore'⟩ := List.exists_cons_of_ne_nil
          (List.append_ne_nil_of_right_ne_nil more
            (List.cons_ne_nil (part ++ s) []))
        rw [List.cons_append, List.cons_append, hmore, hmore',
          String.intercalate_cons_cons, String.intercalate_cons_cons, ← hmore,
          ← hmore', ← ih, String.append_assoc]
  rw [text_eq (by simp [child]), text_eq (by simp [child]), String.append_assoc]
  exact congrArg (p.root ++ ·) (hlast p.parts)

end NovelScript.Path
