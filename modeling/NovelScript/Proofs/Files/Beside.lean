/-
Files put beside others. A file may be put wherever there is no folder, also
where nothing was before. Folders stay folders then, so a name that led to
somewhere still leads there; and what stands in a folder besides the file is
what stood there before. The name of something in a folder leads to the same
place as long as the folder is there, whatever else is put into it.

# Places and names

A file is at a place, and a name leads to a place part by part, through folders.
Which folders there are depends on the files, since what has something below it
is one; so putting a file could make a folder of what was none, and a name lead
further than before. It cannot make less of what was one, if it is put where no
folder is (`entry_folder_put`). Names that did not lead anywhere may lead to
somewhere afterwards, and nothing is said about these.
-/
import Mathlib.Data.List.Sort
import Mathlib.Data.String.Basic
import NovelScript.Proofs.Files.Folder
import NovelScript.Proofs.Files.Path

namespace NovelScript.Folder

open NovelScript.Path (Part)

variable {f g : Folder} {base place : Path} {content : ByteArray}

-- ========================================================== places stay

theorem entry_eq_folder {q : Path} :
    f.entry q = .folder
      ↔ f.file? q = none
        ∧ (q.isUpward || f.hasBelow q || f.folders.contains q) = true := by
  unfold entry
  cases f.file? q with
  | some c => simp
  | none => cases q.isUpward || f.hasBelow q || f.folders.contains q <;> simp

/-- Folders stay folders if no file is put where one is. The converse does not
hold: a file that is put somewhere makes folders of what stands above it. -/
theorem entry_folder_put (hfree : f.entry place ≠ .folder) {q : Path}
    (hq : f.entry q = .folder) : (f.put place content).entry q = .folder := by
  have hne : q ≠ place := by
    rintro rfl
    exact hfree hq
  obtain ⟨hnone, hfolder⟩ := entry_eq_folder.mp hq
  have hbelow : f.hasBelow q = true →
      (f.put place content).hasBelow q = true := by
    intro h
    rw [hasBelow_eq] at h ⊢
    rw [put, names_putFile, List.any_append, h]
    rfl
  refine entry_eq_folder.mpr ⟨by rw [file?_put, if_neg hne, hnone], ?_⟩
  simp only [Bool.or_eq_true] at hfolder ⊢
  exact hfolder.imp_left fun h => h.imp_right hbelow

/-- Where folders stay folders, parts lead where they led. -/
theorem follow_of_folders
    (h : ∀ q, f.entry q = .folder → g.entry q = .folder) {q r : Path}
    {parts : List String} (hfollow : f.follow q parts = .ok r) :
    g.follow q parts = .ok r := by
  induction parts generalizing q with
  | nil => exact hfollow
  | cons part more ih =>
      rw [follow] at hfollow ⊢
      split at hfollow
      · next hq =>
        rw [h q hq]
        split at hfollow
        · cases hfollow
        · next hshort =>
          rw [if_neg hshort]
          exact ih hfollow
      · cases hfollow
      · cases hfollow

theorem follow_append (f : Folder) (q : Path) (parts more : List String) :
    f.follow q (parts ++ more)
      = (do let r ← f.follow q parts; f.follow r more) := by
  induction parts generalizing q with
  | nil => rfl
  | cons part parts ih =>
      rw [List.cons_append, follow, follow]
      split
      · split
        · rfl
        · exact ih _
      · rfl
      · rfl

-- ============================================================ one folder

/-- A name that leads to a folder. -/
structure Opens (f : Folder) (base place : Path) : Prop where
  /-- It leads to a place. -/
  leads : f.locate base = .ok place
  /-- There is a folder. -/
  folder : f.entry place = .folder

/-- A folder is still there when a file is put where there is none. -/
theorem Opens.put (h : f.Opens base place) {q : Path}
    (hfree : f.entry q ≠ .folder) : (f.put q content).Opens base place := by
  refine ⟨?_, entry_folder_put hfree h.folder⟩
  have hleads := h.leads
  unfold locate at hleads ⊢
  split at hleads
  · cases hleads
  · split at hleads
    · cases hleads
    · next hnull hshort =>
      rw [if_neg hnull, if_neg hshort]
      exact follow_of_folders (fun q => entry_folder_put hfree) hleads

/-- Where a name in a folder leads, from the place of the folder. -/
def within (base place : Path) (part : String) : Except AccessError Path :=
  if (base.child part).text.toList.contains (Char.ofNat 0) then
    .error .nullInName
  else if longestName < (base.child part).text.utf8ByteSize then .error .tooLong
  else if longestPart < part.utf8ByteSize then .error .tooLong
  else .ok (place.step part)

/-- A name in a folder leads to the same place whatever else is there. -/
theorem Opens.locate_child (h : f.Opens base place) (part : String) :
    f.locate (base.child part) = within base place part := by
  have hfollow : f.follow base.start base.parts = .ok place := by
    have hleads := h.leads
    unfold locate at hleads
    split at hleads
    · cases hleads
    · split at hleads
      · cases hleads
      · exact hleads
  have hlast : f.follow (base.child part).start (base.child part).parts
      = if longestPart < part.utf8ByteSize then .error .tooLong
        else .ok (place.step part) := by
    show f.follow base.start (base.parts ++ [part]) = _
    rw [follow_append, hfollow]
    show f.follow place [part] = _
    rw [follow, h.folder]
    rfl
  unfold locate within
  rw [hlast]

theorem within_eq_ok {part : String} {q : Path}
    (h : within base place part = .ok q) : q = place.step part := by
  unfold within at h
  split at h
  · cases h
  · split at h
    · cases h
    · split at h
      · cases h
      · exact (Except.ok.inj h).symm

theorem step_eq_child {part : String} (h : Part part) (hup : part ≠ "..") :
    place.step part = place.child part := by
  rw [Path.step, if_neg (by rw [h.speaks]; decide), if_neg hup]

theorem child_injective {place : Path} {a b : String}
    (h : place.child a = place.child b) : a = b := by
  have hparts := List.append_cancel_left (Path.mk.inj h).2
  exact (List.cons.inj hparts).1

theorem opens_of_isFolder (h : f.isFolder base = .ok true) :
    ∃ place, f.Opens base place := by
  unfold isFolder found at h
  cases hplace : f.locate base with
  | error e =>
      rw [hplace] at h
      cases e <;> cases h
  | ok place =>
      rw [hplace] at h
      refine ⟨place, hplace, ?_⟩
      cases hentry : f.entry place with
      | folder => rfl
      | file content => simp [Except.map, hentry] at h
      | nothing => simp [Except.map, hentry] at h

theorem Opens.isFolder (h : f.Opens base place) : f.isFolder base = .ok true := by
  rw [Folder.isFolder, found, h.leads]
  simp only [h.folder]
  rfl

-- ============================================================== contents

/-- The names of what stands in a folder, once for each file there. -/
def namesBelow (f : Folder) (place : Path) : List String :=
  (f.files.map Prod.fst).filterMap (nextBelow? place)

theorem Opens.children_eq (h : f.Opens base place) :
    f.children base
      = (f.namesBelow place).eraseDups.mergeSort fun a b => a ≤ b := by
  rw [children, h.leads, namesBelow, List.filterMap_map]
  rfl

/-- The names of files are cut at their slashes. -/
def Whole (f : Folder) : Prop :=
  ∀ file ∈ f.files, ∀ part ∈ file.1.parts, '/' ∉ part.toList

theorem mem_of_nextBelow? {q name : Path} {part : String}
    (h : nextBelow? q name = some part) : part ∈ name.parts := by
  unfold nextBelow? at h
  split at h
  · exact List.mem_of_mem_drop (List.mem_of_mem_head? h)
  · cases h

/-- What stands in a folder is part of the name of a file. -/
theorem mem_children {part : String} (h : part ∈ f.children base) :
    ∃ file ∈ f.files, part ∈ file.1.parts := by
  unfold children at h
  split at h
  · have hnext := List.mem_eraseDups.mp (List.mem_mergeSort.mp h)
    obtain ⟨file, hfile, hpart⟩ := List.mem_filterMap.mp hnext
    exact ⟨file, hfile, mem_of_nextBelow? hpart⟩
  · cases h

theorem Whole.slash_not_mem_child (hwhole : f.Whole) {part : String}
    (h : part ∈ f.children base) : '/' ∉ part.toList := by
  obtain ⟨file, hfile, hpart⟩ := mem_children h
  exact hwhole file hfile part hpart

theorem nextBelow?_child (place : Path) (part : String) :
    nextBelow? place (place.child part) = some part := by
  have hfront : place.parts.isPrefixOf (place.parts ++ [part]) = true := by
    rw [List.isPrefixOf_iff_prefix]
    exact List.prefix_append _ _
  show (if place.root = place.root && place.parts.isPrefixOf (place.parts ++ [part])
      then ((place.parts ++ [part]).drop place.parts.length).head?
      else none) = some part
  rw [hfront, List.drop_left]
  simp

theorem namesBelow_put (f : Folder) (place : Path) (part : String)
    (content : ByteArray) :
    (f.put (place.child part) content).namesBelow place = f.namesBelow place
      ∨ (f.put (place.child part) content).namesBelow place
        = f.namesBelow place ++ [part] := by
  unfold namesBelow put
  rw [names_putFile, List.filterMap_append]
  split
  · exact .inl (List.append_nil _)
  · right
    rw [List.filterMap_cons_some (nextBelow?_child place part),
      List.filterMap_nil]

/-- What is kept of sorted names does not change with a name that is not. -/
theorem filter_mergeSort_append {keep : String → Bool} {part : String}
    (hpart : keep part = false) (names : List String) :
    ((names ++ [part]).eraseDups.mergeSort fun a b => a ≤ b).filter keep
      = (names.eraseDups.mergeSort fun a b => a ≤ b).filter keep := by
  have hsorted : ∀ ns : List String, List.Pairwise (· ≤ ·)
      ((ns.mergeSort fun a b => a ≤ b).filter keep) := by
    intro ns
    refine List.Pairwise.filter keep ?_
    have hpairs := @List.pairwise_mergeSort _ (fun a b : String => a ≤ b)
      (fun a b c hab hbc => by
        simp only [decide_eq_true_eq] at hab hbc ⊢
        exact hab.trans hbc)
      (fun a b => by simpa using String.le_total a b) ns
    exact hpairs.imp fun h => of_decide_eq_true h
  have hperm : ∀ ns : List String,
      ((ns.mergeSort fun a b => a ≤ b).filter keep).Perm (ns.filter keep) :=
    fun ns => (List.mergeSort_perm ns _).filter keep
  have hdropped : ([part].removeAll names).eraseDups.filter keep = [] := by
    rw [List.filter_eq_nil_iff]
    intro n hn
    obtain rfl : n = part := by
      have hmem := List.mem_eraseDups.mp hn
      simp only [List.removeAll, List.mem_filter, List.mem_singleton] at hmem
      exact hmem.1
    rw [hpart]
    decide
  refine List.Perm.eq_of_pairwise' (hsorted _) (hsorted _) ?_
  refine (hperm _).trans (List.Perm.trans ?_ (hperm _).symm)
  rw [List.eraseDups_append, List.filter_append, hdropped, List.append_nil]

/-- What is kept of a folder's content does not change with a file that is
not. -/
theorem Opens.filter_children_put (h : f.Opens base place) {keep : String → Bool}
    {part : String} (hpart : keep part = false)
    (hfree : f.entry (place.child part) ≠ .folder) :
    ((f.put (place.child part) content).children base).filter keep
      = (f.children base).filter keep := by
  rw [(h.put hfree).children_eq, h.children_eq]
  rcases namesBelow_put f place part content with hnames | hnames
  · rw [hnames]
  · rw [hnames, filter_mergeSort_append hpart]

-- =============================================================== writing

/-- A text can be written wherever there is no folder. -/
theorem writeText_eq_ok {p : Path} {text : String} :
    f.writeText p text = .ok g
      ↔ ∃ q, f.locate p = .ok q ∧ f.entry q ≠ .folder
        ∧ g = f.put q text.toUTF8 := by
  unfold writeText
  cases f.locate p with
  | error e => simp [bind, Except.bind]
  | ok q =>
      simp only [bind, Except.bind, Except.ok.injEq, exists_eq_left']
      cases f.entry q <;> simp [pure, Except.pure, put, eq_comm]

end NovelScript.Folder
