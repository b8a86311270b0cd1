/-
Lines and their margin.

Cutting undoes joining: parts that do not hold the separator are found again
where they were joined (`splitAt_intercalate`), and what is found holds no
separator and nothing that was not there. A text has at least one part, and the
empty text has one that is empty; so joining lines can be undone only if there
are some.

The margin of some lines is the least of their indentations: one of them has it,
none has less, and it moves with them. A margin is only asked of lines with
something on them, and there is a margin if there is such a line.
-/
import NovelScript.Text.Lines

namespace NovelScript.Text

section Cutting

variable {sep : Char}

theorem splitFrom_append {as : List Char} (h : sep ∉ as)
    (part bs : List Char) :
    splitFrom sep part (as ++ bs) = splitFrom sep (as.reverse ++ part) bs := by
  induction as generalizing part with
  | nil => rfl
  | cons a as ih =>
      have ha : a ≠ sep := fun ha => h (ha ▸ List.mem_cons_self)
      rw [List.cons_append, splitFrom, if_neg ha,
        ih fun hmem => h (List.mem_cons_of_mem a hmem), List.reverse_cons,
        List.append_assoc]
      rfl

theorem splitAt_of_not_mem {as : List Char} (h : sep ∉ as) :
    splitAt sep as = [as] := by
  have hsplit := splitFrom_append h [] []
  rw [List.append_nil, List.append_nil, splitFrom, List.reverse_reverse]
    at hsplit
  exact hsplit

/-- The first part is what stands in front of the first separator. -/
theorem splitAt_append {as : List Char} (h : sep ∉ as) (bs : List Char) :
    splitAt sep (as ++ sep :: bs) = as :: splitAt sep bs := by
  rw [splitAt, splitFrom_append h, splitFrom, if_pos rfl, List.append_nil,
    List.reverse_reverse, splitAt]

theorem splitFrom_ne_nil (part cs : List Char) : splitFrom sep part cs ≠ [] := by
  induction cs generalizing part with
  | nil => simp [splitFrom]
  | cons c cs ih =>
      rw [splitFrom]
      split
      · simp
      · exact ih _

/-- A text has at least one line. -/
theorem splitLines_ne_nil (s : String) : splitLines s ≠ [] := by
  simpa [splitLines, splitAt] using splitFrom_ne_nil [] s.toList

theorem not_mem_of_mem_splitAt {cs p : List Char} (h : p ∈ splitAt sep cs) :
    sep ∉ p := by
  have key : ∀ {cs part : List Char}, sep ∉ part →
      ∀ p ∈ splitFrom sep part cs, sep ∉ p := by
    intro cs
    induction cs with
    | nil =>
        intro part hpart p hp
        obtain rfl := List.mem_singleton.mp hp
        rwa [List.mem_reverse]
    | cons c cs ih =>
        intro part hpart p hp
        rw [splitFrom] at hp
        split at hp
        · rcases List.mem_cons.mp hp with rfl | hp
          · rwa [List.mem_reverse]
          · exact ih (by simp) p hp
        · next hc =>
          refine ih ?_ p hp
          rw [List.mem_cons, not_or]
          exact ⟨fun heq => hc heq.symm, hpart⟩
  exact key (by simp) p h

theorem mem_of_mem_splitAt {cs p : List Char} (h : p ∈ splitAt sep cs)
    {c : Char} (hc : c ∈ p) : c ∈ cs := by
  have key : ∀ {cs part : List Char}, ∀ p ∈ splitFrom sep part cs,
      ∀ c ∈ p, c ∈ part ∨ c ∈ cs := by
    intro cs
    induction cs with
    | nil =>
        intro part p hp c hc
        obtain rfl := List.mem_singleton.mp hp
        exact .inl (List.mem_reverse.mp hc)
    | cons d cs ih =>
        intro part p hp c hc
        rw [splitFrom] at hp
        split at hp
        · rcases List.mem_cons.mp hp with rfl | hp
          · exact .inl (List.mem_reverse.mp hc)
          · have hmem := ih p hp c hc
            exact .inr (List.mem_cons_of_mem d (by simpa using hmem))
        · have hmem := ih p hp c hc
          rw [List.mem_cons] at hmem ⊢
          rwa [← or_assoc, or_comm (a := c ∈ part)]
  exact (key p h c hc).resolve_left List.not_mem_nil

theorem toList_joinLines_cons_cons (l m : String) (ls : List String) :
    (joinLines (l :: m :: ls)).toList
      = l.toList ++ '\n' :: (joinLines (m :: ls)).toList := by
  rw [joinLines, String.intercalate_cons_cons, String.toList_append,
    String.toList_append, List.append_assoc]
  rfl

/-- Joined parts are found again. -/
theorem splitAt_intercalate {parts : List String} (hne : parts ≠ [])
    (h : ∀ p ∈ parts, sep ∉ p.toList) :
    splitAt sep (String.intercalate (String.singleton sep) parts).toList
      = parts.map String.toList := by
  induction parts with
  | nil => exact absurd rfl hne
  | cons p more ih =>
      have hp := h p List.mem_cons_self
      cases more with
      | nil =>
          rw [String.intercalate_singleton, splitAt_of_not_mem hp]
          rfl
      | cons q more =>
          have hmore := ih (List.cons_ne_nil q more)
            fun r hr => h r (List.mem_cons_of_mem p hr)
          rw [String.intercalate_cons_cons, String.toList_append,
            String.toList_append, String.toList_singleton, List.append_assoc,
            List.cons_append, List.nil_append, splitAt_append hp, hmore]
          rfl

/-- Joined lines are found again. -/
theorem splitLines_joinLines {lines : List String} (hne : lines ≠ [])
    (h : ∀ l ∈ lines, '\n' ∉ l.toList) : splitLines (joinLines lines) = lines := by
  have hsplit : splitAt '\n' (joinLines lines).toList
      = lines.map String.toList := splitAt_intercalate hne h
  rw [splitLines, hsplit, List.map_map]
  exact (List.map_congr_left fun s _ => String.ofList_toList).trans
    (List.map_id _)

end Cutting

-- ================================================================ margins

/-- The least of some numbers is one of them and exceeds none. -/
theorem least_spec (n : Nat) (ns : List Nat) :
    least (n :: ns) ∈ n :: ns ∧ ∀ m ∈ n :: ns, least (n :: ns) ≤ m := by
  show ns.foldl min n ∈ n :: ns ∧ ∀ m ∈ n :: ns, ns.foldl min n ≤ m
  induction ns generalizing n with
  | nil => simp
  | cons k ns ih =>
      obtain ⟨hmem, hle⟩ := ih (min n k)
      rw [List.foldl_cons]
      refine ⟨?_, fun m hm => ?_⟩
      · rcases List.mem_cons.mp hmem with h | h
        · rw [h]
          rcases Nat.le_total n k with hk | hk
          · rw [Nat.min_eq_left hk]
            exact List.mem_cons_self
          · rw [Nat.min_eq_right hk]
            exact List.mem_cons_of_mem n List.mem_cons_self
        · exact List.mem_cons_of_mem n (List.mem_cons_of_mem k h)
      · have hmin := hle (min n k) List.mem_cons_self
        rcases List.mem_cons.mp hm with rfl | hm
        · exact Nat.le_trans hmin (Nat.min_le_left _ k)
        · rcases List.mem_cons.mp hm with rfl | hm
          · exact Nat.le_trans hmin (Nat.min_le_right n _)
          · exact hle m (List.mem_cons_of_mem _ hm)

theorem foldl_min_add (p : Nat) (ns : List Nat) (n : Nat) :
    (ns.map (· + p)).foldl min (n + p) = ns.foldl min n + p := by
  induction ns generalizing n with
  | nil => rfl
  | cons m ns ih =>
      have hmin : min (n + p) (m + p) = min n m + p := by omega
      rw [List.map_cons, List.foldl_cons, List.foldl_cons, hmin, ih]

theorem least_add (p : Nat) {ns : List Nat} (hne : ns ≠ []) :
    least (ns.map (· + p)) = least ns + p := by
  cases ns with
  | nil => exact absurd rfl hne
  | cons n ns => exact foldl_min_add p ns n

end NovelScript.Text
