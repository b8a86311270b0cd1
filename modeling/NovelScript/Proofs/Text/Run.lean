/-
Where a run of elements ends. Words, blanks, names and blocks are all cut
off a list in the same way: everything up to the first element that the run
does not allow.
-/
import Mathlib.Data.List.TakeWhile

namespace NovelScript

/-- What holds of every element of a list is decided by going through the
list, also where all values of the type could be gone through. -/
instance (priority := high) decidableForallMem {α : Type} {p : α → Prop}
    [DecidablePred p] (xs : List α) : Decidable (∀ x ∈ xs, p x) :=
  List.decidableBAll p xs

section

variable {α : Type} {p : α → Bool}

/-- A run ends in front of what it does not allow. -/
theorem takeWhile_stop {xs ys : List α} (hx : ∀ a ∈ xs, p a = true)
    (hy : ∀ a ∈ ys.head?, p a = false) : (xs ++ ys).takeWhile p = xs := by
  rw [List.takeWhile_append_of_pos hx]
  cases ys with
  | nil => simp
  | cons y ys =>
      have hp : p y = false := hy y rfl
      rw [List.takeWhile_cons_of_neg (by simp [hp]), List.append_nil]

/-- Behind a run comes what it does not allow. -/
theorem dropWhile_stop {xs ys : List α} (hx : ∀ a ∈ xs, p a = true)
    (hy : ∀ a ∈ ys.head?, p a = false) : (xs ++ ys).dropWhile p = ys := by
  rw [List.dropWhile_append_of_pos hx]
  cases ys with
  | nil => rfl
  | cons y ys =>
      have hp : p y = false := hy y rfl
      rw [List.dropWhile_cons_of_neg (by simp [hp])]

/-- A run behind which something is left over ends at the same place
whatever is put behind the rest. -/
theorem takeWhile_append_of_stop {xs ys : List α}
    (hy : ∀ a ∈ ys.head?, p a = false) :
    (xs ++ ys).takeWhile p = xs.takeWhile p := by
  conv => lhs; rw [← List.takeWhile_append_dropWhile (p := p) (l := xs)]
  rw [List.append_assoc]
  refine takeWhile_stop (fun a ha => List.mem_takeWhile_imp ha) ?_
  intro a ha
  cases hd : xs.dropWhile p with
  | nil => rw [hd] at ha; exact hy a ha
  | cons b bs =>
      rw [hd] at ha
      obtain rfl : b = a := by simpa using ha
      have := List.head?_dropWhile_not p xs
      rw [hd] at this
      simpa using this

theorem dropWhile_append_of_stop {xs ys : List α}
    (hy : ∀ a ∈ ys.head?, p a = false) :
    (xs ++ ys).dropWhile p = xs.dropWhile p ++ ys := by
  have h := List.takeWhile_append_dropWhile (p := p) (l := xs ++ ys)
  rw [takeWhile_append_of_stop hy] at h
  have h' := List.takeWhile_append_dropWhile (p := p) (l := xs)
  rw [← List.append_cancel_left_eq (xs.takeWhile p), h,
    ← List.append_assoc, h']

/-- What is left over begins with something the run does not allow. -/
theorem head_dropWhile (p : α → Bool) (xs : List α) :
    ∀ a ∈ (xs.dropWhile p).head?, p a = false := by
  intro a ha
  have h := List.head?_dropWhile_not p xs
  rw [Option.mem_def.mp ha] at h
  simpa using h

end

end NovelScript
