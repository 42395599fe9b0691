-- Items that are put into batches of a fixed size, one after the other. A batch goes out
-- when it is full, and what is left at the end is shorter than a batch.
import Mathlib.Data.List.Basic

open List

namespace Batches

variable {α : Type}

/-- The items go into the open batch. Yields the batches that got full, and the open one. -/
def fill (n : Nat) : List α → List α → List (List α) × List α
  | batch, [] => ([], batch)
  | batch, x :: xs =>
    if n ≤ (batch ++ [x]).length then
      ((batch ++ [x]) :: (fill n [] xs).1, (fill n [] xs).2)
    else fill n (batch ++ [x]) xs

/-- A batch that holds something. -/
def leftover (batch : List α) : List (List α) := if batch.isEmpty then [] else [batch]

/-- The items in batches of `n`, the last one with what is left. -/
def inBatches (n : Nat) (xs : List α) : List (List α) :=
  (fill n [] xs).1 ++ leftover (fill n [] xs).2

@[simp] theorem fill_nil (n : Nat) (batch : List α) : fill n batch [] = ([], batch) := rfl

variable {n : Nat} {batch : List α} {rest : List α} {x : α}

theorem fill_full (h : n ≤ (batch ++ [x]).length) (xs : List α) :
    fill n batch (x :: xs) = ((batch ++ [x]) :: (fill n [] xs).1, (fill n [] xs).2) := by
  rw [fill, if_pos h]

theorem fill_open (h : ¬n ≤ (batch ++ [x]).length) (xs : List α) :
    fill n batch (x :: xs) = fill n (batch ++ [x]) xs := by
  rw [fill, if_neg h]

theorem fill_append (n : Nat) (batch xs ys : List α) :
    fill n batch (xs ++ ys) =
      ((fill n batch xs).1 ++ (fill n (fill n batch xs).2 ys).1,
        (fill n (fill n batch xs).2 ys).2) := by
  induction xs generalizing batch with
  | nil => simp
  | cons x xs ih =>
    rw [cons_append]
    by_cases h : n ≤ (batch ++ [x]).length
    · rw [fill_full h, fill_full h, ih]
      rfl
    · rw [fill_open h, fill_open h, ih]

theorem fill_flatten (n : Nat) (batch xs : List α) :
    (fill n batch xs).1.flatten ++ (fill n batch xs).2 = batch ++ xs := by
  induction xs generalizing batch with
  | nil => simp
  | cons x xs ih =>
    by_cases h : n ≤ (batch ++ [x]).length
    · rw [fill_full h, flatten_cons, append_assoc, ih]
      simp
    · rw [fill_open h, ih]
      simp

theorem length_fill_rest (xs : List α) (h : batch.length < n) :
    (fill n batch xs).2.length = (batch.length + xs.length) % n := by
  induction xs generalizing batch with
  | nil => simp [Nat.mod_eq_of_lt h]
  | cons x xs ih =>
    have hl : (batch ++ [x]).length = batch.length + 1 := by simp
    by_cases hf : n ≤ (batch ++ [x]).length
    · have heq : batch.length + (x :: xs).length = n + xs.length := by
        rw [length_cons]
        omega
      rw [fill_full hf, ih (by simp; omega), heq]
      simp
    · rw [fill_open hf, ih (by omega), hl, length_cons]
      congr 1
      omega

theorem length_of_mem_fill (xs : List α) (h : batch.length < n) :
    ∀ b ∈ (fill n batch xs).1, b.length = n := by
  induction xs generalizing batch with
  | nil => simp
  | cons x xs ih =>
    have hl : (batch ++ [x]).length = batch.length + 1 := by simp
    by_cases hf : n ≤ (batch ++ [x]).length
    · rw [fill_full hf]
      intro b hb
      rcases mem_cons.mp hb with rfl | hb
      · omega
      · exact ih (by simp; omega) b hb
    · rw [fill_open hf]
      exact ih (by omega)

theorem flatten_leftover (batch : List α) : (leftover batch).flatten = batch := by
  cases batch <;> simp [leftover]

theorem flatten_inBatches (n : Nat) (xs : List α) : (inBatches n xs).flatten = xs := by
  rw [inBatches, flatten_append, flatten_leftover, fill_flatten, nil_append]

section

variable (hpos : 0 < n) (xs : List α)

include hpos xs

theorem length_le_of_mem_inBatches : ∀ b ∈ inBatches n xs, b.length ≤ n := by
  intro b hb
  rcases mem_append.mp hb with hb | hb
  · exact Nat.le_of_eq (length_of_mem_fill xs (by simpa using hpos) b hb)
  · have hr := @length_fill_rest α n [] xs (by simpa using hpos)
    have hl := Nat.mod_lt (([] : List α).length + xs.length) hpos
    unfold leftover at hb
    split at hb
    · simp at hb
    · rw [mem_singleton.mp hb]
      omega

theorem ne_nil_of_mem_inBatches : ∀ b ∈ inBatches n xs, b ≠ [] := by
  intro b hb
  rcases mem_append.mp hb with hb | hb
  · have hl := length_of_mem_fill xs (by simpa using hpos) b hb
    rintro rfl
    rw [length_nil] at hl
    omega
  · unfold leftover at hb
    split at hb
    · simp at hb
    · rename_i hs
      rw [mem_singleton.mp hb]
      simpa using hs

theorem leftover_eq_nil_iff : leftover (fill n [] xs).2 = [] ↔ xs.length % n = 0 := by
  have hr := @length_fill_rest α n [] xs (by simpa using hpos)
  simp only [length_nil, Nat.zero_add] at hr
  rw [← hr, length_eq_zero_iff]
  cases (fill n [] xs).2 <;> simp [leftover]

end

theorem fill_piece {piece : List α} (hl : (batch ++ piece).length = n) (hs : piece ≠ [])
    (xs : List α) :
    fill n batch (piece ++ xs) = ((batch ++ piece) :: (fill n [] xs).1, (fill n [] xs).2) := by
  induction piece generalizing batch with
  | nil => exact absurd rfl hs
  | cons x piece ih =>
    have ha : batch ++ x :: piece = (batch ++ [x]) ++ piece := by simp
    rw [cons_append, ha]
    rw [ha, length_append] at hl
    cases piece with
    | nil =>
      rw [length_nil] at hl
      rw [fill_full (by omega)]
      simp
    | cons y piece =>
      rw [length_cons] at hl
      rw [fill_open (by omega)]
      exact ih (by rw [length_append, length_cons]; omega) (by simp)

theorem fill_short (h : (batch ++ rest).length < n) : fill n batch rest = ([], batch ++ rest) := by
  induction rest generalizing batch with
  | nil => simp
  | cons x rest ih =>
    have ha : batch ++ x :: rest = (batch ++ [x]) ++ rest := by simp
    rw [ha, length_append] at h
    rw [fill_open (by omega), ih (by rw [length_append]; omega), ha]

theorem inBatches_of_pieces (hpos : 0 < n) {pieces : List (List α)}
    (hpi : ∀ piece ∈ pieces, piece.length = n) (hr : rest.length < n) :
    inBatches n (pieces.flatten ++ rest) = pieces ++ leftover rest := by
  induction pieces with
  | nil =>
    unfold inBatches
    rw [flatten_nil, nil_append, fill_short (by simpa using hr)]
    rfl
  | cons piece pieces ih =>
    have hl := hpi piece mem_cons_self
    have hs : piece ≠ [] := by
      rintro rfl
      rw [length_nil] at hl
      omega
    have ht := ih fun p hp => hpi p (.tail _ hp)
    unfold inBatches at ht ⊢
    rw [flatten_cons, append_assoc, fill_piece (by simpa using hl) hs, nil_append, cons_append, ht]
    rfl

theorem length_of_mem_dropLast_inBatches (hpos : 0 < n) (xs : List α) :
    ∀ b ∈ (inBatches n xs).dropLast, b.length = n := by
  intro b hb
  have hf : ∀ b ∈ (fill n [] xs).1, b.length = n := length_of_mem_fill xs (by simpa using hpos)
  unfold inBatches leftover at hb
  split at hb
  · rw [append_nil] at hb
    exact hf b (dropLast_subset _ hb)
  · rw [dropLast_concat] at hb
    exact hf b hb

end Batches
