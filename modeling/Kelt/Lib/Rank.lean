import Mathlib.Data.List.Count
import Mathlib.Data.List.Lex
import Mathlib.Data.List.Sort

/-!
# The place of an element in the sorted list

`rank xs x` is the number of elements of `xs` below `x`: the index of `x` once
the list is sorted, when it has no element twice. An element that is added or
removed moves those above it by one and no others.
-/

namespace Kelt

universe u

section Rank

variable {α : Type u} [LinearOrder α]

def rank (xs : List α) (x : α) : Nat :=
  xs.countP (fun y => decide (y < x))

theorem rank_perm {xs ys : List α} (h : xs.Perm ys) (x : α) :
    rank xs x = rank ys x :=
  h.countP_eq _

theorem rank_cons (y : α) (xs : List α) (x : α) :
    rank (y :: xs) x = rank xs x + if y < x then 1 else 0 := by
  rw [rank, List.countP_cons]
  simp [rank]

theorem rank_append_singleton (xs : List α) (y x : α) :
    rank (xs ++ [y]) x = rank xs x + if y < x then 1 else 0 := by
  rw [rank_perm (List.perm_append_singleton y xs), rank_cons]

theorem rank_erase [BEq α] [LawfulBEq α] {xs : List α} {y : α} (hy : y ∈ xs)
    (x : α) : rank xs x = rank (xs.erase y) x + if y < x then 1 else 0 := by
  rw [rank_perm (List.perm_cons_erase hy), rank_cons]

/-- Among the elements of the list the rank follows the order. -/
theorem rank_lt_rank {xs : List α} {x y : α} (hx : x ∈ xs) (hxy : x < y) :
    rank xs x < rank xs y := by
  rw [rank_erase hx x, rank_erase hx y, if_neg (lt_irrefl x), if_pos hxy]
  have hle : rank (xs.erase x) x ≤ rank (xs.erase x) y := by
    refine List.countP_mono_left fun z _ hz => ?_
    exact decide_eq_true ((of_decide_eq_true hz).trans hxy)
  omega

theorem rank_injOn {xs : List α} {x y : α} (hx : x ∈ xs) (hy : y ∈ xs)
    (h : rank xs x = rank xs y) : x = y := by
  obtain hlt | heq | hlt := lt_trichotomy x y
  · exact absurd h (rank_lt_rank hx hlt).ne
  · exact heq
  · exact absurd h (rank_lt_rank hy hlt).ne'

theorem idxOf_of_sorted [BEq α] [LawfulBEq α] {xs : List α}
    (hsorted : xs.Pairwise (· < ·)) {x : α} (hx : x ∈ xs) :
    xs.idxOf x = rank xs x := by
  induction xs with
  | nil => cases hx
  | cons y rest ih =>
      obtain ⟨hy, hrest⟩ := List.pairwise_cons.1 hsorted
      rw [rank_cons]
      by_cases hyx : y = x
      · subst hyx
        have hnone : rank rest y = 0 :=
          List.countP_eq_zero.2 fun z hz hzy =>
            (hy z hz).not_gt (of_decide_eq_true hzy)
        rw [List.idxOf_cons_self, hnone, if_neg (lt_irrefl y)]
      · have hmem : x ∈ rest := by
          cases hx with
          | head => exact absurd rfl hyx
          | tail _ hmem => exact hmem
        rw [List.idxOf_cons_ne rest hyx, ih hrest hmem, if_pos (hy x hmem)]

/-- The index in the sorted list. -/
theorem idxOf_insertionSort [BEq α] [LawfulBEq α] {xs : List α}
    (hnodup : xs.Nodup) {x : α} (hx : x ∈ xs) :
    (xs.insertionSort (· ≤ ·)).idxOf x = rank xs x := by
  have hperm := List.perm_insertionSort (· ≤ ·) xs
  have hle := List.pairwise_insertionSort (· ≤ ·) xs
  have hne : (xs.insertionSort (· ≤ ·)).Pairwise (· ≠ ·) :=
    hperm.nodup_iff.2 hnodup
  have hlt : (xs.insertionSort (· ≤ ·)).Pairwise (· < ·) :=
    hle.imp₂ (fun _ _ h hne => lt_of_le_of_ne h hne) hne
  rw [idxOf_of_sorted hlt (hperm.mem_iff.2 hx), rank_perm hperm]

end Rank

end Kelt
