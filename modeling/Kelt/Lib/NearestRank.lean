import Mathlib.Algebra.Order.Floor.Ring
import Mathlib.Algebra.Order.Floor.Semiring
import Mathlib.Data.List.Sort
import Mathlib.Tactic.Linarith

/-!
# Ranks in a list

`roundEven` rounds to the nearest integer and a half to the even one; it is off
by at most a half and keeps the order. In the list of the elements in ascending
order, `s[k]` is at most `v` if and only if more than `k` elements are
(`lt_countP_iff`). So a share `q` of the list is at or below one of its elements
if and only if the ascending list does not grow between that element and the
nearest rank (`share_le_iff`).
-/

namespace Kelt

universe u v

section Round

variable {K : Type u} [Field K] [LinearOrder K] [FloorRing K]

/-- The nearest integer, of two the even one. -/
def roundEven (x : K) : Int :=
  if 2 * Int.fract x < 1 ∨ 2 * Int.fract x = 1 ∧ Even ⌊x⌋ then ⌊x⌋ else ⌊x⌋ + 1

theorem floor_le_roundEven (x : K) : ⌊x⌋ ≤ roundEven x := by
  unfold roundEven
  split
  · exact le_refl _
  · omega

theorem roundEven_le_floor_add_one (x : K) : roundEven x ≤ ⌊x⌋ + 1 := by
  unfold roundEven
  split
  · omega
  · exact le_refl _

theorem roundEven_nonneg {x : K} (h : 0 ≤ x) : 0 ≤ roundEven x :=
  (Int.floor_nonneg.2 h).trans (floor_le_roundEven x)

variable [IsStrictOrderedRing K]

theorem sub_half_le_roundEven (x : K) : x - 1 / 2 ≤ (roundEven x : K) := by
  have hsum := Int.floor_add_fract x
  have hlt := Int.fract_lt_one x
  unfold roundEven
  split
  · rename_i hdown
    rcases hdown with h | ⟨h, -⟩
    · linarith
    · linarith
  · push_cast
    linarith

theorem roundEven_mono {x y : K} (h : x ≤ y) : roundEven x ≤ roundEven y := by
  rcases (Int.floor_mono h).lt_or_eq with hlt | heq
  · have hx := roundEven_le_floor_add_one x
    have hy := floor_le_roundEven y
    omega
  · have hfract : Int.fract x ≤ Int.fract y := by
      rw [Int.fract, Int.fract, heq]
      linarith
    unfold roundEven
    rw [← heq]
    split_ifs with hx hy hy
    · exact le_refl _
    · omega
    · refine absurd ?_ hx
      rcases hy with hlt | ⟨heq', heven⟩
      · exact .inl (by linarith)
      · rcases hfract.lt_or_eq with hlt | hsame
        · exact .inl (by linarith)
        · exact .inr ⟨by rw [hsame, heq'], heven⟩
    · exact le_refl _

theorem roundEven_natCast (n : ℕ) : roundEven (n : K) = n := by
  have hfract : Int.fract (n : K) = 0 := Int.fract_natCast n
  unfold roundEven
  rw [if_pos (.inl (by rw [hfract]; linarith)), Int.floor_natCast]

end Round

section Ascending

variable {α : Type u} [LinearOrder α]

/-- `sorted(xs)` -/
def ascending (xs : List α) : List α :=
  xs.mergeSort fun a b => decide (a ≤ b)

theorem ascending_perm (xs : List α) : (ascending xs).Perm xs :=
  List.mergeSort_perm xs _

@[simp] theorem length_ascending (xs : List α) :
    (ascending xs).length = xs.length :=
  (ascending_perm xs).length_eq

theorem ascending_pairwise (xs : List α) :
    (ascending xs).Pairwise (· ≤ ·) := by
  have htrans : ∀ a b c : α, decide (a ≤ b) = true → decide (b ≤ c) = true →
      decide (a ≤ c) = true := by
    intro a b c hab hbc
    simp only [decide_eq_true_eq] at *
    exact hab.trans hbc
  have htotal : ∀ a b : α, (decide (a ≤ b) || decide (b ≤ a)) = true := by
    intro a b
    simp only [Bool.or_eq_true, decide_eq_true_eq]
    exact le_total a b
  exact (List.pairwise_mergeSort htrans htotal xs).imp
    fun hab => of_decide_eq_true hab

/-- The order in which the elements are given does not matter. -/
theorem ascending_congr {xs ys : List α} (h : xs.Perm ys) :
    ascending xs = ascending ys :=
  List.Perm.eq_of_pairwise (fun _ _ _ _ hab hba => le_antisymm hab hba)
    (ascending_pairwise xs) (ascending_pairwise ys)
    ((ascending_perm xs).trans (h.trans (ascending_perm ys).symm))

theorem ascending_eq_self {xs : List α} (h : xs.Pairwise (· ≤ ·)) :
    ascending xs = xs :=
  List.Perm.eq_of_pairwise (fun _ _ _ _ hab hba => le_antisymm hab hba)
    (ascending_pairwise xs) h (ascending_perm xs)

theorem getElem_le_getElem {s : List α} (hs : s.Pairwise (· ≤ ·)) {i j : ℕ}
    (hij : i ≤ j) (hj : j < s.length) : s[i] ≤ s[j] := by
  rcases hij.eq_or_lt with rfl | hlt
  · exact le_refl _
  · exact List.pairwise_iff_getElem.1 hs i j (hlt.trans hj) hj hlt

/-- More than `k` elements are at or below what the one at position `k` is at or
below. -/
theorem lt_countP_iff {s : List α} (hs : s.Pairwise (· ≤ ·)) {k : ℕ}
    (hk : k < s.length) (v : α) :
    k < s.countP (fun x => decide (x ≤ v)) ↔ s[k] ≤ v := by
  induction s generalizing k with
  | nil => cases hk
  | cons x s ih =>
      rw [List.pairwise_cons] at hs
      obtain ⟨hx, hs⟩ := hs
      by_cases hxv : x ≤ v
      · rw [List.countP_cons_of_pos (by simpa using hxv)]
        cases k with
        | zero => exact iff_of_true (Nat.succ_pos _) hxv
        | succ k =>
            rw [Nat.succ_lt_succ_iff, List.getElem_cons_succ]
            exact ih hs (Nat.lt_of_succ_lt_succ hk)
      · have hnone : s.countP (fun x => decide (x ≤ v)) = 0 := by
          rw [List.countP_eq_zero]
          intro y hy hyv
          exact hxv ((hx y hy).trans (of_decide_eq_true hyv))
        rw [List.countP_cons_of_neg (by simpa using hxv), hnone]
        refine iff_of_false (Nat.not_lt_zero k) fun h => hxv ?_
        exact (getElem_le_getElem (List.pairwise_cons.2 ⟨hx, hs⟩)
          (Nat.zero_le k) hk).trans h

end Ascending

section Share

variable {α : Type u} [LinearOrder α] {K : Type v} [Field K] [LinearOrder K]
  [IsStrictOrderedRing K] [FloorRing K]

/-- The share `q` of the list is at or below `v`. -/
def ShareAtOrBelow (q : K) (xs : List α) (v : α) : Prop :=
  q * xs.length ≤ xs.countP (fun x => decide (x ≤ v))

/-- A share is at or below `v` if and only if the element of its nearest rank
is. -/
theorem shareAtOrBelow_iff {q : K} (hq : q ≤ 1) (xs : List α) (v : α) :
    ShareAtOrBelow q xs v ↔
      ∀ k < ⌈q * xs.length⌉₊, ∀ x ∈ (ascending xs)[k]?, x ≤ v := by
  have hcount := (ascending_perm xs).countP_eq fun x => decide (x ≤ v)
  have hceil : ⌈q * xs.length⌉₊ ≤ (ascending xs).length := by
    rw [length_ascending, Nat.ceil_le]
    exact mul_le_of_le_one_left (Nat.cast_nonneg _) hq
  unfold ShareAtOrBelow
  rw [← Nat.ceil_le, ← hcount]
  constructor
  · intro h k hk x hx
    obtain ⟨hlt, rfl⟩ := List.getElem?_eq_some_iff.1 hx
    exact (lt_countP_iff (ascending_pairwise xs) hlt v).1 (hk.trans_le h)
  · intro h
    by_contra hnot
    have hlt := not_le.1 hnot
    have hlast := hlt.trans_le hceil
    exact absurd
      ((lt_countP_iff (ascending_pairwise xs) hlast v).2
        (h _ hlt _ (List.getElem?_eq_getElem hlast)))
      (lt_irrefl _)

/-- The share `q` is at or below the element at position `r` if and only if the
ascending list does not grow from there to the nearest rank. -/
theorem share_le_iff {q : K} (hq : q ≤ 1) (xs : List α) {r : ℕ} {v : α}
    (hr : (ascending xs)[r]? = some v) :
    ShareAtOrBelow q xs v ↔
      ∀ k, r ≤ k → k < ⌈q * xs.length⌉₊ → (ascending xs)[k]? = some v := by
  have hsorted := ascending_pairwise xs
  obtain ⟨hlt, rfl⟩ := List.getElem?_eq_some_iff.1 hr
  rw [shareAtOrBelow_iff hq]
  have hceil : ⌈q * xs.length⌉₊ ≤ (ascending xs).length := by
    rw [length_ascending, Nat.ceil_le]
    exact mul_le_of_le_one_left (Nat.cast_nonneg _) hq
  constructor
  · intro h k hrk hk
    have hlen := hk.trans_le hceil
    rw [List.getElem?_eq_getElem hlen]
    exact congrArg some (le_antisymm
      (h k hk _ (List.getElem?_eq_getElem hlen))
      (getElem_le_getElem hsorted hrk hlen))
  · intro h k hk x hx
    obtain ⟨hlen, rfl⟩ := List.getElem?_eq_some_iff.1 hx
    rcases le_total r k with hrk | hkr
    · have hsame := h k hrk hk
      rw [List.getElem?_eq_getElem hlen] at hsame
      exact (Option.some.inj hsame).le
    · exact getElem_le_getElem hsorted hkr hlt

end Share

end Kelt
