import Mathlib.Data.List.Basic
import Mathlib.Tactic.Common
import Mathlib.Order.Nat
import Mathlib.Order.Lattice

/-!
# Binary search

`partitionPoint p xs` halves the list until it stands between the elements that
meet `p` and those that do not. Where no element meets `p` behind one that does
not, it is the first position that fails `p` (`partitionPoint_eq`). The two
searches of a sorted list are the cases `e < x` and `e ≤ x` (`bisectLeft_eq`,
`filter_eq_take_bisectRight`).
-/

namespace Kelt

universe u v

section PartitionPoint

variable {α : Type u} {p : α → Bool} {xs : List α}

/-- The search over the positions from `lo` up to `hi`. The fuel bounds the
number of halvings. -/
def partitionLoop (p : α → Bool) (xs : List α) : ℕ → ℕ → ℕ → ℕ
  | 0, lo, _ => lo
  | fuel + 1, lo, hi =>
      if lo < hi then
        let mid := (lo + hi) / 2
        if xs[mid]?.any p then partitionLoop p xs fuel (mid + 1) hi
        else partitionLoop p xs fuel lo mid
      else lo

def partitionPoint (p : α → Bool) (xs : List α) : ℕ :=
  partitionLoop p xs xs.length 0 xs.length

/-- All positions before `lo` meet `p`, and none from `hi` on. -/
structure Between (p : α → Bool) (xs : List α) (lo hi : ℕ) : Prop where
  le : lo ≤ hi
  le_length : hi ≤ xs.length
  before : ∀ i < lo, ∀ x ∈ xs[i]?, p x = true
  behind : ∀ i, hi ≤ i → ∀ x ∈ xs[i]?, p x = false

theorem between_start (p : α → Bool) (xs : List α) :
    Between p xs 0 xs.length where
  le := Nat.zero_le _
  le_length := le_refl _
  before := fun i hi => absurd hi (Nat.not_lt_zero i)
  behind := by
    intro i hi x hx
    rw [List.getElem?_eq_none hi] at hx
    cases hx

/-- Where `p` holds of an element, it holds of those before. -/
def Partitioned (p : α → Bool) (xs : List α) : Prop :=
  xs.Pairwise fun x y => p y = true → p x = true

theorem Partitioned.of_le (h : Partitioned p xs) {i j : ℕ} (hij : i ≤ j)
    (hi : i < xs.length) (hj : j < xs.length) (hp : p xs[j] = true) :
    p xs[i] = true := by
  rcases hij.eq_or_lt with rfl | hlt
  · exact hp
  · exact List.pairwise_iff_getElem.1 h i j hi hj hlt hp

/-- Halving keeps the point between. -/
theorem Between.step {lo hi : ℕ} (h : Between p xs lo hi)
    (hp : Partitioned p xs) (hlt : lo < hi) :
    if xs[(lo + hi) / 2]?.any p = true then
      Between p xs ((lo + hi) / 2 + 1) hi
    else Between p xs lo ((lo + hi) / 2) := by
  have hmid : (lo + hi) / 2 < xs.length := by
    have := h.le_length
    omega
  rw [List.getElem?_eq_getElem hmid, Option.any_some]
  split
  · rename_i htrue
    refine ⟨by omega, h.le_length, fun i hi' x hx => ?_, h.behind⟩
    obtain ⟨hlen, rfl⟩ := List.getElem?_eq_some_iff.1 hx
    exact hp.of_le (Nat.le_of_lt_succ hi') hlen hmid htrue
  · rename_i hfalse
    refine ⟨by omega, hmid.le, h.before, fun i hi' x hx => ?_⟩
    obtain ⟨hlen, rfl⟩ := List.getElem?_eq_some_iff.1 hx
    by_contra htrue
    exact hfalse (hp.of_le hi' hmid hlen (by simpa using htrue))

theorem between_partitionLoop (hp : Partitioned p xs) {fuel lo hi : ℕ}
    (h : Between p xs lo hi) (hfuel : hi - lo ≤ fuel) :
    Between p xs (partitionLoop p xs fuel lo hi)
      (partitionLoop p xs fuel lo hi) := by
  induction fuel generalizing lo hi with
  | zero =>
      have heq : lo = hi := by
        have := h.le
        omega
      subst heq
      exact h
  | succ fuel ih =>
      rw [partitionLoop]
      by_cases hlt : lo < hi
      · have hstep := h.step hp hlt
        rw [if_pos hlt]
        dsimp only
        split at hstep
        · rename_i hany
          rw [if_pos hany]
          exact ih hstep (by omega)
        · rename_i hany
          rw [if_neg hany]
          exact ih hstep (by omega)
      · have heq : lo = hi := by
          have := h.le
          omega
        rw [if_neg hlt]
        subst heq
        exact h

/-- The search ends at the first element that fails `p`. -/
theorem partitionPoint_eq (hp : Partitioned p xs) :
    partitionPoint p xs = xs.findIdx fun x => !p x := by
  have h := between_partitionLoop hp (between_start p xs) (le_refl _)
  unfold partitionPoint
  generalize partitionLoop p xs xs.length 0 xs.length = n at h
  rcases h.le_length.eq_or_lt with heq | hlt
  · rw [heq, eq_comm, List.findIdx_eq_length]
    intro x hx
    obtain ⟨i, hi, rfl⟩ := List.getElem_of_mem hx
    rw [h.before i (heq ▸ hi) _ (List.getElem?_eq_getElem hi)]
    rfl
  · rw [eq_comm, List.findIdx_eq hlt]
    constructor
    · rw [h.behind n (le_refl n) _ (List.getElem?_eq_getElem hlt)]
      rfl
    · intro i hi
      rw [h.before i hi _ (List.getElem?_eq_getElem (hi.trans hlt))]
      rfl

/-- The elements that meet `p` are those before the point. -/
theorem filter_eq_take (hp : Partitioned p xs) :
    xs.filter p = xs.take (partitionPoint p xs) := by
  rw [partitionPoint_eq hp, ← List.takeWhile_eq_take_findIdx_not]
  induction xs with
  | nil => rfl
  | cons x xs ih =>
      obtain ⟨hx, hxs⟩ := List.pairwise_cons.1 hp
      cases hpx : p x with
      | true =>
          rw [List.filter_cons_of_pos hpx, List.takeWhile_cons_of_pos hpx,
            ih hxs]
      | false =>
          rw [List.filter_cons_of_neg (by simp [hpx]),
            List.takeWhile_cons_of_neg (by simp [hpx]), List.filter_eq_nil_iff]
          intro y hy hpy
          rw [hx y hy hpy] at hpx
          cases hpx

end PartitionPoint

section Bisect

variable {α : Type u} [LinearOrder α] {β : Type v}

/-- `bisect.bisect_left` -/
def bisectLeft (xs : List α) (x : α) : ℕ :=
  partitionPoint (fun e => decide (e < x)) xs

/-- `bisect.bisect_right` -/
def bisectRight (xs : List α) (x : α) : ℕ :=
  partitionPoint (fun e => decide (e ≤ x)) xs

/-- The first element at or above `x`. -/
theorem bisectLeft_eq {xs : List α} (h : xs.Pairwise (· ≤ ·)) (x : α) :
    bisectLeft xs x = xs.findIdx fun e => decide (x ≤ e) := by
  unfold bisectLeft
  rw [partitionPoint_eq]
  · simp only [← decide_not, not_lt]
  · exact h.imp fun hab hb =>
      decide_eq_true (lt_of_le_of_lt hab (of_decide_eq_true hb))

theorem partitioned_le {xs : List α} (h : xs.Pairwise (· ≤ ·)) (x : α) :
    Partitioned (fun e => decide (e ≤ x)) xs :=
  h.imp fun hab hb => decide_eq_true (le_trans hab (of_decide_eq_true hb))

/-- The elements with a key at or below `x` are those before the position. -/
theorem filter_eq_take_bisectRight {f : β → α} {xs : List β}
    (h : (xs.map f).Pairwise (· ≤ ·)) (x : α) :
    xs.filter (fun e => decide (f e ≤ x)) =
      xs.take (bisectRight (xs.map f) x) := by
  have hp : Partitioned (fun e => decide (f e ≤ x)) xs :=
    List.pairwise_map.1 (partitioned_le h x)
  rw [filter_eq_take hp, partitionPoint_eq hp]
  unfold bisectRight
  rw [partitionPoint_eq (partitioned_le h x), List.findIdx_map]
  rfl

theorem bisectRight_le {xs : List α} (h : xs.Pairwise (· ≤ ·)) (x : α) :
    bisectRight xs x ≤ xs.length := by
  unfold bisectRight
  rw [partitionPoint_eq (partitioned_le h x)]
  exact List.findIdx_le_length

end Bisect

end Kelt
