import Mathlib.Data.List.Nodup
import Mathlib.Data.List.Perm.Subperm
import Mathlib.Tactic

/-!
# Changing the elements of a list at places

Elements are taken out of a list together with their places, put in another
order, and some of them are then changed where they stand in the list. Up to
order the list is then the changed ones, and the others as they were
(`changeAt_perm`, `changeAt_take_perm`).

Where some but not all of the first are taken, two that differ can be put so that
others are taken (`not_take_perm`).
-/

namespace Kelt

universe u

section Places

variable {α : Type u}

/-- The list with the elements at the places changed. -/
def changeAt (f : α → α) (places : List ℕ) (xs : List α) : List α :=
  xs.zipIdx.map fun x => if x.2 ∈ places then f x.1 else x.1

/-- The elements with a property, with their places. -/
def placed (p : α → Bool) (xs : List α) : List (α × ℕ) :=
  xs.zipIdx.filter fun x => p x.1

theorem map_fst_placed (p : α → Bool) (xs : List α) :
    (placed p xs).map Prod.fst = xs.filter p := by
  unfold placed
  rw [← Function.comp_def p Prod.fst, ← List.filter_map,
    List.zipIdx_map_fst]

theorem nodup_zipIdx (xs : List α) : xs.zipIdx.Nodup := by
  refine List.Nodup.of_map Prod.snd ?_
  rw [List.zipIdx_map_snd]
  exact List.nodup_range'

theorem eq_of_snd_eq {xs : List α} {x y : α × ℕ} (hx : x ∈ xs.zipIdx)
    (hy : y ∈ xs.zipIdx) (h : x.2 = y.2) : x = y := by
  obtain ⟨x, i⟩ := x
  obtain ⟨y, j⟩ := y
  have hij : i = j := h
  subst hij
  have hxi := List.mk_mem_zipIdx_iff_getElem?.1 hx
  have hyi := List.mk_mem_zipIdx_iff_getElem?.1 hy
  rw [hxi, Option.some.injEq] at hyi
  rw [hyi]

/-- A place is among those of some elements only if its element is. -/
theorem snd_mem_iff {xs : List α} {chosen : List (α × ℕ)}
    (h : chosen.Subperm xs.zipIdx) {x : α × ℕ} (hx : x ∈ xs.zipIdx) :
    x.2 ∈ chosen.map Prod.snd ↔ x ∈ chosen := by
  constructor
  · intro hmem
    obtain ⟨y, hy, hyx⟩ := List.mem_map.1 hmem
    rw [← eq_of_snd_eq (h.subset hy) hx hyx]
    exact hy
  · exact List.mem_map_of_mem

/-- The changed list, up to order. -/
theorem changeAt_perm (f : α → α) {xs : List α} {chosen rest : List (α × ℕ)}
    (h : (chosen ++ rest).Perm xs.zipIdx) :
    (changeAt f (chosen.map Prod.snd) xs).Perm
      (chosen.map (fun x => f x.1) ++ rest.map Prod.fst) := by
  have hchosen : chosen.Subperm xs.zipIdx :=
    ((List.sublist_append_left chosen rest).subperm).trans h.subperm
  have hnodup : (chosen ++ rest).Nodup := h.nodup_iff.2 (nodup_zipIdx xs)
  unfold changeAt
  refine (h.symm.map _).trans (List.Perm.of_eq ?_)
  rw [List.map_append]
  congr 1
  · refine List.map_congr_left fun x hx => if_pos ?_
    exact List.mem_map_of_mem hx
  · refine List.map_congr_left fun x hx => if_neg ?_
    have hmem : x ∈ xs.zipIdx :=
      h.subset (List.mem_append_right chosen hx)
    rw [snd_mem_iff hchosen hmem]
    exact fun hx' => (List.disjoint_of_nodup_append hnodup) hx' hx

/-- The first elements with a property changed, up to order. -/
theorem changeAt_take_perm (f : α → α) (p : α → Bool) (n : ℕ) (xs : List α) :
    (changeAt f (((placed p xs).take n).map Prod.snd) xs).Perm
      (((xs.filter p).take n).map f ++
        ((xs.filter p).drop n ++ xs.filter fun x => !p x)) := by
  have hsplit : ((placed p xs).take n ++
      ((placed p xs).drop n ++ placed (fun x => !p x) xs)).Perm
        xs.zipIdx := by
    rw [← List.append_assoc, List.take_append_drop]
    exact List.filter_append_perm (fun x => p x.1) xs.zipIdx
  have htake : ((placed p xs).take n).map (fun x => f x.1) =
      ((xs.filter p).take n).map f := by
    rw [← map_fst_placed, ← List.map_take, List.map_map]
    rfl
  have hperm := changeAt_perm f hsplit
  rw [htake, List.map_append, List.map_drop, map_fst_placed,
    map_fst_placed] at hperm
  exact hperm

end Places

section First

variable {α : Type u}

/-- Two different elements can both be brought to the front. -/
theorem exists_perm_cons_append {xs : List α} {a b : α} (ha : a ∈ xs)
    (hb : b ∈ xs) (hab : a ≠ b) :
    ∃ rest, xs.Perm (a :: (rest ++ [b])) := by
  classical
  have hb' : b ∈ xs.erase a := (List.mem_erase_of_ne (Ne.symm hab)).2 hb
  refine ⟨(xs.erase a).erase b, ?_⟩
  refine (List.perm_cons_erase ha).trans (List.Perm.cons a ?_)
  exact (List.perm_cons_erase hb').trans (List.perm_append_singleton b _).symm

/-- The first elements are others in another order, where some but not all are
taken and the two at the ends differ. -/
theorem not_take_perm {a b : α} (hab : a ≠ b) (rest : List α) {n : ℕ}
    (hpos : 0 < n) (hn : n < rest.length + 2) :
    ¬ ((a :: (rest ++ [b])).take n).Perm ((b :: (rest ++ [a])).take n) := by
  obtain ⟨n, rfl⟩ := Nat.exists_eq_add_of_lt hpos
  have hle : n ≤ rest.length := by omega
  rw [Nat.zero_add, List.take_succ_cons, List.take_succ_cons,
    List.take_append_of_le_length hle, List.take_append_of_le_length hle]
  intro hperm
  have hsingle : [a].Perm [b] :=
    (List.perm_append_right_iff (rest.take n)).1 hperm
  exact hab (List.singleton_perm_singleton.1 hsingle)

end First

end Kelt
