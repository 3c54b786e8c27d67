import Mathlib.Data.List.DropRight
import Mathlib.Tactic

/-!
# Layered lookups

A list of references names partial maps that lie one over the other: a key has
the value that the last of them gives it. A map that is named twice lies there
twice.

`lookup_set` and `lookup_unset_iff` say what one sees of a change of one map: a
value that was set is seen when no later map gives another, a key that was
removed is gone when no other map has it.
-/

namespace Kelt
namespace Layers

universe u v w

section Layers

variable {ρ : Type u} {κ : Type v} {ν : Type w}

/-- The value that the last layer with the key gives it. -/
def lookup (data : ρ → κ → Option ν) : List ρ → κ → Option ν
  | [], _ => none
  | r :: rest, k => (lookup data rest k).or (data r k)

theorem lookup_append
    (data : ρ → κ → Option ν) (below above : List ρ) (k : κ) :
    lookup data (below ++ above) k =
      (lookup data above k).or (lookup data below k) := by
  induction below with
  | nil => simp [lookup]
  | cons r rest ih =>
      rw [List.cons_append, lookup, lookup, ih, Option.or_assoc]

theorem lookup_concat
    (data : ρ → κ → Option ν) (below : List ρ) (r : ρ) (k : κ) :
    lookup data (below ++ [r]) k = (data r k).or (lookup data below k) :=
  lookup_append data below [r] k

theorem lookup_eq_none_iff
    {data : ρ → κ → Option ν} {refs : List ρ} {k : κ} :
    lookup data refs k = none ↔ ∀ r ∈ refs, data r k = none := by
  induction refs with
  | nil => simp [lookup]
  | cons r rest ih =>
      rw [lookup, Option.or_eq_none_iff, ih, List.forall_mem_cons, and_comm]

theorem lookup_congr
    {data data' : ρ → κ → Option ν} {refs : List ρ} {k : κ}
    (h : ∀ r ∈ refs, data' r k = data r k) :
    lookup data' refs k = lookup data refs k := by
  induction refs with
  | nil => rfl
  | cons r rest ih =>
      rw [List.forall_mem_cons] at h
      rw [lookup, lookup, ih h.2, h.1]

/-- A found value comes from some layer, and no later one has the key. -/
theorem exists_of_lookup
    {data : ρ → κ → Option ν} {refs : List ρ} {k : κ} {v : ν}
    (h : lookup data refs k = some v) :
    ∃ below r above, refs = below ++ r :: above ∧ data r k = some v ∧
      lookup data above k = none := by
  induction refs with
  | nil => cases h
  | cons r rest ih =>
      rw [lookup] at h
      cases hrest : lookup data rest k with
      | none =>
          rw [hrest] at h
          exact ⟨[], r, rest, rfl, h, hrest⟩
      | some w =>
          rw [hrest] at h
          obtain ⟨below, r', above, rfl, hr, habove⟩ := ih (hrest.trans h)
          exact ⟨r :: below, r', above, rfl, hr, habove⟩

/-- A map that is no layer does not matter. -/
theorem lookup_of_not_mem
    {data data' : ρ → κ → Option ν} {refs : List ρ} {t : ρ} {k : κ}
    (hmem : t ∉ refs) (hother : ∀ r, r ≠ t → data' r k = data r k) :
    lookup data' refs k = lookup data refs k :=
  lookup_congr fun r hr => hother r fun h => hmem (h ▸ hr)

variable [DecidableEq ρ]

/-- The layers after the last one that is `t`. -/
def above (t : ρ) (refs : List ρ) : List ρ :=
  refs.rtakeWhile (fun r => r != t)

/-- A key is set in one map: one sees its value, or what lies above it. -/
theorem lookup_set
    {data data' : ρ → κ → Option ν} {refs : List ρ} {t : ρ} {k : κ} {v : ν}
    (hmem : t ∈ refs) (hset : data' t k = some v)
    (hother : ∀ r, r ≠ t → data' r k = data r k) :
    lookup data' refs k = some ((lookup data (above t refs) k).getD v) := by
  induction refs using List.reverseRecOn with
  | nil => cases hmem
  | append_singleton below r ih =>
      rw [lookup_concat]
      by_cases hr : r = t
      · subst hr
        have htop : above r (below ++ [r]) = [] :=
          List.rtakeWhile_concat_neg _ _ _ (by simp)
        rw [htop, hset]
        rfl
      · have htop : above t (below ++ [r]) = above t below ++ [r] :=
          List.rtakeWhile_concat_pos _ _ _ (by simpa using hr)
        have hbelow : t ∈ below := by
          rcases List.mem_append.1 hmem with h | h
          · exact h
          · exact absurd (List.mem_singleton.1 h).symm hr
        rw [htop, lookup_concat, ih hbelow, hother r hr]
        cases data r k <;> rfl

/-- A key is removed from one map: it is gone when no other map has it. -/
theorem lookup_unset_iff
    {data data' : ρ → κ → Option ν} {refs : List ρ} {t : ρ} {k : κ}
    (hunset : data' t k = none)
    (hother : ∀ r, r ≠ t → data' r k = data r k) :
    lookup data' refs k = none ↔ ∀ r ∈ refs, r ≠ t → data r k = none := by
  rw [lookup_eq_none_iff]
  refine forall₂_congr fun r _ => ?_
  by_cases hr : r = t
  · subst hr
    simp [hunset]
  · simp [hother r hr, hr]

end Layers

end Layers
end Kelt
