import Mathlib.Data.Set.Insert

/-!
# Additive allow lists

Items of a set apply to a subject or not, and allow what it asks for or not.
A subject to which no item applies is free; once some item applies, only what
one of the applying items allows is permitted.

The decision is a matter of sets: it depends on which items there are and never
on an order. `Permits.mono` is the transfer rule between two item sets, and
`applies_of_permits_not_permits_insert` says how a new item can take a
permission away: only by being the first one that applies.
-/

namespace Kelt

universe u v

section AllowList

variable {P : Type u} {Q : Type v}

/-- No item applies, or some applying item allows. -/
def Permits (items : Set P) (applies allows : P → Prop) : Prop :=
  (∀ p ∈ items, ¬ applies p) ∨ ∃ p ∈ items, applies p ∧ allows p

/--
Transfer between two item sets: every applying item of the first has a
counterpart that allows no less, and the second restricts no one the first
leaves free.
-/
theorem Permits.mono
    {items : Set P} {items' : Set Q}
    {applies allows : P → Prop} {applies' allows' : Q → Prop}
    (hkeep : ∀ p ∈ items, applies p →
      ∃ q ∈ items', applies' q ∧ (allows p → allows' q))
    (hfree : ∀ q ∈ items', applies' q → ∃ p ∈ items, applies p)
    (h : Permits items applies allows) :
    Permits items' applies' allows' := by
  rcases h with hnone | ⟨p, hp, happ, hallow⟩
  · left
    intro q hq happ
    obtain ⟨p, hp, happ'⟩ := hfree q hq happ
    exact hnone p hp happ'
  · right
    obtain ⟨q, hq, happ', hallow'⟩ := hkeep p hp happ
    exact ⟨q, hq, happ', hallow' hallow⟩

/-- Only a first applying item takes a permission away. -/
theorem applies_of_permits_not_permits_insert
    {items : Set P} {applies allows : P → Prop} {new : P}
    (hbefore : Permits items applies allows)
    (hafter : ¬ Permits (insert new items) applies allows) :
    applies new ∧ ∀ p ∈ items, ¬ applies p := by
  have hnone : ∀ p ∈ items, ¬ applies p := by
    rcases hbefore with hnone | ⟨p, hp, happ, hallow⟩
    · exact hnone
    · exact absurd
        (Or.inr ⟨p, Set.mem_insert_of_mem new hp, happ, hallow⟩) hafter
  refine ⟨?_, hnone⟩
  by_contra hnew
  apply hafter
  left
  intro p hp
  rcases Set.mem_insert_iff.mp hp with rfl | hp
  · exact hnew
  · exact hnone p hp

end AllowList

end Kelt
