import Mathlib.Algebra.BigOperators.Group.Finset.Piecewise
import Mathlib.Algebra.Order.Group.Defs
import Mathlib.Data.Finset.Max
import Mathlib.Data.Fintype.BigOperators
import Mathlib.Order.WellFounded
import Mathlib.Tactic.Abel

/-!
# Parents and nested intervals

A map that gives each element a parent, or none, makes a forest if one comes to
a root from every element. It does where parents go up in an order without
infinite ascents (`exists_endsAt`), and it does not where some elements have
their parents among themselves (`not_endsAt_of_closed`). What the elements have
over their children adds up to what the roots have, forest or not
(`sum_sub_children`).

Intervals that lie next to one another within a stretch are no longer together
than the stretch (`sum_length_le`).
-/

namespace Kelt

universe u v

section Parents

variable {α : Type u}

/-- From an element one comes to a root by going from parent to parent. -/
inductive EndsAt (parent : α → Option α) : α → α → Prop where
  | root {r : α} (h : parent r = none) : EndsAt parent r r
  | up {x p r : α} (h : parent x = some p) (rest : EndsAt parent p r) :
      EndsAt parent x r

variable {parent : α → Option α}

theorem EndsAt.parent_eq_none {x r : α} (h : EndsAt parent x r) :
    parent r = none := by
  induction h with
  | root h => exact h
  | up _ _ ih => exact ih

/-- What does not get less from an element to its parent is least at the start
of the way. -/
theorem EndsAt.le {β : Type v} [Preorder β] {f : α → β}
    (hf : ∀ x p, parent x = some p → f x ≤ f p) {x r : α}
    (h : EndsAt parent x r) : f x ≤ f r := by
  induction h with
  | root _ => exact le_refl _
  | up h _ ih => exact (hf _ _ h).trans ih

theorem exists_endsAt {above : α → α → Prop} (hwf : WellFounded above)
    (hup : ∀ x p, parent x = some p → above p x) (x : α) :
    ∃ r, EndsAt parent x r := by
  induction x using hwf.induction with
  | _ x ih =>
      cases hparent : parent x with
      | none => exact ⟨x, .root hparent⟩
      | some p =>
          obtain ⟨r, hr⟩ := ih p (hup x p hparent)
          exact ⟨r, .up hparent hr⟩

theorem not_endsAt_of_closed {C : α → Prop}
    (hC : ∀ x, C x → ∃ p, parent x = some p ∧ C p) {x r : α} (hx : C x) :
    ¬ EndsAt parent x r := by
  intro h
  induction h with
  | root h =>
      obtain ⟨p, hp, -⟩ := hC _ hx
      rw [h] at hp
      cases hp
  | up h _ ih =>
      obtain ⟨p, hp, hCp⟩ := hC _ hx
      rw [h] at hp
      obtain rfl := Option.some.inj hp
      exact ih hCp

variable {M : Type v} [AddCommGroup M] [Fintype α] [DecidableEq α]

/-- Every element that has a parent is the child of one element. -/
theorem sum_sub_children (parent : α → Option α) (w : α → M) :
    ∑ x, (w x - ∑ c, if parent c = some x then w c else 0) =
      ∑ r, if parent r = none then w r else 0 := by
  have hswap : ∑ x, (∑ c, if parent c = some x then w c else 0) =
      ∑ c, if parent c = none then 0 else w c := by
    rw [Finset.sum_comm]
    refine Finset.sum_congr rfl fun c _ => ?_
    cases parent c with
    | none => simp
    | some p => simp
  rw [Finset.sum_sub_distrib, hswap, ← Finset.sum_sub_distrib]
  refine Finset.sum_congr rfl fun c _ => ?_
  cases parent c with
  | none => simp
  | some p => simp

end Parents

section Packing

variable {ι : Type u} {K : Type v} [AddCommGroup K] [LinearOrder K]
  [IsOrderedAddMonoid K]

theorem sum_length_le {start stop : ι → K} (s : Finset ι) {a b : K}
    (hab : a ≤ b) (hlen : ∀ i ∈ s, start i ≤ stop i)
    (hwithin : ∀ i ∈ s, a ≤ start i ∧ stop i ≤ b)
    (happart : ∀ i ∈ s, ∀ j ∈ s, i ≠ j →
      stop i ≤ start j ∨ stop j ≤ start i) :
    ∑ i ∈ s, (stop i - start i) ≤ b - a := by
  classical
  -- The interval that starts last is split off; the others end before it.
  induction s using Finset.induction_on_max_value start generalizing b with
  | empty => simpa using hab
  | insert i s hi hmax ih =>
      have hiwithin := hwithin i (Finset.mem_insert_self i s)
      have hilen := hlen i (Finset.mem_insert_self i s)
      have hrest : ∀ {c : K}, a ≤ c → (∀ j ∈ s, stop j ≤ c) →
          ∑ j ∈ s, (stop j - start j) ≤ c - a := by
        intro c hac hc
        refine ih hac (fun j hj => hlen j (Finset.mem_insert_of_mem hj))
          (fun j hj => ⟨(hwithin j (Finset.mem_insert_of_mem hj)).1, hc j hj⟩)
          fun j hj k hk => happart j (Finset.mem_insert_of_mem hj) k
            (Finset.mem_insert_of_mem hk)
      rw [Finset.sum_insert hi]
      rcases hilen.eq_or_lt with heq | hlt
      · rw [heq, sub_self, zero_add]
        exact hrest hab fun j hj => (hwithin j (Finset.mem_insert_of_mem hj)).2
      · have hbefore : ∀ j ∈ s, stop j ≤ start i := by
          intro j hj
          have hne : j ≠ i := by
            rintro rfl
            exact hi hj
          rcases happart j (Finset.mem_insert_of_mem hj) i
            (Finset.mem_insert_self i s) hne with h | h
          · exact h
          · exact absurd (h.trans (hmax j hj)) (not_le_of_gt hlt)
        calc stop i - start i + ∑ j ∈ s, (stop j - start j)
            ≤ stop i - start i + (start i - a) :=
              add_le_add_right (hrest hiwithin.1 hbefore) _
          _ = stop i - a := by abel
          _ ≤ b - a := sub_le_sub_right hiwithin.2 a

end Packing

end Kelt
