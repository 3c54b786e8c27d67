import Mathlib.Tactic.Basic

/-!
# Computations that may fail

What a successful step of an `Except` computation says about its parts, so that
a computation is taken apart bind by bind.
-/

namespace Kelt

universe u

section Outcome

theorem except_map_eq_ok_iff {ε α β : Type*} {f : α → β} {x : Except ε α}
    {b : β} : x.map f = .ok b ↔ ∃ a, x = .ok a ∧ f a = b := by
  cases x with
  | error e => simp [Except.map]
  | ok a => simp [Except.map]

theorem except_bind_eq_ok_iff {ε α β : Type u} {x : Except ε α}
    {f : α → Except ε β} {b : β} :
    x >>= f = .ok b ↔ ∃ a, x = .ok a ∧ f a = .ok b := by
  cases x with
  | error e => exact iff_of_false nofun (fun ⟨_, h, _⟩ => nomatch h)
  | ok a =>
      refine ⟨fun h => ⟨a, rfl, h⟩, ?_⟩
      rintro ⟨a', ha, h⟩
      obtain rfl := Except.ok.inj ha
      exact h

theorem bind_eq_ok {ε α β : Type u} {x : Except ε α} {f : α → Except ε β}
    {b : β} (h : (x >>= f) = .ok b) : ∃ a, x = .ok a ∧ f a = .ok b :=
  except_bind_eq_ok_iff.1 h

end Outcome

end Kelt
