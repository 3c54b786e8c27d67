import Mathlib.Tactic

/-!
# Lists of things that are numbered

A list that grows at its end and whose elements are replaced in place: an
element afterwards is the new one, at its place, or one from before.
-/

namespace Kelt

section Slots

variable {α : Type*} {l : List α} {i j : Nat} {a b : α}

theorem getElem?_set_cases (h : (l.set i a)[j]? = some b) :
    (j = i ∧ b = a) ∨ (j ≠ i ∧ l[j]? = some b) := by
  rw [List.getElem?_set] at h
  split at h
  · rename_i hij
    split at h
    · exact Or.inl ⟨hij.symm, (Option.some.inj h).symm⟩
    · cases h
  · rename_i hij
    exact Or.inr ⟨Ne.symm hij, h⟩

theorem getElem?_append_cases (h : (l ++ [a])[j]? = some b) :
    (j = l.length ∧ b = a) ∨ (j < l.length ∧ l[j]? = some b) := by
  obtain hlt | heq | hgt := Nat.lt_trichotomy j l.length
  · rw [List.getElem?_append_left hlt] at h
    exact Or.inr ⟨hlt, h⟩
  · subst heq
    rw [List.getElem?_concat_length] at h
    exact Or.inl ⟨rfl, (Option.some.inj h).symm⟩
  · rw [List.getElem?_eq_none (by simp; omega)] at h
    cases h

theorem getElem?_append_of_some (a : α) (h : l[j]? = some b) :
    (l ++ [a])[j]? = some b := by
  obtain ⟨hlt, -⟩ := List.getElem?_eq_some_iff.1 h
  rw [List.getElem?_append_left hlt, h]

end Slots

end Kelt
