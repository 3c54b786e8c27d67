import Mathlib.Data.List.TakeWhile
import Mathlib.Tactic

/-!
# The prefix that ends at the first hit

`throughFirst p l` is the shortest prefix of `l` that holds an element with
`p`, and the whole of `l` when there is none: what a loop has gone through that
stops after the first element of a kind.
-/

namespace Kelt

universe u

section Prefix

variable {α : Type u} (p : α → Bool)

def throughFirst (l : List α) : List α :=
  l.takeWhile (fun a => !p a) ++ (l.dropWhile (fun a => !p a)).head?.toList

@[simp] theorem throughFirst_nil : throughFirst p [] = [] :=
  rfl

theorem throughFirst_cons (a : α) (l : List α) :
    throughFirst p (a :: l) = a :: if p a then [] else throughFirst p l := by
  unfold throughFirst
  cases h : p a <;> simp [h]

/-- A hit in the first part hides the second part. -/
theorem throughFirst_append (l l' : List α) :
    throughFirst p (l ++ l') =
      throughFirst p l ++ if l.any p then [] else throughFirst p l' := by
  induction l with
  | nil => simp
  | cons a l ih =>
      rw [List.cons_append, throughFirst_cons, throughFirst_cons, ih]
      cases h : p a <;> simp [h]

end Prefix

end Kelt
