import Mathlib.Data.List.TakeWhile
import Mathlib.Tactic.Common

/-!
# Pieces of a stream

`pieces sep xs` are the pieces of `xs` that `sep` ends, and what follows the last
`sep` if anything does. A reader that takes `xs` in chunks and cuts a piece off
its buffer whenever it holds a `sep` has these pieces (`pieces_append_cons`,
`pieces_rest`). What goes through a queue and is ended by `none` is what stands
before the first `none` (`beforeEnd`).
-/

namespace Kelt

universe u

section Pieces

variable {α : Type u} [BEq α] {sep : α} {l rest : List α}

def pieces (sep : α) (xs : List α) : List (List α) :=
  (xs.splitOn sep).dropLast ++
    ((xs.splitOn sep).getLast?.filter fun p => !p.isEmpty).toList

variable [LawfulBEq α]

theorem notMem_takeWhile (sep : α) (l : List α) :
    sep ∉ l.takeWhile (· != sep) := by
  intro h
  simpa using List.mem_takeWhile_imp h

/-- A list at its first `sep`. -/
theorem takeWhile_append_cons (h : sep ∈ l) :
    l.takeWhile (· != sep) ++ sep :: (l.dropWhile (· != sep)).tail = l := by
  have hne : l.dropWhile (· != sep) ≠ [] := by
    intro hnil
    rw [List.dropWhile_eq_nil_iff] at hnil
    simpa using hnil sep h
  have hhead : (l.dropWhile (· != sep)).head hne = sep := by
    simpa using List.head_dropWhile_not (fun x => x != sep) hne
  conv_rhs => rw [← List.takeWhile_append_dropWhile (p := (· != sep)) (l := l),
    ← List.cons_head_tail hne, hhead]

/-- The first piece is the one before the first `sep`. -/
theorem pieces_append_cons (hl : sep ∉ l) :
    pieces sep (l ++ sep :: rest) = l :: pieces sep rest := by
  rw [pieces, List.splitOn_append_cons_self_of_not_mem hl]
  have hne : rest.splitOn sep ≠ [] := List.splitOn_ne_nil sep rest
  rw [List.dropLast_cons_of_ne_nil hne, List.getLast?_cons,
    List.getLast?_eq_some_getLast hne]
  rw [pieces, List.getLast?_eq_some_getLast hne]
  rfl

/-- Without a `sep` there is the rest only. -/
theorem pieces_rest (hl : sep ∉ l) :
    pieces sep l = if l = [] then [] else [l] := by
  rw [pieces, List.splitOn_eq_singleton hl]
  cases l <;> rfl

end Pieces

section Sentinel

variable {α : Type u} {q r : List (Option α)}

/-- What comes before the first end mark. -/
def beforeEnd : List (Option α) → List α
  | [] => []
  | none :: _ => []
  | some x :: rest => x :: beforeEnd rest

/-- What comes behind an end mark does not count. -/
theorem beforeEnd_append_of_mem (h : none ∈ q) :
    beforeEnd (q ++ r) = beforeEnd q := by
  induction q with
  | nil => cases h
  | cons x q ih =>
      cases x with
      | none => rfl
      | some x =>
          have hq : none ∈ q := by simpa using h
          rw [List.cons_append, beforeEnd, beforeEnd, ih hq]

theorem beforeEnd_append_of_notMem (h : none ∉ q) :
    beforeEnd (q ++ r) = beforeEnd q ++ beforeEnd r := by
  induction q with
  | nil => rfl
  | cons x q ih =>
      cases x with
      | none => exact absurd List.mem_cons_self h
      | some x =>
          rw [List.cons_append, beforeEnd, beforeEnd,
            ih fun hq => h (List.mem_cons_of_mem _ hq), List.cons_append]

end Sentinel

end Kelt
