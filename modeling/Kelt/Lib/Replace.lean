import Mathlib.Data.List.Infix
import Mathlib.Tactic

/-!
# Replacing a word in a text

`replaceAll` goes over a list from the left and puts a new word in the place of
each occurrence of an old one, as `str.replace` does. `replace_induction` is the
way to reason about it: at each place the old word stands there, or one letter
is passed.

The words of interest begin with a letter that occurs in them only once. Then
nothing that is written makes a new occurrence (`not_infix_replaceAll`).
-/

namespace Kelt
namespace Replace

universe u v

section Words

variable {α : Type u}

theorem prefix_append_iff {x w t : List α} :
    x <+: w ++ t ↔ x <+: w ∨ ∃ x', x = w ++ x' ∧ x' <+: t := by
  constructor
  · intro h
    rcases List.prefix_or_prefix_of_prefix h (List.prefix_append w t) with
      hle | ⟨x', rfl⟩
    · exact Or.inl hle
    · exact Or.inr ⟨x', rfl, (List.prefix_append_right_inj w).1 h⟩
  · rintro (h | ⟨x', rfl, h⟩)
    · exact List.prefix_append_of_prefix h
    · exact (List.prefix_append_right_inj w).2 h

/-- An occurrence does not begin where its first letter is not. -/
theorem infix_of_infix_append {m : α} {o x t : List α} (hx : m ∉ x)
    (h : m :: o <:+: x ++ t) : m :: o <:+: t := by
  induction x with
  | nil => exact h
  | cons c x ih =>
      rw [List.cons_append, List.infix_cons_iff] at h
      rcases h with h | h
      · exact absurd (List.cons_prefix_cons.1 h).1 fun heq => hx (by simp [heq])
      · exact ih (fun hm => hx (List.mem_cons_of_mem _ hm)) h

/-- Whether a text without some letter begins a list depends on the rest only
through the texts without it. -/
theorem prefix_append_congr {m : α} {a b : List α}
    (hab : ∀ x, m ∉ x → (x <+: a ↔ x <+: b)) (w : List α) {x : List α}
    (hx : m ∉ x) : x <+: w ++ a ↔ x <+: w ++ b := by
  rw [prefix_append_iff, prefix_append_iff]
  refine or_congr_right (exists_congr fun x' => and_congr_right ?_)
  rintro rfl
  exact hab x' fun h => hx (List.mem_append_right _ h)

end Words

section Replace

variable {α : Type u} {β : Type v} [DecidableEq α] {old new : List α}

/-- The replacement when the first letters belong to an occurrence that has been
replaced. -/
def replaceFrom (old new : List α) : Nat → List α → List α
  | _, [] => []
  | skip + 1, _ :: rest => replaceFrom old new skip rest
  | 0, c :: rest =>
      if old <+: c :: rest then
        new ++ replaceFrom old new (old.length - 1) rest
      else c :: replaceFrom old new 0 rest

/-- `t.replace(old, new)` for a word that is not empty. -/
def replaceAll (old new t : List α) : List α :=
  replaceFrom old new 0 t

theorem replaceFrom_eq_drop (skip : Nat) (t : List α) :
    replaceFrom old new skip t = replaceAll old new (t.drop skip) := by
  induction t generalizing skip with
  | nil => cases skip <;> rfl
  | cons c rest ih =>
      cases skip with
      | zero => rfl
      | succ skip => exact ih skip

@[simp] theorem replaceAll_nil : replaceAll old new [] = [] := rfl

theorem replaceAll_append (hold : old ≠ []) (rest : List α) :
    replaceAll old new (old ++ rest) = new ++ replaceAll old new rest := by
  obtain ⟨c, tail, rfl⟩ := List.exists_cons_of_ne_nil hold
  have hprefix : c :: tail <+: c :: (tail ++ rest) := ⟨rest, rfl⟩
  rw [List.cons_append, replaceAll, replaceFrom, if_pos hprefix,
    replaceFrom_eq_drop]
  simp

theorem replaceAll_cons {c : α} {rest : List α} (h : ¬ old <+: c :: rest) :
    replaceAll old new (c :: rest) = c :: replaceAll old new rest := by
  rw [replaceAll, replaceFrom, if_neg h]
  rfl

/-- At each place the old word stands there, or one letter is passed. -/
theorem replace_induction {P : List α → Prop} (hold : old ≠ [])
    (nil : P []) (found : ∀ rest, P rest → P (old ++ rest))
    (pass : ∀ c rest, ¬ old <+: c :: rest → P rest → P (c :: rest))
    (t : List α) : P t := by
  induction hlength : t.length using Nat.strong_induction_on generalizing t with
  | _ n ih =>
      cases t with
      | nil => exact nil
      | cons c rest =>
          by_cases h : old <+: c :: rest
          · obtain ⟨tail, htail⟩ := h
            have hpos := List.length_pos_of_ne_nil hold
            have hlt : tail.length < n := by
              rw [← hlength, ← htail, List.length_append]
              omega
            rw [← htail]
            exact found tail (ih _ hlt tail rfl)
          · refine pass c rest h (ih _ ?_ rest rfl)
            rw [← hlength, List.length_cons]
            omega

/-- Letters that no occurrence begins with are passed. -/
theorem replaceAll_pass {m : α} {o x : List α} (hx : m ∉ x) (t : List α) :
    replaceAll (m :: o) new (x ++ t) = x ++ replaceAll (m :: o) new t := by
  induction x with
  | nil => rfl
  | cons c x ih =>
      have hc : ¬ m :: o <+: c :: (x ++ t) := by
        intro h
        exact hx (by simp [(List.cons_prefix_cons.1 h).1])
      rw [List.cons_append, replaceAll_cons hc,
        ih fun h => hx (List.mem_cons_of_mem _ h)]
      rfl

theorem mem_replaceAll (hold : old ≠ []) {c : α} {t : List α}
    (h : c ∈ replaceAll old new t) : c ∈ new ∨ c ∈ t := by
  induction t using replace_induction hold with
  | nil => exact Or.inr h
  | found rest ih =>
      rw [replaceAll_append hold] at h
      rcases List.mem_append.1 h with h | h
      · exact Or.inl h
      · exact (ih h).imp_right (List.mem_append_right _)
  | pass d rest hd ih =>
      rw [replaceAll_cons hd] at h
      rcases List.mem_cons.1 h with rfl | h
      · exact Or.inr List.mem_cons_self
      · exact (ih h).imp_right (List.mem_cons_of_mem _)

/-- What the letters stand for is as long as before, or longer. -/
theorem length_flatMap_le_replaceAll
    (hold : old ≠ []) {f : α → List β}
    (hlength : (old.flatMap f).length ≤ (new.flatMap f).length) (t : List α) :
    (t.flatMap f).length ≤ ((replaceAll old new t).flatMap f).length := by
  induction t using replace_induction hold with
  | nil => exact le_rfl
  | found rest ih =>
      rw [replaceAll_append hold, List.flatMap_append, List.flatMap_append,
        List.length_append, List.length_append]
      omega
  | pass c rest hc ih =>
      rw [replaceAll_cons hc, List.flatMap_cons, List.flatMap_cons,
        List.length_append, List.length_append]
      omega

/-- Where the new word is the longer one, a text stays as it is only without an
occurrence. -/
theorem flatMap_replaceAll_eq_iff
    (hold : old ≠ []) {f : α → List β}
    (hlength : (old.flatMap f).length < (new.flatMap f).length) (t : List α) :
    (replaceAll old new t).flatMap f = t.flatMap f ↔ ¬ old <:+: t := by
  induction t using replace_induction hold with
  | nil => exact iff_of_true rfl fun h => hold (List.infix_nil.1 h)
  | found rest ih =>
      refine iff_of_false ?_ fun h => h (List.infix_append_left)
      intro h
      have hmore : (rest.flatMap f).length ≤
          ((replaceAll old new rest).flatMap f).length :=
        length_flatMap_le_replaceAll hold hlength.le rest
      have hsame := congrArg List.length h
      rw [replaceAll_append hold, List.flatMap_append, List.flatMap_append,
        List.length_append, List.length_append] at hsame
      omega
  | pass c rest hc ih =>
      rw [replaceAll_cons hc, List.flatMap_cons, List.flatMap_cons,
        List.append_cancel_left_eq, ih, List.infix_cons_iff, or_iff_right hc]

theorem replaceAll_eq_self_iff
    (hold : old ≠ []) (hlength : old.length < new.length) (t : List α) :
    replaceAll old new t = t ↔ ¬ old <:+: t := by
  have h := flatMap_replaceAll_eq_iff (f := fun c => [c]) hold
    (by simpa using hlength) t
  simpa using h

/-- A beginning of what the letters stand for is kept when no occurrence begins
in it. -/
theorem prefix_flatMap_replaceAll_iff
    (hold : old ≠ []) {f : α → List β} {m : β}
    (hmark : (old.flatMap f).head? = some m)
    (hmark' : (new.flatMap f).head? = some m)
    {x : List β} (hx : m ∉ x) (t : List α) :
    x <+: (replaceAll old new t).flatMap f ↔ x <+: t.flatMap f := by
  have hstart : ∀ {w : List β}, w.head? = some m → ∀ {x}, m ∉ x → ∀ rest,
      (x <+: w ++ rest ↔ x = []) := by
    intro w hw x hx rest
    obtain ⟨tail, rfl⟩ := List.head?_eq_some_iff.1 hw
    cases x with
    | nil => simp
    | cons b x =>
        refine iff_of_false ?_ (List.cons_ne_nil _ _)
        intro h
        exact hx (by simp [(List.cons_prefix_cons.1 h).1])
  induction t using replace_induction hold generalizing x with
  | nil => rfl
  | found rest ih =>
      rw [replaceAll_append hold, List.flatMap_append, List.flatMap_append,
        hstart hmark' hx, hstart hmark hx]
  | pass c rest hc ih =>
      rw [replaceAll_cons hc, List.flatMap_cons, List.flatMap_cons]
      exact prefix_append_congr (fun x hx => ih hx) (f c) hx

theorem prefix_replaceAll_iff
    {m : α} {o w x : List α} (hx : m ∉ x) (t : List α) :
    x <+: replaceAll (m :: o) (m :: w) t ↔ x <+: t := by
  have h : x <+: (replaceAll (m :: o) (m :: w) t).flatMap (fun c => [c]) ↔
      x <+: t.flatMap (fun c => [c]) :=
    prefix_flatMap_replaceAll_iff (List.cons_ne_nil _ _) rfl rfl hx t
  simpa using h

/-- What is written makes no new occurrence. -/
theorem not_infix_replaceAll
    {m : α} {o w : List α} (ho : m ∉ o) (hw : m ∉ w)
    (hne : ¬ o <+: w) (hne' : ¬ w <+: o) (t : List α) :
    ¬ m :: o <:+: replaceAll (m :: o) (m :: w) t := by
  have hold : m :: o ≠ [] := List.cons_ne_nil _ _
  induction t using replace_induction hold with
  | nil => exact fun h => hold (List.infix_nil.1 h)
  | found rest ih =>
      rw [replaceAll_append hold, List.cons_append, List.infix_cons_iff]
      rintro (h | h)
      · have hprefix := (List.cons_prefix_cons.1 h).2
        rcases List.prefix_or_prefix_of_prefix hprefix
          (List.prefix_append w _) with hle | hle
        · exact hne hle
        · exact hne' hle
      · exact ih (infix_of_infix_append hw h)
  | pass c rest hc ih =>
      rw [replaceAll_cons hc, List.infix_cons_iff]
      rintro (h | h)
      · obtain ⟨rfl, htail⟩ := List.cons_prefix_cons.1 h
        rw [prefix_replaceAll_iff ho] at htail
        exact hc (List.cons_prefix_cons.2 ⟨rfl, htail⟩)
      · exact ih h

end Replace

end Replace
end Kelt
