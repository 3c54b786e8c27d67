import Mathlib.Tactic

/-!
# Runs of a system

A system is a partial step function over states and actions. `Reach step ok s₀`
collects the states that the runs from `s₀` lead to in which every step meets
`ok`; an invariant of these runs is what the start has and every such step
keeps (`Reach.inv`).
-/

namespace Kelt

universe u v

section Runs

variable {σ : Type u} {α : Type v} {step : σ → α → Option σ}

/-- The states reached by steps that meet `ok`. -/
inductive Reach (step : σ → α → Option σ) (ok : σ → α → Prop) (s₀ : σ) :
    σ → Prop
  | refl : Reach step ok s₀ s₀
  | step {s s' : σ} {a : α} (hs : Reach step ok s₀ s) (hok : ok s a)
      (h : step s a = some s') : Reach step ok s₀ s'

/-- All reachable states. -/
abbrev ReachAny (step : σ → α → Option σ) (s₀ : σ) : σ → Prop :=
  Reach step (fun _ _ => True) s₀

/-- What the start has and every step keeps, every reached state has. -/
theorem Reach.inv {ok : σ → α → Prop} {s₀ s : σ} {I : σ → Prop}
    (hinit : I s₀)
    (hstep : ∀ s a s', I s → ok s a → step s a = some s' → I s')
    (h : Reach step ok s₀ s) : I s := by
  induction h with
  | refl => exact hinit
  | step _ hok h ih => exact hstep _ _ _ ih hok h

/-- The actions one after the other. -/
def exec (step : σ → α → Option σ) (s : σ) : List α → Option σ
  | [] => some s
  | a :: rest =>
      match step s a with
      | some s' => exec step s' rest
      | none => none

theorem exec_append_singleton (s : σ) (acts : List α) (a : α) :
    exec step s (acts ++ [a]) =
      (exec step s acts).bind (fun s' => step s' a) := by
  induction acts generalizing s with
  | nil =>
      simp only [List.nil_append, exec, Option.bind_some]
      cases step s a <;> rfl
  | cons b rest ih =>
      simp only [List.cons_append, exec]
      cases step s b with
      | none => rfl
      | some s' => exact ih s'

/-- Every step of the run meets `ok`, up to the first that cannot be taken. -/
def EachStep (step : σ → α → Option σ) (ok : σ → α → σ → Prop) (s : σ) :
    List α → Prop
  | [] => True
  | a :: rest => ∀ s', step s a = some s' → ok s a s' ∧ EachStep step ok s' rest

theorem EachStep.congr {ok ok' : σ → α → σ → Prop}
    (h : ∀ s a s', step s a = some s' → (ok s a s' ↔ ok' s a s'))
    (s : σ) (acts : List α) :
    EachStep step ok s acts ↔ EachStep step ok' s acts := by
  induction acts generalizing s with
  | nil => exact Iff.rfl
  | cons a rest ih =>
      exact forall₂_congr fun s' hs' => and_congr (h s a s' hs') (ih s')

/-- Two conditions that agree where `I` holds, which they keep, agree on the runs
from there. -/
theorem EachStep.congr_of_inv {ok ok' : σ → α → σ → Prop} {I : σ → Prop}
    (h : ∀ s a s', I s → step s a = some s' → (ok s a s' ↔ ok' s a s'))
    (hkeep : ∀ s a s', I s → step s a = some s' → ok s a s' → I s')
    {s : σ} (hs : I s) (acts : List α) :
    EachStep step ok s acts ↔ EachStep step ok' s acts := by
  induction acts generalizing s with
  | nil => exact Iff.rfl
  | cons a rest ih =>
      constructor
      · intro hrun s' hs'
        obtain ⟨hok, hrest⟩ := hrun s' hs'
        exact ⟨(h s a s' hs hs').1 hok, (ih (hkeep s a s' hs hs' hok)).1 hrest⟩
      · intro hrun s' hs'
        obtain ⟨hok', hrest⟩ := hrun s' hs'
        have hok := (h s a s' hs hs').2 hok'
        exact ⟨hok, (ih (hkeep s a s' hs hs' hok)).2 hrest⟩

theorem EachStep.of_forall {ok : σ → α → σ → Prop}
    (h : ∀ s a s', step s a = some s' → ok s a s') (s : σ) (acts : List α) :
    EachStep step ok s acts := by
  induction acts generalizing s with
  | nil => exact trivial
  | cons a rest ih => exact fun s' hs' => ⟨h s a s' hs', ih s'⟩

/-- A view of the states follows the run all the way exactly when it follows
every step of it. -/
theorem exec_follows_iff {μ : Type*} (view : σ → μ) (next : μ → α → μ)
    (s : σ) (acts : List α) :
    (∀ pre, pre <+: acts → ∀ t, exec step s pre = some t →
        view t = pre.foldl next (view s)) ↔
      EachStep step (fun s a s' => view s' = next (view s) a) s acts := by
  induction acts generalizing s with
  | nil =>
      refine ⟨fun _ => trivial, fun _ pre hpre t ht => ?_⟩
      rw [List.prefix_nil.1 hpre] at ht ⊢
      exact congrArg view (Option.some.inj ht).symm
  | cons a rest ih =>
      constructor
      · intro h s' hs'
        have hview : view s' = next (view s) a :=
          h [a] (List.prefix_append [a] rest) s' (by simp [exec, hs'])
        refine ⟨hview, (ih s').1 fun pre hpre t ht => ?_⟩
        rw [hview]
        refine h (a :: pre) (List.cons_prefix_cons.2 ⟨rfl, hpre⟩) t ?_
        rw [exec, hs']
        exact ht
      · intro h pre hpre t ht
        cases pre with
        | nil => exact congrArg view (Option.some.inj ht).symm
        | cons b pre =>
            obtain ⟨rfl, hrest⟩ := List.cons_prefix_cons.1 hpre
            rw [exec] at ht
            cases hs' : step s b with
            | none =>
                rw [hs'] at ht
                cases ht
            | some s' =>
                rw [hs'] at ht
                obtain ⟨hview, hsteps⟩ := h s' hs'
                rw [List.foldl_cons, ← hview]
                exact (ih s').2 hsteps pre hrest t ht

theorem Reach.exec {s₀ s s' : σ} {acts : List α}
    (hs : ReachAny step s₀ s) (h : exec step s acts = some s') :
    ReachAny step s₀ s' := by
  induction acts generalizing s with
  | nil => exact Option.some.inj h ▸ hs
  | cons a rest ih =>
      unfold Kelt.exec at h
      cases hstep : step s a with
      | none =>
          rw [hstep] at h
          cases h
      | some s₁ =>
          rw [hstep] at h
          exact ih (hs.step trivial hstep) h

end Runs

end Kelt
