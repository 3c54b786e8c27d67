import Mathlib.Logic.Function.Basic
import Mathlib.Logic.Relation
import Mathlib.Tactic

/-!
# Programs that are cut off and started again

A program is given by the states that it goes through, one atomic step after the
other, the state that it starts in aside. It can be cut off in each of them and
is then started again from there: `Left p s` collects the states that any number
of such starts can leave behind.

`Holds I Q p s` says that a start in `s` meets `I` all the way and `Q` at the
end. The rules follow the text of a program; `Left.inv` brings them to the
starts after one another.
-/

namespace Kelt
namespace Restart

universe u v w

section Restart

variable {σ : Type u} {τ : Type v} {ι : Type w}

/-- The states after each step; none for a program with nothing to do. -/
abbrev Prog (σ : Type u) := σ → List σ

/-- The state in which a start ends that is not cut off. -/
def fin (p : Prog σ) (s : σ) : σ :=
  (p s).getLastD s

def andThen (p q : Prog σ) : Prog σ := fun s =>
  p s ++ q (fin p s)

def forEach (p : ι → Prog σ) : List ι → Prog σ
  | [] => fun _ => []
  | i :: rest => andThen (p i) (forEach p rest)

/-- A program on a part of the state. -/
def within (get : σ → τ) (put : σ → τ → σ) (p : Prog τ) : Prog σ := fun s =>
  (p (get s)).map (put s)

/-- `I` at each step, and `Q` at the end. -/
def Holds (I Q : σ → Prop) (p : Prog σ) (s : σ) : Prop :=
  (∀ c ∈ p s, I c) ∧ Q (fin p s)

/-- What starts that were cut off leave behind. -/
abbrev Left (p : Prog σ) : σ → σ → Prop :=
  Relation.ReflTransGen fun s c => c ∈ p s

theorem fin_of_nil {p : Prog σ} {s : σ} (h : p s = []) : fin p s = s := by
  unfold fin
  rw [h]
  rfl

theorem fin_congr {p q : Prog σ} {s : σ} (h : p s = q s) :
    fin p s = fin q s := by
  unfold fin
  rw [h]

theorem fin_of_concat {p : Prog σ} {s t : σ} {l : List σ}
    (h : p s = l ++ [t]) : fin p s = t := by
  unfold fin
  rw [h, List.getLastD_concat]

theorem getLastD_append (l l' : List σ) (s : σ) :
    (l ++ l').getLastD s = l'.getLastD (l.getLastD s) := by
  induction l generalizing s with
  | nil => rfl
  | cons a l ih =>
      rw [List.cons_append, List.getLastD_cons, List.getLastD_cons]
      exact ih a

theorem fin_andThen (p q : Prog σ) (s : σ) :
    fin (andThen p q) s = fin q (fin p s) :=
  getLastD_append _ _ _

theorem fin_forEach_cons (p : ι → Prog σ) (i : ι) (rest : List ι) (s : σ) :
    fin (forEach p (i :: rest)) s = fin (forEach p rest) (fin (p i) s) :=
  fin_andThen _ _ s

/-- On a part a program ends as it would alone. -/
theorem fin_within {get : σ → τ} {put : σ → τ → σ}
    (hput : ∀ s, put s (get s) = s) (p : Prog τ) (s : σ) :
    fin (within get put p) s = put s (fin p (get s)) := by
  have h : ((p (get s)).map (put s)).getLastD (put s (get s)) =
      put s ((p (get s)).getLastD (get s)) :=
    List.getLastD_map
  rw [hput s] at h
  exact h

section Rules

variable {I I' Q Q' R : σ → Prop}

theorem holds_nil {p : Prog σ} {s : σ} (h : p s = []) (hQ : Q s) :
    Holds I Q p s := by
  refine ⟨?_, ?_⟩
  · rw [h]
    exact fun c hc => nomatch hc
  · rwa [fin_of_nil h]

theorem holds_single {p : Prog σ} {s t : σ} (h : p s = [t]) (hI : I t)
    (hQ : Q t) : Holds I Q p s := by
  refine ⟨?_, ?_⟩
  · intro c hc
    rw [h, List.mem_singleton] at hc
    rwa [hc]
  · unfold fin
    rwa [h]

theorem holds_congr {p q : Prog σ} {s : σ} (h : p s = q s)
    (hq : Holds I Q q s) : Holds I Q p s := by
  unfold Holds
  rw [fin_congr h, h]
  exact hq

theorem holds_andThen {p q : Prog σ} {s : σ} (hp : Holds I R p s)
    (hq : ∀ s, R s → Holds I Q q s) : Holds I Q (andThen p q) s := by
  have hrest := hq _ hp.2
  refine ⟨?_, ?_⟩
  · intro c hc
    rcases List.mem_append.1 hc with hc | hc
    · exact hp.1 c hc
    · exact hrest.1 c hc
  · rw [fin_andThen]
    exact hrest.2

/-- The invariant of a loop speaks of what is still to be done. -/
theorem holds_forEach {p : ι → Prog σ} {J : List ι → σ → Prop}
    (hstep : ∀ i rest s, J (i :: rest) s → Holds I (J rest) (p i) s)
    (todo : List ι) {s : σ} (hs : J todo s) :
    Holds I (J []) (forEach p todo) s := by
  induction todo generalizing s with
  | nil => exact holds_nil rfl hs
  | cons i rest ih =>
      exact holds_andThen (hstep i rest s hs) fun s' hs' => ih hs'

/-- What the start has and each step keeps, all that is left behind has. -/
theorem Left.inv {p : Prog σ} {s c : σ} (hs : I s)
    (hkeep : ∀ s, I s → ∀ c ∈ p s, I c) (h : Left p s c) : I c := by
  induction h with
  | refl => exact hs
  | tail _ hstep ih => exact hkeep _ ih _ hstep

end Rules

end Restart

end Restart
end Kelt
