import Mathlib.Algebra.BigOperators.Group.List.Basic
import Mathlib.Algebra.BigOperators.Intervals
import Mathlib.Algebra.Order.Field.Basic
import Mathlib.Tactic.Linarith
import Mathlib.Tactic.Ring

/-!
# Step functions

A list of steps gives a rate over consecutive stretches of time. `time` is how
much of a window the steps cover, `amount` what they bring into it. Both add up
over windows that follow one another (`amount_windows`), and steps without a gap
cover a window as one step from their start to their end does
(`time_of_contiguous`).
-/

namespace Kelt

universe u

section Contiguous

variable {K : Type u} [LinearOrder K]

/-- A rate from one time to another. -/
structure Step (K : Type u) where
  start : K
  stop : K
  rate : K
  deriving DecidableEq

/-- No step ends before it starts. -/
def Ordered (l : List (Step K)) : Prop :=
  ∀ i ∈ l, i.start ≤ i.stop

/-- Each step starts where the one before it ends. -/
structure Contiguous (l : List (Step K)) : Prop where
  ordered : Ordered l
  chain : l.IsChain fun i j => i.stop = j.start

theorem Contiguous.tail {i : Step K} {l : List (Step K)}
    (h : Contiguous (i :: l)) : Contiguous l :=
  ⟨fun j hj => h.ordered j (List.mem_cons_of_mem i hj), h.chain.tail⟩

/-- In a contiguous list the last step ends last. -/
theorem Contiguous.stop_le {i j : Step K} {l : List (Step K)}
    (h : Contiguous (i :: l)) (hlast : (i :: l).getLast? = some j) :
    ∀ k ∈ i :: l, k.stop ≤ j.stop := by
  induction l generalizing i with
  | nil =>
      obtain rfl := Option.some.inj hlast
      intro k hk
      rw [List.mem_singleton.1 hk]
      exact le_refl i.stop
  | cons i' l ih =>
      have hrest := ih h.tail (by simpa using hlast)
      have hii : i.stop = i'.start := h.chain.rel
      intro k hk
      rcases List.mem_cons.1 hk with rfl | hk
      · have hle := h.tail.ordered i' List.mem_cons_self
        exact (hii.trans_le hle).trans (hrest i' List.mem_cons_self)
      · exact hrest k hk

end Contiguous

section Common

variable {K : Type u} [Field K] [LinearOrder K]

/-- How much of the stretch from `a` to `b` lies between `x` and `y`. -/
def common (a b x y : K) : K :=
  max 0 (min b y - max a x)

theorem common_comm (a b x y : K) : common a b x y = common x y a b := by
  unfold common
  rw [min_comm, max_comm a x]

def Step.overlap (i : Step K) (x y : K) : K :=
  common i.start i.stop x y

/-- How much of a window is covered. -/
def time (l : List (Step K)) (x y : K) : K :=
  (l.map fun i => i.overlap x y).sum

/-- What comes into a window. -/
def amount (l : List (Step K)) (x y : K) : K :=
  (l.map fun i => i.overlap x y * i.rate).sum

variable [IsStrictOrderedRing K]

theorem common_eq_zero {a b x y : K} (h : b ≤ x ∨ y ≤ a) :
    common a b x y = 0 := by
  unfold common
  rw [max_eq_left]
  rcases h with h | h
  · linarith [min_le_left b y, le_max_right a x]
  · linarith [min_le_right b y, le_max_left a x]

theorem common_of_le {a b x y : K} (hax : a ≤ x) (hxy : x ≤ y) (hyb : y ≤ b) :
    common a b x y = y - x := by
  unfold common
  rw [min_eq_right hyb, max_eq_right hax, max_eq_right (by linarith)]

/-- A stretch that is cut in two has the parts of the two in a window. -/
theorem common_add {a b c : K} (hab : a ≤ b) (hbc : b ≤ c) (x y : K) :
    common a c x y = common a b x y + common b c x y := by
  rcases le_total b x with hbx | hxb
  · rw [common_eq_zero (.inl hbx), zero_add]
    unfold common
    rw [max_eq_right hbx, max_eq_right (hab.trans hbx)]
  rcases le_total y b with hyb | hby
  · rw [common_eq_zero (a := b) (.inr hyb), add_zero]
    unfold common
    rw [min_eq_right hyb, min_eq_right (hyb.trans hbc)]
  have hleft : max a x ≤ b := max_le hab hxb
  have hright : b ≤ min c y := le_min hbc hby
  have hwhole : 0 ≤ min c y - max a x := by linarith
  have hfirst : 0 ≤ b - max a x := by linarith
  have hsecond : 0 ≤ min c y - b := by linarith
  unfold common
  rw [min_eq_left hby, max_eq_left hxb, max_eq_right hwhole,
    max_eq_right hfirst, max_eq_right hsecond]
  ring

end Common

section Windows

variable {K : Type u} [Field K] [LinearOrder K] [IsStrictOrderedRing K]
variable {l : List (Step K)} {x y z w : K}

theorem Step.overlap_add (i : Step K) (hxy : x ≤ y) (hyz : y ≤ z) :
    i.overlap x z = i.overlap x y + i.overlap y z := by
  unfold Step.overlap
  rw [common_comm, common_add hxy hyz, common_comm x, common_comm y]

theorem Step.overlap_self (i : Step K) (x : K) : i.overlap x x = 0 := by
  unfold Step.overlap common
  rw [max_eq_left]
  linarith [min_le_right i.stop x, le_max_right i.start x]

theorem amount_self (l : List (Step K)) (x : K) : amount l x x = 0 := by
  unfold amount
  refine List.sum_eq_zero fun a ha => ?_
  obtain ⟨i, -, rfl⟩ := List.mem_map.1 ha
  rw [i.overlap_self, zero_mul]

theorem amount_add (l : List (Step K)) (hxy : x ≤ y) (hyz : y ≤ z) :
    amount l x z = amount l x y + amount l y z := by
  induction l with
  | nil => simp [amount]
  | cons i l ih =>
      unfold amount at ih ⊢
      simp only [List.map_cons, List.sum_cons]
      rw [ih, i.overlap_add hxy hyz]
      ring

/-- Windows in a row take together what comes into their span. -/
theorem amount_windows (l : List (Step K)) (x : K) (hw : 0 ≤ w) (n : ℕ) :
    ((List.range n).map fun k : ℕ =>
      amount l (x + k * w) (x + (k + 1 : ℕ) * w)).sum =
      amount l x (x + n * w) := by
  induction n with
  | zero => simp [amount_self]
  | succ n ih =>
      have hfirst : x ≤ x + n * w := by
        have := mul_nonneg (Nat.cast_nonneg (α := K) n) hw
        linarith
      have hnext : x + n * w ≤ x + (n + 1 : ℕ) * w := by
        push_cast
        linarith
      rw [List.range_succ, List.map_append, List.sum_append, ih,
        amount_add l hfirst hnext]
      simp

/-- Steps without a gap cover a window as one step does. -/
theorem time_of_contiguous {i j : Step K} (h : Contiguous (i :: l))
    (hlast : (i :: l).getLast? = some j) (x y : K) :
    time (i :: l) x y = common i.start j.stop x y := by
  induction l generalizing i with
  | nil =>
      obtain rfl := Option.some.inj hlast
      simp [time, Step.overlap]
  | cons i' l ih =>
      have hlast' : (i' :: l).getLast? = some j := by simpa using hlast
      have hrest := ih h.tail hlast'
      have hii : i.stop = i'.start := h.chain.rel
      have hij : i.stop ≤ j.stop :=
        h.stop_le hlast i List.mem_cons_self
      rw [common_add (h.ordered i List.mem_cons_self) hij]
      unfold time at hrest ⊢
      rw [List.map_cons, List.sum_cons, hrest, hii]
      unfold Step.overlap
      rw [hii]

end Windows

end Kelt
