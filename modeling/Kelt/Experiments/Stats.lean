import Kelt.Lib.NearestRank
import Mathlib.Algebra.BigOperators.Group.List.Basic
import Mathlib.Data.Rat.Floor

/-!
# Percentiles

`percentile` (`lib/stats.py`) takes the element at a rounded position of the
sorted list. It is an element of the list, does not depend on the order, and
does not decrease with the share (`percentile_perm`, `percentile_mono`); that
the share of the list is at or below it holds where the rounding does not fall
short of the nearest rank, or falls short among equal elements
(`declared_iff`).

Numbers are rational; a missing value is `none`.
-/

namespace Kelt
namespace Experiments
namespace Stats

section Percentile

/-- A share of a list. -/
structure Share where
  val : ℚ
  nonneg : 0 ≤ val
  le_one : val ≤ 1

/-- `min(len(s) - 1, int(round(q * (len(s) - 1))))` -/
def position (n : ℕ) (q : Share) : ℕ :=
  min (n - 1) (roundEven (q.val * ((n : ℚ) - 1))).toNat

/-- `percentile` -/
def percentile (xs : List ℚ) (q : Share) : Option ℚ :=
  (ascending xs)[position xs.length q]?

/-- `round(v, digits)` -/
def roundDigits (digits : ℕ) (v : ℚ) : ℚ :=
  roundEven (v * 10 ^ digits) / 10 ^ digits

/-- `sum(xs) / len(xs)` -/
def mean (xs : List ℚ) : ℚ :=
  xs.sum / xs.length

structure Summary where
  n : ℕ
  min : Option ℚ
  mean : Option ℚ
  median : Option ℚ
  p90 : Option ℚ
  p99 : Option ℚ
  max : Option ℚ
  deriving DecidableEq

def half : Share :=
  ⟨1 / 2, by norm_num, by norm_num⟩

def ninety : Share :=
  ⟨9 / 10, by norm_num, by norm_num⟩

def ninetyNine : Share :=
  ⟨99 / 100, by norm_num, by norm_num⟩

/-- `summary`, with `r` as the rounding of its figures. -/
def summary (r : ℚ → ℚ) (xs : List ℚ) : Summary :=
  if xs = [] then ⟨0, none, none, none, none, none, none⟩
  else
    { n := xs.length
      min := xs.min?.map r
      mean := some (r (mean xs))
      median := (percentile xs half).map r
      p90 := (percentile xs ninety).map r
      p99 := (percentile xs ninetyNine).map r
      max := xs.max?.map r }

end Percentile

section Declared

variable {xs : List ℚ} {q : Share}

theorem position_lt (hxs : xs ≠ []) (q : Share) :
    position xs.length q < (ascending xs).length := by
  have hpos := List.length_pos_iff.2 hxs
  rw [length_ascending]
  exact (min_le_left _ _).trans_lt (by omega)

theorem exists_percentile (hxs : xs ≠ []) (q : Share) :
    ∃ v, percentile xs q = some v :=
  ⟨_, List.getElem?_eq_getElem (position_lt hxs q)⟩

theorem mem_of_percentile {v : ℚ} (h : percentile xs q = some v) : v ∈ xs :=
  (ascending_perm xs).mem_iff.1 (List.mem_of_getElem? h)

theorem percentile_perm {ys : List ℚ} (h : ys.Perm xs) (q : Share) :
    percentile ys q = percentile xs q := by
  unfold percentile
  rw [ascending_congr h, h.length_eq]

theorem position_mono {q q' : Share} (h : q.val ≤ q'.val) {n : ℕ}
    (hn : 0 < n) : position n q ≤ position n q' := by
  have hone : (1 : ℚ) ≤ n := by exact_mod_cast hn
  exact min_le_min_left _ (Int.toNat_le_toNat
    (roundEven_mono (mul_le_mul_of_nonneg_right h (by linarith))))

theorem percentile_mono {q' : Share} (h : q.val ≤ q'.val) {v v' : ℚ}
    (hv : percentile xs q = some v) (hv' : percentile xs q' = some v') :
    v ≤ v' := by
  obtain ⟨hlt, rfl⟩ := List.getElem?_eq_some_iff.1 hv
  obtain ⟨hlt', rfl⟩ := List.getElem?_eq_some_iff.1 hv'
  have hpos : 0 < xs.length := by
    rw [length_ascending] at hlt
    omega
  exact getElem_le_getElem (ascending_pairwise xs) (position_mono h hpos) hlt'

/-- The rounded position is at most a half off, and never past the end. -/
theorem sub_half_le_position {n : ℕ} (hn : 0 < n) (q : Share) :
    q.val * ((n : ℚ) - 1) - 1 / 2 ≤ position n q := by
  have hone : (1 : ℚ) ≤ n := by exact_mod_cast hn
  have hnonneg : 0 ≤ q.val * ((n : ℚ) - 1) :=
    mul_nonneg q.nonneg (by linarith)
  have hround := sub_half_le_roundEven (q.val * ((n : ℚ) - 1))
  have hlast : roundEven (q.val * ((n : ℚ) - 1)) ≤ ((n - 1 : ℕ) : Int) := by
    rw [← roundEven_natCast (K := ℚ), Nat.cast_sub hn, Nat.cast_one]
    exact roundEven_mono (mul_le_of_le_one_left (by linarith) q.le_one)
  have hpos : ((position n q : ℕ) : Int) =
      roundEven (q.val * ((n : ℚ) - 1)) := by
    have := roundEven_nonneg hnonneg
    unfold position
    omega
  have hcast : ((position n q : ℕ) : ℚ) =
      (roundEven (q.val * ((n : ℚ) - 1)) : ℚ) := by exact_mod_cast hpos
  rw [hcast]
  exact hround

/-- What the module declares of the percentile. -/
structure Declared (xs : List ℚ) (q : Share) (v : ℚ) : Prop where
  mem : v ∈ xs
  share : ShareAtOrBelow q.val xs v
  perm : ∀ ys, ys.Perm xs → percentile ys q = some v
  mono : ∀ q' v', q.val ≤ q'.val → percentile xs q' = some v' → v ≤ v'

/-- From the rounded position to the nearest rank the sorted list does not
grow. -/
def Reached (xs : List ℚ) (q : Share) : Prop :=
  ∀ k, position xs.length q ≤ k → k < ⌈q.val * xs.length⌉₊ →
    (ascending xs)[k]? = (ascending xs)[position xs.length q]?

theorem share_iff {v : ℚ} (hv : percentile xs q = some v) :
    ShareAtOrBelow q.val xs v ↔ Reached xs q := by
  unfold Reached
  rw [share_le_iff q.le_one xs hv]
  unfold percentile at hv
  rw [hv]

theorem declared_iff {v : ℚ} (hv : percentile xs q = some v) :
    Declared xs q v ↔ Reached xs q := by
  rw [← share_iff hv]
  refine ⟨fun h => h.share, fun h => ?_⟩
  exact
    { mem := mem_of_percentile hv
      share := h
      perm := fun ys hys => (percentile_perm hys q).trans hv
      mono := fun _ _ hq hv' => percentile_mono hq hv hv' }

/-- Up to the median the rounding does not fall short. -/
theorem reached_of_le_half (hxs : xs ≠ []) (hq : q.val ≤ 1 / 2) :
    Reached xs q := by
  intro k hk hlt
  have hpos := sub_half_le_position (List.length_pos_iff.2 hxs) q
  have hk' : ((position xs.length q : ℕ) : ℚ) ≤ k := by exact_mod_cast hk
  have hceil := Nat.lt_ceil.1 hlt
  have heq : k = position xs.length q := by
    have hlt' : (k : ℚ) < position xs.length q + 1 := by linarith
    have hle : k < position xs.length q + 1 := by exact_mod_cast hlt'
    omega
  rw [heq]

end Declared

end Stats
end Experiments
end Kelt
