import Kelt.Lib.Outcome
import Kelt.Lib.Steps
import Mathlib.Algebra.Order.BigOperators.Group.List
import Mathlib.Data.Rat.Floor

/-!
# Windows of a throughput run

`windows` (`throughput.py`) turns the intervals that iperf3 reports into mean
rates over windows of one width, from the end of the discard on. The mean is
taken over the time that the intervals cover in a window, so it fails on a
window without any: which runs it gets through is `windows_ok_iff`. For
intervals without a gap the means are those of the step function that the
intervals are, and keep its bits (`windows_of_contiguous`).

Times and rates are rational, and the means are not rounded.
-/

namespace Kelt
namespace Experiments
namespace Windows

section Loop

/-- A start, an end and a rate in Mbit/s. -/
abbrev Interval := Step ℚ

def nano : ℚ := 1 / 1000000000

def micro : ℚ := 1 / 1000000

inductive Failure where
  | zeroDivision
  | outOfFuel
  deriving DecidableEq

/-- `[(max(a, discard_s), b, v) … if b > discard_s + 1e-9]` -/
def clipped (discard : ℚ) (ivs : List Interval) : List Interval :=
  (ivs.filter fun i => decide (discard + nano < i.stop)).map
    fun i => { i with start := max i.start discard }

/-- `max((b for _, b, _ in ivs), default=0.0)` -/
def last (ivs : List Interval) : ℚ :=
  (ivs.map Step.stop).max?.getD 0

/-- The parts of a window that the intervals cover, with their rates. -/
def parts (ivs : List Interval) (lo hi : ℚ) : List (ℚ × ℚ) :=
  (ivs.filter fun i =>
    decide (lo + nano < i.stop) && decide (i.start < hi - nano)).map
    fun i => (min i.stop hi - max i.start lo, i.rate)

/-- `sum(t * v for t, v in parts) / covered` -/
def mean (ps : List (ℚ × ℚ)) : Except Failure ℚ :=
  let covered := (ps.map Prod.fst).sum
  if covered = 0 then .error .zeroDivision
  else .ok ((ps.map fun p => p.1 * p.2).sum / covered)

def lower (discard width : ℚ) (k : ℕ) : ℚ :=
  discard + k * width

def upper (discard width : ℚ) (k : ℕ) : ℚ :=
  discard + (k + 1 : ℕ) * width

/-- The loop, from window `k` on. -/
def loop (ivs : List Interval) (width discard : ℚ) :
    ℕ → ℕ → Except Failure (List ℚ)
  | 0, _ => .error .outOfFuel
  | fuel + 1, k =>
      if last ivs + micro < upper discard width k then return []
      else do
        let m ← mean (parts ivs (lower discard width k) (upper discard width k))
        let rest ← loop ivs width discard fuel (k + 1)
        return m :: rest

/-- `windows` -/
def windows (fuel : ℕ) (ivs : List Interval) (width discard : ℚ) :
    Except Failure (List ℚ) :=
  loop (clipped discard ivs) width discard fuel 0

/-- Turns of the loop that are enough. -/
def turns (ivs : List Interval) (width discard : ℚ) : ℕ :=
  ⌊(last (clipped discard ivs) + micro - discard) / width⌋₊ + 1

end Loop

section Fuel

variable {ivs : List Interval} {width discard : ℚ}

theorem upper_eq (k : ℕ) :
    upper discard width k = lower discard width (k + 1) :=
  rfl

theorem lower_mono (discard : ℚ) (hw : 0 < width) {j k : ℕ} (h : j ≤ k) :
    lower discard width j ≤ lower discard width k := by
  have hjk : (j : ℚ) * width ≤ k * width :=
    mul_le_mul_of_nonneg_right (Nat.cast_le.2 h) hw.le
  unfold lower
  linarith

theorem discard_le_lower (discard : ℚ) (hw : 0 < width) (k : ℕ) :
    discard ≤ lower discard width k := by
  have hmono := lower_mono discard hw (Nat.zero_le k)
  unfold lower at hmono ⊢
  simpa using hmono

/-- The time that is covered in a window. -/
def coveredTime (ivs : List Interval) (width discard : ℚ) (k : ℕ) : ℚ :=
  ((parts ivs (lower discard width k) (upper discard width k)).map Prod.fst).sum

theorem mean_parts_ok_iff {k : ℕ} :
    (∃ m, mean (parts ivs (lower discard width k) (upper discard width k)) =
      .ok m) ↔ coveredTime ivs width discard k ≠ 0 := by
  unfold mean coveredTime
  by_cases hzero : ((parts ivs (lower discard width k)
      (upper discard width k)).map Prod.fst).sum = 0
  · simp [hzero]
  · simp [hzero]

/-- A loop that gives a list has come to no window without covered time. -/
theorem covered_of_loop (hw : 0 < width) {fuel k : ℕ} {out : List ℚ}
    (h : loop ivs width discard fuel k = .ok out) {j : ℕ} (hj : k ≤ j)
    (hle : upper discard width j ≤ last ivs + micro) :
    coveredTime ivs width discard j ≠ 0 := by
  induction fuel generalizing k out with
  | zero => cases h
  | succ fuel ih =>
      unfold loop at h
      by_cases hstop : last ivs + micro < upper discard width k
      · have hmono : upper discard width k ≤ upper discard width j :=
          lower_mono discard hw (Nat.succ_le_succ hj)
        linarith
      rw [if_neg hstop] at h
      obtain ⟨m, hm, h⟩ := bind_eq_ok h
      obtain ⟨rest, hrest, -⟩ := bind_eq_ok h
      rcases Nat.eq_or_lt_of_le hj with rfl | hlt
      · exact mean_parts_ok_iff.1 ⟨m, hm⟩
      · exact ih hrest hlt

/-- With enough turns, the loop ends. -/
theorem loop_ne_outOfFuel {fuel k : ℕ} (hpos : 0 < fuel)
    (hfuel : last ivs + micro < lower discard width (k + fuel)) :
    loop ivs width discard fuel k ≠ .error .outOfFuel := by
  induction fuel generalizing k with
  | zero => omega
  | succ fuel ih =>
      unfold loop
      by_cases hstop : last ivs + micro < upper discard width k
      · rw [if_pos hstop]
        nofun
      rw [if_neg hstop]
      have hpos' : 0 < fuel := by
        by_contra hzero
        obtain rfl : fuel = 0 := by omega
        exact hstop hfuel
      have hrest := ih hpos' (k := k + 1)
        (by rwa [Nat.add_assoc, Nat.add_comm 1])
      unfold mean
      simp only [bind, Except.bind]
      split
      · rename_i e he
        split at he
        · cases he
          nofun
        · cases he
      · split
        · rename_i e he
          intro h
          cases h
          exact hrest he
        · nofun

/-- With enough turns, the loop gives a list if every window that it comes to
has covered time. -/
theorem exists_loop_ok {fuel k : ℕ} (hpos : 0 < fuel)
    (hfuel : last ivs + micro < lower discard width (k + fuel))
    (hcovered : ∀ j, k ≤ j → upper discard width j ≤ last ivs + micro →
      coveredTime ivs width discard j ≠ 0) :
    ∃ out, loop ivs width discard fuel k = .ok out := by
  induction fuel generalizing k with
  | zero => omega
  | succ fuel ih =>
      unfold loop
      by_cases hstop : last ivs + micro < upper discard width k
      · exact ⟨[], if_pos hstop⟩
      rw [if_neg hstop]
      have hpos' : 0 < fuel := by
        by_contra hzero
        obtain rfl : fuel = 0 := by omega
        exact hstop hfuel
      obtain ⟨rest, hrest⟩ := ih hpos' (k := k + 1)
        (by rwa [Nat.add_assoc, Nat.add_comm 1])
        fun j hj => hcovered j (by omega)
      obtain ⟨m, hm⟩ := mean_parts_ok_iff.2
        (hcovered k (Nat.le_refl k) (not_lt.1 hstop))
      exact ⟨m :: rest, by rw [hm, hrest]; rfl⟩

theorem lt_lower_turns (ivs : List Interval) (hw : 0 < width) {fuel : ℕ}
    (hfuel : turns ivs width discard ≤ fuel) :
    last (clipped discard ivs) + micro < lower discard width (0 + fuel) := by
  have hfloor := Nat.lt_floor_add_one
    ((last (clipped discard ivs) + micro - discard) / width)
  rw [div_lt_iff₀ hw] at hfloor
  have hmono := lower_mono discard hw hfuel
  unfold turns at hmono
  unfold lower at hmono ⊢
  rw [Nat.zero_add]
  push_cast at hmono
  linarith

end Fuel

section Covered

variable {ivs : List Interval} {width discard lo hi : ℚ}

/-- The interval covers some time of the window: it reaches more than a
nanosecond into it from either side. -/
structure Reaches (i : Interval) (discard lo hi : ℚ) : Prop where
  lasts : i.start < i.stop
  stop : lo + nano < i.stop
  start : max i.start discard < hi - nano

/-- Every window that ends by a microsecond after the last interval is reached
by an interval. -/
def Covered (ivs : List Interval) (width discard : ℚ) : Prop :=
  ∀ k, upper discard width k ≤ last (clipped discard ivs) + micro →
    ∃ i ∈ ivs, Reaches i discard (lower discard width k)
      (upper discard width k)

theorem nano_pos : 0 < nano := by
  unfold nano
  norm_num

theorem mem_clipped {i : Interval} :
    i ∈ clipped discard ivs ↔ ∃ j ∈ ivs, discard + nano < j.stop ∧
      i = { j with start := max j.start discard } := by
  unfold clipped
  simp only [List.mem_map, List.mem_filter, decide_eq_true_eq]
  constructor
  · rintro ⟨j, ⟨hj, hstop⟩, rfl⟩
    exact ⟨j, hj, hstop, rfl⟩
  · rintro ⟨j, hj, hstop, rfl⟩
    exact ⟨j, ⟨hj, hstop⟩, rfl⟩

theorem le_last {i : Interval} (hi : i ∈ ivs) : i.stop ≤ last ivs := by
  have hmem : i.stop ∈ ivs.map Step.stop := List.mem_map_of_mem hi
  unfold last
  cases h : (ivs.map Step.stop).max? with
  | none =>
      rw [List.max?_eq_none_iff.1 h] at hmem
      cases hmem
  | some m => exact (List.max?_eq_some_iff.1 h).2 i.stop hmem

theorem mem_parts {p : ℚ × ℚ} :
    p ∈ parts ivs lo hi ↔ ∃ i ∈ ivs, lo + nano < i.stop ∧
      i.start < hi - nano ∧ p = (min i.stop hi - max i.start lo, i.rate) := by
  unfold parts
  simp only [List.mem_map, List.mem_filter, Bool.and_eq_true,
    decide_eq_true_eq]
  constructor
  · rintro ⟨i, ⟨hi, hstop, hstart⟩, rfl⟩
    exact ⟨i, hi, hstop, hstart, rfl⟩
  · rintro ⟨i, hi, hstop, hstart, rfl⟩
    exact ⟨i, ⟨hi, hstop, hstart⟩, rfl⟩

/-- The parts of a window have a length each, and one that is not zero if the
interval lasts. -/
theorem part_nonneg (hordered : Ordered ivs) (hlo : lo < hi) {p : ℚ × ℚ}
    (hp : p ∈ parts (clipped discard ivs) lo hi) : 0 ≤ p.1 := by
  obtain ⟨i, hi', hstop, hstart, rfl⟩ := mem_parts.1 hp
  obtain ⟨j, hj, hdiscard, rfl⟩ := mem_clipped.1 hi'
  have hnano := nano_pos
  have hj' := hordered j hj
  dsimp only at hstop hstart ⊢
  have hle : max (max j.start discard) lo ≤ min j.stop hi := by
    refine le_min (max_le (max_le hj' ?_) ?_) (max_le ?_ hlo.le) <;> linarith
  linarith

theorem covered_ne_zero_iff (hordered : Ordered ivs) (hdiscard : discard ≤ lo)
    (hlo : lo < hi) :
    ((parts (clipped discard ivs) lo hi).map Prod.fst).sum ≠ 0 ↔
      ∃ i ∈ ivs, Reaches i discard lo hi := by
  have hnano := nano_pos
  constructor
  · intro hsum
    by_contra hnone
    refine hsum (List.sum_eq_zero fun t ht => ?_)
    obtain ⟨p, hp, rfl⟩ := List.mem_map.1 ht
    have hnonneg := part_nonneg hordered hlo hp
    obtain ⟨i, hi', hstop, hstart, rfl⟩ := mem_parts.1 hp
    obtain ⟨j, hj, -, rfl⟩ := mem_clipped.1 hi'
    have hlasts : j.stop ≤ j.start := by
      by_contra hlt
      exact hnone ⟨j, hj, not_le.1 hlt, hstop, hstart⟩
    have hle : min j.stop hi ≤ max (max j.start discard) lo :=
      (min_le_left _ _).trans (hlasts.trans
        ((le_max_left _ _).trans (le_max_left _ _)))
    dsimp only at hnonneg ⊢
    linarith
  · rintro ⟨j, hj, hlasts, hstop, hstart⟩ hsum
    have hmem : (min j.stop hi - max (max j.start discard) lo, j.rate) ∈
        parts (clipped discard ivs) lo hi :=
      mem_parts.2 ⟨_, mem_clipped.2 ⟨j, hj, by linarith, rfl⟩, hstop, hstart,
        rfl⟩
    have hzero : min j.stop hi - max (max j.start discard) lo = 0 := by
      refine List.all_zero_of_le_zero_le_of_sum_eq_zero ?_ hsum
        (List.mem_map_of_mem (f := Prod.fst) hmem)
      intro t ht
      obtain ⟨p, hp, rfl⟩ := List.mem_map.1 ht
      exact part_nonneg hordered hlo hp
    have hlt : max (max j.start discard) lo < min j.stop hi := by
      refine max_lt (max_lt ?_ ?_) ?_ <;> refine lt_min ?_ ?_ <;>
        linarith [le_max_left j.start discard]
    linarith

theorem covered_iff (hordered : Ordered ivs) (hw : 0 < width) :
    Covered ivs width discard ↔ ∀ k,
      upper discard width k ≤ last (clipped discard ivs) + micro →
        coveredTime (clipped discard ivs) width discard k ≠ 0 := by
  unfold Covered
  refine forall_congr' fun k => imp_congr_right fun _ => ?_
  have hlt : lower discard width k < upper discard width k := by
    unfold lower upper
    push_cast
    linarith
  exact (covered_ne_zero_iff hordered (discard_le_lower discard hw k) hlt).symm

theorem covered_of_windows (hordered : Ordered ivs) (hw : 0 < width) {fuel : ℕ}
    {out : List ℚ} (h : windows fuel ivs width discard = .ok out) :
    Covered ivs width discard :=
  (covered_iff hordered hw).2 fun k => covered_of_loop hw h (Nat.zero_le k)

/-- `windows` ends, and it gives a list for exactly the runs whose windows are
all reached by an interval. -/
theorem windows_ok_iff (hordered : Ordered ivs) (hw : 0 < width) {fuel : ℕ}
    (hfuel : turns ivs width discard ≤ fuel) :
    windows fuel ivs width discard ≠ .error .outOfFuel ∧
      ((∃ out, windows fuel ivs width discard = .ok out) ↔
        Covered ivs width discard) := by
  have hpos : 0 < fuel := Nat.lt_of_lt_of_le (Nat.succ_pos _) hfuel
  have henough := lt_lower_turns ivs hw hfuel
  refine ⟨loop_ne_outOfFuel hpos henough, ?_, ?_⟩
  · rintro ⟨out, hout⟩
    exact covered_of_windows hordered hw hout
  · intro hcovered
    exact exists_loop_ok hpos henough fun k _ =>
      (covered_iff hordered hw).1 hcovered k

/-- A run that reports its first and its fourth second. -/
def stalled : List Interval :=
  [⟨0, 1, 10⟩, ⟨3, 4, 10⟩]

theorem ordered_stalled : Ordered stalled := by
  simp only [Ordered, stalled, List.forall_mem_cons, List.not_mem_nil,
    false_implies, implies_true, and_true]
  norm_num

theorem windows_ok_stalled :
    windows (turns stalled 1 3) stalled 1 3 ≠ .error .outOfFuel ∧
      ((∃ out, windows (turns stalled 1 3) stalled 1 3 = .ok out) ↔
        Covered stalled 1 3) :=
  windows_ok_iff ordered_stalled one_pos (Nat.le_refl _)

/-- From the start on, there is a window in which it reports nothing. -/
theorem not_windows_stalled :
    ¬ ∀ (ivs : List Interval) (width discard : ℚ), Ordered ivs →
      ivs.Pairwise (fun i j => i.stop ≤ j.start) → 0 < width →
      ∃ fuel out, windows fuel ivs width discard = .ok out := by
  intro h
  have hpairwise : stalled.Pairwise fun i j => i.stop ≤ j.start := by
    simp only [stalled, List.pairwise_cons, List.mem_cons, List.not_mem_nil,
      or_false, forall_eq, false_implies, implies_true, and_true,
      List.Pairwise.nil]
    norm_num
  obtain ⟨fuel, out, hout⟩ := h stalled 1 0 ordered_stalled hpairwise one_pos
  have hlast : 4 ≤ last (clipped 0 stalled) := by
    have hmem : (⟨max 3 0, 4, 10⟩ : Interval) ∈ clipped 0 stalled :=
      mem_clipped.2 ⟨⟨3, 4, 10⟩, by simp [stalled], by norm_num [nano], rfl⟩
    exact le_last hmem
  have hreached : upper 0 1 1 ≤ last (clipped 0 stalled) + micro := by
    have hupper : upper 0 1 1 = 2 := by norm_num [upper]
    have hmicro : 0 < micro := by norm_num [micro]
    linarith
  obtain ⟨i, hi, hreach⟩ :=
    covered_of_windows ordered_stalled one_pos hout 1 hreached
  have hnano := nano_pos
  have hstop := hreach.stop
  have hstart := (le_max_left i.start 0).trans_lt hreach.start
  simp only [stalled, List.mem_cons, List.not_mem_nil, or_false] at hi
  unfold lower at hstop
  unfold upper at hstart
  push_cast at hstop hstart
  rcases hi with rfl | rfl <;> dsimp only at hstop hstart <;> linarith

end Covered

section Grid

variable {g x y : ℚ}

/-- A multiple of the width of the grid. -/
def OnGrid (g x : ℚ) : Prop :=
  ∃ n : ℤ, x = n * g

theorem OnGrid.add (hx : OnGrid g x) (hy : OnGrid g y) : OnGrid g (x + y) := by
  obtain ⟨m, rfl⟩ := hx
  obtain ⟨n, rfl⟩ := hy
  exact ⟨m + n, by push_cast; ring⟩

theorem OnGrid.natMul (hx : OnGrid g x) (k : ℕ) : OnGrid g (k * x) := by
  obtain ⟨m, rfl⟩ := hx
  exact ⟨k * m, by push_cast; ring⟩

theorem onGrid_zero (g : ℚ) : OnGrid g 0 :=
  ⟨0, by simp⟩

/-- Two times that differ do so by ten microseconds. -/
theorem OnGrid.add_le (hg : 1 / 100000 ≤ g) (hx : OnGrid g x)
    (hy : OnGrid g y) (h : x < y) : x + 1 / 100000 ≤ y := by
  obtain ⟨m, rfl⟩ := hx
  obtain ⟨n, rfl⟩ := hy
  have hpos : 0 < g := lt_of_lt_of_le (by norm_num) hg
  have hmn : m < n := by
    have hcast := lt_of_mul_lt_mul_right h hpos.le
    exact_mod_cast hcast
  have hstep : ((m + 1 : ℤ) : ℚ) * g ≤ n * g :=
    mul_le_mul_of_nonneg_right (by exact_mod_cast hmn) hpos.le
  push_cast at hstep
  linarith

theorem OnGrid.add_nano_lt_iff (hg : 1 / 100000 ≤ g) (hx : OnGrid g x)
    (hy : OnGrid g y) : x + nano < y ↔ x < y := by
  have hnano := nano_pos
  constructor
  · intro h
    linarith
  · intro h
    have hstep := OnGrid.add_le hg hx hy h
    have hsmall : nano < 1 / 100000 := by norm_num [nano]
    linarith

theorem OnGrid.le_add_micro_iff (hg : 1 / 100000 ≤ g) (hx : OnGrid g x)
    (hy : OnGrid g y) : x ≤ y + micro ↔ x ≤ y := by
  have hmicro : 0 < micro := by norm_num [micro]
  constructor
  · intro h
    by_contra hlt
    have hstep := OnGrid.add_le hg hy hx (not_le.1 hlt)
    have hsmall : micro < 1 / 100000 := by norm_num [micro]
    linarith
  · intro h
    linarith

end Grid

section Means

variable {ivs : List Interval} {width discard lo hi g : ℚ}

/-- The bounds of the intervals, the discard and the width lie on a grid of at
least ten microseconds. -/
structure Gridded (g : ℚ) (ivs : List Interval) (width discard : ℚ) :
    Prop where
  fine : 1 / 100000 ≤ g
  start : ∀ i ∈ ivs, OnGrid g i.start
  stop : ∀ i ∈ ivs, OnGrid g i.stop
  width : OnGrid g width
  discard : OnGrid g discard

theorem Gridded.lower (h : Gridded g ivs width discard) (k : ℕ) :
    OnGrid g (lower discard width k) :=
  h.discard.add (h.width.natMul k)

theorem parts_clipped_cons (i : Interval) (ivs : List Interval)
    (discard lo hi : ℚ) :
    parts (clipped discard (i :: ivs)) lo hi =
      (if discard + nano < i.stop ∧ lo + nano < i.stop ∧
          max i.start discard < hi - nano then
        [(min i.stop hi - max (max i.start discard) lo, i.rate)] else []) ++
        parts (clipped discard ivs) lo hi := by
  unfold parts clipped
  by_cases hdiscard : discard + nano < i.stop
  · by_cases hreach : lo + nano < i.stop ∧ max i.start discard < hi - nano
    · simp [hdiscard, hreach]
    · rw [if_neg fun h => hreach h.2, List.filter_cons_of_pos (by simpa),
        List.map_cons, List.filter_cons_of_neg (by simpa using hreach)]
      rfl
  · rw [if_neg fun h => hdiscard h.1,
      List.filter_cons_of_neg (by simpa using hdiscard)]
    rfl

/-- On the grid the tolerances make no difference: what the parts of a window
add up to is what the intervals have in common with it. -/
theorem sum_parts (f : ℚ → ℚ → ℚ) (hf : ∀ v, f 0 v = 0)
    (hgrid : Gridded g ivs width discard) (hordered : Ordered ivs)
    (hlo : OnGrid g lo) (hhi : OnGrid g hi) (hdiscard : discard ≤ lo)
    (hlt : lo < hi) :
    ((parts (clipped discard ivs) lo hi).map fun p => f p.1 p.2).sum =
      (ivs.map fun i => f (i.overlap lo hi) i.rate).sum := by
  induction ivs with
  | nil => rfl
  | cons i ivs ih =>
      have hrest := ih ⟨hgrid.fine, fun j hj => hgrid.start j (.tail i hj),
        fun j hj => hgrid.stop j (.tail i hj), hgrid.width, hgrid.discard⟩
        (fun j hj => hordered j (.tail i hj))
      have hi' := hordered i List.mem_cons_self
      have hstart' := hgrid.start i List.mem_cons_self
      have hstop' := hgrid.stop i List.mem_cons_self
      have hmax : OnGrid g (max i.start discard) := by
        rcases max_choice i.start discard with h | h <;> rw [h]
        · exact hstart'
        · exact hgrid.discard
      have hclip : max (max i.start discard) lo = max i.start lo := by
        rw [max_assoc, max_eq_right hdiscard]
      have hcond : (discard + nano < i.stop ∧ lo + nano < i.stop ∧
          max i.start discard < hi - nano) ↔
          (discard < i.stop ∧ lo < i.stop ∧ max i.start discard < hi) := by
        rw [OnGrid.add_nano_lt_iff hgrid.fine hgrid.discard hstop',
          OnGrid.add_nano_lt_iff hgrid.fine hlo hstop', lt_sub_iff_add_lt,
          OnGrid.add_nano_lt_iff hgrid.fine hmax hhi]
      rw [parts_clipped_cons, List.map_append, List.sum_append, hrest,
        List.map_cons, List.sum_cons]
      congr 1
      by_cases hreach : discard < i.stop ∧ lo < i.stop ∧
          max i.start discard < hi
      · have hstart_lt : i.start < hi :=
          (le_max_left _ _).trans_lt hreach.2.2
        have hle : max i.start lo ≤ min i.stop hi :=
          max_le (le_min hi' hstart_lt.le) (le_min hreach.2.1.le hlt.le)
        have hoverlap : i.overlap lo hi = min i.stop hi - max i.start lo := by
          unfold Step.overlap common
          rw [max_eq_right (by linarith)]
        rw [if_pos (hcond.2 hreach), hclip, hoverlap]
        simp
      · have hoverlap : i.overlap lo hi = 0 := by
          unfold Step.overlap
          refine common_eq_zero ?_
          by_contra hmeets
          rw [not_or, not_le, not_le] at hmeets
          exact hreach ⟨hdiscard.trans_lt hmeets.1, hmeets.1,
            max_lt hmeets.2 (hdiscard.trans_lt hlt)⟩
        rw [if_neg (mt hcond.1 hreach), hoverlap, hf]
        rfl

/-- Where the last interval ends. -/
def endOf (ivs : List Interval) : ℚ :=
  (ivs.getLast?.map Step.stop).getD 0

/-- The whole windows between the discard and the end. -/
def wholeWindows (ivs : List Interval) (width discard : ℚ) : ℕ :=
  ⌊(endOf ivs - discard) / width⌋₊

theorem exists_of_lt_endOf (hend : discard < endOf ivs)
    (hdiscard : 0 ≤ discard) :
    ∃ i l j, ivs = i :: l ∧ (i :: l).getLast? = some j ∧
      endOf ivs = j.stop := by
  unfold endOf at hend ⊢
  cases ivs with
  | nil =>
      simp only [List.getLast?_nil, Option.map_none, Option.getD_none] at hend
      linarith
  | cons i l =>
      obtain ⟨j, hj⟩ := Option.ne_none_iff_exists'.1
        (mt List.getLast?_eq_none_iff.1 (List.cons_ne_nil i l))
      exact ⟨i, l, j, rfl, hj, by rw [hj]; rfl⟩

theorem mean_parts (hcontig : Contiguous ivs)
    (hgrid : Gridded g ivs width discard)
    (hfirst : ∀ i ∈ ivs.head?, i.start ≤ discard) (hzero : 0 ≤ discard)
    (hlo : OnGrid g lo) (hhi : OnGrid g hi) (hdiscard : discard ≤ lo)
    (hlt : lo < hi) (hend : hi ≤ endOf ivs) :
    mean (parts (clipped discard ivs) lo hi) =
      .ok (amount ivs lo hi / (hi - lo)) := by
  obtain ⟨i, l, j, rfl, hlast, hstop⟩ :=
    exists_of_lt_endOf ((hdiscard.trans_lt hlt).trans_le hend) hzero
  have hcovered : ((parts (clipped discard (i :: l)) lo hi).map
      Prod.fst).sum = hi - lo := by
    refine (sum_parts (fun t _ => t) (fun _ => rfl) hgrid hcontig.ordered hlo
      hhi hdiscard hlt).trans ?_
    refine (time_of_contiguous hcontig hlast lo hi).trans ?_
    exact common_of_le ((hfirst i rfl).trans hdiscard) hlt.le (hstop ▸ hend)
  have hamount : ((parts (clipped discard (i :: l)) lo hi).map
      fun p => p.1 * p.2).sum = amount (i :: l) lo hi :=
    sum_parts (fun t v => t * v) zero_mul hgrid hcontig.ordered hlo hhi
      hdiscard hlt
  unfold mean
  simp only [hcovered, hamount]
  rw [if_neg (by linarith)]

/-- The last end that the loop looks at is the end of the last interval, if that
is after the discard. -/
theorem last_clipped (hcontig : Contiguous ivs)
    (hgrid : Gridded g ivs width discard) (hzero : 0 ≤ discard)
    (hend : discard < endOf ivs) : last (clipped discard ivs) = endOf ivs := by
  obtain ⟨i, l, j, rfl, hlast, hstop⟩ := exists_of_lt_endOf hend hzero
  have hj : j ∈ i :: l := List.mem_of_getLast? hlast
  have hnano : discard + nano < j.stop :=
    (OnGrid.add_nano_lt_iff hgrid.fine hgrid.discard (hgrid.stop j hj)).2
      (hstop ▸ hend)
  have hmem : { j with start := max j.start discard } ∈
      clipped discard (i :: l) :=
    mem_clipped.2 ⟨j, hj, hnano, rfl⟩
  have hge : j.stop ≤ last (clipped discard (i :: l)) :=
    le_last (i := { j with start := max j.start discard }) hmem
  rw [hstop]
  refine le_antisymm ?_ hge
  have hmax : ∃ m, ((clipped discard (i :: l)).map Step.stop).max? = some m := by
    refine Option.ne_none_iff_exists'.1 fun h => ?_
    rw [List.max?_eq_none_iff, List.map_eq_nil_iff] at h
    rw [h] at hmem
    cases hmem
  obtain ⟨m, hm⟩ := hmax
  obtain ⟨k, hk, hkm⟩ := List.mem_map.1 (List.max?_eq_some_iff.1 hm).1
  obtain ⟨k', hk', -, rfl⟩ := mem_clipped.1 hk
  unfold last
  rw [hm, Option.getD_some, ← hkm]
  exact hcontig.stop_le hlast k' hk'

theorem clipped_eq_nil (hcontig : Contiguous ivs) (hend : endOf ivs ≤ discard) :
    clipped discard ivs = [] := by
  have hnano := nano_pos
  refine List.eq_nil_iff_forall_not_mem.2 fun i hi => ?_
  obtain ⟨k, hk, hstop, -⟩ := mem_clipped.1 hi
  cases ivs with
  | nil => cases hk
  | cons i l =>
      obtain ⟨j, hj⟩ := Option.ne_none_iff_exists'.1
        (mt List.getLast?_eq_none_iff.1 (List.cons_ne_nil i l))
      have hle := hcontig.stop_le hj k hk
      have hend' : endOf (i :: l) = j.stop := by
        unfold endOf
        rw [hj]
        rfl
      linarith

/-- A window ends by the last interval if and only if it is a whole one. -/
theorem upper_le_endOf_iff (hw : 0 < width) (k : ℕ) :
    upper discard width k ≤ endOf ivs ↔ k < wholeWindows ivs width discard := by
  unfold wholeWindows upper
  rw [← Nat.succ_le_iff, Nat.le_floor_iff' (Nat.succ_ne_zero k), le_div_iff₀ hw,
    le_sub_iff_add_le, add_comm]

/-- The loop stops behind the whole windows, and not before. -/
theorem upper_le_last_iff (hcontig : Contiguous ivs)
    (hgrid : Gridded g ivs width discard) (hw : 0 < width)
    (hzero : 0 ≤ discard) (k : ℕ) :
    upper discard width k ≤ last (clipped discard ivs) + micro ↔
      k < wholeWindows ivs width discard := by
  rw [← upper_le_endOf_iff hw]
  by_cases hend : discard < endOf ivs
  · rw [last_clipped hcontig hgrid hzero hend]
    obtain ⟨i, l, j, rfl, hlast, hstop⟩ := exists_of_lt_endOf hend hzero
    rw [hstop]
    exact OnGrid.le_add_micro_iff hgrid.fine (hgrid.lower (k + 1))
      (hgrid.stop j (List.mem_of_getLast? hlast))
  · have hfirst : lower discard width 1 ≤ upper discard width k :=
      lower_mono discard hw (Nat.succ_le_succ (Nat.zero_le k))
    have hwidth : 1 / 100000 ≤ width := by
      have hstep := OnGrid.add_le hgrid.fine (onGrid_zero g) hgrid.width hw
      linarith
    have hmicro : micro < 1 / 100000 := by norm_num [micro]
    have hlast : last (clipped discard ivs) = 0 := by
      rw [clipped_eq_nil hcontig (not_lt.1 hend)]
      rfl
    unfold lower at hfirst
    push_cast at hfirst
    exact iff_of_false (by linarith) (by linarith)

theorem loop_eq {cl : List Interval} {n : ℕ} {f : ℕ → ℚ}
    (hstop : last cl + micro < upper discard width n)
    (hgo : ∀ k < n, upper discard width k ≤ last cl + micro ∧
      mean (parts cl (lower discard width k) (upper discard width k)) =
        .ok (f k)) {m k fuel : ℕ} (hm : k + m = n) (hfuel : m < fuel) :
    loop cl width discard fuel k = .ok ((List.range' k m).map f) := by
  induction m generalizing k fuel with
  | zero =>
      obtain ⟨fuel, rfl⟩ : ∃ j, fuel = j + 1 := ⟨fuel - 1, by omega⟩
      obtain rfl : k = n := by omega
      exact if_pos hstop
  | succ m ih =>
      obtain ⟨fuel, rfl⟩ : ∃ j, fuel = j + 1 := ⟨fuel - 1, by omega⟩
      obtain ⟨hle, hmean⟩ := hgo k (by omega)
      rw [loop, if_neg (not_lt.2 hle), hmean,
        ih (k := k + 1) (by omega) (by omega)]
      rfl

/-- For intervals without a gap that start by the discard, with all times on a
grid of ten microseconds or more, there is a mean for each whole window between
the discard and the end, and the means together have the bits of the intervals
over the span of the windows. Times count from the start of the test. -/
theorem windows_of_contiguous (hcontig : Contiguous ivs)
    (hgrid : Gridded g ivs width discard) (hw : 0 < width)
    (hstart : ∃ i ∈ ivs.head?, 0 ≤ i.start ∧ i.start ≤ discard)
    {fuel : ℕ} (hfuel : wholeWindows ivs width discard < fuel) :
    ∃ out, windows fuel ivs width discard = .ok out ∧
      out = (List.range (wholeWindows ivs width discard)).map (fun k =>
        amount ivs (lower discard width k) (upper discard width k) / width) ∧
      (out.map fun v => v * width).sum =
        amount ivs discard
          (discard + wholeWindows ivs width discard * width) := by
  obtain ⟨i₀, hi₀, hnonneg, hle₀⟩ := hstart
  have hzero : 0 ≤ discard := hnonneg.trans hle₀
  have hfirst : ∀ i ∈ ivs.head?, i.start ≤ discard :=
    fun i hi => Option.mem_unique hi hi₀ ▸ hle₀
  have hiff := upper_le_last_iff hcontig hgrid hw hzero
  have hgo : ∀ k < wholeWindows ivs width discard,
      upper discard width k ≤ last (clipped discard ivs) + micro ∧
        mean (parts (clipped discard ivs) (lower discard width k)
          (upper discard width k)) =
          .ok (amount ivs (lower discard width k) (upper discard width k) /
            width) := by
    intro k hk
    refine ⟨(hiff k).2 hk, ?_⟩
    have hwidth : upper discard width k - lower discard width k = width := by
      unfold upper lower
      push_cast
      ring
    have hmean := mean_parts hcontig hgrid hfirst hzero (hgrid.lower k)
      (hgrid.lower (k + 1)) (discard_le_lower discard hw k)
      (by rw [← upper_eq]; linarith)
      ((upper_le_endOf_iff hw k).2 hk)
    rw [← upper_eq, hwidth] at hmean
    exact hmean
  have hstop : last (clipped discard ivs) + micro <
      upper discard width (wholeWindows ivs width discard) :=
    not_le.1 fun h => lt_irrefl _ ((hiff _).1 h)
  refine ⟨_, loop_eq hstop hgo (Nat.zero_add _) hfuel, ?_, ?_⟩
  · rw [List.range_eq_range']
  · rw [← List.range_eq_range', List.map_map]
    have hbits := amount_windows ivs discard hw.le
      (wholeWindows ivs width discard)
    rw [← hbits]
    refine congrArg List.sum (List.map_congr_left fun k _ => ?_)
    exact div_mul_cancel₀ _ hw.ne'

/-- Three intervals of half a second. -/
def threeHalves : List Interval :=
  [⟨0, 1 / 2, 10⟩, ⟨1 / 2, 1, 20⟩, ⟨1, 3 / 2, 40⟩]

theorem contiguous_threeHalves : Contiguous threeHalves := by
  refine ⟨?_, ?_⟩
  · simp only [Ordered, threeHalves, List.forall_mem_cons, List.not_mem_nil,
      false_implies, implies_true, and_true]
    norm_num
  · simp [threeHalves]

theorem gridded_threeHalves : Gridded (1 / 2) threeHalves 1 (1 / 2) where
  fine := by norm_num
  start := by
    simp only [threeHalves, List.forall_mem_cons, List.not_mem_nil,
      false_implies, implies_true, and_true]
    exact ⟨⟨0, by norm_num⟩, ⟨1, by norm_num⟩, ⟨2, by norm_num⟩⟩
  stop := by
    simp only [threeHalves, List.forall_mem_cons, List.not_mem_nil,
      false_implies, implies_true, and_true]
    exact ⟨⟨1, by norm_num⟩, ⟨2, by norm_num⟩, ⟨3, by norm_num⟩⟩
  width := ⟨2, by norm_num⟩
  discard := ⟨1, by norm_num⟩

/-- Behind the first of them there is one window of a second. -/
theorem windows_threeHalves :
    wholeWindows threeHalves 1 (1 / 2) = 1 ∧
      ∃ out, windows 2 threeHalves 1 (1 / 2) = .ok out ∧
        out = (List.range (wholeWindows threeHalves 1 (1 / 2))).map (fun k =>
          amount threeHalves (lower (1 / 2) 1 k) (upper (1 / 2) 1 k) / 1) ∧
        (out.map fun v => v * 1).sum = amount threeHalves (1 / 2)
          (1 / 2 + wholeWindows threeHalves 1 (1 / 2) * 1) := by
  have hwhole : wholeWindows threeHalves 1 (1 / 2) = 1 := by
    norm_num [wholeWindows, endOf, threeHalves]
  refine ⟨hwhole, windows_of_contiguous contiguous_threeHalves
    gridded_threeHalves one_pos ⟨_, rfl, le_refl _, ?_⟩ ?_⟩
  · norm_num
  · rw [hwhole]
    decide

end Means

end Windows
end Experiments
end Kelt
