import Kelt.Experiments.Stats
import Mathlib.Tactic.FieldSimp

/-!
# Open-loop load

`load_stats` reads what an open-loop condition sent, and `load_problems`
accepts it where the rate was reached and the 99th percentile of the lateness
is within one period. The percentile is a rounded position of the sorted
latenesses, so that 99 % of the requests were sent within one period, whatever
the rate, if and only if the rounding does not fall short of the nearest rank
among different elements (`percentile_iff`).

The figures are rounded to three digits in the source; the rounding is a
parameter here.
-/

namespace Kelt
namespace Experiments
namespace OpenLoop

open Stats

section Load

inductive Fault where
  | typeError
  | zeroDivision
  deriving DecidableEq

/-- A row of `requests_<condition>.csv`; an empty field is `none`. -/
structure Request where
  startEpoch : Option ℚ
  lateS : Option ℚ
  deriving DecidableEq

/-- `load.json` -/
structure Load where
  ratePerS : ℚ
  warmup : Int
  deriving DecidableEq

structure LoadStats where
  plannedPerS : ℚ
  warmup : Int
  sent : ℕ
  sentPerS : Option ℚ
  lateP99Ms : Option ℚ
  deriving DecidableEq

def starts (reqs : List Request) : List ℚ :=
  ascending (reqs.filterMap Request.startEpoch)

def lateness (reqs : List Request) : List ℚ :=
  reqs.filterMap Request.lateS

/-- `starts[-1] - starts[0] if len(starts) > 1 else 0.0` -/
def span (starts : List ℚ) : ℚ :=
  if 1 < starts.length then starts.getLast?.getD 0 - starts.head?.getD 0 else 0

/-- `load_stats`, with `r` as the rounding of its figures. -/
def loadStats (r : ℚ → ℚ) (load : Load) (reqs : List Request) : LoadStats :=
  let starts := starts reqs
  { plannedPerS := load.ratePerS
    warmup := load.warmup
    sent := starts.length
    sentPerS :=
      if 0 < span starts then some (r (((starts.length : ℚ) - 1) / span starts))
      else none
    lateP99Ms :=
      (percentile (lateness reqs) ninetyNine).map fun v => r (v * 1000) }

/-- `MIN_RATE_SHARE` -/
def minRateShare : ℚ :=
  98 / 100

inductive Problem where
  | fewerThanTwo
  | belowRate (sentPerS nominal : ℚ)
  | overPeriod (lateP99Ms : ℚ)
  deriving DecidableEq

/-- `load_problems` -/
def loadProblems (ls : LoadStats) : Except Fault (List Problem) :=
  match ls.sentPerS with
  | none => .ok [.fewerThanTwo]
  | some sentPerS =>
      if ls.sent < 2 then .ok [.fewerThanTwo]
      else
        let nominal := ls.plannedPerS
        let out := if sentPerS < minRateShare * nominal then
          [Problem.belowRate sentPerS nominal] else []
        if nominal = 0 then .error .zeroDivision
        else
          match ls.lateP99Ms with
          | none => .error .typeError
          | some p =>
              .ok (if 1000 / nominal < p then out ++ [.overPeriod p] else out)

/-- The condition is accepted on its figures before they are rounded. -/
def Accepted (load : Load) (reqs : List Request) : Prop :=
  loadProblems (loadStats id load reqs) = .ok []

end Load

section Lateness

variable {load : Load} {reqs : List Request}

/-- Of a condition that is accepted the percentile is within one period. -/
theorem le_period_of_accepted (h : Accepted load reqs) :
    ∃ v, percentile (lateness reqs) ninetyNine = some v ∧
      v ≤ 1 / load.ratePerS := by
  unfold Accepted loadProblems at h
  split at h
  · cases h
  · split at h
    · cases h
    · dsimp only at h
      split at h
      · cases h
      · split at h
        · cases h
        · rename_i p hp
          split at h
          · exact absurd (Except.ok.inj h) (by simp)
          · rename_i hle
            obtain ⟨v, hv, rfl⟩ := Option.map_eq_some_iff.1 hp
            refine ⟨v, hv, ?_⟩
            have hle' : v * 1000 ≤ 1000 / load.ratePerS := not_lt.1 hle
            have hscale : 1000 / load.ratePerS = 1 / load.ratePerS * 1000 := by
              ring
            rw [hscale] at hle'
            exact le_of_mul_le_mul_right hle' (by norm_num)

theorem share_mono {q : ℚ} {xs : List ℚ} {v w : ℚ} (hvw : v ≤ w)
    (h : ShareAtOrBelow q xs v) : ShareAtOrBelow q xs w := by
  have hcount : xs.countP (fun x => decide (x ≤ v)) ≤
      xs.countP (fun x => decide (x ≤ w)) :=
    List.countP_mono_left fun x _ hx =>
      decide_eq_true ((of_decide_eq_true hx).trans hvw)
  exact h.trans (Nat.cast_le.2 hcount)

theorem share_of_accepted (hreached : Reached (lateness reqs) ninetyNine)
    (h : Accepted load reqs) :
    ShareAtOrBelow ninetyNine.val (lateness reqs) (1 / load.ratePerS) := by
  obtain ⟨v, hv, hle⟩ := le_period_of_accepted h
  exact share_mono hle ((share_iff hv).2 hreached)

/-- Requests sent in time, one a period, with the given latenesses. -/
def punctual (period : ℚ) (late : List ℚ) : List Request :=
  late.zipIdx.map fun x => ⟨some (x.2 * period), some x.1⟩

theorem lateness_punctual (period : ℚ) (late : List ℚ) :
    lateness (punctual period late) = late := by
  unfold lateness punctual
  rw [List.filterMap_map]
  change late.zipIdx.filterMap (fun x => some x.1) = late
  rw [List.filterMap_eq_map', List.zipIdx_map_fst]

theorem starts_punctual {period : ℚ} (hperiod : 0 ≤ period) (late : List ℚ) :
    starts (punctual period late) =
      (List.range late.length).map fun i : ℕ => (i : ℚ) * period := by
  have hmap : (punctual period late).filterMap Request.startEpoch =
      (List.range late.length).map fun i : ℕ => (i : ℚ) * period := by
    unfold punctual
    rw [List.filterMap_map]
    change late.zipIdx.filterMap (fun x => some ((x.2 : ℚ) * period)) = _
    rw [List.filterMap_eq_map', List.range_eq_range',
      ← List.zipIdx_map_snd 0 late, List.map_map]
    rfl
  unfold starts
  rw [hmap]
  refine ascending_eq_self (List.pairwise_map.2 ?_)
  refine List.pairwise_lt_range.imp fun hlt => ?_
  exact mul_le_mul_of_nonneg_right (Nat.cast_le.2 hlt.le) hperiod

theorem span_punctual {period : ℚ} (hperiod : 0 ≤ period) {late : List ℚ}
    (hlen : 2 ≤ late.length) :
    span (starts (punctual period late)) =
      ((late.length : ℚ) - 1) * period := by
  obtain ⟨n, hn⟩ : ∃ n, late.length = n + 1 := ⟨late.length - 1, by omega⟩
  rw [starts_punctual hperiod, hn]
  unfold span
  rw [if_pos (by rw [List.length_map, List.length_range]; omega)]
  have hlast : ((List.range (n + 1)).map fun i : ℕ => (i : ℚ) * period).getLast? =
      some (n * period) := by
    rw [List.range_succ, List.map_append, List.map_singleton,
      List.getLast?_concat]
  have hhead : ((List.range (n + 1)).map fun i : ℕ => (i : ℚ) * period).head? =
      some 0 := by
    rw [List.range_succ_eq_map, List.map_cons, List.head?_cons, Nat.cast_zero,
      zero_mul]
  rw [hlast, hhead]
  push_cast
  simp

/-- Punctual requests are accepted if the percentile of their latenesses is
within the period. -/
theorem accepted_punctual {period : ℚ} (hperiod : 0 < period) {late : List ℚ}
    (hlen : 2 ≤ late.length) {v : ℚ} (hv : percentile late ninetyNine = some v)
    (hle : v ≤ period) :
    Accepted ⟨1 / period, 0⟩ (punctual period late) := by
  have hcount : (starts (punctual period late)).length = late.length := by
    rw [starts_punctual hperiod.le, List.length_map, List.length_range]
  have htwo : (2 : ℚ) ≤ late.length := by exact_mod_cast hlen
  have hspan : 0 < span (starts (punctual period late)) := by
    rw [span_punctual hperiod.le hlen]
    exact mul_pos (by linarith) hperiod
  have hrate : ((late.length : ℚ) - 1) / span (starts (punctual period late)) =
      1 / period := by
    rw [span_punctual hperiod.le hlen]
    have hne : (late.length : ℚ) - 1 ≠ 0 := by linarith
    field_simp
  have hpos : 0 < 1 / period := one_div_pos.2 hperiod
  have hstats : loadStats id ⟨1 / period, 0⟩ (punctual period late) =
      ⟨1 / period, 0, late.length, some (1 / period), some (v * 1000)⟩ := by
    unfold loadStats
    dsimp only
    rw [if_pos hspan, hcount, hrate, lateness_punctual, hv]
    rfl
  unfold Accepted
  rw [hstats]
  unfold loadProblems
  dsimp only
  rw [if_neg (by omega), if_neg hpos.ne', if_neg, if_neg]
  · unfold minRateShare
    linarith
  · rw [not_lt, one_div, div_inv_eq_mul]
    linarith

/-- Where the percentile falls short there is a rate at which requests with
these latenesses are accepted, and less than 99 % of them are sent within one
period. -/
theorem exists_accepted {late : List ℚ} (hlate : ∀ l ∈ late, 0 ≤ l)
    (hnot : ¬ Reached late ninetyNine) :
    ∃ load reqs, lateness reqs = late ∧ Accepted load reqs ∧
      ¬ ShareAtOrBelow ninetyNine.val late (1 / load.ratePerS) := by
  unfold Reached at hnot
  push Not at hnot
  obtain ⟨k, hk, hlt, hne⟩ := hnot
  have hceil : ⌈ninetyNine.val * late.length⌉₊ ≤ late.length :=
    Nat.ceil_le.2 (mul_le_of_le_one_left (Nat.cast_nonneg _) ninetyNine.le_one)
  have hklen : k < (ascending late).length := by
    rw [length_ascending]
    omega
  have hplen : position late.length ninetyNine < (ascending late).length :=
    hk.trans_lt hklen
  rw [List.getElem?_eq_getElem hklen, List.getElem?_eq_getElem hplen] at hne
  have hsorted := ascending_pairwise late
  have hvw : (ascending late)[position late.length ninetyNine] <
      (ascending late)[k] :=
    lt_of_le_of_ne (getElem_le_getElem hsorted hk hklen)
      fun h => hne (congrArg some h.symm)
  have hv0 : 0 ≤ (ascending late)[position late.length ninetyNine] :=
    hlate _ ((ascending_perm late).mem_iff.1 (List.getElem_mem hplen))
  have hlen : 2 ≤ late.length := by
    rw [length_ascending] at hklen
    have : position late.length ninetyNine ≠ k := by
      rintro rfl
      exact hne rfl
    omega
  -- A period between the percentile and the first greater lateness.
  obtain ⟨period, hlow, hhigh⟩ := exists_between hvw
  have hperiod : 0 < period := hv0.trans_lt hlow
  refine ⟨⟨1 / period, 0⟩, punctual period late, lateness_punctual _ _,
    accepted_punctual hperiod hlen (List.getElem?_eq_getElem hplen) hlow.le,
    fun hshare => ?_⟩
  rw [one_div_one_div, shareAtOrBelow_iff ninetyNine.le_one] at hshare
  exact absurd (hshare k hlt _ (List.getElem?_eq_getElem hklen))
    (not_le_of_gt hhigh)

/-- The percentile is what its module declares, and a condition that is accepted
was sent in time, for exactly the lists whose rounded position reaches the
nearest rank. -/
theorem percentile_iff {xs : List ℚ} (hxs : xs ≠ []) (q : Share)
    {late : List ℚ} (hlate : ∀ l ∈ late, 0 ≤ l) :
    ((∃ v, percentile xs q = some v ∧ Declared xs q v) ↔ Reached xs q) ∧
      ((∀ load reqs, lateness reqs = late → Accepted load reqs →
        ShareAtOrBelow ninetyNine.val late (1 / load.ratePerS)) ↔
          Reached late ninetyNine) := by
  constructor
  · obtain ⟨v, hv⟩ := exists_percentile hxs q
    constructor
    · rintro ⟨w, hw, hdeclared⟩
      exact (declared_iff hw).1 hdeclared
    · intro h
      exact ⟨v, hv, (declared_iff hv).2 h⟩
  · constructor
    · intro h
      by_contra hnot
      obtain ⟨load, reqs, hreqs, haccepted, hshare⟩ :=
        exists_accepted hlate hnot
      exact hshare (h load reqs hreqs haccepted)
    · rintro h load reqs rfl haccepted
      exact share_of_accepted h haccepted

end Lateness

section OneLate

/-- Of 52 requests one is late. -/
def oneLate : List ℚ :=
  List.replicate 51 0 ++ [1 / 5]

theorem oneLate_nonneg : ∀ l ∈ oneLate, 0 ≤ l := by
  intro l hl
  rcases List.mem_append.1 hl with hl | hl
  · rw [List.eq_of_mem_replicate hl]
  · rw [List.mem_singleton.1 hl]
    norm_num

theorem oneLate_ascending : ascending oneLate = oneLate := by
  refine ascending_eq_self (List.pairwise_append.2 ⟨?_, ?_, ?_⟩)
  · exact List.pairwise_replicate.2 (.inr (le_refl 0))
  · exact List.pairwise_singleton _ _
  · intro a ha b hb
    rw [List.eq_of_mem_replicate ha, List.mem_singleton.1 hb]
    norm_num

theorem position_oneLate : position oneLate.length ninetyNine = 50 := by
  decide +kernel

theorem not_reached_oneLate : ¬ Reached oneLate ninetyNine := by
  intro h
  have hceil : 51 < ⌈ninetyNine.val * oneLate.length⌉₊ := by
    rw [Nat.lt_ceil]
    decide +kernel
  have hsame := h 51 (by rw [position_oneLate]; omega) hceil
  rw [position_oneLate, oneLate_ascending] at hsame
  revert hsame
  decide +kernel

/-- The median is what the module declares. -/
theorem percentile_oneLate :
    ∃ v, percentile oneLate half = some v ∧ Declared oneLate half v :=
  (percentile_iff (by decide +kernel) half oneLate_nonneg).1.2
    (reached_of_le_half (by decide +kernel) (le_refl _))

/-- The percentile of the latenesses is zero, which 51 of the 52 are at or below,
and the condition is accepted at a rate whose period the other one exceeds. -/
theorem not_declared_oneLate :
    (∀ v, percentile oneLate ninetyNine = some v →
      ¬ Declared oneLate ninetyNine v) ∧
      ∃ load reqs, lateness reqs = oneLate ∧ Accepted load reqs ∧
        ¬ ShareAtOrBelow ninetyNine.val oneLate (1 / load.ratePerS) :=
  ⟨fun _ hv h => not_reached_oneLate ((declared_iff hv).1 h),
    exists_accepted oneLate_nonneg not_reached_oneLate⟩

end OneLate

end OpenLoop
end Experiments
end Kelt
