import Kelt.Experiments.Stats
import Kelt.Lib.Bisect
import Mathlib.Data.List.ReduceOption

/-!
# The CPU and memory of a group

`_steps` (`resource-use/footprint.py`) makes step functions of a pod's samples:
CPU intervals that are open at the start, and memory samples. `_group` sums the
pods at each point of a grid, and finds the interval and the sample of a pod by
binary search. The intervals of a pod do not overlap, also where some are left
out, so what it finds is what a plain scan finds (`group_eq_scan`).

Numbers are rational.
-/

namespace Kelt
namespace Experiments
namespace Footprint

open Stats

section Steps

/-- A sample of a pod: the time, the CPU used in µs and the memory in bytes. -/
structure Sample where
  t : ℚ
  usage : ℚ
  bytes : ℚ
  deriving DecidableEq

/-- The samples of a pod, sorted by time. -/
structure Recording where
  samples : List Sample
  sorted : samples.Pairwise fun a b => a.t ≤ b.t

/-- The CPU from one sample to the next, in millicores. -/
structure Interval where
  start : ℚ
  stop : ℚ
  mcores : ℚ
  deriving DecidableEq

/-- There is none where the time repeats or the counter was reset. -/
def interval (a b : Sample) : Option Interval :=
  if a.t < b.t ∧ a.usage ≤ b.usage then
    some ⟨a.t, b.t, (b.usage - a.usage) / (b.t - a.t) / 1000⟩
  else none

def intervals (samples : List Sample) : List Interval :=
  (samples.zip samples.tail).filterMap fun x => interval x.1 x.2

/-- The five lists that `_steps` returns. -/
structure Steps where
  starts : List ℚ
  ends : List ℚ
  cpu : List ℚ
  times : List ℚ
  mib : List ℚ
  deriving DecidableEq

/-- `_steps` -/
def steps (samples : List Sample) : Steps where
  starts := (intervals samples).map Interval.start
  ends := (intervals samples).map Interval.stop
  cpu := (intervals samples).map Interval.mcores
  times := samples.map Sample.t
  mib := samples.map fun x => x.bytes / 1048576

end Steps

section Group

/-- `(c or 0.0) + v` -/
def plus (c : Option ℚ) (v : ℚ) : Option ℚ :=
  some (c.getD 0 + v)

/-- The CPU of one more pod. -/
def addCpu (g : ℚ) (c : Option ℚ) (pod : Steps) : Option ℚ :=
  let i := bisectLeft pod.ends g
  if i < pod.ends.length ∧ pod.starts.getD i 0 < g then
    plus c (pod.cpu.getD i 0)
  else c

/-- The memory of one more pod. The last sample at or before the point stands
one position before the one that `bisect_right` returns. -/
def addMem (g : ℚ) (m : Option ℚ) (pod : Steps) : Option ℚ :=
  let k := bisectRight pod.times g
  if 0 < k ∧ g - pod.times.getD (k - 1) 0 ≤ 3 / 2 then
    plus m (pod.mib.getD (k - 1) 0)
  else m

/-- The CPU and the memory at a point of the grid. -/
def point (pods : List Steps) (g : ℚ) : Option ℚ × Option ℚ :=
  pods.foldl (fun cm pod => (addCpu g cm.1 pod, addMem g cm.2 pod)) (none, none)

structure Figures where
  cpuMcores : Summary
  memMib : Summary
  deriving DecidableEq

/-- `_group` -/
def group (pods : List Steps) (grid : List ℚ) : Figures where
  cpuMcores := summary (roundDigits 3)
    (grid.filterMap fun g => (point pods g).1.map (roundDigits 3))
  memMib := summary (roundDigits 3)
    (grid.filterMap fun g => (point pods g).2.map (roundDigits 3))

end Group

section Scan

/-- The value holds over `(start, stop]`. -/
def Interval.holds (i : Interval) (g : ℚ) : Bool :=
  decide (i.start < g ∧ g ≤ i.stop)

/-- The value of the interval that contains the point. -/
def scanCpu (g : ℚ) (pod : Recording) : Option ℚ :=
  ((intervals pod.samples).find? fun i => i.holds g).map Interval.mcores

/-- The last sample at or before the point, no older than 1.5 s. -/
def scanMem (g : ℚ) (pod : Recording) : Option ℚ :=
  (((pod.samples.filter fun x => decide (x.t ≤ g)).getLast?).filter fun x =>
    decide (g - x.t ≤ 3 / 2)).map fun x => x.bytes / 1048576

/-- The sum of the values that are there; none where no value is. -/
def total (xs : List (Option ℚ)) : Option ℚ :=
  if xs.reduceOption = [] then none else some xs.reduceOption.sum

def scanGroup (pods : List Recording) (grid : List ℚ) : Figures where
  cpuMcores := summary (roundDigits 3) (grid.filterMap fun g =>
    (total (pods.map (scanCpu g))).map (roundDigits 3))
  memMib := summary (roundDigits 3) (grid.filterMap fun g =>
    (total (pods.map (scanMem g))).map (roundDigits 3))

end Scan

section Intervals

/-- Each interval ends before the next starts. -/
structure Apart (is : List Interval) : Prop where
  proper : ∀ i ∈ is, i.start < i.stop
  apart : is.Pairwise fun i j => i.stop ≤ j.start

theorem interval_eq_some_iff {a b : Sample} {i : Interval} :
    interval a b = some i ↔ (a.t < b.t ∧ a.usage ≤ b.usage) ∧
      ⟨a.t, b.t, (b.usage - a.usage) / (b.t - a.t) / 1000⟩ = i := by
  unfold interval
  split <;> simp_all

theorem intervals_cons_cons (a b : Sample) (rest : List Sample) :
    intervals (a :: b :: rest) =
      (interval a b).toList ++ intervals (b :: rest) := by
  unfold intervals
  rw [List.tail_cons, List.zip_cons_cons, List.tail_cons]
  cases hi : interval a b with
  | none => simp [hi]
  | some i => simp [hi]

/-- An interval starts at a sample. -/
theorem exists_start {samples : List Sample} {i : Interval}
    (h : i ∈ intervals samples) : ∃ a ∈ samples, i.start = a.t := by
  obtain ⟨⟨a, b⟩, hab, hi⟩ := List.mem_filterMap.1 h
  obtain ⟨-, rfl⟩ := interval_eq_some_iff.1 hi
  exact ⟨a, (List.of_mem_zip hab).1, rfl⟩

theorem apart_intervals {samples : List Sample}
    (h : samples.Pairwise fun a b => a.t ≤ b.t) : Apart (intervals samples) := by
  constructor
  · intro i hi
    obtain ⟨⟨a, b⟩, -, hab⟩ := List.mem_filterMap.1 hi
    obtain ⟨hlt, rfl⟩ := interval_eq_some_iff.1 hab
    exact hlt.1
  · induction samples with
    | nil => exact .nil
    | cons a rest ih =>
        obtain ⟨ha, hrest⟩ := List.pairwise_cons.1 h
        cases rest with
        | nil => exact .nil
        | cons b rest =>
            rw [intervals_cons_cons]
            cases hi : interval a b with
            | none => exact ih hrest
            | some i =>
                obtain ⟨-, rfl⟩ := interval_eq_some_iff.1 hi
                refine List.pairwise_cons.2 ⟨fun j hj => ?_, ih hrest⟩
                obtain ⟨c, hc, hstart⟩ := exists_start hj
                rw [hstart]
                rcases List.mem_cons.1 hc with rfl | hc
                · exact le_refl _
                · exact (List.pairwise_cons.1 hrest).1 c hc

variable {is : List Interval} {g : ℚ}

theorem Apart.tail {i : Interval} (h : Apart (i :: is)) : Apart is :=
  ⟨fun j hj => h.proper j (List.mem_cons_of_mem _ hj),
    (List.pairwise_cons.1 h.apart).2⟩

theorem Apart.stops (h : Apart is) :
    (is.map Interval.stop).Pairwise (· ≤ ·) := by
  rw [List.pairwise_map]
  refine h.apart.imp_of_mem fun {i j} _ hj hij => ?_
  exact hij.trans (h.proper j hj).le

/-- An interval that does not end before the point keeps those behind it away
from the point. -/
theorem Apart.not_holds {i : Interval} (h : Apart (i :: is))
    (hg : g ≤ i.stop) {j : Interval} (hj : j ∈ is) : j.holds g = false := by
  have hij := (List.pairwise_cons.1 h.apart).1 j hj
  exact decide_eq_false fun hholds =>
    absurd (hg.trans hij) (not_le.2 hholds.1)

/-- The first interval that does not end before the point is the only one that
can contain it. -/
theorem find_holds (h : Apart is) :
    is.find? (fun i => i.holds g) =
      (is.find? fun i => decide (g ≤ i.stop)).filter fun i =>
        decide (i.start < g) := by
  induction is with
  | nil => rfl
  | cons i is ih =>
      by_cases hg : g ≤ i.stop
      · have hfirst : (i :: is).find? (fun i => decide (g ≤ i.stop)) = some i :=
          List.find?_cons_of_pos (decide_eq_true hg)
        rw [hfirst]
        by_cases hi : i.start < g
        · have hholds : (i :: is).find? (fun i => i.holds g) = some i :=
            List.find?_cons_of_pos (decide_eq_true ⟨hi, hg⟩)
          rw [hholds, Option.filter_some, if_pos (decide_eq_true hi)]
        · have hnone : (i :: is).find? (fun i => i.holds g) = none := by
            rw [List.find?_eq_none, List.forall_mem_cons]
            constructor
            · simp [Interval.holds, hi]
            · intro j hj
              rw [h.not_holds hg hj]
              exact Bool.false_ne_true
          rw [hnone, Option.filter_some, if_neg (by simpa using hi)]
      · rw [List.find?_cons_of_neg (by simp [Interval.holds, hg]),
          List.find?_cons_of_neg (by simpa using hg), ih h.tail]

/-- At most one interval contains the point. -/
theorem length_filter_holds (h : Apart is) (g : ℚ) :
    (is.filter fun i => i.holds g).length ≤ 1 := by
  induction is with
  | nil => exact Nat.zero_le 1
  | cons i is ih =>
      cases hi : i.holds g with
      | false =>
          rw [List.filter_cons_of_neg (by simp [hi])]
          exact ih h.tail
      | true =>
          have hnone : is.filter (fun i => i.holds g) = [] := by
            rw [List.filter_eq_nil_iff]
            intro j hj
            rw [h.not_holds (of_decide_eq_true hi).2 hj]
            exact Bool.false_ne_true
          rw [List.filter_cons, if_pos hi, hnone]
          exact le_refl 1

end Intervals

section Pods

variable (pod : Recording)

/-- The binary search among the ends finds the interval of the scan. -/
theorem addCpu_eq (g : ℚ) (c : Option ℚ) :
    addCpu g c (steps pod.samples) = (scanCpu g pod).elim c (plus c) := by
  have hapart := apart_intervals pod.sorted
  unfold addCpu scanCpu steps
  rw [find_holds hapart]
  dsimp only
  rw [bisectLeft_eq hapart.stops, List.findIdx_map, List.length_map]
  change _ = Option.elim (Option.map _ (Option.filter _
    ((intervals pod.samples).find? ((fun e => decide (g ≤ e)) ∘
      Interval.stop)))) _ _
  rw [List.find?_eq_getElem?_findIdx]
  generalize (intervals pod.samples).findIdx ((fun e => decide (g ≤ e)) ∘
    Interval.stop) = k
  by_cases hk : k < (intervals pod.samples).length
  · rw [List.getElem?_eq_getElem hk]
    simp only [List.getD_eq_getElem?_getD, List.getElem?_map,
      List.getElem?_eq_getElem hk, Option.map_some, Option.getD_some, hk,
      true_and]
    by_cases hlt : (intervals pod.samples)[k].start < g
    · rw [if_pos hlt, Option.filter_some, if_pos (decide_eq_true hlt)]
      rfl
    · rw [if_neg hlt, Option.filter_some, if_neg (by simpa using hlt)]
      rfl
  · rw [if_neg (fun h => hk h.1), List.getElem?_eq_none (not_lt.1 hk)]
    rfl

/-- The last sample before the position that `bisect_right` returns is the one
of the scan. -/
theorem addMem_eq (g : ℚ) (m : Option ℚ) :
    addMem g m (steps pod.samples) = (scanMem g pod).elim m (plus m) := by
  have hsorted : (pod.samples.map Sample.t).Pairwise (· ≤ ·) :=
    List.pairwise_map.2 pod.sorted
  have hle := bisectRight_le hsorted g
  unfold addMem scanMem steps
  rw [filter_eq_take_bisectRight hsorted]
  dsimp only
  generalize bisectRight (pod.samples.map Sample.t) g = k at hle
  rw [List.length_map] at hle
  rw [List.getLast?_take]
  cases k with
  | zero => rfl
  | succ k =>
      rw [if_neg (Nat.succ_ne_zero k), Nat.add_sub_cancel,
        List.getElem?_eq_getElem hle, Option.some_or]
      simp only [List.getD_eq_getElem?_getD, List.getElem?_map,
        List.getElem?_eq_getElem hle, Option.map_some, Option.getD_some,
        Nat.succ_pos, true_and]
      by_cases hold : g - pod.samples[k].t ≤ 3 / 2
      · rw [if_pos hold, Option.filter_some, if_pos (decide_eq_true hold)]
        rfl
      · rw [if_neg hold, Option.filter_some, if_neg (by simpa using hold)]
        rfl

/-- A sum that starts from nothing is the sum of the values that are there. -/
theorem foldl_elim (xs : List (Option ℚ)) (c : Option ℚ) :
    xs.foldl (fun c x => x.elim c (plus c)) c =
      if xs.reduceOption = [] then c
      else some (c.getD 0 + xs.reduceOption.sum) := by
  induction xs generalizing c with
  | nil => rfl
  | cons x xs ih =>
      rw [List.foldl_cons, ih]
      cases x with
      | none => simp [List.reduceOption_cons_of_none]
      | some v =>
          rw [List.reduceOption_cons_of_some, if_neg (List.cons_ne_nil _ _),
            List.sum_cons]
          split
          · rename_i hnil
            simp [plus, hnil]
          · simp [plus, add_assoc]

theorem total_eq_foldl (xs : List (Option ℚ)) :
    total xs = xs.foldl (fun c x => x.elim c (plus c)) none := by
  rw [foldl_elim]
  unfold total
  simp

end Pods

section Result

theorem foldl_pair {α β γ : Type} (f : β → α → β) (h : γ → α → γ)
    (xs : List α) (b : β) (c : γ) :
    xs.foldl (fun bc x => (f bc.1 x, h bc.2 x)) (b, c) =
      (xs.foldl f b, xs.foldl h c) := by
  induction xs generalizing b c with
  | nil => rfl
  | cons x xs ih => exact ih (f b x) (h c x)

theorem point_eq (pods : List Recording) (g : ℚ) :
    point (pods.map fun pod => steps pod.samples) g =
      (total (pods.map (scanCpu g)), total (pods.map (scanMem g))) := by
  rw [total_eq_foldl, total_eq_foldl]
  unfold point
  rw [foldl_pair, List.foldl_map, List.foldl_map, List.foldl_map,
    List.foldl_map]
  simp only [addCpu_eq, addMem_eq]

/-- At each point of the grid the group has the values of a plain scan: of each
pod the one interval that contains the point and the last sample that is not too
old, with the points left out at which no pod has a value. -/
theorem group_eq_scan (pods : List Recording) (grid : List ℚ) :
    (∀ pod ∈ pods, ∀ g,
      ((intervals pod.samples).filter fun i => i.holds g).length ≤ 1) ∧
    (∀ g, point (pods.map fun pod => steps pod.samples) g =
      (total (pods.map (scanCpu g)), total (pods.map (scanMem g)))) ∧
    group (pods.map fun pod => steps pod.samples) grid =
      scanGroup pods grid := by
  refine ⟨fun pod _ => length_filter_holds (apart_intervals pod.sorted),
    point_eq pods, ?_⟩
  unfold group scanGroup
  simp only [point_eq]

end Result

end Footprint
end Experiments
end Kelt
