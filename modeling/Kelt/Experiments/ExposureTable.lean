import Kelt.Experiments.Stats
import Kelt.Lib.Dict
import Kelt.Lib.PyText
import Mathlib.Algebra.BigOperators.Group.List.Lemmas
import Mathlib.Data.List.Lex
import Mathlib.Data.Char
import Mathlib.Data.List.Dedup

/-!
# The exposure table

`exposure_rows` (`tables.py`) makes a row of each pod of the exposure group, and
`exposure_pivot` shows for a Deployment and a condition the mean over all of its
rows. So several pods of one run are averaged where their sum is meant: the mean
that is shown is the average over the runs of what the Deployment takes in a run
if and only if no run has two pods of it, or all that they take adds up to
nothing (`tabled_iff`).

The text of a cell is left out: a cell is the mean and the peak that it shows,
before they are rounded.
-/

namespace Kelt
namespace Experiments
namespace ExposureTable

open Stats

section Rows

structure Pod where
  pod : Text
  group : Text
  cpuMcores : Summary
  memMib : Summary
  deriving DecidableEq

structure Group where
  cpuMcores : Summary
  memMib : Summary
  deriving DecidableEq

/-- A condition of `footprint.json`. -/
structure Condition where
  groups : Dict Text Group
  pods : List Pod
  deriving DecidableEq

/-- A run, with the conditions that are listed as discarded in it. -/
structure Run where
  name : Text
  footprint : Dict Text Condition
  gone : List Text
  deriving DecidableEq

inductive Level where
  | group
  | deployment
  deriving DecidableEq

structure Row where
  run : Text
  condition : Text
  level : Level
  name : Text
  cpu : Summary
  mem : Summary
  deriving DecidableEq

def exposure : Text :=
  "exposure".toList

/-- `deployment_of` -/
def deploymentOf (pod : Text) : Text :=
  let parts := pod.splitOn '-'
  if 2 < parts.length then
    ['-'].intercalate (parts.take (parts.length - 2))
  else pod

/-- The rows of a condition. -/
def conditionRows (run cond : Text) (c : Condition) : List Row :=
  ((c.groups.get? exposure).map fun g =>
      (⟨run, cond, .group, exposure, g.cpuMcores, g.memMib⟩ : Row)).toList ++
    (c.pods.filter fun p => decide (p.group = exposure)).map fun p =>
      ⟨run, cond, .deployment, deploymentOf p.pod, p.cpuMcores, p.memMib⟩

def runRows (run : Run) : List Row :=
  (run.footprint.items.filter fun x => decide (x.1 ∉ run.gone)).flatMap fun x =>
    conditionRows run.name x.1 x.2

/-- `exposure_rows` -/
def exposureRows (runs : List Run) : List Row :=
  runs.flatMap runRows

end Rows

section Pivot

inductive Measure where
  | cpu
  | mem
  deriving DecidableEq

def Measure.ofRow : Measure → Row → Summary
  | .cpu, r => r.cpu
  | .mem, r => r.mem

def Measure.ofPod : Measure → Pod → Summary
  | .cpu, p => p.cpuMcores
  | .mem, p => p.memMib

def Measure.ofGroup : Measure → Group → Summary
  | .cpu, g => g.cpuMcores
  | .mem, g => g.memMib

/-- The rows that a cell is made of. -/
def hit (rows : List Row) (m : Measure) (cond : Text) (level : Level)
    (name : Text) : List Row :=
  rows.filter fun r => decide (r.condition = cond ∧ r.level = level ∧
    r.name = name ∧ (m.ofRow r).mean ≠ none)

/-- The mean and the peak of a cell. -/
def cell (rows : List Row) (m : Measure) (cond : Text) (level : Level)
    (name : Text) : Option (ℚ × Option ℚ) :=
  let hit := hit rows m cond level name
  if hit = [] then none
  else some ((hit.filterMap fun r => (m.ofRow r).mean).sum / hit.length,
    (hit.filterMap fun r => (m.ofRow r).max).max?)

/-- The Deployments of the table, sorted by name. -/
def deployments (rows : List Row) : List Text :=
  ascending (((rows.filter fun r => decide (r.level = .deployment)).map
    Row.name).dedup)

def names (rows : List Row) : List (Level × Text) :=
  (.group, exposure) :: (deployments rows).map fun d => (.deployment, d)

def cols (rows : List Row) : List Text :=
  (rows.map Row.condition).eraseDups

/-- `exposure_pivot` -/
def exposurePivot (rows : List Row) :
    List (Measure × List Text ×
      List ((Level × Text) × List (Option (ℚ × Option ℚ)))) :=
  [.cpu, .mem].map fun m => (m, cols rows, (names rows).map fun x =>
    (x, (cols rows).map fun cond => cell rows m cond x.1 x.2))

end Pivot

section Means

variable {runs : List Run} {run : Run} {m : Measure} {cond d : Text}

/-- The pods of the exposure group in a condition of a run. -/
def exposurePods (run : Run) (cond : Text) : List Pod :=
  if cond ∈ run.gone then []
  else ((run.footprint.get? cond).map fun c =>
    c.pods.filter fun p => decide (p.group = exposure)).getD []

/-- The pods of a Deployment in a condition of a run. -/
def podsOf (run : Run) (cond d : Text) : List Pod :=
  (exposurePods run cond).filter fun p => decide (deploymentOf p.pod = d)

def podMean (m : Measure) (p : Pod) : ℚ :=
  (m.ofPod p).mean.getD 0

/-- What the pods of a Deployment take in a run together. -/
def taken (m : Measure) (cond d : Text) (run : Run) : ℚ :=
  ((podsOf run cond d).map (podMean m)).sum

/-- The runs that have the Deployment in the condition. -/
def having (runs : List Run) (cond d : Text) : List Run :=
  runs.filter fun run => decide (podsOf run cond d ≠ [])

/-- Each pod is sampled in each condition. -/
def Sampled (runs : List Run) : Prop :=
  ∀ run ∈ runs, ∀ cond, ∀ p ∈ exposurePods run cond, ∀ m : Measure,
    (m.ofPod p).mean ≠ none

/-- What a cell shows as the mean. -/
def shown (rows : List Row) (m : Measure) (cond : Text) (level : Level)
    (name : Text) : Option ℚ :=
  (cell rows m cond level name).map Prod.fst

/-- The group row of a condition of a run. -/
def groupOf (run : Run) (cond : Text) : Option Group :=
  if cond ∈ run.gone then none
  else (run.footprint.get? cond).bind fun c => c.groups.get? exposure

/-- What the table is to show: of a Deployment the average over the runs that
have it of what its pods take together, so that the Deployments of a run add up
to its group. -/
structure Tabled (runs : List Run) : Prop where
  average : ∀ m cond d, having runs cond d ≠ [] →
    shown (exposureRows runs) m cond .deployment d =
      some (((having runs cond d).map (taken m cond d)).sum /
        (having runs cond d).length)
  addsUp : ∀ run, runs = [run] → ∀ m cond g, groupOf run cond = some g →
    (m.ofGroup g).mean =
      some ((exposurePods run cond).map (podMean m)).sum →
    shown (exposureRows runs) m cond .group exposure =
      some (((deployments (exposureRows runs)).map fun d =>
        (shown (exposureRows runs) m cond .deployment d).getD 0).sum)

/-- No run has two pods of a Deployment, unless they take nothing in all. -/
def OneEach (runs : List Run) : Prop :=
  ∀ cond d, (∀ run ∈ runs, (podsOf run cond d).length ≤ 1) ∨
    ∀ m, (runs.map (taken m cond d)).sum = 0

end Means

section Hits

variable {runs : List Run} {run : Run} {m : Measure} {cond d : Text}

/-- The rows of a condition of a run. -/
def rowsAt (run : Run) (cond : Text) : List Row :=
  if cond ∈ run.gone then []
  else ((run.footprint.get? cond).map (conditionRows run.name cond)).getD []

theorem condition_of_mem_conditionRows {name : Text} {c : Condition} {r : Row}
    (h : r ∈ conditionRows name cond c) : r.condition = cond := by
  rcases List.mem_append.1 h with h | h
  · rw [Option.mem_toList] at h
    obtain ⟨g, -, rfl⟩ := Option.map_eq_some_iff.1 h
    rfl
  · obtain ⟨p, -, rfl⟩ := List.mem_map.1 h
    rfl

theorem filter_conditionRows (name cond' : Text) (c : Condition) :
    (conditionRows name cond' c).filter (fun r =>
        decide (r.condition = cond)) =
      if cond' = cond then conditionRows name cond' c else [] := by
  split
  · rename_i heq
    rw [List.filter_eq_self]
    intro r hr
    rw [condition_of_mem_conditionRows hr]
    exact decide_eq_true heq
  · rename_i hne
    rw [List.filter_eq_nil_iff]
    intro r hr hcond
    rw [condition_of_mem_conditionRows hr] at hcond
    exact hne (of_decide_eq_true hcond)

/-- A condition stands once in the footprint of a run. -/
theorem filter_runRows (run : Run) (cond : Text) :
    (runRows run).filter (fun r => decide (r.condition = cond)) =
      rowsAt run cond := by
  obtain ⟨name, ⟨items, hnodup⟩, gone⟩ := run
  unfold runRows rowsAt Dict.get?
  dsimp only
  induction items with
  | nil => simp [Dict.getItem]
  | cons x items ih =>
      obtain ⟨k, c⟩ := x
      rw [List.map_cons, List.nodup_cons] at hnodup
      obtain ⟨hfresh, hnodup⟩ := hnodup
      have hrest := ih hnodup
      rw [Dict.getItem]
      by_cases hgone : k ∈ gone
      · rw [List.filter_cons_of_neg (by simpa using hgone), hrest]
        by_cases hk : k = cond
        · subst hk
          rw [if_pos hgone, if_pos hgone]
        · rw [if_neg hk]
      · rw [List.filter_cons_of_pos (by simpa using hgone), List.flatMap_cons,
          List.filter_append, hrest, filter_conditionRows]
        by_cases hk : k = cond
        · subst hk
          have hnone : Dict.getItem k items = none :=
            (Dict.getItem_eq_none_iff k items).2 hfresh
          simp [hgone, hnone]
        · simp [hk]

def podRow (run : Run) (cond : Text) (p : Pod) : Row :=
  ⟨run.name, cond, .deployment, deploymentOf p.pod, p.cpuMcores, p.memMib⟩

theorem mean_podRow (m : Measure) (run : Run) (cond : Text) (p : Pod) :
    (m.ofRow (podRow run cond p)).mean = (m.ofPod p).mean := by
  cases m with
  | cpu => rfl
  | mem => rfl

theorem hit_eq (rows : List Row) (m : Measure) (cond : Text) (level : Level)
    (name : Text) :
    hit rows m cond level name =
      (rows.filter fun r => decide (r.condition = cond)).filter fun r =>
        decide (r.level = level ∧ r.name = name ∧ (m.ofRow r).mean ≠ none) := by
  unfold hit
  rw [List.filter_filter]
  refine List.filter_congr fun r _ => ?_
  simp only [Bool.decide_and, Bool.and_comm, Bool.and_left_comm]

theorem hit_runRows (run : Run) (m : Measure) (cond d : Text) :
    hit (runRows run) m cond .deployment d =
      ((podsOf run cond d).filter fun p =>
        decide ((m.ofPod p).mean ≠ none)).map (podRow run cond) := by
  rw [hit_eq, filter_runRows]
  unfold rowsAt podsOf exposurePods
  by_cases hgone : cond ∈ run.gone
  · rw [if_pos hgone, if_pos hgone]
    rfl
  · rw [if_neg hgone, if_neg hgone]
    cases run.footprint.get? cond with
    | none => rfl
    | some c =>
        simp only [Option.map_some, Option.getD_some]
        unfold conditionRows
        rw [List.filter_append]
        have hgroup : ((c.groups.get? exposure).map fun g => (⟨run.name, cond,
            .group, exposure, g.cpuMcores, g.memMib⟩ : Row)).toList.filter
              (fun r => decide (r.level = .deployment ∧ r.name = d ∧
                (m.ofRow r).mean ≠ none)) = [] := by
          rw [List.filter_eq_nil_iff]
          intro r hr
          rw [Option.mem_toList] at hr
          obtain ⟨g, -, rfl⟩ := Option.map_eq_some_iff.1 hr
          simp
        rw [hgroup, List.nil_append, List.filter_map, List.filter_filter,
          List.filter_filter, List.filter_filter]
        refine congrArg _ (List.filter_congr fun p _ => ?_)
        have hmean := mean_podRow m run cond p
        unfold podRow at hmean
        rw [Bool.eq_iff_iff]
        simp only [Function.comp, Bool.and_eq_true, decide_eq_true_eq, hmean]
        constructor
        · rintro ⟨⟨-, hname, hsome⟩, hexposure⟩
          exact ⟨⟨hsome, hname⟩, hexposure⟩
        · rintro ⟨⟨hsome, hname⟩, hexposure⟩
          exact ⟨⟨trivial, hname, hsome⟩, hexposure⟩

theorem podsOf_sampled (hs : Sampled runs) (hrun : run ∈ runs) {p : Pod}
    (hp : p ∈ podsOf run cond d) (m : Measure) :
    (m.ofPod p).mean = some (podMean m p) := by
  obtain ⟨v, hv⟩ := Option.ne_none_iff_exists'.1
    (hs run hrun cond p (List.mem_of_mem_filter hp) m)
  unfold podMean
  rw [hv]
  rfl

/-- With every pod sampled the rows of a Deployment are those of its pods in all
runs. -/
theorem hit_exposureRows (hs : Sampled runs) (m : Measure) (cond d : Text) :
    hit (exposureRows runs) m cond .deployment d =
      runs.flatMap fun run => (podsOf run cond d).map (podRow run cond) := by
  unfold exposureRows hit
  rw [List.filter_flatMap]
  refine List.flatMap_congr fun run hrun => ?_
  have hrows := hit_runRows run m cond d
  unfold hit at hrows
  rw [hrows, List.filter_eq_self.2]
  intro p hp
  rw [podsOf_sampled hs hrun hp m]
  rfl

theorem shown_deployment (hs : Sampled runs) (m : Measure) (cond d : Text) :
    shown (exposureRows runs) m cond .deployment d =
      if having runs cond d = [] then none
      else some ((runs.map (taken m cond d)).sum /
        (runs.map fun run => (podsOf run cond d).length).sum) := by
  have hempty : hit (exposureRows runs) m cond .deployment d = [] ↔
      having runs cond d = [] := by
    rw [hit_exposureRows hs, List.flatMap_eq_nil_iff]
    unfold having
    rw [List.filter_eq_nil_iff]
    simp
  have hmeans : (hit (exposureRows runs) m cond .deployment d).filterMap
      (fun r => (m.ofRow r).mean) =
      runs.flatMap fun run => (podsOf run cond d).map (podMean m) := by
    rw [hit_exposureRows hs, List.filterMap_flatMap]
    refine List.flatMap_congr fun run hrun => ?_
    rw [List.filterMap_map, ← List.filterMap_eq_map]
    refine List.filterMap_congr fun p hp => ?_
    exact (mean_podRow m run cond p).trans (podsOf_sampled hs hrun hp m)
  have hlength : (hit (exposureRows runs) m cond .deployment d).length =
      (runs.map fun run => (podsOf run cond d).length).sum := by
    rw [hit_exposureRows hs, List.length_flatMap]
    simp
  unfold shown cell
  dsimp only
  by_cases hhaving : having runs cond d = []
  · rw [if_pos (hempty.2 hhaving), if_pos hhaving]
    rfl
  · rw [if_neg (mt hempty.1 hhaving), if_neg hhaving, hmeans, hlength,
      Option.map_some]
    rw [List.flatMap_def, List.sum_flatten, List.map_map]
    rfl

end Hits

section Averages

variable {runs : List Run} {run : Run} {m : Measure} {cond d : Text}

theorem sum_taken_having (runs : List Run) (m : Measure) (cond d : Text) :
    ((having runs cond d).map (taken m cond d)).sum =
      (runs.map (taken m cond d)).sum := by
  induction runs with
  | nil => rfl
  | cons run runs ih =>
      unfold having at ih ⊢
      by_cases hpods : podsOf run cond d = []
      · have htaken : taken m cond d run = 0 := by
          unfold taken
          rw [hpods]
          rfl
        rw [List.filter_cons_of_neg (by simpa using hpods), ih, List.map_cons,
          List.sum_cons, htaken, zero_add]
      · rw [List.filter_cons_of_pos (by simpa using hpods), List.map_cons,
          List.sum_cons, ih, List.map_cons, List.sum_cons]

/-- There are at least as many pods as runs that have one, and as many where no
run has two. -/
theorem length_having (runs : List Run) (cond d : Text) :
    (having runs cond d).length ≤
        (runs.map fun run => (podsOf run cond d).length).sum ∧
      ((having runs cond d).length =
          (runs.map fun run => (podsOf run cond d).length).sum ↔
        ∀ run ∈ runs, (podsOf run cond d).length ≤ 1) := by
  induction runs with
  | nil => simp [having]
  | cons run runs ih =>
      obtain ⟨hle, hiff⟩ := ih
      rw [List.forall_mem_cons, ← hiff, List.map_cons, List.sum_cons]
      unfold having at hle ⊢
      by_cases hpods : podsOf run cond d = []
      · rw [List.filter_cons_of_neg (by simpa using hpods), hpods,
          List.length_nil]
        omega
      · have hpos := List.length_pos_iff.2 hpods
        rw [List.filter_cons_of_pos (by simpa using hpods), List.length_cons]
        omega

theorem average_iff (hs : Sampled runs) (m : Measure) (cond d : Text) :
    (having runs cond d ≠ [] →
      shown (exposureRows runs) m cond .deployment d =
        some (((having runs cond d).map (taken m cond d)).sum /
          (having runs cond d).length)) ↔
      (∀ run ∈ runs, (podsOf run cond d).length ≤ 1) ∨
        (runs.map (taken m cond d)).sum = 0 := by
  obtain ⟨hle, hiff⟩ := length_having runs cond d
  rw [← hiff, sum_taken_having, shown_deployment hs]
  by_cases hhaving : having runs cond d = []
  · refine iff_of_true (fun hne => absurd hhaving hne) (.inr ?_)
    rw [← sum_taken_having, hhaving]
    rfl
  · have hpos := List.length_pos_iff.2 hhaving
    have hcount : ((having runs cond d).length : ℚ) ≠ 0 := by
      exact_mod_cast hpos.ne'
    have htotal : ((runs.map fun run => (podsOf run cond d).length).sum : ℚ) ≠
        0 := by
      exact_mod_cast (hpos.trans_le hle).ne'
    rw [if_neg hhaving, Option.some_inj, div_eq_div_iff htotal hcount,
      mul_eq_mul_left_iff, Nat.cast_inj]
    simp [hhaving]

theorem sum_ite_eq {names : List Text} (hnodup : names.Nodup) {a : Text}
    (ha : a ∈ names) (x : ℚ) :
    (names.map fun d => if a = d then x else 0).sum = x := by
  induction names with
  | nil => cases ha
  | cons d names ih =>
      rw [List.nodup_cons] at hnodup
      obtain ⟨hfresh, hnodup⟩ := hnodup
      rw [List.map_cons, List.sum_cons]
      by_cases had : a = d
      · subst had
        have hzero : (names.map fun d => if a = d then x else 0).sum = 0 := by
          refine List.sum_eq_zero fun y hy => ?_
          obtain ⟨d, hd, rfl⟩ := List.mem_map.1 hy
          refine if_neg ?_
          rintro rfl
          exact hfresh hd
        rw [if_pos rfl, hzero, add_zero]
      · rw [if_neg had, zero_add]
        exact ih hnodup ((List.mem_cons.1 ha).resolve_left had)

/-- Each pod belongs to one Deployment. -/
theorem sum_by_deployment {names : List Text} (hnodup : names.Nodup)
    {pods : List Pod} (hpods : ∀ p ∈ pods, deploymentOf p.pod ∈ names)
    (f : Pod → ℚ) :
    (names.map fun d => ((pods.filter fun p =>
        decide (deploymentOf p.pod = d)).map f).sum).sum =
      (pods.map f).sum := by
  induction pods with
  | nil => simp
  | cons p pods ih =>
      rw [List.forall_mem_cons] at hpods
      obtain ⟨hp, hpods⟩ := hpods
      have hsplit : ∀ d, (((p :: pods).filter fun p =>
          decide (deploymentOf p.pod = d)).map f).sum =
            (if deploymentOf p.pod = d then f p else 0) +
              ((pods.filter fun p => decide (deploymentOf p.pod = d)).map
                f).sum := by
        intro d
        by_cases hd : deploymentOf p.pod = d
        · rw [List.filter_cons_of_pos (by simpa using hd), if_pos hd,
            List.map_cons, List.sum_cons]
        · rw [List.filter_cons_of_neg (by simpa using hd), if_neg hd, zero_add]
      simp only [hsplit]
      rw [List.sum_map_add, sum_ite_eq hnodup hp, ih hpods, List.map_cons,
        List.sum_cons]

theorem nodup_deployments (rows : List Row) : (deployments rows).Nodup :=
  (ascending_perm _).nodup_iff.2 (List.nodup_dedup _)

theorem exposureRows_singleton (run : Run) : exposureRows [run] = runRows run :=
  List.flatMap_singleton _ _

theorem mem_deployments {p : Pod} (hp : p ∈ exposurePods run cond) :
    deploymentOf p.pod ∈ deployments (exposureRows [run]) := by
  have hrow : podRow run cond p ∈ rowsAt run cond := by
    unfold exposurePods at hp
    unfold rowsAt
    by_cases hgone : cond ∈ run.gone
    · rw [if_pos hgone] at hp
      cases hp
    · rw [if_neg hgone] at hp ⊢
      cases hcond : run.footprint.get? cond with
      | none =>
          rw [hcond] at hp
          cases hp
      | some c =>
          rw [hcond] at hp
          exact List.mem_append_right _ (List.mem_map_of_mem hp)
  rw [← filter_runRows] at hrow
  unfold deployments
  rw [(ascending_perm _).mem_iff, List.mem_dedup, exposureRows_singleton]
  exact List.mem_map_of_mem (f := Row.name)
    (List.mem_filter.2 ⟨List.mem_of_mem_filter hrow, rfl⟩)

def groupRow (run : Run) (cond : Text) (g : Group) : Row :=
  ⟨run.name, cond, .group, exposure, g.cpuMcores, g.memMib⟩

theorem mean_groupRow (m : Measure) (run : Run) (cond : Text) (g : Group) :
    (m.ofRow (groupRow run cond g)).mean = (m.ofGroup g).mean := by
  cases m with
  | cpu => rfl
  | mem => rfl

theorem hit_group {g : Group} (hg : groupOf run cond = some g) {v : ℚ}
    (hv : (m.ofGroup g).mean = some v) :
    hit (runRows run) m cond .group exposure = [groupRow run cond g] := by
  rw [hit_eq, filter_runRows]
  unfold groupOf at hg
  unfold rowsAt
  split at hg
  · cases hg
  · rename_i hgone
    obtain ⟨c, hc, hg⟩ := Option.bind_eq_some_iff.1 hg
    have hmean : (m.ofRow (groupRow run cond g)).mean ≠ none := by
      rw [mean_groupRow, hv]
      exact Option.some_ne_none v
    rw [if_neg hgone, hc, Option.map_some, Option.getD_some]
    unfold conditionRows
    rw [hg, List.filter_append, Option.map_some, Option.toList_some,
      List.filter_cons_of_pos, List.filter_nil, List.filter_eq_nil_iff.2,
      List.append_nil]
    · rfl
    · intro r hr
      obtain ⟨p, -, rfl⟩ := List.mem_map.1 hr
      simp
    · exact decide_eq_true ⟨rfl, rfl, hmean⟩

theorem shown_group {g : Group} (hg : groupOf run cond = some g) {v : ℚ}
    (hv : (m.ofGroup g).mean = some v) :
    shown (exposureRows [run]) m cond .group exposure = some v := by
  unfold shown cell
  rw [exposureRows_singleton, hit_group hg hv]
  dsimp only
  rw [if_neg (List.cons_ne_nil _ _), Option.map_some,
    List.filterMap_cons_some (f := fun r => (m.ofRow r).mean)
      ((mean_groupRow m run cond g).trans hv)]
  simp

/-- Where each cell of a run is the sum of the Deployment's pods, the cells add
up to the group. -/
theorem addsUp_of_average
    (h : ∀ d, having [run] cond d ≠ [] →
      shown (exposureRows [run]) m cond .deployment d =
        some (((having [run] cond d).map (taken m cond d)).sum /
          (having [run] cond d).length))
    (hs : Sampled [run]) {g : Group} (hg : groupOf run cond = some g)
    (hmean : (m.ofGroup g).mean =
      some ((exposurePods run cond).map (podMean m)).sum) :
    shown (exposureRows [run]) m cond .group exposure =
      some (((deployments (exposureRows [run])).map fun d =>
        (shown (exposureRows [run]) m cond .deployment d).getD 0).sum) := by
  have hcell : ∀ d, (shown (exposureRows [run]) m cond .deployment d).getD 0 =
      taken m cond d run := by
    intro d
    by_cases hpods : podsOf run cond d = []
    · have hnone : having [run] cond d = [] := by
        unfold having
        rw [List.filter_cons_of_neg (by simpa using hpods), List.filter_nil]
      rw [shown_deployment hs, if_pos hnone]
      unfold taken
      rw [hpods]
      rfl
    · have hone : having [run] cond d = [run] := by
        unfold having
        rw [List.filter_cons_of_pos (by simpa using hpods), List.filter_nil]
      rw [h d (by rw [hone]; exact List.cons_ne_nil _ _), hone]
      simp
  rw [shown_group hg hmean]
  simp only [hcell]
  exact congrArg some (sum_by_deployment (nodup_deployments _)
    (fun p hp => mem_deployments hp) (podMean m)).symm

/-- The table shows what it is to show if and only if no run has two pods of a
Deployment that takes anything. -/
theorem tabled_iff (hs : Sampled runs) : Tabled runs ↔ OneEach runs := by
  constructor
  · intro h cond d
    by_cases hone : ∀ run ∈ runs, (podsOf run cond d).length ≤ 1
    · exact .inl hone
    · exact .inr fun m =>
        ((average_iff hs m cond d).1 (h.average m cond d)).resolve_left hone
  · intro h
    have haverage := fun m cond d =>
      (average_iff hs m cond d).2 ((h cond d).imp_right fun hzero => hzero m)
    refine ⟨haverage, ?_⟩
    rintro run rfl m cond g hg hmean
    exact addsUp_of_average (haverage m cond) hs hg hmean

end Averages

section Replicas

/-- A summary of samples that are all alike. -/
def steady (v : ℚ) : Summary :=
  ⟨60, some v, some v, some v, some v, some v, some v⟩

def engine (suffix : Text) : Pod :=
  ⟨"positioning-engine-6d4f8-".toList ++ suffix, exposure, steady 30,
    steady 80⟩

/-- A run in which the engine has the pods of these names. -/
def runWith (name : Text) (suffixes : List Text) : Run where
  name := name
  footprint := Dict.single "synthetic-10".toList
    ⟨Dict.single exposure ⟨steady (30 * suffixes.length),
      steady (80 * suffixes.length)⟩, suffixes.map engine⟩
  gone := []

theorem exposurePods_runWith (name cond : Text) (suffixes : List Text) :
    exposurePods (runWith name suffixes) cond =
      if "synthetic-10".toList = cond then suffixes.map engine else [] := by
  have hgone : cond ∉ (runWith name suffixes).gone := List.not_mem_nil
  unfold exposurePods
  rw [if_neg hgone]
  unfold Dict.get? runWith Dict.single Dict.getItem
  split
  · rw [Option.map_some, Option.getD_some, List.filter_eq_self]
    intro p hp
    obtain ⟨s, -, rfl⟩ := List.mem_map.1 hp
    rfl
  · rfl

theorem sampled_runWith {runs : List Run}
    (h : ∀ run ∈ runs, ∃ name suffixes, run = runWith name suffixes) :
    Sampled runs := by
  intro run hrun cond p hp m
  obtain ⟨name, suffixes, rfl⟩ := h run hrun
  rw [exposurePods_runWith] at hp
  split at hp
  · obtain ⟨s, -, rfl⟩ := List.mem_map.1 hp
    cases m with
    | cpu => exact Option.some_ne_none 30
    | mem => exact Option.some_ne_none 80
  · cases hp

/-- Two runs with one pod each. -/
theorem tabled_onePod :
    Tabled [runWith "run_1".toList ["abcde".toList],
      runWith "run_2".toList ["fghij".toList]] := by
  refine (tabled_iff (sampled_runWith ?_)).2 fun cond d => .inl ?_
  · rintro run hrun
    simp only [List.mem_cons, List.not_mem_nil, or_false] at hrun
    rcases hrun with rfl | rfl
    · exact ⟨_, _, rfl⟩
    · exact ⟨_, _, rfl⟩
  · have hle : ∀ name s, (podsOf (runWith name [s]) cond d).length ≤ 1 := by
      intro name s
      refine (List.length_filter_le _ _).trans ?_
      rw [exposurePods_runWith]
      split
      · exact le_refl 1
      · exact Nat.zero_le 1
    simp only [List.forall_mem_cons]
    exact ⟨hle _ _, hle _ _, fun _ h => by cases h⟩

/-- One run with two pods of the engine: the table shows what one of them
takes. -/
theorem not_tabled_twoPods :
    ¬ Tabled [runWith "run_1".toList ["abcde".toList, "fghij".toList]] := by
  intro h
  have hs : Sampled [runWith "run_1".toList
      ["abcde".toList, "fghij".toList]] := by
    refine sampled_runWith fun run hrun => ?_
    rw [List.mem_singleton.1 hrun]
    exact ⟨_, _, rfl⟩
  have hshown := (average_iff hs .cpu "synthetic-10".toList
    "positioning-engine".toList).1 (h.average _ _ _)
  rcases hshown with hone | hzero
  · have hle := hone _ List.mem_cons_self
    revert hle
    decide +kernel
  · revert hzero
    decide +kernel

end Replicas

end ExposureTable
end Experiments
end Kelt
