import Kelt.Experiments.Footprint
import Kelt.Lib.Dict
import Kelt.Lib.PyText
import Mathlib.Tactic.Linarith

/-!
# The check of a footprint

`check_footprint` (`validation/check_run.py`) asks for a sample at least every
2 s from each machine, each VM process and each pod inside the windows. It looks
only at the samples next to each other, between the two ends of the window; no
stretch of the window longer than the gap is then without a sample
(`covered_of_ok`).

A sample is its time; what else it holds is not read here. The text of the
message is left out: a message is the gaps and the number of pods that it names.
-/

namespace Kelt
namespace Experiments
namespace FootprintCheck

section Load

/-- A sample file of a machine, with the times of its samples
(`read_samples`). -/
structure File where
  name : Text
  node : List ℚ
  pods : Dict Text (List ℚ)
  vms : Dict Text (List ℚ)

structure Loaded where
  nodes : Dict Text (List ℚ × Dict Text (List ℚ))
  names : Dict Text (Text × Text)
  vms : Dict Text (List ℚ)

/-- `for k, s in e.items(): d[k].extend(s)`, with an empty list for a new
key. -/
def extend (d e : Dict Text (List ℚ)) : Dict Text (List ℚ) :=
  e.items.foldl (fun d x => d.set x.1 ((d.get? x.1).getD [] ++ x.2)) d

def loadFile (l : Loaded) (f : File) : Loaded :=
  let had := (l.nodes.get? f.name).getD ([], .empty)
  { l with
    nodes := l.nodes.set f.name (had.1 ++ f.node, extend had.2 f.pods)
    vms := extend l.vms f.vms }

/-- `_load`: the samples over every attempt, with the names of `pods.tsv`. -/
def load (files : List File) (names : Dict Text (Text × Text)) : Loaded :=
  files.foldl loadFile ⟨.empty, names, .empty⟩

end Load

section Check

structure Window where
  start : ℚ
  stop : ℚ
  deriving DecidableEq

/-- `a <= x <= b` -/
def Window.inside (w : Window) (x : ℚ) : Bool :=
  decide (w.start ≤ x ∧ x ≤ w.stop)

/-- `MAX_GAP_S` -/
def maxGap : ℚ :=
  2

inductive Label where
  | node (name : Text)
  | pod (node pod : Text)
  | vm (name : Text)
  deriving DecidableEq

structure Gap where
  label : Label
  worst : ℚ
  deriving DecidableEq

def edges (w : Window) (t : List ℚ) : List ℚ :=
  if t = [] then [w.start, w.stop] else w.start :: t ++ [w.stop]

/-- The samples of a window, with those just outside. -/
def around (w : Window) (times : List ℚ) : List ℚ :=
  ascending (times.filter fun x =>
    decide (w.start - maxGap ≤ x ∧ x ≤ w.stop + maxGap))

/-- The largest difference of two edges next to each other. -/
def worst (edges : List ℚ) : ℚ :=
  ((edges.zip edges.tail).map fun x => x.2 - x.1).max?.getD 0

/-- `gap` -/
def gap (windows : List Window) (label : Label) (times : List ℚ)
    (onlyPresent : Bool) : Option Gap :=
  windows.findSome? fun w =>
    if onlyPresent && !times.any w.inside then none
    else
      let worst := worst (edges w (around w times))
      if maxGap < worst then some ⟨label, worst⟩ else none

/-- The samples of a pod inside some window. -/
def seen (windows : List Window) (times : List ℚ) : Bool :=
  times.any fun x => windows.any fun w => w.inside x

/-- The gaps of a machine: its own first, then those of its pods. -/
def nodeGaps (windows : List Window) (names : Dict Text (Text × Text))
    (node : Text) (x : List ℚ × Dict Text (List ℚ)) : List Gap :=
  (gap windows (.node node) x.1 false).toList ++
    (x.2.items.filter fun p => seen windows p.2).filterMap fun p =>
      gap windows (.pod node (((names.get? p.1).map Prod.snd).getD p.1)) p.2 true

def gaps (windows : List Window) (l : Loaded) : List Gap :=
  l.nodes.items.flatMap (fun n => nodeGaps windows l.names n.1 n.2) ++
    l.vms.items.filterMap fun v => gap windows (.vm v.1) v.2 false

/-- The pods with a sample in a window and no name. -/
def unnamed (windows : List Window) (l : Loaded) : List Text :=
  ((l.nodes.items.flatMap fun n => (n.2.2.items.filter fun p =>
    seen windows p.2).map Prod.fst).filter fun uid =>
      decide (l.names.get? uid = none)).dedup

inductive Message where
  | noFootprint
  | fine
  | wrong (gaps : List Gap) (podsWithoutName : ℕ)
  deriving DecidableEq

/-- `check_footprint`, on the windows of each condition of `footprint.json`. -/
def checkFootprint (footprint : Option (List (List Window))) (l : Loaded) :
    Bool × Message :=
  match footprint with
  | none => (false, .noFootprint)
  | some conditions =>
      let windows := conditions.flatten
      if gaps windows l = [] ∧ unnamed windows l = [] then (true, .fine)
      else (false, .wrong ((gaps windows l).take 5) (unnamed windows l).length)

end Check

section Times

variable (files : List File)

/-- The samples of a machine over all files. -/
def nodeTimes (name : Text) : List ℚ :=
  (files.filter fun f => decide (f.name = name)).flatMap File.node

def podTimes (name uid : Text) : List ℚ :=
  (files.filter fun f => decide (f.name = name)).flatMap fun f =>
    (f.pods.get? uid).getD []

def vmTimes (vm : Text) : List ℚ :=
  files.flatMap fun f => (f.vms.get? vm).getD []

/-- Every stretch of the window longer than the gap has a sample, also without
its ends. -/
def Covered (w : Window) (times : List ℚ) : Prop :=
  ∀ u v, w.start ≤ u → v ≤ w.stop → maxGap < v - u →
    ∃ x ∈ times, u < x ∧ x < v

end Times

section Gaps

/-- Where no two edges are further apart than the gap, the first edge past `u`
comes before `v`. -/
theorem exists_between {t : List ℚ} {a b u v : ℚ}
    (hgap : ∀ x ∈ (a :: t ++ [b]).zip (t ++ [b]), x.2 - x.1 ≤ maxGap)
    (hu : a ≤ u) (hv : v ≤ b) (huv : maxGap < v - u) :
    ∃ x ∈ t, u < x ∧ x < v := by
  induction t generalizing a with
  | nil =>
      have hab : b - a ≤ maxGap := hgap (a, b) List.mem_cons_self
      linarith
  | cons x t ih =>
      have hx : x - a ≤ maxGap := hgap (a, x) List.mem_cons_self
      rcases le_or_gt x u with hxu | hux
      · obtain ⟨y, hy, hbetween⟩ :=
          ih (fun p hp => hgap p (List.mem_cons_of_mem _ hp)) hxu
        exact ⟨y, List.mem_cons_of_mem _ hy, hbetween⟩
      · exact ⟨x, List.mem_cons_self, hux, by linarith⟩

theorem sub_le_worst {edges : List ℚ} {x : ℚ × ℚ}
    (hx : x ∈ edges.zip edges.tail) : x.2 - x.1 ≤ worst edges := by
  have hmem := List.mem_map_of_mem (f := fun x : ℚ × ℚ => x.2 - x.1) hx
  unfold worst
  cases hmax : ((edges.zip edges.tail).map fun x => x.2 - x.1).max? with
  | none =>
      rw [List.max?_eq_none_iff] at hmax
      rw [hmax] at hmem
      cases hmem
  | some m => exact (List.max?_eq_some_iff.1 hmax).2 _ hmem

theorem edges_eq (w : Window) (t : List ℚ) :
    edges w t = w.start :: t ++ [w.stop] := by
  unfold edges
  split
  · rename_i hnil
    rw [hnil]
    rfl
  · rfl

theorem mem_of_mem_around {w : Window} {times : List ℚ} {x : ℚ}
    (h : x ∈ around w times) : x ∈ times :=
  List.mem_of_mem_filter ((ascending_perm _).mem_iff.1 h)

theorem covered_of_worst {w : Window} {times : List ℚ}
    (h : worst (edges w (around w times)) ≤ maxGap) : Covered w times := by
  intro u v hu hv huv
  rw [edges_eq] at h
  obtain ⟨x, hx, hbetween⟩ :=
    exists_between (fun p hp => (sub_le_worst hp).trans h) hu hv huv
  exact ⟨x, mem_of_mem_around hx, hbetween⟩

/-- A window in which `gap` finds nothing is covered, where it is looked at. -/
theorem covered_of_gap {windows : List Window} {label : Label}
    {times : List ℚ} {onlyPresent : Bool}
    (h : gap windows label times onlyPresent = none) {w : Window}
    (hw : w ∈ windows)
    (hpresent : onlyPresent = true → ∃ x ∈ times, w.inside x = true) :
    Covered w times := by
  have hnone := List.findSome?_eq_none_iff.1 h w hw
  have hlooked : (onlyPresent && !times.any w.inside) = false := by
    cases onlyPresent with
    | false => rfl
    | true => simpa using hpresent rfl
  rw [hlooked, if_neg Bool.false_ne_true] at hnone
  refine covered_of_worst (not_lt.1 fun hlt => ?_)
  rw [if_pos hlt] at hnone
  cases hnone

end Gaps

section Merge

theorem get?_extend (d e : Dict Text (List ℚ)) (k : Text) :
    (extend d e).get? k =
      (e.get? k).elim (d.get? k) fun v => some ((d.get? k).getD [] ++ v) := by
  obtain ⟨items, hnodup⟩ := e
  unfold extend
  dsimp only
  induction items generalizing d with
  | nil => rfl
  | cons x items ih =>
      obtain ⟨k', v⟩ := x
      rw [List.map_cons, List.nodup_cons] at hnodup
      obtain ⟨hfresh, hnodup⟩ := hnodup
      rw [List.foldl_cons, ih _ hnodup]
      by_cases hk : k' = k
      · subst hk
        have hnone : Dict.getItem k' items = none :=
          (Dict.getItem_eq_none_iff k' items).2 hfresh
        have hset := d.get?_set_self k' ((d.get? k').getD [] ++ v)
        simpa [Dict.get?, Dict.getItem, hnone] using hset
      · rw [Dict.get?_set_of_ne _ _ (Ne.symm hk)]
        simp [Dict.get?, Dict.getItem, hk]

/-- The loaded samples are those of the files. -/
structure Merged (files : List File) (l : Loaded) : Prop where
  node : ∀ name,
    ((l.nodes.get? name).getD ([], .empty)).1 = nodeTimes files name
  pod : ∀ name uid,
    (((l.nodes.get? name).getD ([], .empty)).2.get? uid).getD [] =
      podTimes files name uid
  vm : ∀ vm, (l.vms.get? vm).getD [] = vmTimes files vm
  nodeKnown : ∀ f ∈ files, l.nodes.get? f.name ≠ none
  vmKnown : ∀ f ∈ files, ∀ vm, f.vms.get? vm ≠ none → l.vms.get? vm ≠ none

theorem Merged.loadFile {files : List File} {l : Loaded} (h : Merged files l)
    (f : File) : Merged (files ++ [f]) (loadFile l f) where
  node name := by
    unfold FootprintCheck.loadFile nodeTimes
    rw [List.filter_append, List.flatMap_append, ← nodeTimes, ← h.node]
    dsimp only
    by_cases hname : f.name = name
    · subst hname
      simp
    · rw [Dict.get?_set_of_ne _ _ (Ne.symm hname)]
      simp [hname]
  pod name uid := by
    unfold FootprintCheck.loadFile podTimes
    rw [List.filter_append, List.flatMap_append, ← podTimes, ← h.pod]
    dsimp only
    by_cases hname : f.name = name
    · subst hname
      rw [Dict.get?_set_self, Option.getD_some, get?_extend]
      cases hpod : f.pods.get? uid <;> simp [hpod]
    · rw [Dict.get?_set_of_ne _ _ (Ne.symm hname)]
      simp [hname]
  vm vm := by
    unfold FootprintCheck.loadFile vmTimes
    rw [List.flatMap_append, ← vmTimes, ← h.vm, get?_extend]
    cases hvm : f.vms.get? vm <;> simp [hvm]
  nodeKnown g hg := by
    unfold FootprintCheck.loadFile
    dsimp only
    rw [Dict.get?_set]
    split
    · exact Option.some_ne_none _
    · rename_i hne
      rcases List.mem_append.1 hg with hg | hg
      · exact h.nodeKnown g hg
      · exact absurd (congrArg File.name (List.mem_singleton.1 hg)).symm hne
  vmKnown g hg vm hvm := by
    unfold FootprintCheck.loadFile
    rw [get?_extend]
    cases hf : f.vms.get? vm with
    | some v => exact Option.some_ne_none _
    | none =>
        rcases List.mem_append.1 hg with hg | hg
        · exact h.vmKnown g hg vm hvm
        · rw [List.mem_singleton.1 hg, hf] at hvm
          exact absurd rfl hvm

theorem merged_load (files : List File) (names : Dict Text (Text × Text)) :
    Merged files (load files names) := by
  induction files using List.reverseRecOn with
  | nil =>
      exact ⟨fun _ => rfl, fun _ _ => rfl, fun _ => rfl, by simp, by simp⟩
  | append_singleton files f ih =>
      unfold load at ih ⊢
      rw [List.foldl_append]
      exact ih.loadFile f

end Merge

section Soundness

variable {windows : List Window} {l : Loaded}

theorem gap_node (h : gaps windows l = []) {name : Text}
    {x : List ℚ × Dict Text (List ℚ)} (hx : l.nodes.get? name = some x) :
    nodeGaps windows l.names name x = [] := by
  have hnodes := (List.append_eq_nil_iff.1 h).1
  exact List.flatMap_eq_nil_iff.1 hnodes (name, x)
    ((l.nodes.get?_eq_some_iff name x).1 hx)

theorem gap_vm (h : gaps windows l = []) {vm : Text} {times : List ℚ}
    (hx : l.vms.get? vm = some times) :
    gap windows (.vm vm) times false = none := by
  have hvms := (List.append_eq_nil_iff.1 h).2
  exact List.filterMap_eq_nil_iff.1 hvms (vm, times)
    ((l.vms.get?_eq_some_iff vm times).1 hx)

/-- Where the check accepts, no window has a stretch longer than the gap without
a sample: of each machine, of each VM process, and of each pod with a sample in
the window. -/
theorem covered_of_ok {footprint : Option (List (List Window))}
    {files : List File} {names : Dict Text (Text × Text)}
    (h : (checkFootprint footprint (load files names)).1 = true) :
    ∃ conditions, footprint = some conditions ∧
      ∀ w ∈ conditions.flatten, ∀ f ∈ files,
        Covered w (nodeTimes files f.name) ∧
        (∀ vm, f.vms.get? vm ≠ none → Covered w (vmTimes files vm)) ∧
        ∀ uid, (∃ x ∈ podTimes files f.name uid, w.inside x = true) →
          Covered w (podTimes files f.name uid) := by
  cases footprint with
  | none => cases h
  | some conditions =>
      have hgaps : gaps conditions.flatten (load files names) = [] := by
        unfold checkFootprint at h
        dsimp only at h
        split at h
        · rename_i hok
          exact hok.1
        · cases h
      have hmerged := merged_load files names
      refine ⟨conditions, rfl, fun w hw f hf => ?_⟩
      obtain ⟨x, hx⟩ := Option.ne_none_iff_exists'.1 (hmerged.nodeKnown f hf)
      have hnode := gap_node hgaps hx
      obtain ⟨hown, hpods⟩ := List.append_eq_nil_iff.1 hnode
      refine ⟨?_, fun vm hvm => ?_, fun uid hpresent => ?_⟩
      · rw [← hmerged.node, hx]
        exact covered_of_gap (Option.toList_eq_nil_iff.1 hown) hw
          fun h => by cases h
      · obtain ⟨times, htimes⟩ :=
          Option.ne_none_iff_exists'.1 (hmerged.vmKnown f hf vm hvm)
        rw [← hmerged.vm, htimes]
        exact covered_of_gap (gap_vm hgaps htimes) hw fun h => by cases h
      · have hpod := hmerged.pod f.name uid
        rw [hx, Option.getD_some] at hpod
        cases huid : x.2.get? uid with
        | none =>
            rw [huid] at hpod
            obtain ⟨y, hy, -⟩ := hpresent
            rw [← hpod] at hy
            cases hy
        | some times =>
            rw [huid, Option.getD_some] at hpod
            rw [← hpod] at hpresent ⊢
            obtain ⟨y, hy, hinside⟩ := hpresent
            have hseen : seen conditions.flatten times = true :=
              List.any_eq_true.2 ⟨y, hy, List.any_eq_true.2 ⟨w, hw, hinside⟩⟩
            have hmem : (uid, times) ∈ x.2.items.filter fun p =>
                seen conditions.flatten p.2 :=
              List.mem_filter.2 ⟨(x.2.get?_eq_some_iff uid times).1 huid, hseen⟩
            exact covered_of_gap (List.filterMap_eq_nil_iff.1 hpods _ hmem) hw
              fun _ => ⟨y, hy, hinside⟩

/-- A machine, its pod and a VM process, each sampled once. -/
def oneSample : List File :=
  [⟨"worker".toList, [1], .single "u-upf".toList [1],
    .single "master".toList [1]⟩]

def podNames : Dict Text (Text × Text) :=
  .single "u-upf".toList ("5g".toList, "upf-cloud-1".toList)

theorem covered_of_ok_oneSample :
    ∃ conditions, some [[Window.mk 0 3]] = some conditions ∧
      ∀ w ∈ conditions.flatten, ∀ f ∈ oneSample,
        Covered w (nodeTimes oneSample f.name) ∧
        (∀ vm, f.vms.get? vm ≠ none → Covered w (vmTimes oneSample vm)) ∧
        ∀ uid, (∃ x ∈ podTimes oneSample f.name uid, w.inside x = true) →
          Covered w (podTimes oneSample f.name uid) :=
  @covered_of_ok (some [[⟨0, 3⟩]]) oneSample podNames (by decide +kernel)

end Soundness

end FootprintCheck
end Experiments
end Kelt
