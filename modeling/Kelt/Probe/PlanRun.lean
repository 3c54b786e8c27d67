import Kelt.Lib.PyText
import Kelt.Lib.Runs
import Mathlib.Data.Char
import Mathlib.Data.List.Lex
import Mathlib.Data.List.Sort

/-!
# The record of a plan run

A thread executes the experiments of a plan one after the other and saves the
record of the run, `run.json`, before and after each of them and at the end. A
run that has not completed all its experiments is to be resumed later: the
newest one whose status is running or partial is offered
(`latestResumableRunId`).

The status at the end looks at the failed experiments only, so a run that is
stopped before any of them fails counts as completed; and a save empties the
file before it writes. Over the runs in which neither comes about, the record
tells the truth and a resume executes what is missing (`sound_of_careful`).
-/

namespace Kelt
namespace Probe
namespace PlanRun

section Records

inductive ExpState where
  | pending
  | running
  | completed
  | failed
deriving DecidableEq

inductive RunStatus where
  | running
  | completed
  | partialRun
deriving DecidableEq

structure Experiment where
  state : ExpState
  error : Option Text

structure RunData where
  runId : Text
  startedAt : Text
  status : RunStatus
  experiments : List Experiment

/-- `run.json`: not there, cut short by a save that has not ended, or whole. -/
inductive RunFile where
  | absent
  | torn
  | whole (rd : RunData)

def RunFile.load : RunFile → Option RunData
  | .whole rd => some rd
  | _ => none

/-- `_list_runs`: the records that can be read, the newest first. -/
def listRuns (dir : List RunFile) : List RunData :=
  (dir.filterMap RunFile.load).insertionSort
    (fun rd rd' => rd'.startedAt ≤ rd.startedAt)

def RunData.resumable (rd : RunData) : Bool :=
  (rd.status = .running || rd.status = .partialRun) && !rd.runId.isEmpty

/-- `_latest_resumable_run_id` -/
def latestResumableRunId (dir : List RunFile) : Option Text :=
  ((listRuns dir).find? RunData.resumable).map RunData.runId

/-- An experiment that a dead run left running has failed. -/
def Experiment.unstick (message : Text) (exp : Experiment) : Experiment :=
  if exp.state = .running then { state := .failed, error := some message }
  else exp

def priorAbort : Text :=
  "Interrupted (server restart or prior abort)".toList

def serverRestart : Text :=
  "Interrupted (server restart)".toList

def RunData.stuck (rd : RunData) : Bool :=
  rd.experiments.any (fun exp => decide (exp.state = .running))

/-- `_cleanup_stuck_plans` on a record. -/
def RunData.cleanup (rd : RunData) : RunData :=
  { rd with
    experiments := rd.experiments.map (Experiment.unstick serverRestart) }

def RunData.failed (rd : RunData) : Nat :=
  rd.experiments.countP (fun exp => decide (exp.state = .failed))

def RunData.AllCompleted (rd : RunData) : Prop :=
  ∀ exp ∈ rd.experiments, exp.state = .completed

def RunData.setExp (rd : RunData) (i : Nat) (exp : Experiment) : RunData :=
  { rd with experiments := rd.experiments.set i exp }

end Records

section Execution

/-- Where the thread is in `_plan_execution_thread`: at the head of the loop, in
an experiment, after one, where the status is computed, at the end. -/
inductive Stage where
  | head
  | running (i : Nat)
  | after
  | tally
  | leaving

/-- A save that is under way: `open` has not emptied the file yet, or it has. -/
inductive Save where
  | idle
  | opening
  | writing
deriving DecidableEq

/-- A thread with its `run_data`. `pos` experiments have been dealt with;
`source` are those it was started on, `begun` those it has begun, and `cut` says
that it broke off on the cleared flag. -/
structure Thread where
  mem : RunData
  resume : Bool
  source : List Experiment
  begun : List Nat
  pos : Nat
  cut : Bool
  stage : Stage
  save : Save

inductive Phase where
  | down
  | cleaning (rd : RunData)
  | up (thread : Option Thread)

/-- The record of one run, `_plan_running` and the server. -/
structure Server where
  disk : RunFile
  flag : Bool
  phase : Phase

inductive Act where
  | start (n : Nat) (now : Text)
  | resume (before after : List RunFile) (now : Text)
  | go
  | outcome (error : Option Text)
  | abort
  | die
  | boot
  | cleaned
  | flag (set : Bool)

def Thread.begin (rd : RunData) (resume : Bool) (source : List Experiment) :
    Thread where
  mem := rd
  resume := resume
  source := source
  begun := []
  pos := 0
  cut := false
  stage := .head
  save := .opening

/-- A fresh run of a plan with `n` experiments. -/
def freshThread (runId : Text) (n : Nat) (now : Text) : Thread :=
  let exps := List.replicate n ⟨.pending, none⟩
  .begin ⟨runId, now, .running, exps⟩ false exps

def resumedThread (rd : RunData) (now : Text) : Thread :=
  let exps := rd.experiments.map (Experiment.unstick priorAbort)
  let startedAt := if rd.startedAt = [] then now else rd.startedAt
  .begin ⟨rd.runId, startedAt, .running, exps⟩ true rd.experiments

/-- The next step of the thread outside of saves and experiments. -/
def Thread.move (flag : Bool) (t : Thread) : Option Thread :=
  match t.stage with
  | .head =>
      match t.mem.experiments[t.pos]? with
      | none => some { t with stage := .tally }
      | some exp =>
          if !flag then some { t with stage := .tally, cut := true }
          else if t.resume ∧ exp.state = .completed then
            some { t with pos := t.pos + 1 }
          else
            some { t with
              mem := t.mem.setExp t.pos { exp with state := .running }
              begun := t.begun ++ [t.pos]
              pos := t.pos + 1
              stage := .running t.pos
              save := .opening }
  | .running _ => none
  | .after =>
      if !flag then some { t with stage := .tally, cut := true }
      else some { t with stage := .head }
  | .tally =>
      let status : RunStatus :=
        if t.mem.failed = 0 then .completed else .partialRun
      some { t with
        mem := { t.mem with status := status }
        stage := .leaving
        save := .opening }
  | .leaving => none

/-- The experiment ends: it has produced its data, or failed with an error. -/
def Thread.outcome (error : Option Text) (t : Thread) : Option Thread :=
  match t.save, t.stage with
  | .idle, .running i =>
      match t.mem.experiments[i]? with
      | none => none
      | some exp =>
          let exp : Experiment :=
            match error with
            | none => { exp with state := .completed }
            | some e => { state := .failed, error := some e }
          some { t with
            mem := t.mem.setExp i exp
            stage := .after
            save := .opening }
  | _, _ => none

def Server.go (s : Server) (t : Thread) : Option Server :=
  match t.save with
  | .opening =>
      some { s with
        disk := .torn
        phase := .up (some { t with save := .writing }) }
  | .writing =>
      some { s with
        disk := .whole t.mem
        phase := .up (some { t with save := .idle }) }
  | .idle =>
      match t.stage with
      | .leaving => some { s with flag := false, phase := .up none }
      | _ => (t.move s.flag).map (fun t => { s with phase := .up (some t) })

/-- `abort` is an exception that ends the thread, at a save too; `flag` what
other requests and threads do to the flag. -/
def Server.step (runId : Text) (s : Server) : Act → Option Server
  | .start n now =>
      match s.phase with
      | .up none =>
          some { s with
            flag := true
            phase := .up (some (freshThread runId n now)) }
      | _ => none
  | .resume before after now =>
      match s.phase, s.disk with
      | .up none, .whole rd =>
          if latestResumableRunId (before ++ s.disk :: after) = some runId then
            some { s with
              flag := true
              phase := .up (some (resumedThread rd now)) }
          else
            none
      | _, _ => none
  | .go =>
      match s.phase with
      | .up (some t) => s.go t
      | _ => none
  | .outcome error =>
      match s.phase with
      | .up (some t) =>
          (t.outcome error).map (fun t => { s with phase := .up (some t) })
      | _ => none
  | .abort =>
      match s.phase with
      | .up (some _) => some { s with flag := false, phase := .up none }
      | _ => none
  | .die => some { s with flag := false, phase := .down }
  | .boot =>
      match s.phase, s.disk with
      | .down, .whole rd =>
          if rd.stuck then
            some { s with disk := .torn, phase := .cleaning rd.cleanup }
          else
            some { s with phase := .up none }
      | .down, _ => some { s with phase := .up none }
      | _, _ => none
  | .cleaned =>
      match s.phase with
      | .cleaning rd => some { s with disk := .whole rd, phase := .up none }
      | _ => none
  | .flag b => some { s with flag := b }

def Server.init : Server :=
  ⟨.absent, false, .up none⟩

end Execution

section Truth

/-- The run is the one to resume when it is the newest that can be. -/
def RunFile.Offered (d : RunFile) : Prop :=
  ∃ rd, d = .whole rd ∧ ∀ before after : List RunFile,
    (∀ other ∈ before ++ after, ∀ rd', other = .whole rd' →
      rd'.resumable = true → rd'.startedAt < rd.startedAt) →
    latestResumableRunId (before ++ d :: after) = some rd.runId

/-- The experiments below `n` that are not completed. -/
def missingBefore (exps : List Experiment) (n : Nat) : List Nat :=
  (List.range n).filter
    (fun i => exps[i]?.any (fun exp => decide (exp.state ≠ .completed)))

/-- The loop is over. -/
def Stage.isEnd : Stage → Bool
  | .tally | .leaving => true
  | _ => false

/-- The record says completed only of runs with all experiments completed, the
other runs that have ended are offered, and a thread begins what is missing, all
of it unless it breaks off. -/
structure Server.Sound (s : Server) : Prop where
  completed : ∀ rd, s.disk = .whole rd → rd.status = .completed →
    rd.AllCompleted
  offered : s.phase = .up none → s.disk ≠ .absent →
    (∃ rd, s.disk = .whole rd ∧ rd.AllCompleted) ∨ s.disk.Offered
  begun : ∀ t, s.phase = .up (some t) →
    t.begun = missingBefore t.source t.pos ∧
      (t.stage.isEnd = true → t.cut = false → t.pos = t.source.length)

/-- The thread looks at the flag in its next step. -/
def Thread.looks (t : Thread) : Bool :=
  decide (t.save = .idle) &&
    match t.stage with
    | .head => decide (t.pos < t.mem.experiments.length)
    | .after => true
    | _ => false

/-- No save is cut short, and a run that breaks off has a failed experiment or
none that is not completed. -/
def Server.Careful (s : Server) : Act → Prop
  | .go => ∀ t, s.phase = .up (some t) → t.looks = true → s.flag = false →
      t.mem.failed ≠ 0 ∨ t.mem.AllCompleted
  | .abort => ∀ t, s.phase = .up (some t) → t.save ≠ .writing
  | .die => (∀ t, s.phase = .up (some t) → t.save ≠ .writing) ∧
      ∀ rd, s.phase ≠ .cleaning rd
  | _ => True

end Truth

section Offer

/-- The newest of the records that can be resumed is the first of them in the
list. -/
theorem offered_of_resumable {rd : RunData} (hres : rd.resumable = true) :
    (RunFile.whole rd).Offered := by
  refine ⟨rd, rfl, fun before after hnewest => ?_⟩
  have hperm : (listRuns (before ++ .whole rd :: after)).Perm
      ((before ++ .whole rd :: after).filterMap RunFile.load) :=
    List.perm_insertionSort _ _
  have hmem : rd ∈ listRuns (before ++ .whole rd :: after) := by
    rw [hperm.mem_iff]
    exact List.mem_filterMap.2 ⟨.whole rd, by simp, rfl⟩
  have hsorted : (listRuns (before ++ .whole rd :: after)).Pairwise
      (fun rd rd' => rd'.startedAt ≤ rd.startedAt) :=
    List.pairwise_insertionSort _ _
  cases hfind : (listRuns (before ++ .whole rd :: after)).find?
      RunData.resumable with
  | none => exact absurd hres (List.find?_eq_none.1 hfind rd hmem)
  | some first =>
      suffices hfirst : first = rd by
        rw [latestResumableRunId, hfind, hfirst]
        rfl
      obtain ⟨hfirst, front, back, hlist, hfront⟩ :=
        List.find?_eq_some_iff_append.1 hfind
      rw [hlist] at hmem hsorted hperm
      have hback : first = rd ∨ rd ∈ back := by
        rcases List.mem_append.1 hmem with h | h
        · have := hfront rd h
          simp [hres] at this
        · exact (List.mem_cons.1 h).imp_left Eq.symm
      refine hback.elim id fun hback => ?_
      have hle : rd.startedAt ≤ first.startedAt :=
        (List.pairwise_cons.1 (List.pairwise_append.1 hsorted).2.1).1 rd hback
      have hin := hperm.mem_iff.1
        (List.mem_append_right front List.mem_cons_self)
      obtain ⟨other, hother, hload⟩ := List.mem_filterMap.1 hin
      cases other with
      | absent => cases hload
      | torn => cases hload
      | whole rd' =>
          obtain rfl := Option.some.inj hload
          rcases List.mem_append.1 hother with h | h
          · exact absurd hle
              (hnewest _ (List.mem_append_left _ h) _ rfl hfirst).not_ge
          · rcases List.mem_cons.1 h with h | h
            · exact RunFile.whole.inj h
            · exact absurd hle
                (hnewest _ (List.mem_append_right _ h) _ rfl hfirst).not_ge

end Offer

section Loop

theorem missingBefore_succ_of_missing {exps : List Experiment} {n : Nat}
    {exp : Experiment} (hexp : exps[n]? = some exp)
    (hmissing : exp.state ≠ .completed) :
    missingBefore exps (n + 1) = missingBefore exps n ++ [n] := by
  simp [missingBefore, List.range_succ, hexp, hmissing]

theorem missingBefore_succ_of_completed {exps : List Experiment} {n : Nat}
    {exp : Experiment} (hexp : exps[n]? = some exp)
    (hdone : exp.state = .completed) :
    missingBefore exps (n + 1) = missingBefore exps n := by
  simp [missingBefore, List.range_succ, hexp, hdone]

@[simp] theorem Experiment.unstick_completed_iff (message : Text)
    (exp : Experiment) :
    (exp.unstick message).state = .completed ↔ exp.state = .completed := by
  unfold Experiment.unstick
  split
  · simp_all
  · rfl

/-- An experiment that has ended. -/
def Experiment.Ended (exp : Experiment) : Prop :=
  exp.state = .completed ∨ exp.state = .failed

theorem RunData.allCompleted_of_ended {rd : RunData}
    (hended : ∀ exp ∈ rd.experiments, exp.Ended) (hfailed : rd.failed = 0) :
    rd.AllCompleted := by
  intro exp hexp
  refine (hended exp hexp).resolve_right fun hstate => ?_
  exact List.countP_eq_zero.1 hfailed exp hexp (decide_eq_true hstate)

theorem RunData.allCompleted_cleanup {rd : RunData} (h : rd.AllCompleted) :
    rd.cleanup.AllCompleted := by
  intro exp hexp
  obtain ⟨exp', hexp', rfl⟩ := List.mem_map.1 hexp
  exact (Experiment.unstick_completed_iff _ _).2 (h exp' hexp')

/-- What holds of the record of a thread at each place of the loop. -/
def Thread.Place (t : Thread) : Prop :=
  match t.stage with
  | .head | .after => t.mem.status = .running ∧
      ∀ exp ∈ t.mem.experiments.take t.pos, exp.Ended
  | .running i => t.mem.status = .running ∧ t.pos = i + 1 ∧
      ∀ exp ∈ t.mem.experiments.take i, exp.Ended
  | .tally => t.mem.status = .running ∧
      (t.mem.failed = 0 → t.mem.AllCompleted) ∧
      (t.cut = false → t.pos = t.source.length)
  | .leaving => (t.mem.status = .completed → t.mem.AllCompleted) ∧
      (t.cut = false → t.pos = t.source.length)

/-- What holds of a thread all along: it has begun what was missing, and has not
touched what is to come. -/
structure Thread.Kept (runId : Text) (t : Thread) : Prop where
  runId : t.mem.runId = runId
  length : t.mem.experiments.length = t.source.length
  bound : t.pos ≤ t.source.length
  rest : t.mem.experiments.drop t.pos =
    (t.source.map (Experiment.unstick priorAbort)).drop t.pos
  fresh : t.resume = false → ∀ exp ∈ t.source, exp.state ≠ .completed
  begun : t.begun = missingBefore t.source t.pos
  place : t.Place

theorem Thread.Kept.next {runId : Text} {t : Thread} (h : t.Kept runId)
    {exp : Experiment} (hexp : t.mem.experiments[t.pos]? = some exp) :
    ∃ exp₀, t.source[t.pos]? = some exp₀ ∧
      (exp.state = .completed ↔ exp₀.state = .completed) := by
  have hrest := congrArg (fun l => l[0]?) h.rest
  simp only [List.getElem?_drop, Nat.add_zero, List.getElem?_map, hexp] at hrest
  cases hsource : t.source[t.pos]? with
  | none =>
      rw [hsource] at hrest
      cases hrest
  | some exp₀ =>
      rw [hsource] at hrest
      obtain rfl := Option.some.inj hrest
      exact ⟨exp₀, rfl, by simp⟩

theorem Thread.Kept.status {runId : Text} {t : Thread} (h : t.Kept runId)
    (hstatus : t.mem.status = .completed) : t.mem.AllCompleted := by
  have hplace := h.place
  unfold Thread.Place at hplace
  split at hplace
  · rw [hplace.1] at hstatus
    cases hstatus
  · rw [hplace.1] at hstatus
    cases hstatus
  · rw [hplace.1] at hstatus
    cases hstatus
  · rw [hplace.1] at hstatus
    cases hstatus
  · exact hplace.1 hstatus

theorem Thread.Kept.begin {runId : Text} {rd : RunData} {resume : Bool}
    {source : List Experiment} (hid : rd.runId = runId)
    (hstatus : rd.status = .running)
    (hexps : rd.experiments = source.map (Experiment.unstick priorAbort))
    (hfresh : resume = false → ∀ exp ∈ source, exp.state ≠ .completed) :
    (Thread.begin rd resume source).Kept runId where
  runId := hid
  length := by simp [Thread.begin, hexps]
  bound := Nat.zero_le _
  rest := by simp [Thread.begin, hexps]
  fresh := hfresh
  begun := rfl
  place := ⟨hstatus, by simp [Thread.begin]⟩

theorem Thread.Kept.saved {runId : Text} {t : Thread} (h : t.Kept runId)
    (save : Save) : ({ t with save := save } : Thread).Kept runId :=
  ⟨h.runId, h.length, h.bound, h.rest, h.fresh, h.begun, h.place⟩

/-- The step at the head of the loop: it is over, breaks off, skips an
experiment that a resumed run has completed, or begins the next one. -/
theorem Thread.Kept.move_head {runId : Text} {t t' : Thread} {flag : Bool}
    (h : t.Kept runId) (hstage : t.stage = .head) (hidle : t.save = .idle)
    (hcare : t.looks = true → flag = false →
      t.mem.failed ≠ 0 ∨ t.mem.AllCompleted)
    (hm : t.move flag = some t') : t'.Kept runId := by
  have hplace := h.place
  simp only [Thread.Place, hstage] at hplace
  obtain ⟨hstatus, hended⟩ := hplace
  simp only [Thread.move, hstage] at hm
  cases hexp : t.mem.experiments[t.pos]? with
  | none =>
      rw [hexp] at hm
      obtain rfl := Option.some.inj hm
      have hpos : t.pos = t.source.length := by
        have := List.getElem?_eq_none_iff.1 hexp
        have := h.length
        have := h.bound
        omega
      refine ⟨h.runId, h.length, h.bound, h.rest, h.fresh, h.begun, hstatus,
        RunData.allCompleted_of_ended ?_, fun _ => hpos⟩
      rw [List.take_of_length_le (by rw [h.length, hpos])] at hended
      exact hended
  | some exp =>
      have hlt : t.pos < t.mem.experiments.length :=
        (List.getElem?_eq_some_iff.1 hexp).1
      obtain ⟨exp₀, hsource, hdone⟩ := h.next hexp
      simp only [hexp] at hm
      split at hm
      · rename_i hflag
        obtain rfl := Option.some.inj hm
        have hlooks : t.looks = true := by
          simp [Thread.looks, hidle, hstage, hlt]
        refine ⟨h.runId, h.length, h.bound, h.rest, h.fresh, h.begun, hstatus,
          fun hfailed => ?_, nofun⟩
        exact (hcare hlooks (by simpa using hflag)).resolve_left
          (fun hne => hne hfailed)
      · split at hm
        · rename_i hskip
          obtain rfl := Option.some.inj hm
          refine ⟨h.runId, h.length, ?_, ?_, h.fresh, ?_, ?_⟩
          · rw [h.length] at hlt
            exact hlt
          · have := congrArg (List.drop 1) h.rest
            simpa [List.drop_drop] using this
          · exact h.begun.trans
              (missingBefore_succ_of_completed hsource (hdone.1 hskip.2)).symm
          · simp only [Thread.Place, List.take_add_one, hexp]
            refine ⟨hstatus, fun e he => ?_⟩
            rcases List.mem_append.1 he with he | he
            · exact hended e he
            · obtain rfl := List.mem_singleton.1 he
              exact Or.inl hskip.2
        · rename_i hskip
          obtain rfl := Option.some.inj hm
          have hmissing : exp₀.state ≠ .completed := by
            intro hcompleted
            cases hresume : t.resume with
            | true => exact hskip ⟨hresume, hdone.2 hcompleted⟩
            | false =>
                exact h.fresh hresume exp₀
                  (List.mem_of_getElem? hsource) hcompleted
          refine ⟨h.runId, ?_, ?_, ?_, h.fresh, ?_, hstatus, rfl, ?_⟩
          · simpa [RunData.setExp] using h.length
          · rw [h.length] at hlt
            exact hlt
          · have := congrArg (List.drop 1) h.rest
            simpa [RunData.setExp, List.drop_set_of_lt, List.drop_drop]
              using this
          · dsimp only
            rw [h.begun]
            exact (missingBefore_succ_of_missing hsource hmissing).symm
          · simpa [RunData.setExp, List.take_set_of_le] using hended

theorem Thread.Kept.move {runId : Text} {t t' : Thread} {flag : Bool}
    (h : t.Kept runId) (hidle : t.save = .idle)
    (hcare : t.looks = true → flag = false →
      t.mem.failed ≠ 0 ∨ t.mem.AllCompleted)
    (hm : t.move flag = some t') : t'.Kept runId := by
  have hplace := h.place
  cases hstage : t.stage with
  | head => exact h.move_head hstage hidle hcare hm
  | running i => simp [Thread.move, hstage] at hm
  | after =>
      simp only [Thread.Place, hstage] at hplace
      simp only [Thread.move, hstage] at hm
      split at hm
      · rename_i hflag
        obtain rfl := Option.some.inj hm
        have hlooks : t.looks = true := by simp [Thread.looks, hidle, hstage]
        refine ⟨h.runId, h.length, h.bound, h.rest, h.fresh, h.begun, hplace.1,
          fun hfailed => ?_, nofun⟩
        exact (hcare hlooks (by simpa using hflag)).resolve_left
          (fun hne => hne hfailed)
      · obtain rfl := Option.some.inj hm
        exact ⟨h.runId, h.length, h.bound, h.rest, h.fresh, h.begun, hplace⟩
  | tally =>
      simp only [Thread.Place, hstage] at hplace
      obtain ⟨-, hall, hcut⟩ := hplace
      simp only [Thread.move, hstage] at hm
      obtain rfl := Option.some.inj hm
      refine ⟨h.runId, h.length, h.bound, h.rest, h.fresh, h.begun, ?_, hcut⟩
      dsimp only
      split
      · rename_i hfailed
        exact fun _ => hall hfailed
      · nofun
  | leaving => simp [Thread.move, hstage] at hm

theorem Thread.Kept.outcome {runId : Text} {t t' : Thread}
    {error : Option Text} (h : t.Kept runId)
    (ho : t.outcome error = some t') : t'.Kept runId := by
  have hplace := h.place
  unfold Thread.outcome at ho
  split at ho
  · rename_i i _ hstage
    simp only [Thread.Place, hstage] at hplace
    obtain ⟨hstatus, hpos, hended⟩ := hplace
    cases hexp : t.mem.experiments[i]? with
    | none =>
        rw [hexp] at ho
        cases ho
    | some exp =>
        simp only [hexp] at ho
        obtain rfl := Option.some.inj ho
        have hlt : i < t.mem.experiments.length :=
          (List.getElem?_eq_some_iff.1 hexp).1
        refine ⟨h.runId, ?_, h.bound, ?_, h.fresh, h.begun, hstatus, ?_⟩
        · simpa [RunData.setExp] using h.length
        · have hi : i < t.pos := by omega
          simpa [RunData.setExp, List.drop_set_of_lt hi] using h.rest
        · dsimp only [RunData.setExp]
          rw [hpos, List.take_add_one, List.take_set_of_le le_rfl,
            List.getElem?_set_self hlt]
          intro e he
          rcases List.mem_append.1 he with he | he
          · exact hended e he
          · obtain rfl := List.mem_singleton.1 he
            cases error with
            | none => exact Or.inl rfl
            | some e => exact Or.inr rfl
  · cases ho

end Loop

section Runs

/-- A record that tells the truth about its run. -/
structure RunData.Truthful (runId : Text) (rd : RunData) : Prop where
  runId : rd.runId = runId
  completed : rd.status = .completed → rd.AllCompleted

theorem Thread.Kept.truthful {runId : Text} {t : Thread} (h : t.Kept runId) :
    t.mem.Truthful runId :=
  ⟨h.runId, h.status⟩

theorem RunData.Truthful.cleanup {runId : Text} {rd : RunData}
    (h : rd.Truthful runId) : rd.cleanup.Truthful runId :=
  ⟨h.runId, fun hstatus => RunData.allCompleted_cleanup (h.completed hstatus)⟩

/-- The file is torn during a save only. -/
def Phase.Fits (runId : Text) (disk : RunFile) : Phase → Prop
  | .down | .up none => disk ≠ .torn
  | .cleaning rd => rd.Truthful runId
  | .up (some t) => t.Kept runId ∧ (disk = .torn → t.save = .writing)

structure Server.Inv (runId : Text) (s : Server) : Prop where
  whole : ∀ rd, s.disk = .whole rd → rd.Truthful runId
  fits : s.phase.Fits runId s.disk

theorem inv_init (runId : Text) : Server.init.Inv runId :=
  ⟨nofun, nofun⟩

theorem Server.Inv.go {runId : Text} {s s' : Server} {t : Thread}
    (h : s.Inv runId) (hphase : s.phase = .up (some t))
    (hcare : t.looks = true → s.flag = false →
      t.mem.failed ≠ 0 ∨ t.mem.AllCompleted)
    (hs : s.go t = some s') : s'.Inv runId := by
  have hfits := h.fits
  rw [hphase] at hfits
  obtain ⟨hkept, htorn⟩ := hfits
  unfold Server.go at hs
  cases hsave : t.save with
  | opening =>
      rw [hsave] at hs
      obtain rfl := Option.some.inj hs
      exact ⟨nofun, hkept.saved .writing, fun _ => rfl⟩
  | writing =>
      rw [hsave] at hs
      obtain rfl := Option.some.inj hs
      refine ⟨fun rd hrd => ?_, hkept.saved .idle, nofun⟩
      obtain rfl := RunFile.whole.inj hrd
      exact hkept.truthful
  | idle =>
      have hdisk : s.disk ≠ .torn := fun hd => by
        rw [hsave] at htorn
        cases htorn hd
      rw [hsave] at hs
      dsimp only at hs
      split at hs
      · obtain rfl := Option.some.inj hs
        exact ⟨h.whole, hdisk⟩
      · obtain ⟨t', hm, rfl⟩ := Option.map_eq_some_iff.1 hs
        exact ⟨h.whole, hkept.move hsave hcare hm, fun hd => absurd hd hdisk⟩

theorem Server.Inv.step {runId : Text} {s s' : Server} {act : Act}
    (h : s.Inv runId) (hcare : s.Careful act)
    (hs : s.step runId act = some s') : s'.Inv runId := by
  have hfits := h.fits
  cases act with
  | start n now =>
      simp only [Server.step] at hs
      split at hs
      · rename_i hphase
        rw [hphase] at hfits
        obtain rfl := Option.some.inj hs
        refine ⟨h.whole, .begin rfl rfl ?_ ?_, fun hd => absurd hd hfits⟩
        · simp [Experiment.unstick]
        · intro _ exp hexp
          rw [(List.mem_replicate.1 hexp).2]
          nofun
      · cases hs
  | resume before after now =>
      simp only [Server.step] at hs
      split at hs
      · rename_i rd hphase hdisk
        split at hs
        · obtain rfl := Option.some.inj hs
          refine ⟨h.whole, .begin (h.whole rd hdisk).runId rfl rfl nofun,
            fun hd => ?_⟩
          dsimp only at hd
          rw [hdisk] at hd
          cases hd
        · cases hs
      · cases hs
  | go =>
      simp only [Server.step] at hs
      split at hs
      · rename_i t hphase
        exact h.go hphase (hcare t hphase) hs
      · cases hs
  | outcome error =>
      simp only [Server.step] at hs
      split at hs
      · rename_i t hphase
        rw [hphase] at hfits
        obtain ⟨t', ho, rfl⟩ := Option.map_eq_some_iff.1 hs
        refine ⟨h.whole, hfits.1.outcome ho, fun hd => ?_⟩
        -- an experiment ends outside of saves
        have hsave := hfits.2 hd
        simp [Thread.outcome, hsave] at ho
      · cases hs
  | abort =>
      simp only [Server.step] at hs
      split at hs
      · rename_i t hphase
        rw [hphase] at hfits
        obtain rfl := Option.some.inj hs
        exact ⟨h.whole, fun hd => hcare t hphase (hfits.2 hd)⟩
      · cases hs
  | die =>
      simp only [Server.step] at hs
      obtain rfl := Option.some.inj hs
      refine ⟨h.whole, fun hd => ?_⟩
      cases hphase : s.phase with
      | down =>
          rw [hphase] at hfits
          exact hfits hd
      | cleaning rd => exact hcare.2 rd hphase
      | up thread =>
          rw [hphase] at hfits
          cases thread with
          | none => exact hfits hd
          | some t => exact hcare.1 t hphase (hfits.2 hd)
  | boot =>
      simp only [Server.step] at hs
      split at hs
      · rename_i rd hphase hdisk
        split at hs
        · obtain rfl := Option.some.inj hs
          exact ⟨nofun, (h.whole rd hdisk).cleanup⟩
        · obtain rfl := Option.some.inj hs
          refine ⟨h.whole, fun hd => ?_⟩
          dsimp only at hd
          rw [hdisk] at hd
          cases hd
      · rename_i hphase _
        rw [hphase] at hfits
        obtain rfl := Option.some.inj hs
        exact ⟨h.whole, hfits⟩
      · cases hs
  | cleaned =>
      simp only [Server.step] at hs
      split at hs
      · rename_i rd hphase
        rw [hphase] at hfits
        obtain rfl := Option.some.inj hs
        refine ⟨fun rd' hrd' => ?_, nofun⟩
        obtain rfl := RunFile.whole.inj hrd'
        exact hfits
      · cases hs
  | flag b =>
      simp only [Server.step] at hs
      obtain rfl := Option.some.inj hs
      exact ⟨h.whole, hfits⟩

theorem Server.Inv.sound {runId : Text} (hid : runId ≠ []) {s : Server}
    (h : s.Inv runId) : s.Sound where
  completed rd hrd := (h.whole rd hrd).completed
  offered hphase habsent := by
    have hfits := h.fits
    rw [hphase] at hfits
    cases hdisk : s.disk with
    | absent => exact absurd hdisk habsent
    | torn => exact absurd hdisk hfits
    | whole rd =>
        have htrue := h.whole rd hdisk
        by_cases hstatus : rd.status = .completed
        · exact Or.inl ⟨rd, rfl, htrue.completed hstatus⟩
        · refine Or.inr (offered_of_resumable ?_)
          have hne : rd.runId.isEmpty = false := by
            rw [htrue.runId]
            cases runId with
            | nil => exact absurd rfl hid
            | cons c rest => rfl
          cases hst : rd.status with
          | completed => exact absurd hst hstatus
          | running => simp [RunData.resumable, hst, hne]
          | partialRun => simp [RunData.resumable, hst, hne]
  begun t hphase := by
    have hfits := h.fits
    rw [hphase] at hfits
    refine ⟨hfits.1.begun, fun hend hcut => ?_⟩
    have hplace := hfits.1.place
    unfold Thread.Place at hplace
    cases hstage : t.stage with
    | head => simp [hstage, Stage.isEnd] at hend
    | running i => simp [hstage, Stage.isEnd] at hend
    | after => simp [hstage, Stage.isEnd] at hend
    | tally =>
        rw [hstage] at hplace
        exact hplace.2.2 hcut
    | leaving =>
        rw [hstage] at hplace
        exact hplace.2 hcut

/-- Over every run in which no save is cut short, and which breaks off only
after a failure or with everything done, the record is sound. -/
theorem sound_of_careful {runId : Text} (hid : runId ≠ []) {s : Server}
    (h : Reach (Server.step runId) Server.Careful Server.init s) : s.Sound :=
  (h.inv (inv_init runId)
    (fun _ _ _ hinv hcare hs => hinv.step hcare hs)).sound hid

theorem Server.careful_go {s : Server} (hflag : s.flag = true) :
    s.Careful .go := by
  intro _ _ _ hcleared
  rw [hflag] at hcleared
  cases hcleared

def runOne : Text :=
  "20250101T120000".toList

def noData : Text :=
  "Test produced no data".toList

/-- The only experiment of the run fails. -/
def failedRun : RunFile :=
  .whole ⟨runOne, runOne, .partialRun, [⟨.failed, some noData⟩]⟩

/-- A run whose only experiment fails is there to be resumed. -/
theorem sound_of_careful_failed : failedRun.Offered := by
  have hstart : Reach (Server.step runOne) Server.Careful Server.init
      Server.init := .refl
  have hrunning := hstart.step (a := Act.start 1 runOne) trivial rfl
    |>.step (a := Act.go) (Server.careful_go rfl) rfl
    |>.step (a := Act.go) (Server.careful_go rfl) rfl
    |>.step (a := Act.go) (Server.careful_go rfl) rfl
    |>.step (a := Act.go) (Server.careful_go rfl) rfl
    |>.step (a := Act.go) (Server.careful_go rfl) rfl
  have hended : Reach (Server.step runOne) Server.Careful Server.init
      ⟨failedRun, false, .up none⟩ :=
    hrunning.step (a := Act.outcome (some noData)) trivial rfl
    |>.step (a := Act.go) (Server.careful_go rfl) rfl
    |>.step (a := Act.go) (Server.careful_go rfl) rfl
    |>.step (a := Act.go) (Server.careful_go rfl) rfl
    |>.step (a := Act.go) (Server.careful_go rfl) rfl
    |>.step (a := Act.go) (Server.careful_go rfl) rfl
    |>.step (a := Act.go) (Server.careful_go rfl) rfl
    |>.step (a := Act.go) (Server.careful_go rfl) rfl
    |>.step (a := Act.go) (Server.careful_go rfl) rfl
  have hsound := sound_of_careful (by decide) hended
  refine (hsound.offered rfl nofun).resolve_left ?_
  rintro ⟨rd, hrd, hall⟩
  obtain rfl := RunFile.whole.inj hrd
  have hfailed := hall ⟨.failed, some noData⟩ List.mem_cons_self
  cases hfailed

/-- A run that is stopped in the first of its two experiments has completed. -/
theorem not_sound_stopped :
    ¬ ∀ (runId : Text), runId ≠ [] → ∀ s,
      ReachAny (Server.step runId) Server.init s → s.Sound := by
  intro h
  cases hrun : exec (Server.step runOne) Server.init
      [.start 2 runOne, .go, .go, .go, .go, .go, .flag false, .outcome none,
        .go, .go, .go, .go, .go, .go, .go] with
  | none => cases hrun
  | some s =>
      have hsound := h runOne (by decide) s (Reach.exec .refl hrun)
      obtain rfl := Option.some.inj hrun
      have hall := hsound.completed _ rfl rfl
      have hpending := hall ⟨.pending, none⟩
        (List.mem_cons_of_mem _ List.mem_cons_self)
      cases hpending

end Runs

end PlanRun
end Probe
end Kelt
