import Kelt.Lib.Runs

/-!
# The threads that execute plans

A plan is executed by a thread of its own, or by the thread of the run queue,
one plan after the other. Every start asks for the events `_plan_running` and
`_queue_running`, which the threads set when they begin and clear when they
leave, and which a stop clears: that a thread has been stopped, or is between
two plans, looks like no thread at all.

A run is stopped where its thread looks at the event and finds it cleared. So
the stop is lost when it comes before the thread sets the event, and late
between the look and the experiment (`sound_of_spaced`).
-/

namespace Kelt
namespace Probe
namespace PlanThreads

section Threads

/-- A row of `_run_queue`, which stands for itself. -/
structure Item where
  ref : Nat
  repeats : Int
deriving DecidableEq

/-- The two events, the queue and its delay, and the `_completed` of the rows. -/
structure Shared where
  planRunning : Bool
  queueRunning : Bool
  queue : List Item
  delay : Nat
  completed : Nat → Int
  nextRef : Nat

/-- In `_plan_execution_thread`, with the experiments that are left: before the
event is set, before the loop, at its head, between the look at the event and
the experiment, in it, after it, in the pause, in the `finally`. -/
inductive RunPlace where
  | enter
  | load
  | head (left : Nat)
  | tested (left : Nat)
  | running (left : Nat)
  | after (left : Nat)
  | pause (left : Nat)
  | fin

/-- A thread executes one plan, or is somewhere in `_queue_execution_thread`. -/
inductive Place where
  | plan (p : RunPlace)
  | qEnter
  | qHead
  | qTake
  | qGo (item : Item)
  | qPlan (item : Item) (completed : Int) (p : RunPlace)
  | qAfter (item : Item) (completed : Int)
  | qCheck
  | qDelay (left : Nat)
  | qFin
  | ended

/-- `runs` counts the plans that the thread has been on. -/
structure Thread where
  place : Place
  resume : Bool
  runs : Nat

/-- How a step goes: on, with the plan read, past an experiment that a resumed
run has completed, out with an exception, or to the next plan of the queue. -/
inductive Input where
  | go
  | loaded (n : Nat)
  | skip
  | raised
  | pauseFor (seconds : Nat)

/-- A step before the `finally`, and the event after it. -/
def RunPlace.move (planRunning resume : Bool) :
    RunPlace → Input → Option (Bool × RunPlace)
  | .enter, .go => some (true, .load)
  | .load, .loaded n => some (planRunning, .head n)
  | .head 0, .go => some (planRunning, .fin)
  | .head (left + 1), .go =>
      some (planRunning, if planRunning then .tested left else .fin)
  | .tested left, .go => some (planRunning, .running left)
  | .tested left, .skip =>
      if resume then some (planRunning, .head left) else none
  | .running left, .go => some (planRunning, .after left)
  | .after left, .go =>
      some (planRunning, if planRunning then .pause left else .fin)
  | .pause left, .go => some (planRunning, .head left)
  | .enter, .raised => none
  | .fin, _ => none
  | _, .raised => some (planRunning, .fin)
  | _, _ => none

/-- `if _run_queue and _run_queue[0] is item: _run_queue.pop(0)` -/
def Shared.pop (sh : Shared) (item : Item) : Shared :=
  if sh.queue.head? = some item then { sh with queue := sh.queue.tail } else sh

def Shared.complete (sh : Shared) (item : Item) (n : Int) : Shared :=
  { sh with completed := Function.update sh.completed item.ref n }

def Thread.move (sh : Shared) (t : Thread) (input : Input) :
    Option (Shared × Thread) :=
  match t.place, input with
  | .plan .fin, .go =>
      some ({ sh with planRunning := false }, { t with place := .ended })
  | .plan p, input =>
      (p.move sh.planRunning t.resume input).map fun (planRunning, p) =>
        ({ sh with planRunning := planRunning }, { t with place := .plan p })
  | .qEnter, .go =>
      some ({ sh with queueRunning := true }, { t with place := .qHead })
  | .qHead, .go =>
      some (sh, { t with place := if sh.queueRunning then .qTake else .qFin })
  | .qTake, .go =>
      match sh.queue with
      | [] => some (sh, { t with place := .qFin })
      | item :: _ => some (sh, { t with place := .qGo item })
  | .qGo item, .go =>
      let completed := sh.completed item.ref
      if item.repeats ≤ completed then
        some (sh.pop item, { t with place := .qHead })
      else
        some (sh, { t with
          place := .qPlan item completed .enter
          runs := t.runs + 1 })
  | .qPlan item completed .fin, .go =>
      some ({ sh with planRunning := false },
        { t with place := .qAfter item completed })
  | .qPlan item completed p, input =>
      (p.move sh.planRunning t.resume input).map fun (planRunning, p) =>
        ({ sh with planRunning := planRunning },
          { t with place := .qPlan item completed p })
  | .qAfter item completed, .go =>
      let sh := sh.complete item (completed + 1)
      some (if item.repeats ≤ completed + 1 then sh.pop item else sh,
        { t with place := .qCheck })
  | .qCheck, .pauseFor seconds =>
      let delay := if sh.queue.isEmpty then 0 else max seconds sh.delay
      some (sh, { t with
        place := if sh.queueRunning then .qDelay delay else .qFin })
  | .qDelay 0, .go => some (sh, { t with place := .qHead })
  | .qDelay (left + 1), .go =>
      some (sh, { t with
        place := if sh.queueRunning then .qDelay left else .qHead })
  | .qFin, .go =>
      some ({ sh with queueRunning := false }, { t with place := .ended })
  | .qEnter, .raised => none
  | .qFin, .raised => none
  | .ended, _ => none
  | _, .raised => some (sh, { t with place := .qFin })
  | _, _ => none

/-- The place in the plan that the thread executes. -/
def Thread.run? (t : Thread) : Option RunPlace :=
  match t.place with
  | .plan p => some p
  | .qPlan _ _ p => some p
  | _ => none

/-- The thread can still be in an experiment. -/
def Thread.active (t : Thread) : Bool :=
  match t.place with
  | .plan .fin | .qFin | .ended => false
  | _ => true

def RunPlace.isEnter : RunPlace → Bool
  | .enter => true
  | _ => false

def RunPlace.isTested : RunPlace → Bool
  | .tested _ => true
  | _ => false

def RunPlace.isRunning : RunPlace → Bool
  | .running _ => true
  | _ => false

def Thread.isRunning (t : Thread) : Bool :=
  t.run?.any RunPlace.isRunning

/-- The thread has seen that it is to go on, and is about to begin. -/
def Thread.isTested (t : Thread) : Bool :=
  t.run?.any RunPlace.isTested

/-- The thread is on a plan and is about to set its event. -/
def Thread.isEntering (t : Thread) : Bool :=
  t.run?.any RunPlace.isEnter

def Thread.isQEntering (t : Thread) : Bool :=
  match t.place with
  | .qEnter => true
  | _ => false

/-- The thread of the queue has seen that it is to go on, and is about to call
the next plan. -/
def Thread.isBetween (t : Thread) : Bool :=
  match t.place with
  | .qTake | .qGo _ => true
  | _ => false

def Thread.isQueue (t : Thread) : Bool :=
  match t.place with
  | .plan _ | .ended => false
  | _ => true

end Threads

section Requests

/-- Where the handler of a request is. A stop carries the runs and the threads
of the queue that it finds; the last step of its handler is `stopping`. -/
inductive Req where
  | idle
  | startPlan (resume : Bool)
  | spawnPlan (resume : Bool)
  | startQueue
  | testQueue
  | testPlan
  | spawnQueue
  | stopPlan
  | stopQueue
  | stopQueuePlan (queues : List Nat)
  | clearQueue
  | clearTestQueue
  | clearQueueFlag
  | clearTestPlan (queues : List Nat)
  | clearPlanFlag (queues : List Nat)
  | stopping (runs : List (Nat × Nat)) (queues : List Nat) (wipe : Bool)
  | setQueue (items : List (Int × Int)) (delay : Nat)

/-- The state with the handlers under way. `stoppedRuns` and `stoppedQueues` are
those of the stops that have been handled, and `late` the threads that have
begun an experiment of one of them since. -/
structure Sys where
  sh : Shared
  threads : List Thread
  reqs : Nat → Req
  stoppedRuns : List (Nat × Nat)
  stoppedQueues : List Nat
  late : List Nat

inductive Kind where
  | startPlan (resume : Bool)
  | startQueue
  | stopPlan
  | stopQueue
  | clearQueue
  | setQueue (items : List (Int × Int)) (delay : Nat)

def Kind.first : Kind → Req
  | .startPlan resume => .startPlan resume
  | .startQueue => .startQueue
  | .stopPlan => .stopPlan
  | .stopQueue => .stopQueue
  | .clearQueue => .clearQueue
  | .setQueue items delay => .setQueue items delay

inductive Act where
  | request (j : Nat) (kind : Kind)
  | handle (j : Nat)
  | thread (i : Nat) (input : Input)

/-- The runs that are under way, each with its thread. -/
def Sys.runs (s : Sys) : List (Nat × Nat) :=
  (List.range s.threads.length).filterMap fun i =>
    s.threads[i]?.bind fun t => t.run?.map fun _ => (i, t.runs)

def Sys.queues (s : Sys) : List Nat :=
  (List.range s.threads.length).filter fun i => s.threads[i]?.any Thread.isQueue

def Sys.at (s : Sys) (j : Nat) (req : Req) : Sys :=
  { s with reqs := Function.update s.reqs j req }

def Sys.spawn (s : Sys) (t : Thread) : Sys :=
  { s with threads := s.threads ++ [t] }

/-- `POST /api/queue`: the rows of a request are new. -/
def Shared.setQueue (sh : Shared) (items : List (Int × Int)) (delay : Nat) :
    Shared :=
  { sh with
    queue := items.mapIdx fun k item => ⟨sh.nextRef + k, item.1⟩
    completed := fun ref =>
      match items[ref - sh.nextRef]? with
      | some item => if sh.nextRef ≤ ref then item.2 else sh.completed ref
      | none => sh.completed ref
    nextRef := sh.nextRef + items.length
    delay := delay }

def Sys.handle (s : Sys) (j : Nat) : Option Sys :=
  match s.reqs j with
  | .idle => none
  | .startPlan resume =>
      some (s.at j (if s.sh.planRunning then .idle else .spawnPlan resume))
  | .spawnPlan resume =>
      some ((s.spawn ⟨.plan .enter, resume, 0⟩).at j .idle)
  | .startQueue =>
      some (s.at j (if s.sh.queue.isEmpty then .idle else .testQueue))
  | .testQueue =>
      some (s.at j (if s.sh.queueRunning then .idle else .testPlan))
  | .testPlan =>
      some (s.at j (if s.sh.planRunning then .idle else .spawnQueue))
  | .spawnQueue => some ((s.spawn ⟨.qEnter, false, 0⟩).at j .idle)
  | .stopPlan =>
      some ({ s with sh := { s.sh with planRunning := false } }.at j
        (.stopping s.runs [] false))
  | .stopQueue =>
      some ({ s with sh := { s.sh with queueRunning := false } }.at j
        (.stopQueuePlan s.queues))
  | .stopQueuePlan queues =>
      some ({ s with sh := { s.sh with planRunning := false } }.at j
        (.stopping s.runs queues true))
  | .clearQueue =>
      some ({ s with sh := { s.sh with queue := [] } }.at j .clearTestQueue)
  | .clearTestQueue =>
      some (s.at j (if s.sh.queueRunning then .clearQueueFlag else .idle))
  | .clearQueueFlag =>
      some ({ s with sh := { s.sh with queueRunning := false } }.at j
        (.clearTestPlan s.queues))
  | .clearTestPlan queues =>
      some (s.at j (if s.sh.planRunning then .clearPlanFlag queues
        else .stopping [] queues false))
  | .clearPlanFlag queues =>
      some ({ s with sh := { s.sh with planRunning := false } }.at j
        (.stopping s.runs queues false))
  | .stopping runs queues wipe =>
      some ({ s with
        sh := if wipe then { s.sh with queue := [] } else s.sh
        stoppedRuns := runs ++ s.stoppedRuns
        stoppedQueues := queues ++ s.stoppedQueues }.at j .idle)
  | .setQueue items delay =>
      some ({ s with sh := s.sh.setQueue items delay }.at j .idle)

/-- The thread begins an experiment of a run that has been stopped. -/
def Sys.isLate (s : Sys) (i : Nat) (t t' : Thread) : Bool :=
  t'.isRunning && !t.isRunning &&
    (s.stoppedRuns.contains (i, t.runs) || s.stoppedQueues.contains i)

def Sys.step (s : Sys) : Act → Option Sys
  | .request j kind =>
      match s.reqs j with
      | .idle => some (s.at j kind.first)
      | _ => none
  | .handle j => s.handle j
  | .thread i input =>
      match s.threads[i]? with
      | none => none
      | some t =>
          (t.move s.sh input).map fun (sh, t') =>
            { s with
              sh := sh
              threads := s.threads.set i t'
              late := if s.isLate i t t' then i :: s.late else s.late }

def Sys.init : Sys :=
  ⟨⟨false, false, [], 5, fun _ => 0, 0⟩, [], fun _ => .idle, [], [], []⟩

/-- No two threads are in an experiment, and none has begun one of a run that
had been stopped. -/
structure Sys.Sound (s : Sys) : Prop where
  exclusive : ∀ (i j : Nat) (t t' : Thread), s.threads[i]? = some t →
    s.threads[j]? = some t' → t.isRunning = true → t'.isRunning = true → i = j
  prompt : s.late = []

/-- A thread is spawned only when no other can still be in an experiment. No
stop comes between the spawn and the set of the event; none of the queue between
the look of its thread at the event and the set of the event of the plan; and
none has been handled between the look of a run at its event and the experiment
that it then begins. -/
def Sys.Spaced (s : Sys) : Act → Prop
  | .handle j =>
      match s.reqs j with
      | .spawnPlan _ | .spawnQueue => ∀ t ∈ s.threads, t.active = false
      | .stopPlan => ∀ t ∈ s.threads, t.isEntering = false
      | .stopQueue | .clearQueueFlag => ∀ t ∈ s.threads, t.isQEntering = false
      | .stopQueuePlan queues | .clearPlanFlag queues =>
          (∀ t ∈ s.threads, t.isEntering = false) ∧
            ∀ i ∈ queues, ∀ t, s.threads[i]? = some t → t.isBetween = false
      | .clearTestPlan queues => s.sh.planRunning = false →
          ∀ i ∈ queues, ∀ t, s.threads[i]? = some t →
            t.isEntering = false ∧ t.isBetween = false
      | .stopping runs queues _ =>
          (∀ run ∈ runs, ∀ t, s.threads[run.1]? = some t → t.runs = run.2 →
            t.isTested = false) ∧
            ∀ i ∈ queues, ∀ t, s.threads[i]? = some t → t.isTested = false
      | _ => True
  | _ => True

end Requests

section Moves

/-- In a plan: the event is set when the thread enters, and an experiment begins
only after a look that finds it set. -/
theorem RunPlace.move_cases {planRunning resume planRunning' : Bool}
    {p p' : RunPlace} {input : Input}
    (h : p.move planRunning resume input = some (planRunning', p')) :
    (p.isEnter = true ∧ p' = .load) ∨
      (p.isEnter = false ∧ p'.isEnter = false ∧ planRunning' = planRunning ∧
        (p'.isTested = true → planRunning = true) ∧
        (p'.isRunning = true → p.isTested = true)) := by
  cases planRunning <;> cases resume <;> unfold RunPlace.move at h <;>
    split at h <;> cases h <;>
    simp_all [RunPlace.isEnter, RunPlace.isTested, RunPlace.isRunning]

/-- The kinds of steps of a thread: in a plan; out of one, or in the queue; the
event of the queue is set; the thread goes for a row once it has seen that it is
to go on; it calls the plan of the row. -/
inductive Thread.Moves (sh sh' : Shared) (t t' : Thread) : Prop
  | inPlan (p p' : RunPlace) (hp : t.run? = some p) (hp' : t'.run? = some p')
      (hmove : (p.isEnter = true ∧ p' = .load) ∨
        (p.isEnter = false ∧ p'.isEnter = false ∧
          sh'.planRunning = sh.planRunning ∧
          (p'.isTested = true → sh.planRunning = true) ∧
          (p'.isRunning = true → p.isTested = true)))
      (hqueue : sh'.queueRunning = sh.queueRunning) (hruns : t'.runs = t.runs)
      (hset : t'.isQEntering = false) (hbetween : t'.isBetween = false)
  | leaves (hp' : t'.run? = none)
      (hplan : sh.planRunning = false → sh'.planRunning = false)
      (hqueue : sh.queueRunning = false → sh'.queueRunning = false)
      (hruns : t'.runs = t.runs)
      (hset : t'.isQEntering = false) (hbetween : t'.isBetween = false)
  | sets (ht : t.isQEntering = true) (hp' : t'.run? = none)
      (hplan : sh'.planRunning = sh.planRunning) (hruns : t'.runs = t.runs)
  | takes (ht : sh.queueRunning = true ∨ t.isBetween = true)
      (hp' : t'.run? = none) (hset : t'.isQEntering = false)
      (hplan : sh'.planRunning = sh.planRunning)
      (hqueue : sh'.queueRunning = sh.queueRunning) (hruns : t'.runs = t.runs)
  | calls (ht : t.isBetween = true) (hp' : t'.run? = some .enter)
      (hset : t'.isQEntering = false)
      (hplan : sh'.planRunning = sh.planRunning)
      (hqueue : sh'.queueRunning = sh.queueRunning)
      (hruns : t'.runs = t.runs + 1)

@[simp] theorem Shared.pop_planRunning (sh : Shared) (item : Item) :
    (sh.pop item).planRunning = sh.planRunning := by
  unfold Shared.pop
  split <;> rfl

@[simp] theorem Shared.pop_queueRunning (sh : Shared) (item : Item) :
    (sh.pop item).queueRunning = sh.queueRunning := by
  unfold Shared.pop
  split <;> rfl

theorem Thread.moves_of_move {sh sh' : Shared} {t t' : Thread} {input : Input}
    (h : t.move sh input = some (sh', t')) : t.Moves sh sh' t' := by
  unfold Thread.move at h
  split at h
  · cases h
    exact .leaves rfl (fun _ => rfl) id rfl rfl rfl
  · rename_i hplace _
    obtain ⟨⟨f, p'⟩, hm, heq⟩ := Option.map_eq_some_iff.1 h
    cases heq
    exact .inPlan _ p' (by rw [Thread.run?, hplace]) rfl
      (RunPlace.move_cases hm) rfl rfl rfl rfl
  · rename_i hplace
    cases h
    exact .sets (by rw [Thread.isQEntering, hplace]) rfl rfl rfl
  · cases hflag : sh.queueRunning with
    | false =>
        simp only [hflag] at h
        cases h
        exact .leaves rfl id id rfl rfl rfl
    | true =>
        simp only [hflag] at h
        cases h
        exact .takes (.inl hflag) rfl rfl rfl rfl rfl
  · rename_i hplace
    split at h
    · cases h
      exact .leaves rfl id id rfl rfl rfl
    · cases h
      exact .takes (.inr (by rw [Thread.isBetween, hplace])) rfl rfl rfl rfl rfl
  · rename_i item hplace
    dsimp only at h
    split at h
    · cases h
      exact .leaves rfl (by simp) (by simp) rfl rfl rfl
    · cases h
      exact .calls (by rw [Thread.isBetween, hplace]) rfl rfl rfl rfl rfl
  · cases h
    exact .leaves rfl (fun _ => rfl) id rfl rfl rfl
  · rename_i hplace _
    obtain ⟨⟨f, p'⟩, hm, heq⟩ := Option.map_eq_some_iff.1 h
    cases heq
    exact .inPlan _ p' (by rw [Thread.run?, hplace]) rfl
      (RunPlace.move_cases hm) rfl rfl rfl rfl
  · rename_i item completed hplace
    cases h
    refine .leaves rfl ?_ ?_ rfl rfl rfl
    · split <;> simp [Shared.complete]
    · split <;> simp [Shared.complete]
  · cases h
    split <;> exact .leaves rfl id id rfl rfl rfl
  · cases h
    exact .leaves rfl id id rfl rfl rfl
  · cases h
    split <;> exact .leaves rfl id id rfl rfl rfl
  · cases h
    exact .leaves rfl id (fun _ => rfl) rfl rfl rfl
  · cases h
  · cases h
  · cases h
  · cases h
    exact .leaves rfl id id rfl rfl rfl
  · cases h

/-- A thread that cannot be in an experiment any more has one step left. -/
theorem Thread.active_of_move {sh sh' : Shared} {t t' : Thread} {input : Input}
    (h : t.move sh input = some (sh', t')) (ht' : t'.active = true) :
    t.active = true := by
  cases hactive : t.active with
  | true => rfl
  | false =>
      unfold Thread.active at hactive
      split at hactive
      · rename_i hplace
        cases input <;> simp [Thread.move, RunPlace.move, hplace] at h
        obtain ⟨-, rfl⟩ := h
        cases ht'
      · rename_i hplace
        cases input <;> simp [Thread.move, hplace] at h
        obtain ⟨-, rfl⟩ := h
        cases ht'
      · rename_i hplace
        simp [Thread.move, hplace] at h
      · cases hactive

/-- A thread on a plan is active until the `finally`. -/
theorem Thread.active_of_any {t : Thread} {q : RunPlace → Bool}
    (hfin : q .fin = false) (h : t.run?.any q = true) : t.active = true := by
  obtain ⟨place, resume, runs⟩ := t
  cases place with
  | plan p =>
      cases p with
      | fin => exact absurd (hfin.symm.trans h) nofun
      | enter | load => rfl
      | head | tested | running | after | pause => rfl
  | qPlan item completed p => rfl
  | qEnter | qHead | qTake | qGo | qAfter | qCheck | qDelay | qFin | ended =>
      cases h

theorem Thread.active_of_isQEntering {t : Thread} (h : t.isQEntering = true) :
    t.active = true := by
  unfold Thread.isQEntering at h
  unfold Thread.active
  split at h <;> simp_all

/-- No event goes from cleared to set. -/
def Shared.Down (sh sh' : Shared) : Prop :=
  (sh.planRunning = false → sh'.planRunning = false) ∧
    (sh.queueRunning = false → sh'.queueRunning = false)

/-- Only threads that can still be in an experiment set an event. -/
theorem Thread.Moves.down {sh sh' : Shared} {t t' : Thread}
    (h : t.Moves sh sh' t') (ht : t.active = false) : sh.Down sh' := by
  cases h with
  | inPlan p p' hp hp' hmove hqueue =>
      refine ⟨fun hplan => ?_, fun hq => hqueue.trans hq⟩
      rcases hmove with ⟨henter, -⟩ | ⟨-, -, hsame, -⟩
      · have hentering : t.isEntering = true := by
          simp [Thread.isEntering, hp, henter]
        rw [Thread.active_of_any rfl hentering] at ht
        cases ht
      · exact hsame.trans hplan
  | leaves _ hplan hqueue => exact ⟨hplan, hqueue⟩
  | sets hset =>
      rw [Thread.active_of_isQEntering hset] at ht
      cases ht
  | takes _ _ _ hplan hqueue => exact ⟨hplan.trans, hqueue.trans⟩
  | calls _ _ _ hplan hqueue => exact ⟨hplan.trans, hqueue.trans⟩

/-- The step that begins an experiment follows the look at the event. -/
theorem Thread.Moves.isTested {sh sh' : Shared} {t t' : Thread}
    (h : t.Moves sh sh' t') (ht' : t'.isRunning = true) :
    t.isTested = true := by
  unfold Thread.isRunning at ht'
  cases h with
  | inPlan p p' hp hp' hmove =>
      rw [hp'] at ht'
      rcases hmove with ⟨-, rfl⟩ | ⟨-, -, -, -, htested⟩
      · cases ht'
      · simp [Thread.isTested, hp, htested ht']
  | leaves hp' =>
      rw [hp'] at ht'
      cases ht'
  | sets _ hp' =>
      rw [hp'] at ht'
      cases ht'
  | takes _ hp' =>
      rw [hp'] at ht'
      cases ht'
  | calls _ hp' =>
      rw [hp'] at ht'
      cases ht'

end Moves

section Stopped

/-- What keeps holding of a thread that is alone in setting the events. -/
structure Steady (fact : Shared → Thread → Prop) : Prop where
  own : ∀ sh sh' t t', t.Moves sh sh' t' → fact sh t → fact sh' t'
  down : ∀ sh sh' t, sh.Down sh' → fact sh t → fact sh' t

/-- The event of the plan is cleared, and the thread does not set it. -/
def PlanOff (sh : Shared) (t : Thread) : Prop :=
  t.run?.isSome = true → sh.planRunning = false ∧ t.isEntering = false

def QueueOff (sh : Shared) (t : Thread) : Prop :=
  sh.queueRunning = false ∧ t.isQEntering = false

/-- The thread does not come to another plan, and its plan is off. -/
def QueueHalted (sh : Shared) (t : Thread) : Prop :=
  QueueOff sh t ∧ t.isBetween = false ∧ PlanOff sh t

def QueueStopped (sh : Shared) (t : Thread) : Prop :=
  QueueHalted sh t ∧ t.isTested = false

/-- The `k`-th run of the thread is off, or over. -/
def RunHalted (k : Nat) (sh : Shared) (t : Thread) : Prop :=
  k ≤ t.runs ∧ (t.runs = k → PlanOff sh t)

def RunStopped (k : Nat) (sh : Shared) (t : Thread) : Prop :=
  k ≤ t.runs ∧ (t.runs = k → PlanOff sh t ∧ t.isTested = false)

theorem PlanOff.down {sh sh' : Shared} {t : Thread} (h : PlanOff sh t)
    (hdown : sh.Down sh') : PlanOff sh' t :=
  fun hsome => ⟨hdown.1 (h hsome).1, (h hsome).2⟩

theorem planOff_of_none {sh : Shared} {t : Thread} (h : t.run? = none) :
    PlanOff sh t ∧ t.isTested = false := by
  simp [PlanOff, Thread.isTested, h]

/-- A plan that is off stays so, and comes to no further experiment. -/
theorem PlanOff.own {sh sh' : Shared} {t t' : Thread} (h : PlanOff sh t)
    (hm : t.Moves sh sh' t') :
    PlanOff sh' t' ∧ t'.isTested = false ∨
      (t.isBetween = true ∧ t'.runs = t.runs + 1) := by
  cases hm with
  | inPlan p p' hp hp' hmove =>
      obtain ⟨hplan, henter⟩ := h (by simp [hp])
      rcases hmove with ⟨hset, -⟩ | ⟨-, hset, hsame, htested, -⟩
      · simp [Thread.isEntering, hp, hset] at henter
      · refine Or.inl ⟨fun _ => ⟨hsame.trans hplan, ?_⟩, ?_⟩
        · simp [Thread.isEntering, hp', hset]
        · rw [Thread.isTested, hp', Option.any_some, Bool.eq_false_iff]
          intro ht
          rw [htested ht] at hplan
          cases hplan
  | leaves hp' => exact Or.inl (planOff_of_none hp')
  | sets _ hp' => exact Or.inl (planOff_of_none hp')
  | takes _ hp' => exact Or.inl (planOff_of_none hp')
  | calls ht _ _ _ _ hruns => exact Or.inr ⟨ht, hruns⟩

theorem Thread.Moves.runs_le {sh sh' : Shared} {t t' : Thread}
    (h : t.Moves sh sh' t') : t.runs ≤ t'.runs := by
  cases h <;> omega

theorem QueueOff.own {sh sh' : Shared} {t t' : Thread} (h : QueueOff sh t)
    (hm : t.Moves sh sh' t') : QueueOff sh' t' := by
  obtain ⟨hqueue, hset⟩ := h
  cases hm with
  | inPlan _ _ _ _ _ hq _ hset' => exact ⟨hq.trans hqueue, hset'⟩
  | leaves _ _ hq _ hset' => exact ⟨hq hqueue, hset'⟩
  | sets ht =>
      rw [hset] at ht
      cases ht
  | takes _ _ hset' _ hq => exact ⟨hq.trans hqueue, hset'⟩
  | calls _ _ hset' _ hq => exact ⟨hq.trans hqueue, hset'⟩

theorem steady_queueOff : Steady QueueOff where
  own _ _ _ _ hm h := h.own hm
  down _ _ _ hdown h := ⟨hdown.2 h.1, h.2⟩

theorem QueueHalted.own {sh sh' : Shared} {t t' : Thread}
    (h : QueueHalted sh t) (hm : t.Moves sh sh' t') : QueueStopped sh' t' := by
  obtain ⟨hoff, hbetween, hplan⟩ := h
  have hplan' := (hplan.own hm).resolve_right fun hcalls => by
    rw [hbetween] at hcalls
    cases hcalls.1
  refine ⟨⟨hoff.own hm, ?_, hplan'.1⟩, hplan'.2⟩
  cases hm with
  | inPlan _ _ _ _ _ _ _ _ hbetween' => exact hbetween'
  | leaves _ _ _ _ _ hbetween' => exact hbetween'
  | sets ht =>
      rw [hoff.2] at ht
      cases ht
  | takes ht =>
      rcases ht with ht | ht
      · rw [hoff.1] at ht
        cases ht
      · rw [hbetween] at ht
        cases ht
  | calls ht =>
      rw [hbetween] at ht
      cases ht

theorem QueueHalted.down {sh sh' : Shared} {t : Thread}
    (h : QueueHalted sh t) (hdown : sh.Down sh') : QueueHalted sh' t :=
  ⟨⟨hdown.2 h.1.1, h.1.2⟩, h.2.1, h.2.2.down hdown⟩

theorem steady_queueHalted : Steady QueueHalted where
  own _ _ _ _ hm h := (h.own hm).1
  down _ _ _ hdown h := h.down hdown

theorem steady_queueStopped : Steady QueueStopped where
  own _ _ _ _ hm h := h.1.own hm
  down _ _ _ hdown h := ⟨h.1.down hdown, h.2⟩

theorem RunHalted.own {k : Nat} {sh sh' : Shared} {t t' : Thread}
    (h : RunHalted k sh t) (hm : t.Moves sh sh' t') : RunStopped k sh' t' := by
  have hle := hm.runs_le
  refine ⟨h.1.trans hle, fun hk => ?_⟩
  have hruns : t.runs = k := le_antisymm (hle.trans hk.le) h.1
  refine ((h.2 hruns).own hm).resolve_right fun hcalls => ?_
  have := hcalls.2
  omega

theorem steady_runHalted (k : Nat) : Steady (RunHalted k) where
  own _ _ _ _ hm h := ⟨(h.own hm).1, fun hk => ((h.own hm).2 hk).1⟩
  down _ _ _ hdown h := ⟨h.1, fun hk => (h.2 hk).down hdown⟩

theorem steady_runStopped (k : Nat) : Steady (RunStopped k) where
  own _ _ _ _ hm h := RunHalted.own ⟨h.1, fun hk => (h.2 hk).1⟩ hm
  down _ _ _ hdown h := ⟨h.1, fun hk => ⟨(h.2 hk).1.down hdown, (h.2 hk).2⟩⟩

end Stopped

section Runs

/-- At most one thread can be in an experiment. -/
def Sys.Alone (s : Sys) : Prop :=
  ∀ (i j : Nat) (t t' : Thread), s.threads[i]? = some t →
    s.threads[j]? = some t' → t.active = true → t'.active = true → i = j

/-- The fact holds of the thread `i` as long as that can be in an experiment. -/
def Sys.Held (s : Sys) (fact : Shared → Thread → Prop) (i : Nat) : Prop :=
  i < s.threads.length ∧
    ∀ t, s.threads[i]? = some t → t.active = true → fact s.sh t

theorem Sys.Held.imp {s : Sys} {fact fact' : Shared → Thread → Prop} {i : Nat}
    (h : s.Held fact i)
    (himp : ∀ t, s.threads[i]? = some t → fact s.sh t → fact' s.sh t) :
    s.Held fact' i :=
  ⟨h.1, fun t ht hactive => himp t ht (h.2 t ht hactive)⟩

theorem Sys.Held.down {s s' : Sys} {fact : Shared → Thread → Prop} {i : Nat}
    (h : s.Held fact i) (hfact : Steady fact)
    (hthreads : s'.threads = s.threads) (hdown : s.sh.Down s'.sh) :
    s'.Held fact i := by
  refine ⟨hthreads ▸ h.1, fun t ht hactive => hfact.down _ _ _ hdown ?_⟩
  exact h.2 t (hthreads ▸ ht) hactive

theorem Sys.Held.append {s s' : Sys} {fact : Shared → Thread → Prop} {i : Nat}
    {t : Thread} (h : s.Held fact i) (hthreads : s'.threads = s.threads ++ [t])
    (hsh : s'.sh = s.sh) : s'.Held fact i := by
  refine ⟨?_, fun t' ht' hactive => ?_⟩
  · rw [hthreads, List.length_append]
    exact Nat.lt_add_right _ h.1
  · rw [hthreads, List.getElem?_append_left h.1] at ht'
    exact hsh ▸ h.2 t' ht' hactive

/-- A handler spawns a thread, or leaves the threads and sets no event. -/
theorem Sys.handle_spec {s s' : Sys} {j : Nat} (h : s.handle j = some s') :
    (∃ t, s'.threads = s.threads ++ [t] ∧ s'.sh = s.sh) ∨
      (s'.threads = s.threads ∧ s.sh.Down s'.sh) := by
  have hsame : s.sh.Down s.sh := ⟨id, id⟩
  unfold Sys.handle at h
  split at h <;> cases h
  case h_3 => exact Or.inl ⟨_, rfl, rfl⟩
  case h_7 => exact Or.inl ⟨_, rfl, rfl⟩
  case h_8 => exact Or.inr ⟨rfl, fun _ => rfl, id⟩
  case h_9 => exact Or.inr ⟨rfl, id, fun _ => rfl⟩
  case h_10 => exact Or.inr ⟨rfl, fun _ => rfl, id⟩
  case h_13 => exact Or.inr ⟨rfl, id, fun _ => rfl⟩
  case h_15 => exact Or.inr ⟨rfl, fun _ => rfl, id⟩
  case h_16 => exact Or.inr ⟨rfl, by dsimp only [Sys.at]; split <;> exact hsame⟩
  all_goals exact Or.inr ⟨rfl, hsame⟩

theorem Sys.Held.handle {s s' : Sys} {fact : Shared → Thread → Prop} {i j : Nat}
    (h : s.Held fact i) (hfact : Steady fact) (hs : s.handle j = some s') :
    s'.Held fact i := by
  obtain ⟨t, hthreads, hsh⟩ | ⟨hthreads, hdown⟩ := Sys.handle_spec hs
  · exact h.append hthreads hsh
  · exact h.down hfact hthreads hdown

/-- A step of one thread leaves the facts of the others: they cannot both set
events. -/
theorem Sys.Held.thread {s : Sys} {fact : Shared → Thread → Prop} {i k : Nat}
    {input : Input} {sh' : Shared} {t t' : Thread} {late : List Nat}
    (h : s.Held fact i) (hfact : Steady fact) (halone : s.Alone)
    (ht : s.threads[k]? = some t) (hm : t.move s.sh input = some (sh', t')) :
    Sys.Held { s with sh := sh', threads := s.threads.set k t', late := late }
      fact i := by
  have hmoves := Thread.moves_of_move hm
  refine ⟨by simpa using h.1, fun u hu hactive => ?_⟩
  by_cases hik : k = i
  · subst hik
    have hu' : u = t' := by
      have hset : (s.threads.set k t')[k]? = some t' :=
        List.getElem?_set_self h.1
      exact Option.some.inj (hu.symm.trans hset)
    subst hu'
    exact hfact.own _ _ _ _ hmoves
      (h.2 t ht (Thread.active_of_move hm hactive))
  · have hu' : s.threads[i]? = some u := by
      rw [← hu]
      exact (List.getElem?_set_ne hik).symm
    refine hfact.down _ _ _ (hmoves.down ?_) (h.2 u hu' hactive)
    rw [Bool.eq_false_iff]
    exact fun hk => hik (halone k i t u ht hu' hk hactive)

/-- What the handlers that are under way have made sure of. -/
def Sys.ReqOk (s : Sys) : Req → Prop
  | .stopQueuePlan queues | .clearTestPlan queues | .clearPlanFlag queues =>
      ∀ i ∈ queues, s.Held QueueOff i
  | .stopping runs queues _ =>
      (∀ run ∈ runs, s.Held (RunHalted run.2) run.1) ∧
        ∀ i ∈ queues, s.Held QueueHalted i
  | _ => True

theorem Sys.ReqOk.imp {s s' : Sys} {req : Req} (h : s.ReqOk req)
    (himp : ∀ fact i, Steady fact → s.Held fact i → s'.Held fact i) :
    s'.ReqOk req := by
  cases req with
  | stopQueuePlan queues | clearTestPlan queues | clearPlanFlag queues =>
      exact fun i hi => himp _ _ steady_queueOff (h i hi)
  | stopping runs queues wipe =>
      exact ⟨fun run hrun => himp _ _ (steady_runHalted _) (h.1 run hrun),
        fun i hi => himp _ _ steady_queueHalted (h.2 i hi)⟩
  | _ => trivial

structure Sys.Inv (s : Sys) : Prop where
  alone : s.Alone
  late : s.late = []
  reqs : ∀ j, s.ReqOk (s.reqs j)
  runs : ∀ run ∈ s.stoppedRuns, s.Held (RunStopped run.2) run.1
  queues : ∀ i ∈ s.stoppedQueues, s.Held QueueStopped i

theorem inv_init : Sys.init.Inv where
  alone _ _ _ _ ht := by cases ht
  late := rfl
  reqs _ := trivial
  runs _ hrun := by cases hrun
  queues _ hi := by cases hi

theorem Sys.exists_of_mem_runs {s : Sys} {run : Nat × Nat}
    (h : run ∈ s.runs) :
    ∃ t, s.threads[run.1]? = some t ∧ t.runs = run.2 := by
  obtain ⟨i, -, hi⟩ := List.mem_filterMap.1 h
  obtain ⟨t, ht, hrun⟩ := Option.bind_eq_some_iff.1 hi
  obtain ⟨p, -, rfl⟩ := Option.map_eq_some_iff.1 hrun
  exact ⟨t, ht, rfl⟩

theorem Sys.lt_of_mem_queues {s : Sys} {i : Nat} (h : i ∈ s.queues) :
    i < s.threads.length :=
  List.mem_range.1 (List.mem_filter.1 h).1

/-- A stop that comes while no thread is about to set the event of its plan halts
the runs that it finds. -/
theorem Sys.runHalted_of_mem_runs {s s' : Sys}
    (hcare : ∀ t ∈ s.threads, t.isEntering = false)
    (hthreads : s'.threads = s.threads) (hplan : s'.sh.planRunning = false)
    {run : Nat × Nat} (hrun : run ∈ s.runs) :
    s'.Held (RunHalted run.2) run.1 := by
  obtain ⟨t, ht, hruns⟩ := Sys.exists_of_mem_runs hrun
  refine ⟨hthreads ▸ (List.getElem?_eq_some_iff.1 ht).1, fun u hu _ => ?_⟩
  rw [hthreads, ht] at hu
  obtain rfl := Option.some.inj hu
  exact ⟨hruns.ge, fun _ _ => ⟨hplan, hcare t (List.mem_of_getElem? ht)⟩⟩

/-- So does a stop of the queue with the threads of the queue, when none of them
is between its look and the next plan. -/
theorem Sys.queueHalted_of_queueOff {s s' : Sys} {i : Nat}
    (h : s.Held QueueOff i) (hthreads : s'.threads = s.threads)
    (hplan : s'.sh.planRunning = false)
    (hqueue : s'.sh.queueRunning = s.sh.queueRunning)
    (hcare : ∀ t, s.threads[i]? = some t →
      t.isEntering = false ∧ t.isBetween = false) :
    s'.Held QueueHalted i := by
  refine ⟨hthreads ▸ h.1, fun t ht hactive => ?_⟩
  rw [hthreads] at ht
  obtain ⟨hoff, hset⟩ := h.2 t ht hactive
  obtain ⟨henter, hbetween⟩ := hcare t ht
  exact ⟨⟨hqueue.trans hoff, hset⟩, hbetween, fun _ => ⟨hplan, henter⟩⟩

theorem Sys.queueOff_of_mem_queues {s s' : Sys}
    (hcare : ∀ t ∈ s.threads, t.isQEntering = false)
    (hthreads : s'.threads = s.threads) (hqueue : s'.sh.queueRunning = false)
    {i : Nat} (hi : i ∈ s.queues) : s'.Held QueueOff i := by
  refine ⟨hthreads ▸ Sys.lt_of_mem_queues hi, fun t ht _ => ⟨hqueue, ?_⟩⟩
  rw [hthreads] at ht
  exact hcare t (List.mem_of_getElem? ht)

/-- What a handler makes sure of for its next step. -/
theorem Sys.Inv.reqOk_handle {s s' : Sys} {j : Nat} (h : s.Inv)
    (hcare : s.Spaced (.handle j)) (hs : s.handle j = some s') :
    s'.ReqOk (s'.reqs j) := by
  have hreq := h.reqs j
  unfold Sys.Spaced at hcare
  unfold Sys.handle at hs
  cases hj : s.reqs j <;> simp only [hj] at hcare hreq hs <;> cases hs <;>
    simp only [Sys.at, Sys.spawn, Function.update_self]
  case stopPlan =>
    refine ⟨fun run hrun => ?_, nofun⟩
    exact Sys.runHalted_of_mem_runs hcare (by rfl) (by rfl) hrun
  case stopQueue =>
    exact fun i hi => Sys.queueOff_of_mem_queues hcare (by rfl) (by rfl) hi
  case clearQueueFlag =>
    exact fun i hi => Sys.queueOff_of_mem_queues hcare (by rfl) (by rfl) hi
  case clearTestPlan queues =>
    split
    · exact fun i hi => hreq i hi
    · rename_i hplan
      have hplan' := Bool.eq_false_iff.2 hplan
      refine ⟨nofun, fun i hi => ?_⟩
      exact Sys.queueHalted_of_queueOff (hreq i hi) (by rfl) hplan' (by rfl)
        (hcare hplan' i hi)
  case stopQueuePlan queues | clearPlanFlag queues =>
    obtain ⟨henter, hbetween⟩ := hcare
    refine ⟨fun run hrun => ?_, fun i hi => ?_⟩
    · exact Sys.runHalted_of_mem_runs henter (by rfl) (by rfl) hrun
    · exact Sys.queueHalted_of_queueOff (hreq i hi) (by rfl) (by rfl) (by rfl)
        fun t ht => ⟨henter t (List.mem_of_getElem? ht), hbetween i hi t ht⟩
  all_goals
    first
    | trivial
    | (split <;> trivial)

theorem Sys.handle_frame {s s' : Sys} {j : Nat} (h : s.handle j = some s') :
    s'.late = s.late ∧ ∀ k, k ≠ j → s'.reqs k = s.reqs k := by
  unfold Sys.handle at h
  split at h <;> cases h
  all_goals exact ⟨rfl, fun k hk => Function.update_of_ne hk _ _⟩

/-- What is stopped once the handler has taken its last step was halted. -/
theorem Sys.Inv.stopped_handle {s s' : Sys} {j : Nat} (h : s.Inv)
    (hcare : s.Spaced (.handle j)) (hs : s.handle j = some s') :
    (∀ run ∈ s'.stoppedRuns, s.Held (RunStopped run.2) run.1) ∧
      ∀ i ∈ s'.stoppedQueues, s.Held QueueStopped i := by
  have hreq := h.reqs j
  unfold Sys.Spaced at hcare
  unfold Sys.handle at hs
  cases hj : s.reqs j <;> simp only [hj] at hcare hreq hs <;> cases hs
  case stopping runs queues wipe =>
    constructor
    · intro run hrun
      rcases List.mem_append.1 hrun with hrun | hrun
      · exact (hreq.1 run hrun).imp fun t ht hhalted => ⟨hhalted.1, fun hk =>
          ⟨hhalted.2 hk, hcare.1 run hrun t ht hk⟩⟩
      · exact h.runs run hrun
    · intro i hi
      rcases List.mem_append.1 hi with hi | hi
      · exact (hreq.2 i hi).imp fun t ht hhalted =>
          ⟨hhalted, hcare.2 i hi t ht⟩
      · exact h.queues i hi
  all_goals exact ⟨h.runs, h.queues⟩

theorem Sys.Inv.alone_handle {s s' : Sys} {j : Nat} (h : s.Inv)
    (hcare : s.Spaced (.handle j)) (hs : s.handle j = some s') :
    s'.Alone := by
  have hspawn : ∀ t : Thread, (∀ t ∈ s.threads, t.active = false) →
      Sys.Alone { s with threads := s.threads ++ [t] } := by
    intro t hnone
    have hlast : ∀ (i : Nat) (u : Thread), (s.threads ++ [t])[i]? = some u →
        u.active = true → i = s.threads.length := by
      intro i u hu hactive
      by_contra hne
      rw [List.getElem?_append] at hu
      split at hu
      · have := hnone u (List.mem_of_getElem? hu)
        rw [hactive] at this
        cases this
      · rw [List.getElem?_eq_none (by simp; omega)] at hu
        cases hu
    exact fun i k u u' hu hu' ha ha' =>
      (hlast i u hu ha).trans (hlast k u' hu' ha').symm
  have halone := h.alone
  unfold Sys.Spaced at hcare
  unfold Sys.handle at hs
  cases hj : s.reqs j <;> simp only [hj] at hcare hs <;> cases hs
  case spawnPlan resume => exact hspawn _ hcare
  case spawnQueue => exact hspawn _ hcare
  all_goals exact halone

theorem Sys.Inv.handle {s s' : Sys} {j : Nat} (h : s.Inv)
    (hcare : s.Spaced (.handle j)) (hs : s.handle j = some s') : s'.Inv := by
  obtain ⟨hlate, hreqs⟩ := Sys.handle_frame hs
  obtain ⟨hruns, hqueues⟩ := h.stopped_handle hcare hs
  refine ⟨h.alone_handle hcare hs, hlate.trans h.late, fun k => ?_,
    fun run hrun => (hruns run hrun).handle (steady_runStopped _) hs,
    fun i hi => (hqueues i hi).handle steady_queueStopped hs⟩
  by_cases hk : k = j
  · subst hk
    exact h.reqOk_handle hcare hs
  · rw [hreqs k hk]
    exact (h.reqs k).imp fun fact i hfact hheld => hheld.handle hfact hs

theorem Sys.Inv.thread {s s' : Sys} {i : Nat} {input : Input} (h : s.Inv)
    (hs : s.step (.thread i input) = some s') : s'.Inv := by
  simp only [Sys.step] at hs
  split at hs
  · cases hs
  rename_i t ht
  obtain ⟨⟨sh', t'⟩, hm, rfl⟩ := Option.map_eq_some_iff.1 hs
  have hmoves := Thread.moves_of_move hm
  -- what is stopped is not between its look and an experiment
  have hlate : s.isLate i t t' = false := by
    rw [Bool.eq_false_iff]
    intro hlate
    simp only [Sys.isLate, Bool.and_eq_true, Bool.or_eq_true,
      List.contains_iff_mem] at hlate
    obtain ⟨⟨hrunning, -⟩, hstopped⟩ := hlate
    have htested := hmoves.isTested hrunning
    have hactive := Thread.active_of_any rfl htested
    have hnot : t.isTested = false := by
      rcases hstopped with hrun | hqueue
      · exact (((h.runs _ hrun).2 t ht hactive).2 rfl).2
      · exact ((h.queues i hqueue).2 t ht hactive).2
    rw [htested] at hnot
    cases hnot
  have hkeep : ∀ fact k, Steady fact → s.Held fact k →
      Sys.Held { s with
        sh := sh'
        threads := s.threads.set i t'
        late := if s.isLate i t t' = true then i :: s.late else s.late }
        fact k :=
    fun fact k hfact hheld => hheld.thread hfact h.alone ht hm
  refine ⟨?_, ?_, fun k => (h.reqs k).imp hkeep,
    fun run hrun => hkeep _ _ (steady_runStopped _) (h.runs run hrun),
    fun k hk => hkeep _ _ steady_queueStopped (h.queues k hk)⟩
  · have hbefore : ∀ (k : Nat) (u : Thread),
        (s.threads.set i t')[k]? = some u → u.active = true →
          ∃ u', s.threads[k]? = some u' ∧ u'.active = true := by
      intro k u hu hactive
      rw [List.getElem?_set] at hu
      split at hu
      · rename_i hik
        split at hu
        · obtain rfl := Option.some.inj hu
          exact ⟨t, hik ▸ ht, Thread.active_of_move hm hactive⟩
        · cases hu
      · exact ⟨u, hu, hactive⟩
    intro k l u u' hu hu' ha ha'
    obtain ⟨v, hv, hva⟩ := hbefore k u hu ha
    obtain ⟨v', hv', hva'⟩ := hbefore l u' hu' ha'
    exact h.alone k l v v' hv hv' hva hva'
  · simpa [hlate] using h.late

theorem Sys.Inv.step {s s' : Sys} {act : Act} (h : s.Inv)
    (hcare : s.Spaced act) (hs : s.step act = some s') : s'.Inv := by
  cases act with
  | request j kind =>
      simp only [Sys.step] at hs
      split at hs
      · obtain rfl := Option.some.inj hs
        refine ⟨h.alone, h.late, fun k => ?_, h.runs, h.queues⟩
        by_cases hk : k = j
        · subst hk
          simp only [Sys.at, Function.update_self]
          cases kind <;> trivial
        · simp only [Sys.at, Function.update_of_ne hk]
          exact h.reqs k
      · cases hs
  | handle j => exact h.handle hcare hs
  | thread i input => exact h.thread hs

theorem Sys.Inv.sound {s : Sys} (h : s.Inv) : s.Sound where
  exclusive i j t t' ht ht' hrunning hrunning' :=
    h.alone i j t t' ht ht' (Thread.active_of_any rfl hrunning)
      (Thread.active_of_any rfl hrunning')
  prompt := h.late

/-- Over every run in which threads are spawned one at a time and no stop falls
into the gaps around the looks at the events, no two plans overlap and no stopped
run goes on. -/
theorem sound_of_spaced {s : Sys}
    (h : Reach Sys.step Sys.Spaced Sys.init s) : s.Sound :=
  (h.inv inv_init fun _ _ _ hinv hcare hs => hinv.step hcare hs).sound

/-- A run that is stopped in the first of its two experiments leaves. -/
theorem sound_of_spaced_stopped :
    ∃ s : Sys, s.stoppedRuns = [(0, 0)] ∧
      s.threads = [⟨.ended, false, 0⟩] ∧ s.Sound := by
  have hinit : Reach Sys.step Sys.Spaced Sys.init Sys.init := .refl
  have hrunning := hinit
    |>.step (a := Act.request 0 (.startPlan false)) trivial rfl
    |>.step (a := Act.handle 0) trivial rfl
    |>.step (a := Act.handle 0) (fun t ht => by cases ht) rfl
    |>.step (a := Act.thread 0 .go) trivial rfl
    |>.step (a := Act.thread 0 (.loaded 2)) trivial rfl
    |>.step (a := Act.thread 0 .go) trivial rfl
    |>.step (a := Act.thread 0 .go) trivial rfl
  have hcleared := hrunning.step (a := Act.request 1 .stopPlan) trivial rfl
    |>.step (a := Act.handle 1)
      (fun t ht => by obtain rfl := List.mem_singleton.1 ht; rfl) rfl
  have hstopped := hcleared.step (a := Act.handle 1)
      ⟨fun run hrun t ht _ => by
        obtain rfl := List.mem_singleton.1 hrun
        obtain rfl := Option.some.inj ht
        rfl, nofun⟩ rfl
  have hended := hstopped.step (a := Act.thread 0 .go) trivial rfl
    |>.step (a := Act.thread 0 .go) trivial rfl
    |>.step (a := Act.thread 0 .go) trivial rfl
  exact ⟨_, rfl, rfl, sound_of_spaced hended⟩

/-- Two starts that both look before either thread has set the event. -/
theorem not_sound_twoStarts :
    ¬ ∀ s, ReachAny Sys.step Sys.init s → s.Sound := by
  intro h
  cases hrun : exec Sys.step Sys.init
      [.request 0 (.startPlan false), .request 1 (.startPlan false),
        .handle 0, .handle 1, .handle 0, .handle 1, .thread 0 .go,
        .thread 1 .go, .thread 0 (.loaded 1), .thread 1 (.loaded 1),
        .thread 0 .go, .thread 1 .go, .thread 0 .go, .thread 1 .go] with
  | none => cases hrun
  | some s =>
      have hsound := h s (Reach.exec .refl hrun)
      obtain rfl := Option.some.inj hrun
      have hsame := hsound.exclusive 0 1 _ _ rfl rfl rfl rfl
      cases hsame

end Runs

end PlanThreads
end Probe
end Kelt
