import Kelt.Lib.PyText
import Kelt.Lib.Runs
import Kelt.Lib.Slots

/-!
# The units that are paused on the UE

The measurement job stops the units of the UE that would send over the link,
each behind a timer that starts it again should the job die (`ue-run.sh`).
`pause_units` numbers the timers by the active units, `restore_units` finds
them again by the units it has to start. The two agree where no call has failed
before a unit that is paused. Then, and where no start and no stop of a timer
fails, every unit is given back and no timer is left behind (`given_back_of_fits`).
-/

namespace Kelt
namespace Experiments
namespace PausedUnits

section Script

/-- Where the script is: before the next unit, before the calls for a unit,
before its entry in `PAUSED`, in the measurement, in `restore_units` after so
many units, at the end, or killed. -/
inductive Pos where
  | pause (rest : List Text)
  | arm (u : Text) (rest : List Text)
  | stop (u : Text) (rest : List Text)
  | note (u : Text) (rest : List Text)
  | measure
  | restore (i : Nat) (rest : List Text)
  | cancel (i : Nat) (u : Text) (rest : List Text)
  | ended
  | dead

/-- The job and the units: `i` and `PAUSED` of the script, which units run, the
timers that are armed, and the units that the job has stopped and not started
again. -/
structure Job where
  pos : Pos
  count : Nat
  paused : List Text
  active : Text → Bool
  armed : List (Nat × Text)
  down : List Text

def Job.init (units : List Text) (active : Text → Bool) : Job :=
  ⟨.pause units, 0, [], active, [], []⟩

/-- What comes of a call. A `stop` that fails may have stopped the unit. -/
inductive Act where
  | look
  | arm (ok : Bool)
  | stop (ok stopped : Bool)
  | note
  | finish
  | start (ok : Bool)
  | cancel (ok : Bool)
  | kill

/-- The unit does not run any more, by the job. -/
def Job.takeDown (j : Job) (u : Text) : Job :=
  { j with
    active := Function.update j.active u false
    down := u :: j.down }

def Job.bringUp (j : Job) (u : Text) : Job :=
  { j with
    active := Function.update j.active u true
    down := j.down.filter fun v => v != u }

/-- `finish` runs upon a signal, between any two calls, or at the end. It
ignores further signals, and `PAUSED` is not read after it. -/
def Job.step (j : Job) : Act → Option Job
  | .look =>
      match j.pos with
      | .pause (u :: rest) =>
          if j.active u then
            some { j with pos := .arm u rest, count := j.count + 1 }
          else some { j with pos := .pause rest }
      | .pause [] => some { j with pos := .measure }
      | _ => none
  | .arm ok =>
      match j.pos with
      | .arm u rest =>
          if ok then
            some { j with
              pos := .stop u rest
              armed := (j.count, u) :: j.armed }
          else some { j with pos := .pause rest }
      | _ => none
  | .stop ok stopped =>
      match j.pos with
      | .stop u rest =>
          if ok then some { j.takeDown u with pos := .note u rest }
          else if stopped then some { j.takeDown u with pos := .pause rest }
          else some { j with pos := .pause rest }
      | _ => none
  | .note =>
      match j.pos with
      | .note u rest =>
          some { j with pos := .pause rest, paused := j.paused ++ [u] }
      | _ => none
  | .finish =>
      match j.pos with
      | .pause _ | .arm _ _ | .stop _ _ | .note _ _ | .measure =>
          some { j with pos := .restore 0 j.paused }
      | _ => none
  | .start ok =>
      match j.pos with
      | .restore i (u :: rest) =>
          if ok then some { j.bringUp u with pos := .cancel (i + 1) u rest }
          else some { j with pos := .cancel (i + 1) u rest }
      | .restore _ [] => some { j with pos := .ended }
      | _ => none
  | .cancel ok =>
      match j.pos with
      | .cancel i _ rest =>
          if ok then
            some { j with
              pos := .restore i rest
              armed := j.armed.filter fun timer => timer.1 != i }
          else some { j with pos := .restore i rest }
      | _ => none
  | .kill =>
      match j.pos with
      | .ended | .dead => none
      | _ => some { j with pos := .dead }

end Script

section Claims

/-- What the job has stopped has a timer, wherever the job is, and so also where
it is killed; and no timer is left of what `finish` has started. -/
structure Job.Sound (j : Job) : Prop where
  given : ∀ u ∈ j.down, ∃ i, (i, u) ∈ j.armed
  quiet : j.pos = .ended → (∀ u ∈ j.paused, u ∉ j.down) →
    ∀ u ∈ j.paused, ∀ i, (i, u) ∉ j.armed

/-- A unit that is paused has the number of its timer in `PAUSED`, and a timer is
stopped without failure, and when its unit has been started. -/
def Job.Fits (j : Job) : Act → Prop
  | .note => j.count = j.paused.length + 1
  | .cancel ok => ok = true ∧ ∀ i u rest, j.pos = .cancel i u rest → u ∉ j.down
  | _ => True

end Claims

section Invariant

/-- The timers when the first `c` of them are stopped: the places in `PAUSED`
are the numbers of the others. -/
structure Timers (count : Nat) (paused : List Text)
    (armed : List (Nat × Text)) (c : Nat) : Prop where
  unique : ∀ i u v, (i, u) ∈ armed → (i, v) ∈ armed → u = v
  bounds : ∀ i u, (i, u) ∈ armed → c < i ∧ i ≤ count
  place : ∀ (k : Nat) u, c ≤ k → paused[k]? = some u → (k + 1, u) ∈ armed
  only : ∀ u ∈ paused, ∀ i, (i, u) ∈ armed → i ≤ paused.length

def Job.Timers (j : Job) (c : Nat) : Prop :=
  PausedUnits.Timers j.count j.paused j.armed c

structure Job.Pausing (j : Job) : Prop where
  timers : j.Timers 0
  inactive : ∀ u ∈ j.paused, j.active u = false
  short : j.paused.length ≤ j.count

/-- What is known at a place of the script. -/
def Job.PosOk (j : Job) : Pos → Prop
  | .pause _ | .measure => j.Pausing
  | .arm u _ => j.Pausing ∧ j.active u = true ∧ j.paused.length < j.count ∧
      ∀ i v, (i, v) ∈ j.armed → i < j.count
  | .stop u _ => j.Pausing ∧ j.active u = true ∧ (j.count, u) ∈ j.armed
  | .note u _ => j.Pausing ∧ j.active u = false ∧ (j.count, u) ∈ j.armed
  | .restore i rest => j.Timers i ∧ j.paused.drop i = rest ∧ i ≤ j.paused.length
  | .cancel i u rest => 0 < i ∧ j.Timers (i - 1) ∧
      j.paused.drop (i - 1) = u :: rest
  | .ended => j.Timers j.paused.length
  | .dead => True

structure Job.Inv (j : Job) : Prop where
  given : ∀ u ∈ j.down, ∃ i, (i, u) ∈ j.armed
  posOk : j.PosOk j.pos

theorem inv_init (units : List Text) (active : Text → Bool) :
    (Job.init units active).Inv where
  given := fun _ h => nomatch h
  posOk := {
    timers := {
      unique := fun _ _ _ h => nomatch h
      bounds := fun _ _ h => nomatch h
      place := fun _ _ _ h => nomatch h
      only := fun _ h => nomatch h }
    inactive := fun _ h => nomatch h
    short := le_rfl }

variable {j : Job}

theorem Job.Pausing.move (h : j.Pausing) (pos : Pos) :
    ({ j with pos := pos } : Job).Pausing :=
  ⟨h.timers, h.inactive, h.short⟩

/-- Before a unit is looked at its timer gets the next number. -/
theorem Job.Pausing.count (h : j.Pausing) (pos : Pos) :
    ({ j with pos := pos, count := j.count + 1 } : Job).Pausing where
  timers := {
    unique := h.timers.unique
    bounds := fun i u hi =>
      ⟨(h.timers.bounds i u hi).1, Nat.le_succ_of_le (h.timers.bounds i u hi).2⟩
    place := h.timers.place
    only := h.timers.only }
  inactive := h.inactive
  short := Nat.le_succ_of_le h.short

theorem Job.Pausing.arm (h : j.Pausing) {u : Text} (pos : Pos)
    (hactive : j.active u = true) (hshort : j.paused.length < j.count)
    (hnew : ∀ i v, (i, v) ∈ j.armed → i < j.count) :
    ({ j with pos := pos, armed := (j.count, u) :: j.armed } : Job).Pausing where
  timers := {
    unique := by
      intro i v w hv hw
      rcases List.mem_cons.1 hv with hv | hv
      · rcases List.mem_cons.1 hw with hw | hw
        · exact (Prod.mk.inj hv).2.trans (Prod.mk.inj hw).2.symm
        · exact absurd (hnew i w hw) (by rw [(Prod.mk.inj hv).1]; exact lt_irrefl _)
      · rcases List.mem_cons.1 hw with hw | hw
        · exact absurd (hnew i v hv) (by rw [(Prod.mk.inj hw).1]; exact lt_irrefl _)
        · exact h.timers.unique i v w hv hw
    bounds := by
      intro i v hv
      rcases List.mem_cons.1 hv with hv | hv
      · rw [(Prod.mk.inj hv).1]
        exact ⟨Nat.zero_lt_of_lt hshort, le_rfl⟩
      · exact h.timers.bounds i v hv
    place := fun k v hk hv => List.mem_cons_of_mem _ (h.timers.place k v hk hv)
    only := by
      intro v hv i hi
      rcases List.mem_cons.1 hi with hi | hi
      · -- a unit that is paused does not run
        rw [← (Prod.mk.inj hi).2, h.inactive v hv] at hactive
        cases hactive
      · exact h.timers.only v hv i hi }
  inactive := h.inactive
  short := h.short

theorem Job.Pausing.takeDown (h : j.Pausing) (u : Text) (pos : Pos) :
    ({ j.takeDown u with pos := pos } : Job).Pausing where
  timers := h.timers
  inactive := by
    intro v hv
    by_cases heq : v = u
    · rw [heq]
      exact Function.update_self u false j.active
    · exact (Function.update_of_ne heq false j.active).trans (h.inactive v hv)
  short := h.short

theorem Job.Pausing.note (h : j.Pausing) {u : Text} (pos : Pos)
    (hinactive : j.active u = false) (htimer : (j.count, u) ∈ j.armed)
    (hfits : j.count = j.paused.length + 1) :
    ({ j with pos := pos, paused := j.paused ++ [u] } : Job).Pausing where
  timers := {
    unique := h.timers.unique
    bounds := h.timers.bounds
    place := by
      intro k v hk hv
      rcases getElem?_append_cases hv with ⟨rfl, rfl⟩ | ⟨-, hv⟩
      · rw [← hfits]
        exact htimer
      · exact h.timers.place k v hk hv
    only := by
      intro v hv i hi
      rw [List.length_append, List.length_singleton, ← hfits]
      exact (h.timers.bounds i v hi).2 }
  inactive := by
    intro v hv
    rcases List.mem_append.1 hv with hv | hv
    · exact h.inactive v hv
    · rw [List.mem_singleton.1 hv]
      exact hinactive
  short := by
    rw [List.length_append, List.length_singleton]
    exact hfits.ge

/-- The next timer is stopped. -/
theorem Job.Timers.cancel {i : Nat}
    (hi : 0 < i) (h : j.Timers (i - 1)) (pos : Pos) :
    ({ j with
      pos := pos
      armed := j.armed.filter fun timer => timer.1 != i } : Job).Timers i where
  unique := fun k v w hv hw =>
    h.unique k v w (List.mem_filter.1 hv).1 (List.mem_filter.1 hw).1
  bounds := by
    intro k v hv
    obtain ⟨hv, hne⟩ := List.mem_filter.1 hv
    have hbounds := h.bounds k v hv
    have hne' : k ≠ i := by simpa using hne
    exact ⟨by omega, hbounds.2⟩
  place := by
    intro k v hk hv
    refine List.mem_filter.2 ⟨h.place k v (by omega) hv, ?_⟩
    have hne : k + 1 ≠ i := by omega
    simpa using hne
  only := fun v hv k hk => h.only v hv k (List.mem_filter.1 hk).1

theorem Job.Inv.finish (hj : j.Inv) (h : j.Pausing) :
    ({ j with pos := .restore 0 j.paused } : Job).Inv where
  given := hj.given
  posOk := ⟨h.timers, rfl, Nat.zero_le _⟩

theorem Job.Inv.takeDown (hj : j.Inv) {u : Text} {pos : Pos}
    (htimer : (j.count, u) ∈ j.armed)
    (hpos : ({ j.takeDown u with pos := pos } : Job).PosOk pos) :
    ({ j.takeDown u with pos := pos } : Job).Inv where
  given := by
    intro v hv
    rcases List.mem_cons.1 hv with rfl | hv
    · exact ⟨j.count, htimer⟩
    · exact hj.given v hv
  posOk := hpos

theorem Job.Inv.look {j' : Job} (hj : j.Inv)
    (hstep : j.step .look = some j') : j'.Inv := by
  have hok := hj.posOk
  cases hpos : j.pos with
  | pause rest =>
      rw [hpos] at hok
      cases rest with
      | nil =>
          simp only [Job.step, hpos, Option.some.injEq] at hstep
          subst hstep
          exact ⟨hj.given, Job.Pausing.move hok _⟩
      | cons u rest =>
          simp only [Job.step, hpos] at hstep
          split at hstep
          · rename_i hactive
            cases hstep
            refine ⟨hj.given, Job.Pausing.count hok _, hactive,
              Nat.lt_succ_of_le hok.short, fun i v hv => ?_⟩
            exact Nat.lt_succ_of_le (hok.timers.bounds i v hv).2
          · cases hstep
            exact ⟨hj.given, Job.Pausing.move hok _⟩
  | _ => simp [Job.step, hpos] at hstep

theorem Job.Inv.arm {j' : Job} {ok : Bool} (hj : j.Inv)
    (hstep : j.step (.arm ok) = some j') : j'.Inv := by
  have hok := hj.posOk
  cases hpos : j.pos with
  | arm u rest =>
      rw [hpos] at hok
      obtain ⟨hpausing, hactive, hshort, hnew⟩ := hok
      simp only [Job.step, hpos] at hstep
      split at hstep
      · cases hstep
        refine ⟨fun v hv => ?_, hpausing.arm _ hactive hshort hnew, hactive,
          List.mem_cons_self⟩
        obtain ⟨i, hi⟩ := hj.given v hv
        exact ⟨i, List.mem_cons_of_mem _ hi⟩
      · cases hstep
        exact ⟨hj.given, hpausing.move _⟩
  | _ => simp [Job.step, hpos] at hstep

theorem Job.Inv.stop {j' : Job} {ok stopped : Bool} (hj : j.Inv)
    (hstep : j.step (.stop ok stopped) = some j') : j'.Inv := by
  have hok := hj.posOk
  cases hpos : j.pos with
  | stop u rest =>
      rw [hpos] at hok
      obtain ⟨hpausing, -, htimer⟩ := hok
      simp only [Job.step, hpos] at hstep
      split at hstep
      · cases hstep
        have hdown : (j.takeDown u).active u = false := by
          simp [Job.takeDown]
        exact hj.takeDown htimer ⟨hpausing.takeDown u _, hdown, htimer⟩
      · split at hstep
        · cases hstep
          exact hj.takeDown htimer (hpausing.takeDown u _)
        · cases hstep
          exact ⟨hj.given, hpausing.move _⟩
  | _ => simp [Job.step, hpos] at hstep

theorem Job.Inv.note {j' : Job} (hj : j.Inv) (hfits : j.Fits .note)
    (hstep : j.step .note = some j') : j'.Inv := by
  have hok := hj.posOk
  cases hpos : j.pos with
  | note u rest =>
      rw [hpos] at hok
      simp only [Job.step, hpos, Option.some.injEq] at hstep
      subst hstep
      exact ⟨hj.given, hok.1.note _ hok.2.1 hok.2.2 hfits⟩
  | _ => simp [Job.step, hpos] at hstep

theorem Job.Inv.toFinish {j' : Job} (hj : j.Inv)
    (hstep : j.step .finish = some j') : j'.Inv := by
  have hok := hj.posOk
  cases hpos : j.pos with
  | pause | measure =>
      rw [hpos] at hok
      simp only [Job.step, hpos, Option.some.injEq] at hstep
      subst hstep
      exact hj.finish hok
  | arm | stop | note =>
      rw [hpos] at hok
      simp only [Job.step, hpos, Option.some.injEq] at hstep
      subst hstep
      exact hj.finish hok.1
  | _ => simp [Job.step, hpos] at hstep

theorem Job.Inv.start {j' : Job} {ok : Bool} (hj : j.Inv)
    (hstep : j.step (.start ok) = some j') : j'.Inv := by
  have hok := hj.posOk
  cases hpos : j.pos with
  | restore i rest =>
      rw [hpos] at hok
      obtain ⟨htimers, hdrop, hle⟩ := hok
      cases rest with
      | nil =>
          simp only [Job.step, hpos, Option.some.injEq] at hstep
          subst hstep
          have hi : i = j.paused.length :=
            le_antisymm hle (List.drop_eq_nil_iff.1 hdrop)
          subst hi
          exact ⟨hj.given, htimers⟩
      | cons u rest =>
          simp only [Job.step, hpos] at hstep
          split at hstep
          · cases hstep
            refine ⟨fun v hv => ?_, Nat.succ_pos i, htimers, hdrop⟩
            exact hj.given v (List.mem_filter.1 hv).1
          · cases hstep
            exact ⟨hj.given, Nat.succ_pos i, htimers, hdrop⟩
  | _ => simp [Job.step, hpos] at hstep

theorem Job.Inv.cancel {j' : Job} {ok : Bool} (hj : j.Inv)
    (hfits : j.Fits (.cancel ok)) (hstep : j.step (.cancel ok) = some j') :
    j'.Inv := by
  have hok := hj.posOk
  cases hpos : j.pos with
  | cancel i u rest =>
      rw [hpos] at hok
      obtain ⟨hi, htimers, hdrop⟩ := hok
      obtain ⟨rfl, hup⟩ := hfits
      simp only [Job.step, hpos, if_true, Option.some.injEq] at hstep
      subst hstep
      have hlt : i - 1 < j.paused.length := by
        by_contra hge
        rw [List.drop_eq_nil_of_le (Nat.le_of_not_lt hge)] at hdrop
        cases hdrop
      have hcons := List.drop_eq_getElem_cons hlt
      rw [hdrop, Nat.sub_add_cancel hi] at hcons
      obtain ⟨hu, hrest⟩ := List.cons.inj hcons
      refine ⟨fun v hv => ?_, Timers.cancel hi htimers _, hrest.symm, by
        change i ≤ j.paused.length
        omega⟩
      -- the timer that is stopped is not that of a unit which is down
      obtain ⟨k, hk⟩ := hj.given v hv
      refine ⟨k, List.mem_filter.2 ⟨hk, ?_⟩⟩
      have hne : k ≠ i := by
        rintro rfl
        have htimer : (k - 1 + 1, u) ∈ j.armed :=
          htimers.place (k - 1) u le_rfl
            (by rw [List.getElem?_eq_getElem hlt, hu])
        rw [Nat.sub_add_cancel hi] at htimer
        rw [htimers.unique k v u hk htimer] at hv
        exact hup k u rest hpos hv
      simpa using hne
  | _ => simp [Job.step, hpos] at hstep

theorem Job.Inv.step {j' : Job} {act : Act} (hj : j.Inv) (hfits : j.Fits act)
    (hstep : j.step act = some j') : j'.Inv := by
  cases act with
  | look => exact hj.look hstep
  | arm ok => exact hj.arm hstep
  | stop ok stopped => exact hj.stop hstep
  | note => exact hj.note hfits hstep
  | finish => exact hj.toFinish hstep
  | start ok => exact hj.start hstep
  | cancel ok => exact hj.cancel hfits hstep
  | kill =>
      cases hpos : j.pos with
      | ended | dead => simp [Job.step, hpos] at hstep
      | _ =>
          simp only [Job.step, hpos, Option.some.injEq] at hstep
          subst hstep
          exact ⟨hj.given, trivial⟩

theorem Job.Inv.sound (hj : j.Inv) : j.Sound where
  given := hj.given
  quiet := by
    intro hended _ u hu i hi
    have htimers := hj.posOk
    rw [hended] at htimers
    have hlt := (htimers.bounds i u hi).1
    have hle := htimers.only u hu i hi
    omega

/-- Whatever units are paused and wherever the job is signalled or killed, the
units it has stopped are started by `finish` or have a timer, and those that
`finish` has started have none, if the numbers of the timers are the places in
`PAUSED` and no timer is stopped for a unit that is not started. -/
theorem given_back_of_fits (units : List Text) (active : Text → Bool) (j : Job)
    (h : Reach Job.step Job.Fits (Job.init units active) j) : j.Sound :=
  (h.inv (inv_init units active) fun _ _ _ hj hfits hstep =>
    hj.step hfits hstep).sound

/-- A job that pauses one unit and gives it back. -/
theorem given_back_of_fits_oneUnit :
    ∃ j, exec Job.step (Job.init ["app".toList] fun _ => true)
        [.look, .arm true, .stop true true, .note, .finish, .start true,
          .cancel true, .start true] = some j ∧ j.Sound := by
  have h₁ := (Reach.refl :
    Reach Job.step Job.Fits (Job.init ["app".toList] fun _ => true) _)
  have h₂ := h₁.step (a := Act.look) trivial rfl
  have h₃ := h₂.step (a := Act.arm true) trivial rfl
  have h₄ := h₃.step (a := Act.stop true true) trivial rfl
  have h₅ := h₄.step (a := Act.note) rfl rfl
  have h₆ := h₅.step (a := Act.finish) trivial rfl
  have h₇ := h₆.step (a := Act.start true) trivial rfl
  have h₈ := h₇.step (a := Act.cancel true)
    ⟨rfl, fun i u rest hpos hu => by cases hpos; exact absurd hu (by decide)⟩ rfl
  exact ⟨_, rfl, given_back_of_fits _ _ _ (h₈.step (a := Act.start true) trivial rfl)⟩

/-- The first unit is stopped by a call that fails, so the second is the first
in `PAUSED`: its restore stops the timer of the first. -/
theorem not_sound_failedStop :
    ¬ ∀ j, ReachAny Job.step
      (Job.init ["app".toList, "sync".toList] fun _ => true) j → j.Sound := by
  intro h
  have hexec : exec Job.step
      (Job.init ["app".toList, "sync".toList] fun _ => true)
      [.look, .arm true, .stop false true, .look, .arm true, .stop true true,
        .note, .finish, .start true, .cancel true] =
      some _ := rfl
  have hsound := h _ (Reach.exec Reach.refl hexec)
  obtain ⟨i, hi⟩ := hsound.given "app".toList (by decide)
  have htimers : (i, "app".toList) ∈ [(2, "sync".toList)] := hi
  rw [List.mem_singleton] at htimers
  exact absurd (Prod.mk.inj htimers).2 (by decide)

end Invariant

end PausedUnits
end Experiments
end Kelt
