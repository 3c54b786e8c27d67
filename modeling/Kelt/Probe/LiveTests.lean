import Kelt.Lib.Runs
import Mathlib.Logic.Function.Basic

/-!
# Live tests of the probe

A client starts a benchmark or a ping test, stops it, or goes away; each test is a
thread of its own that runs processes and registers them in `_active_procs` under
the client. A start ends the processes that are registered, a stop takes them out
and ends them after that, and a thread does so when it leaves. A thread between
`Popen` and the registration is not seen by any of these.

Under every order of steps, a process ends by itself or by a step of its own client
(`ends_by_client`), and a test that ends without an exception leaves no process
behind (`nothing_left`). But nothing tells a thread that it has been stopped: a
test runs as many processes as it was started for, whatever stops come
(`made_of_ended`).
-/

namespace Kelt
namespace Probe
namespace LiveTests

section Threads

/-- `start_live_benchmark`, of one direction or both, or `start_live_ping`. -/
inductive Kind where
  | benchmark (withPing both : Bool)
  | ping
  deriving DecidableEq

/-- Where the thread of a test stands. In `_live_benchmark_thread`: before its
ping, between `Popen` and the registration, before the next run of iperf, between
`Popen` and the registration, at its output, behind `wait`, behind the last run,
in the `finally`. In `_live_ping_thread`: before `Popen`, before the registration,
at the output, and in the `finally` before the two things it does. -/
inductive Place where
  | spawnPing (left : Nat)
  | holdPing (p left : Nat)
  | phase (ping : Option Nat) (left : Nat)
  | hold (ping : Option Nat) (p left : Nat)
  | reading (ping : Option Nat) (p left : Nat)
  | waited (ping : Option Nat) (p left : Nat)
  | closing (ping : Option Nat)
  | fin
  | pingStart
  | pingHold (p : Nat)
  | pingReading (p : Nat)
  | pingFin (p : Option Nat)
  | pingPop
  | ended
  deriving DecidableEq

/-- A thread; `made` counts its processes, `failed` says that a benchmark was left
by an exception. -/
structure Test where
  sid : Nat
  kind : Kind
  place : Place
  made : Nat
  failed : Bool

/-- The threads, the processes with the threads that made them, `_active_procs`,
and the processes that a stop has taken out and not yet ended. -/
structure Live where
  tests : List Test
  alive : Nat → Bool
  maker : Nat → Nat
  next : Nat
  active : Nat → List Nat
  doomed : List (Nat × Nat)

inductive Input where
  | go
  | raised

inductive Action where
  | start (sid : Nat) (kind : Kind)
  | stop (sid : Nat)
  | kill (sid p : Nat)
  | exit (p : Nat)
  | thread (t : Nat) (input : Input)

/-- The runs of iperf. -/
def phases (both : Bool) : Nat :=
  if both then 2 else 1

/-- The processes of a test. -/
def Kind.planned : Kind → Nat
  | .benchmark withPing both => withPing.toNat + phases both
  | .ping => 1

def Kind.first : Kind → Place
  | .benchmark true both => .spawnPing (phases both)
  | .benchmark false both => .phase none (phases both)
  | .ping => .pingStart

def Live.endAll (s : Live) (ps : List Nat) : Live :=
  { s with alive := fun p => s.alive p && p ∉ ps }

def Live.goto (s : Live) (t : Nat) (test : Test) (place : Place) : Live :=
  { s with tests := s.tests.set t { test with place := place } }

/-- `Popen` -/
def Live.spawn (s : Live) (t : Nat) (test : Test) (place : Nat → Place) : Live :=
  { s with
    tests := s.tests.set t { test with
      place := place s.next
      made := test.made + 1 }
    alive := Function.update s.alive s.next true
    maker := Function.update s.maker s.next t
    next := s.next + 1 }

def Live.fail (s : Live) (t : Nat) (test : Test) (place : Place) : Live :=
  { s with tests := s.tests.set t { test with place := place, failed := true } }

def Live.setActive (s : Live) (sid : Nat) (ps : List Nat) : Live :=
  { s with active := Function.update s.active sid ps }

/-- One step of a thread; at the output of a process it waits for its end. -/
def move (s : Live) (t : Nat) (test : Test) : Input → Option Live
  | .go =>
      match test.place with
      | .spawnPing left => some (s.spawn t test (.holdPing · left))
      | .holdPing p left =>
          some ((s.setActive test.sid (s.active test.sid ++ [p])).goto t test
            (.phase (some p) left))
      | .phase ping 0 => some (s.goto t test (.closing ping))
      | .phase ping (left + 1) => some (s.spawn t test (.hold ping · left))
      | .hold ping p left =>
          some ((s.setActive test.sid (s.active test.sid ++ [p])).goto t test
            (.reading ping p left))
      | .reading ping p left =>
          if s.alive p then none else some (s.goto t test (.waited ping p left))
      | .waited ping p left =>
          some ((s.setActive test.sid ((s.active test.sid).erase p)).goto t test
            (.phase ping left))
      | .closing ping => some ((s.endAll ping.toList).goto t test .fin)
      | .fin =>
          some (((s.endAll (s.active test.sid)).setActive test.sid []).goto t test
            .ended)
      | .pingStart => some (s.spawn t test .pingHold)
      | .pingHold p =>
          some ((s.setActive test.sid [p]).goto t test (.pingReading p))
      | .pingReading p =>
          if s.alive p then none else some (s.goto t test (.pingFin (some p)))
      | .pingFin p => some ((s.endAll p.toList).goto t test .pingPop)
      | .pingPop => some ((s.setActive test.sid []).goto t test .ended)
      | .ended => none
  | .raised =>
      match test.place with
      | .spawnPing _ => some (s.fail t test .fin)
      | .phase _ (_ + 1) => some (s.fail t test .fin)
      | .reading _ _ _ => some (s.fail t test .fin)
      | .pingStart => some (s.fail t test (.pingFin none))
      | .pingReading p => some (s.fail t test (.pingFin (some p)))
      | _ => none

def step (s : Live) : Action → Option Live
  | .start sid kind =>
      some { (s.endAll (s.active sid)).setActive sid [] with
        tests := s.tests ++ [⟨sid, kind, kind.first, 0, false⟩] }
  | .stop sid =>
      some { s.setActive sid [] with
        doomed := s.doomed ++ (s.active sid).map (sid, ·) }
  | .kill sid p =>
      if s.doomed.contains (sid, p) then
        some { s.endAll [p] with doomed := s.doomed.erase (sid, p) }
      else none
  | .exit p => some (s.endAll [p])
  | .thread t input =>
      match s.tests[t]? with
      | some test => move s t test input
      | none => none

def idle : Live where
  tests := []
  alive := fun _ => false
  maker := fun _ => 0
  next := 0
  active := fun _ => []
  doomed := []

/-- The client of a process. -/
def Live.owner (s : Live) (p : Nat) : Option Nat :=
  s.tests[s.maker p]?.map Test.sid

/-- The client that takes a step. -/
def Live.client (s : Live) : Action → Option Nat
  | .start sid _ => some sid
  | .stop sid => some sid
  | .kill sid _ => some sid
  | .exit _ => none
  | .thread t _ => s.tests[t]?.map Test.sid

end Threads

section Invariant

/-- The processes that a thread still looks after. -/
def Place.holds : Place → List Nat
  | .holdPing p _ => [p]
  | .phase ping _ => ping.toList
  | .hold ping p _ => p :: ping.toList
  | .reading ping p _ => p :: ping.toList
  | .waited ping _ _ => ping.toList
  | .closing ping => ping.toList
  | .pingHold p => [p]
  | .pingReading p => [p]
  | .pingFin p => p.toList
  | _ => []

/-- The processes that are to be made. -/
def Place.left : Place → Nat
  | .spawnPing left => left + 1
  | .holdPing _ left => left
  | .phase _ left => left
  | .hold _ _ left => left
  | .reading _ _ left => left
  | .waited _ _ left => left
  | .pingStart => 1
  | _ => 0

/-- The places of a ping test. -/
def Place.isPing : Place → Bool
  | .pingStart => true
  | .pingHold _ => true
  | .pingReading _ => true
  | .pingFin _ => true
  | .pingPop => true
  | .ended => true
  | _ => false

/-- A thread and its processes: what it looks after is its own, what lives it looks
after, and it makes as many as planned. -/
structure Test.Ok (s : Live) (t : Nat) (test : Test) : Prop where
  place : test.kind = .ping → test.place.isPing = true
  holds : ∀ p ∈ test.place.holds, p < s.next ∧ s.maker p = t
  living : test.failed = false ∨ test.kind = .ping →
    ∀ p < s.next, s.maker p = t → s.alive p = true → p ∈ test.place.holds
  made : test.failed = false → test.made + test.place.left = test.kind.planned

/-- A process that is registered under a client, or taken out, is one of the
client. -/
structure Live.Ok (s : Live) : Prop where
  tests : ∀ t test, s.tests[t]? = some test → Test.Ok s t test
  makers : ∀ p < s.next, s.maker p < s.tests.length
  active : ∀ sid, ∀ p ∈ s.active sid, p < s.next ∧ s.owner p = some sid
  doomed : ∀ sid p, (sid, p) ∈ s.doomed → p < s.next ∧ s.owner p = some sid

/-- No process comes back, and the new ones are those of one thread. -/
structure Later (s s' : Live) (t : Nat) : Prop where
  next : s.next ≤ s'.next
  maker : ∀ p < s.next, s'.maker p = s.maker p
  alive : ∀ p < s.next, s'.alive p = true → s.alive p = true
  new : ∀ p, s.next ≤ p → p < s'.next → s'.maker p = t

variable {s s' : Live} {t t' : Nat} {test test' : Test}

/-- The other threads see nothing of it. -/
theorem Test.Ok.of_later (h : Test.Ok s t' test) (hlater : Later s s' t)
    (hne : t' ≠ t) : Test.Ok s' t' test where
  place := h.place
  holds := fun p hp => by
    obtain ⟨hlt, hmaker⟩ := h.holds p hp
    exact ⟨lt_of_lt_of_le hlt hlater.next, (hlater.maker p hlt).trans hmaker⟩
  living := fun hor p hlt hmaker halive => by
    by_cases hold : p < s.next
    · rw [hlater.maker p hold] at hmaker
      exact h.living hor p hold hmaker (hlater.alive p hold halive)
    · exact absurd (hmaker.symm.trans (hlater.new p (not_lt.1 hold) hlt)) hne
  made := h.made

/-- The thread goes on to a place where it looks after the same processes, but for
those that do not live. -/
theorem Test.Ok.goto (h : Test.Ok s t test) (hlater : Later s s' t)
    (hnext : s'.next = s.next) {place : Place}
    (hsub : ∀ p ∈ place.holds, p ∈ test.place.holds)
    (hdead : ∀ p ∈ test.place.holds, p ∉ place.holds → s'.alive p = false)
    (hleft : place.left = test.place.left)
    (hping : test.place.isPing = true → place.isPing = true) :
    Test.Ok s' t { test with place := place } where
  place := fun hkind => hping (h.place hkind)
  holds := fun p hp => by
    obtain ⟨hlt, hmaker⟩ := h.holds p (hsub p hp)
    exact ⟨hnext ▸ hlt, (hlater.maker p hlt).trans hmaker⟩
  living := fun hor p hlt hmaker halive => by
    rw [hnext] at hlt
    rw [hlater.maker p hlt] at hmaker
    have hmem := h.living hor p hlt hmaker (hlater.alive p hlt halive)
    by_contra hnot
    exact Bool.false_ne_true ((hdead p hmem hnot).symm.trans halive)
  made := fun hfailed => by
    change test.made + place.left = _
    rw [hleft]
    exact h.made hfailed

theorem Test.Ok.spawn (h : Test.Ok s t test) {place : Nat → Place}
    (hholds : ∀ p, (place p).holds = p :: test.place.holds)
    (hleft : (place s.next).left + 1 = test.place.left)
    (hping : test.place.isPing = true → (place s.next).isPing = true) :
    Test.Ok (s.spawn t test place) t { test with
      place := place s.next
      made := test.made + 1 } where
  place := fun hkind => hping (h.place hkind)
  holds := fun p hp => by
    rw [hholds, List.mem_cons] at hp
    rcases hp with rfl | hp
    · exact ⟨Nat.lt_succ_self _, Function.update_self ..⟩
    · obtain ⟨hlt, hmaker⟩ := h.holds p hp
      exact ⟨Nat.lt_succ_of_lt hlt,
        (Function.update_of_ne (Nat.ne_of_lt hlt) ..).trans hmaker⟩
  living := fun hor p hlt hmaker halive => by
    rw [hholds, List.mem_cons]
    by_cases heq : p = s.next
    · exact .inl heq
    · have hold : p < s.next := lt_of_le_of_ne (Nat.lt_succ_iff.1 hlt) heq
      simp only [Live.spawn, Function.update_of_ne heq] at hmaker halive
      exact .inr (h.living hor p hold hmaker halive)
  made := fun hfailed => by
    have hmade := h.made hfailed
    change test.made + 1 + (place s.next).left = test.kind.planned
    omega

/-- A benchmark is left by an exception. -/
theorem Test.Ok.fail (h : Test.Ok s t test) (hping : test.place.isPing = false) :
    Test.Ok (s.fail t test .fin) t { test with
      place := .fin
      failed := true } := by
  have hkind : test.kind ≠ .ping := fun hkind =>
    Bool.false_ne_true (hping.symm.trans (h.place hkind))
  exact ⟨fun heq => absurd heq hkind, nofun,
    fun hor => absurd (hor.resolve_left nofun) hkind, nofun⟩

/-- A ping test is left by an exception. -/
theorem Test.Ok.failPing (h : Test.Ok s t test) {place : Place}
    (hping : test.place.isPing = true → place.isPing = true)
    (hholds : place.holds = test.place.holds) :
    Test.Ok (s.fail t test place) t { test with
      place := place
      failed := true } where
  place := fun hkind => hping (h.place hkind)
  holds := fun p hp => h.holds p (hholds ▸ hp)
  living := fun hor p hlt hmaker halive =>
    hholds ▸ h.living (.inr (hor.resolve_left nofun)) p hlt hmaker halive
  made := nofun

theorem Later.refl_of (hnext : s'.next = s.next) (hmaker : s'.maker = s.maker)
    (halive : ∀ p, s'.alive p = true → s.alive p = true) : Later s s' t where
  next := hnext.ge
  maker := fun p _ => congrFun hmaker p
  alive := fun p _ => halive p
  new := fun _ hle hlt => absurd (hnext ▸ hlt) (not_lt.2 hle)

theorem later_spawn (place : Nat → Place) :
    Later s (s.spawn t test place) t where
  next := Nat.le_succ _
  maker := fun p hlt => Function.update_of_ne (Nat.ne_of_lt hlt) ..
  alive := fun p hlt h => by
    simpa only [Live.spawn, Function.update_of_ne (Nat.ne_of_lt hlt)] using h
  new := fun p hle hlt => by
    obtain rfl : p = s.next := le_antisymm (Nat.lt_succ_iff.1 hlt) hle
    exact Function.update_self ..

/-- A step of one thread keeps the invariant. -/
theorem Live.Ok.set (h : s.Ok) (ht : s.tests[t]? = some test)
    (htests : s'.tests = s.tests.set t test') (hsid : test'.sid = test.sid)
    (hlater : Later s s' t) (hown : Test.Ok s' t test')
    (hactive : ∀ sid, ∀ p ∈ s'.active sid,
      p ∈ s.active sid ∨ sid = test.sid ∧ p < s'.next ∧ s'.maker p = t)
    (hdoomed : s'.doomed = s.doomed) : s'.Ok := by
  have hlt : t < s.tests.length := (List.getElem?_eq_some_iff.1 ht).1
  have hself : s'.tests[t]? = some test' := by
    rw [htests, List.getElem?_set_self hlt]
  have hsids : ∀ t' : Nat, s'.tests[t']?.map Test.sid = s.tests[t']?.map Test.sid := by
    intro t'
    by_cases heq : t' = t
    · rw [heq, hself, ht]
      exact congrArg some hsid
    · rw [htests, List.getElem?_set_ne (Ne.symm heq)]
  have howner : ∀ p < s.next, s'.owner p = s.owner p := by
    intro p hp
    unfold Live.owner
    rw [hlater.maker p hp, hsids]
  refine ⟨fun t' test'' ht' => ?_, fun p hp => ?_, fun sid p hp => ?_,
    fun sid p hp => ?_⟩
  · by_cases heq : t' = t
    · subst heq
      obtain rfl := Option.some.inj (hself.symm.trans ht')
      exact hown
    · rw [htests, List.getElem?_set_ne (Ne.symm heq)] at ht'
      exact (h.tests t' test'' ht').of_later hlater heq
  · rw [htests, List.length_set]
    by_cases hold : p < s.next
    · rw [hlater.maker p hold]
      exact h.makers p hold
    · rw [hlater.new p (not_lt.1 hold) hp]
      exact hlt
  · rcases hactive sid p hp with hp | ⟨rfl, hp, hmaker⟩
    · obtain ⟨hold, hown⟩ := h.active sid p hp
      exact ⟨lt_of_lt_of_le hold hlater.next, (howner p hold).trans hown⟩
    · refine ⟨hp, ?_⟩
      unfold Live.owner
      rw [hmaker, hself, ← hsid]
      rfl
  · rw [hdoomed] at hp
    obtain ⟨hold, hown⟩ := h.doomed sid p hp
    exact ⟨lt_of_lt_of_le hold hlater.next, (howner p hold).trans hown⟩

/-- A thread goes on without a new process. -/
theorem Live.Ok.goto (h : s.Ok) (ht : s.tests[t]? = some test) {place : Place}
    (htests : s'.tests = s.tests.set t { test with place := place })
    (hnext : s'.next = s.next) (hmaker : s'.maker = s.maker)
    (halive : ∀ p, s'.alive p = true → s.alive p = true)
    (hdoomed : s'.doomed = s.doomed)
    (hactive : ∀ sid, ∀ p ∈ s'.active sid,
      p ∈ s.active sid ∨ sid = test.sid ∧ p ∈ test.place.holds)
    (hsub : ∀ p ∈ place.holds, p ∈ test.place.holds)
    (hdead : ∀ p ∈ test.place.holds, p ∉ place.holds → s'.alive p = false)
    (hleft : place.left = test.place.left)
    (hping : test.place.isPing = true → place.isPing = true) : s'.Ok := by
  have hlater : Later s s' t := Later.refl_of hnext hmaker halive
  have hown := h.tests t test ht
  refine h.set ht htests rfl hlater
    (hown.goto hlater hnext hsub hdead hleft hping) ?_ hdoomed
  intro sid p hp
  rcases hactive sid p hp with hold | ⟨rfl, hheld⟩
  · exact .inl hold
  · obtain ⟨hlt, hmade⟩ := hown.holds p hheld
    exact .inr ⟨rfl, hnext ▸ hlt, (congrFun hmaker p).trans hmade⟩

theorem Live.Ok.spawn (h : s.Ok) (ht : s.tests[t]? = some test)
    {place : Nat → Place}
    (hholds : ∀ p, (place p).holds = p :: test.place.holds)
    (hleft : (place s.next).left + 1 = test.place.left)
    (hping : test.place.isPing = true → (place s.next).isPing = true) :
    (s.spawn t test place).Ok :=
  h.set ht rfl rfl (later_spawn place)
    ((h.tests t test ht).spawn hholds hleft hping) (fun _ _ hp => .inl hp) rfl

theorem Live.Ok.fail (h : s.Ok) (ht : s.tests[t]? = some test) {place : Place}
    (hown : Test.Ok (s.fail t test place) t { test with
      place := place
      failed := true }) : (s.fail t test place).Ok :=
  h.set ht rfl rfl (Later.refl_of rfl rfl fun _ hp => hp) hown
    (fun _ _ hp => .inl hp) rfl

theorem mem_setActive {sid : Nat} {ps : List Nat} {p : Nat}
    (hp : p ∈ (s.setActive test.sid ps).active sid) :
    p ∈ s.active sid ∨ sid = test.sid ∧ p ∈ ps := by
  change p ∈ Function.update s.active test.sid ps sid at hp
  by_cases heq : sid = test.sid
  · subst heq
    rw [Function.update_self] at hp
    exact .inr ⟨rfl, hp⟩
  · rw [Function.update_of_ne heq] at hp
    exact .inl hp

theorem ok_move (h : s.Ok) (ht : s.tests[t]? = some test) {input : Input}
    (hmove : move s t test input = some s') : s'.Ok := by
  obtain ⟨sid, kind, place, made, failed⟩ := test
  have hkept {ps : List Nat} : ∀ p, (s.endAll ps).alive p = true →
      s.alive p = true := fun p hp => (Bool.and_eq_true_iff.1 hp).1
  have hended {ps : List Nat} {p : Nat} (hp : p ∈ ps) :
      (s.endAll ps).alive p = false := by
    simp [Live.endAll, hp]
  cases input with
  | go =>
      cases place with
      | spawnPing left =>
          obtain rfl := Option.some.inj hmove
          exact h.spawn ht (fun _ => rfl) rfl nofun
      | holdPing p left =>
          obtain rfl := Option.some.inj hmove
          refine h.goto ht rfl rfl rfl (fun _ hp => hp) rfl (fun sid' q hq => ?_)
            (fun _ hq => hq) (fun _ hq hnot => absurd hq hnot) rfl nofun
          refine (mem_setActive hq).elim .inl fun ⟨heq, hmem⟩ => ?_
          exact (List.mem_append.1 hmem).imp (heq ▸ ·) (⟨heq, ·⟩)
      | phase ping left =>
          cases left with
          | zero =>
              obtain rfl := Option.some.inj hmove
              exact h.goto ht rfl rfl rfl (fun _ hp => hp) rfl
                (fun _ _ hq => .inl hq) (fun _ hq => hq)
                (fun _ hq hnot => absurd hq hnot) rfl nofun
          | succ left =>
              obtain rfl := Option.some.inj hmove
              exact h.spawn ht (fun _ => rfl) rfl nofun
      | hold ping p left =>
          obtain rfl := Option.some.inj hmove
          refine h.goto ht rfl rfl rfl (fun _ hp => hp) rfl (fun sid' q hq => ?_)
            (fun _ hq => hq) (fun _ hq hnot => absurd hq hnot) rfl nofun
          refine (mem_setActive hq).elim .inl fun ⟨heq, hmem⟩ => ?_
          refine (List.mem_append.1 hmem).imp (heq ▸ ·) fun hp => ⟨heq, ?_⟩
          exact List.mem_cons.2 (.inl (List.mem_singleton.1 hp))
      | reading ping p left =>
          simp only [move] at hmove
          split at hmove
          · cases hmove
          · rename_i hdead
            obtain rfl := Option.some.inj hmove
            refine h.goto ht rfl rfl rfl (fun _ hp => hp) rfl
              (fun _ _ hq => .inl hq) (fun _ hq => List.mem_cons_of_mem p hq)
              (fun q hq hnot => ?_) rfl nofun
            rcases List.mem_cons.1 hq with rfl | hq
            · exact Bool.not_eq_true _ ▸ hdead
            · exact absurd hq hnot
      | waited ping p left =>
          obtain rfl := Option.some.inj hmove
          refine h.goto ht rfl rfl rfl (fun _ hp => hp) rfl (fun sid' q hq => ?_)
            (fun _ hq => hq) (fun _ hq hnot => absurd hq hnot) rfl nofun
          refine (mem_setActive hq).elim .inl fun ⟨heq, hmem⟩ => ?_
          exact .inl (heq ▸ List.mem_of_mem_erase hmem)
      | closing ping =>
          obtain rfl := Option.some.inj hmove
          exact h.goto ht rfl rfl rfl hkept rfl (fun _ _ hq => .inl hq) nofun
            (fun q hq _ => hended hq) rfl nofun
      | fin =>
          obtain rfl := Option.some.inj hmove
          refine h.goto ht rfl rfl rfl hkept rfl (fun sid' q hq => ?_) nofun nofun
            rfl nofun
          exact (mem_setActive hq).elim .inl fun ⟨_, hmem⟩ => nomatch hmem
      | pingStart =>
          obtain rfl := Option.some.inj hmove
          exact h.spawn ht (fun _ => rfl) rfl fun _ => rfl
      | pingHold p =>
          obtain rfl := Option.some.inj hmove
          exact h.goto ht rfl rfl rfl (fun _ hp => hp) rfl
            (fun sid' q hq => mem_setActive hq) (fun _ hq => hq)
            (fun _ hq hnot => absurd hq hnot) rfl fun _ => rfl
      | pingReading p =>
          simp only [move] at hmove
          split at hmove
          · cases hmove
          · obtain rfl := Option.some.inj hmove
            exact h.goto ht rfl rfl rfl (fun _ hp => hp) rfl
              (fun _ _ hq => .inl hq) (fun _ hq => hq)
              (fun _ hq hnot => absurd hq hnot) rfl fun _ => rfl
      | pingFin p =>
          obtain rfl := Option.some.inj hmove
          exact h.goto ht rfl rfl rfl hkept rfl (fun _ _ hq => .inl hq) nofun
            (fun q hq _ => hended hq) rfl fun _ => rfl
      | pingPop =>
          obtain rfl := Option.some.inj hmove
          refine h.goto ht rfl rfl rfl (fun _ hp => hp) rfl (fun sid' q hq => ?_)
            nofun nofun rfl fun _ => rfl
          exact (mem_setActive hq).elim .inl fun ⟨_, hmem⟩ => nomatch hmem
      | ended => cases hmove
  | raised =>
      have hown := h.tests t _ ht
      cases place with
      | spawnPing left =>
          obtain rfl := Option.some.inj hmove
          exact h.fail ht (hown.fail rfl)
      | phase ping left =>
          cases left with
          | zero => cases hmove
          | succ left =>
              obtain rfl := Option.some.inj hmove
              exact h.fail ht (hown.fail rfl)
      | reading ping p left =>
          obtain rfl := Option.some.inj hmove
          exact h.fail ht (hown.fail rfl)
      | pingStart =>
          obtain rfl := Option.some.inj hmove
          exact h.fail ht (hown.failPing (fun _ => rfl) rfl)
      | pingReading p =>
          obtain rfl := Option.some.inj hmove
          exact h.fail ht (hown.failPing (fun _ => rfl) rfl)
      | holdPing p left => cases hmove
      | hold ping p left => cases hmove
      | waited ping p left => cases hmove
      | closing ping => cases hmove
      | fin => cases hmove
      | pingHold p => cases hmove
      | pingFin p => cases hmove
      | pingPop => cases hmove
      | ended => cases hmove

/-- A step that makes no process and moves no thread keeps the invariant. -/
theorem Live.Ok.of_less (h : s.Ok) (htests : s'.tests = s.tests)
    (hnext : s'.next = s.next) (hmaker : s'.maker = s.maker)
    (halive : ∀ p, s'.alive p = true → s.alive p = true)
    (hactive : ∀ sid, ∀ p ∈ s'.active sid, p ∈ s.active sid)
    (hdoomed : ∀ sid p, (sid, p) ∈ s'.doomed →
      (sid, p) ∈ s.doomed ∨ p ∈ s.active sid) : s'.Ok := by
  have howner : ∀ p, s'.owner p = s.owner p := by
    intro p
    unfold Live.owner
    rw [htests, hmaker]
  refine ⟨fun t test ht => ?_, fun p hp => ?_, fun sid p hp => ?_,
    fun sid p hp => ?_⟩
  · have hold := h.tests t test (htests ▸ ht)
    exact ⟨hold.place, hnext ▸ hmaker ▸ hold.holds, fun hor p hlt hm hal =>
      hold.living hor p (hnext ▸ hlt) (hmaker ▸ hm) (halive p hal), hold.made⟩
  · rw [htests, hmaker]
    exact h.makers p (hnext ▸ hp)
  · rw [hnext, howner]
    exact h.active sid p (hactive sid p hp)
  · rw [hnext, howner]
    exact (hdoomed sid p hp).elim (h.doomed sid p) (h.active sid p)

theorem Live.Ok.start (h : s.Ok) (sid : Nat) (kind : Kind) :
    Live.Ok { s with tests := s.tests ++ [⟨sid, kind, kind.first, 0, false⟩] } := by
  have hold : ∀ t < s.tests.length,
      (s.tests ++ [⟨sid, kind, kind.first, 0, false⟩])[t]? = s.tests[t]? :=
    fun t ht => List.getElem?_append_left ht
  have howner : ∀ p < s.next, Live.owner { s with
      tests := s.tests ++ [⟨sid, kind, kind.first, 0, false⟩] } p =
        s.owner p := by
    intro p hp
    unfold Live.owner
    rw [hold _ (h.makers p hp)]
  refine ⟨fun t test ht => ?_, fun p hp => ?_, fun sid' p hp => ?_,
    fun sid' p hp => ?_⟩
  · by_cases hlt : t < s.tests.length
    · have hsame := h.tests t test ((hold t hlt).symm.trans ht)
      exact ⟨hsame.place, hsame.holds, hsame.living, hsame.made⟩
    · obtain ⟨hlength, hget⟩ := List.getElem?_eq_some_iff.1 ht
      rw [List.length_append, List.length_singleton] at hlength
      obtain rfl : t = s.tests.length := by omega
      simp only [List.getElem_concat_length] at hget
      subst hget
      refine ⟨?_, ?_, fun _ p hp hmaker _ => ?_, fun _ => ?_⟩
      · rintro rfl
        rfl
      · cases kind with
        | benchmark withPing both => cases withPing <;> nofun
        | ping => nofun
      · exact absurd hmaker (Nat.ne_of_lt (h.makers p hp))
      · cases kind with
        | benchmark withPing both => cases withPing <;> simp [Kind.first,
            Place.left, Kind.planned, Nat.add_comm]
        | ping => rfl
  · rw [List.length_append]
    exact Nat.lt_add_right _ (h.makers p hp)
  · obtain ⟨hlt, hown⟩ := h.active sid' p hp
    exact ⟨hlt, (howner p hlt).trans hown⟩
  · obtain ⟨hlt, hown⟩ := h.doomed sid' p hp
    exact ⟨hlt, (howner p hlt).trans hown⟩

theorem ok_step (h : s.Ok) {a : Action} (hstep : step s a = some s') :
    s'.Ok := by
  have hkept {ps : List Nat} : ∀ p, (s.endAll ps).alive p = true →
      s.alive p = true := fun p hp => (Bool.and_eq_true_iff.1 hp).1
  have hcleared {sid : Nat} : ∀ sid', ∀ p ∈ (s.setActive sid []).active sid',
      p ∈ s.active sid' := by
    intro sid' p hp
    change p ∈ Function.update s.active sid [] sid' at hp
    by_cases heq : sid' = sid
    · rw [heq, Function.update_self] at hp
      cases hp
    · rwa [Function.update_of_ne heq] at hp
  cases a with
  | start sid kind =>
      obtain rfl := Option.some.inj hstep
      have hended : ((s.endAll (s.active sid)).setActive sid []).Ok :=
        h.of_less rfl rfl rfl hkept hcleared fun _ _ hp => .inl hp
      exact hended.start sid kind
  | stop sid =>
      obtain rfl := Option.some.inj hstep
      refine h.of_less rfl rfl rfl (fun _ hp => hp) hcleared fun sid' p hp => ?_
      rcases List.mem_append.1 hp with hp | hp
      · exact .inl hp
      · obtain ⟨q, hq, heq⟩ := List.mem_map.1 hp
        cases heq
        exact .inr hq
  | kill sid p =>
      simp only [step] at hstep
      split at hstep
      · obtain rfl := Option.some.inj hstep
        exact h.of_less rfl rfl rfl hkept (fun _ _ hp => hp) fun _ _ hp =>
          .inl (List.mem_of_mem_erase hp)
      · cases hstep
  | exit p =>
      obtain rfl := Option.some.inj hstep
      exact h.of_less rfl rfl rfl hkept (fun _ _ hp => hp) fun _ _ hp => .inl hp
  | thread t input =>
      simp only [step] at hstep
      split at hstep
      · exact ok_move h ‹_› hstep
      · cases hstep

theorem ok_idle : idle.Ok :=
  ⟨nofun, nofun, nofun, nofun⟩

theorem ok_of_reach (h : ReachAny step idle s) : s.Ok :=
  h.inv ok_idle fun _ _ _ hs _ hstep => ok_step hs hstep

end Invariant

section Runs

variable {s s' : Live} {t : Nat} {test : Test} {p : Nat}

theorem mem_of_endAll {ps : List Nat} (halive : s.alive p = true)
    (hended : (s.endAll ps).alive p = false) : p ∈ ps := by
  change (s.alive p && decide (p ∉ ps)) = false at hended
  by_contra hnot
  simp [halive, hnot] at hended

/-- What a thread ends it looks after, or it is registered under the client. -/
theorem mem_of_move {input : Input} (hmove : move s t test input = some s')
    (hp : p < s.next) (halive : s.alive p = true)
    (hended : s'.alive p = false) :
    p ∈ test.place.holds ∨ p ∈ s.active test.sid := by
  obtain ⟨sid, kind, place, made, failed⟩ := test
  have hkept (heq : s'.alive = s.alive) : False := by
    rw [heq, halive] at hended
    cases hended
  have hspawned (heq : s'.alive = Function.update s.alive s.next true) :
      False := by
    rw [heq, Function.update_of_ne (Nat.ne_of_lt hp), halive] at hended
    cases hended
  cases input with
  | raised =>
      simp only [move] at hmove
      split at hmove <;> cases hmove <;> exact absurd rfl hkept
  | go =>
      cases place with
      | spawnPing left => exact absurd (Option.some.inj hmove ▸ rfl) hspawned
      | holdPing q left => exact absurd (Option.some.inj hmove ▸ rfl) hkept
      | phase ping left =>
          cases left with
          | zero => exact absurd (Option.some.inj hmove ▸ rfl) hkept
          | succ left => exact absurd (Option.some.inj hmove ▸ rfl) hspawned
      | hold ping q left => exact absurd (Option.some.inj hmove ▸ rfl) hkept
      | reading ping q left =>
          simp only [move] at hmove
          split at hmove
          · cases hmove
          · exact absurd (Option.some.inj hmove ▸ rfl) hkept
      | waited ping q left => exact absurd (Option.some.inj hmove ▸ rfl) hkept
      | closing ping =>
          obtain rfl := Option.some.inj hmove
          exact .inl (mem_of_endAll halive hended)
      | fin =>
          obtain rfl := Option.some.inj hmove
          exact .inr (mem_of_endAll halive hended)
      | pingStart => exact absurd (Option.some.inj hmove ▸ rfl) hspawned
      | pingHold q => exact absurd (Option.some.inj hmove ▸ rfl) hkept
      | pingReading q =>
          simp only [move] at hmove
          split at hmove
          · cases hmove
          · exact absurd (Option.some.inj hmove ▸ rfl) hkept
      | pingFin q =>
          obtain rfl := Option.some.inj hmove
          exact .inl (mem_of_endAll halive hended)
      | pingPop => exact absurd (Option.some.inj hmove ▸ rfl) hkept
      | ended => cases hmove

/-- No step of one client ends a process of another. -/
theorem ends_by_client (h : ReachAny step idle s) {a : Action}
    (hstep : step s a = some s') (hp : p < s.next) (halive : s.alive p = true)
    (hended : s'.alive p = false) :
    a = .exit p ∨ ∃ sid, s.client a = some sid ∧ s.owner p = some sid := by
  have hok := ok_of_reach h
  cases a with
  | start sid kind =>
      obtain rfl := Option.some.inj hstep
      exact .inr ⟨sid, rfl, (hok.active sid p (mem_of_endAll halive hended)).2⟩
  | stop sid =>
      obtain rfl := Option.some.inj hstep
      exact absurd (halive.symm.trans hended) nofun
  | kill sid q =>
      simp only [step] at hstep
      split at hstep
      · rename_i hmem
        obtain rfl := Option.some.inj hstep
        obtain rfl := List.mem_singleton.1 (mem_of_endAll halive hended)
        exact .inr ⟨sid, rfl, (hok.doomed sid p (List.contains_iff_mem.1 hmem)).2⟩
      · cases hstep
  | exit q =>
      obtain rfl := Option.some.inj hstep
      obtain rfl := List.mem_singleton.1 (mem_of_endAll halive hended)
      exact .inl rfl
  | thread t input =>
      simp only [step] at hstep
      split at hstep
      · rename_i test ht
        refine .inr ⟨test.sid, by simp [Live.client, ht], ?_⟩
        rcases mem_of_move hstep hp halive hended with hheld | hactive
        · unfold Live.owner
          rw [((hok.tests t test ht).holds p hheld).2, ht]
          rfl
        · exact (hok.active test.sid p hactive).2
      · cases hstep

/-- A test that has ended without an exception, and every ping test that has ended,
has left no process behind. -/
theorem nothing_left (h : ReachAny step idle s) (ht : s.tests[t]? = some test)
    (hended : test.place = .ended)
    (hfailed : test.failed = false ∨ test.kind = .ping)
    (hp : p < s.next) (hmaker : s.maker p = t) : s.alive p = false := by
  by_contra halive
  have hheld := ((ok_of_reach h).tests t test ht).living hfailed p hp hmaker
    (Bool.not_eq_false _ ▸ halive)
  rw [hended] at hheld
  cases hheld

/-- A test that has ended without an exception has made all its processes, however
often it was stopped. -/
theorem made_of_ended (h : ReachAny step idle s) (ht : s.tests[t]? = some test)
    (hended : test.place = .ended) (hfailed : test.failed = false) :
    test.made = test.kind.planned := by
  have hmade := ((ok_of_reach h).tests t test ht).made hfailed
  rwa [hended] at hmade

/-- A benchmark of both directions that is stopped in the first. -/
def stoppedEarly : List Action :=
  [.start 7 (.benchmark false true), .thread 0 .go, .thread 0 .go, .stop 7,
    .kill 7 0, .thread 0 .go, .thread 0 .go, .thread 0 .go, .thread 0 .go,
    .exit 1, .thread 0 .go, .thread 0 .go, .thread 0 .go, .thread 0 .go,
    .thread 0 .go]

theorem exists_stoppedEarly : ∃ s test, ReachAny step idle s ∧
    s.tests[0]? = some test ∧ test.place = .ended ∧ test.failed = false ∧
      test.kind = .benchmark false true ∧ s.next = 2 ∧ s.maker 1 = 0 :=
  ⟨_, _, Reach.exec .refl (show exec _ _ stoppedEarly = some _ from rfl), rfl,
    rfl, rfl, rfl, rfl, rfl⟩

/-- It has run iperf in both. -/
theorem made_stoppedEarly : ∃ s test, ReachAny step idle s ∧
    s.tests[0]? = some test ∧ test.made = 2 := by
  obtain ⟨s, test, h, ht, hended, hfailed, hkind, -⟩ := exists_stoppedEarly
  refine ⟨s, test, h, ht, ?_⟩
  rw [made_of_ended h ht hended hfailed, hkind]
  rfl

/-- It has left none of the two behind. -/
theorem nothing_left_stoppedEarly : ∃ s, ReachAny step idle s ∧
    s.maker 1 = 0 ∧ s.alive 1 = false := by
  obtain ⟨s, test, h, ht, hended, hfailed, -, hnext, hmaker⟩ :=
    exists_stoppedEarly
  exact ⟨s, h, hmaker,
    nothing_left h ht hended (.inl hfailed) (hnext ▸ by decide) hmaker⟩

/-- A stop that ends the ping of a client. -/
theorem ends_by_client_stop : ∃ s, ReachAny step idle s ∧
    (Action.kill 3 0 = .exit 0 ∨
      ∃ sid, s.client (.kill 3 0) = some sid ∧ s.owner 0 = some sid) :=
  ⟨_, Reach.exec .refl (show exec step idle [.start 3 .ping, .thread 0 .go,
    .thread 0 .go, .stop 3] = some _ from rfl),
    ends_by_client (Reach.exec .refl (show exec step idle [.start 3 .ping,
      .thread 0 .go, .thread 0 .go, .stop 3] = some _ from rfl)) rfl
      (by decide) rfl rfl⟩

end Runs

end LiveTests
end Probe
end Kelt
