import Kelt.Lib.PyText
import Kelt.Lib.Runs
import Mathlib.Data.Char
import Mathlib.Data.List.Lex
import Mathlib.Data.List.Sort
import Mathlib.Logic.Function.Basic

/-!
# The last run of the network checks

`NetworkHealthService` keeps the last run of its checks on the class: every page
polls `latest`, which gives the last run when it is young enough and otherwise
makes a new one, under a lock. Requests are threads that read and write the class
one attribute at a time, in any order. As long as no `POST /health/run` overlaps
with another run, the runs that `latest` makes are apart by more than `max_age`,
and no answer is older (`spaced_of_alone`).
-/

namespace Kelt
namespace NetHealth

section Checks

/-- The interfaces, in the order in which their checks are submitted. -/
inductive Interface where
  | n2
  | n3
  | n4
  | n6
  deriving DecidableEq

def Interface.all : List Interface :=
  [.n2, .n3, .n4, .n6]

def Interface.label : Interface → Text
  | .n2 => "N2".toList
  | .n3 => "N3".toList
  | .n4 => "N4".toList
  | .n6 => "N6".toList

/-- `f"br-{label.lower().replace('-', '')}"` -/
def Interface.failedBridge : Interface → Text
  | .n2 => "br-n2".toList
  | .n3 => "br-n3".toList
  | .n4 => "br-n4".toList
  | .n6 => "br-n6".toList

/-- The bridge that the check itself gives. -/
def Interface.bridge : Interface → Text
  | .n6 => "br-n6c".toList
  | i => i.failedBridge

/-- What a check finds out. -/
structure Finding where
  status : Text
  detail : Text
  latencyMs : Option Rat

structure Check where
  interface : Text
  bridge : Text
  status : Text
  detail : Text
  latencyMs : Option Rat

/-- The check of an interface, or the error it has raised. -/
def Interface.check (i : Interface) : Except Text Finding → Check
  | .ok f => ⟨i.label, i.bridge, f.status, f.detail, f.latencyMs⟩
  | .error e => ⟨i.label, i.failedBridge, "error".toList, e, none⟩

/-- `key=lambda c: c["interface"]` -/
def Check.le (c c' : Check) : Prop :=
  c.interface ≤ c'.interface

instance decidableLe (c c' : Check) : Decidable (c.le c') :=
  inferInstanceAs (Decidable (c.interface ≤ c'.interface))

/-- `run_health_checks`: the checks in the order in which they complete, then
sorted. -/
def runHealthChecks (found : Interface → Except Text Finding)
    (order : List Interface) : List Check :=
  (order.map fun i => i.check (found i)).insertionSort Check.le

theorem Interface.check_interface (i : Interface) (r : Except Text Finding) :
    (i.check r).interface = i.label := by
  cases r <;> rfl

theorem Interface.label_injective : Function.Injective Interface.label := by
  intro i j h
  cases i <;> cases j <;> first | rfl | exact absurd h (by decide)

instance totalLe : Std.Total Check.le :=
  ⟨fun c c' => le_total c.interface c'.interface⟩

instance transLe : IsTrans Check Check.le :=
  ⟨fun _ _ _ h h' => le_trans (α := Text) h h'⟩

theorem pairwise_le_all (found : Interface → Except Text Finding) :
    (Interface.all.map fun i => i.check (found i)).Pairwise Check.le := by
  rw [List.pairwise_map]
  simp only [Check.le, Interface.check_interface]
  decide

/-- The order in which the checks complete does not matter. -/
theorem runHealthChecks_eq {order : List Interface}
    (horder : order.Perm Interface.all)
    (found : Interface → Except Text Finding) :
    runHealthChecks found order =
      Interface.all.map fun i => i.check (found i) := by
  have hperm : (runHealthChecks found order).Perm
      (Interface.all.map fun i => i.check (found i)) :=
    (List.perm_insertionSort _ _).trans (horder.map _)
  have hsorted : (runHealthChecks found order).Pairwise Check.le :=
    List.pairwise_insertionSort _ _
  refine hperm.eq_of_pairwise ?_ hsorted (pairwise_le_all found)
  intro c c' hc hc' hle hle'
  obtain ⟨i, -, rfl⟩ := List.mem_map.1 (hperm.subset hc)
  obtain ⟨j, -, rfl⟩ := List.mem_map.1 hc'
  simp only [Check.le, Interface.check_interface] at hle hle'
  rw [Interface.label_injective (le_antisymm hle hle')]

theorem runHealthChecks_ne_nil {order : List Interface}
    (horder : order.Perm Interface.all)
    (found : Interface → Except Text Finding) :
    runHealthChecks found order ≠ [] := by
  rw [runHealthChecks_eq horder]
  exact List.cons_ne_nil _ _

end Checks

section Requests

universe u

variable {T : Type u} [DecidableEq T]

/-- What an answer rests on: what `get_cached` has found at that time, or the
request's own run since then. -/
inductive Source where
  | cached (asked : Int)
  | own (since : Int)

/-- Where a request stands. `locked` tells that `latest` has the lock, `direct`
that the run is one of `POST /health/run`. -/
inductive Phase where
  | idle
  | clock (locked : Bool)
  | judge (locked : Bool) (asked : Int)
  | load (locked : Bool) (asked : Int)
  | wait
  | running (direct : Bool) (since : Int)
  | stored (direct : Bool) (since : Int) (checks : List Check)
  | stamped (direct : Bool) (since : Int) (checks : List Check) (stamp : Int)
  | answered (source : Source) (checks : List Check)

/-- A run that has ended, with the time it has left in `_last_at`. -/
structure Run where
  direct : Bool
  since : Int
  stamp : Int
  checks : List Check

/-- The class attributes, the requests, and the runs there have been. -/
structure Requests (T : Type u) where
  now : Int
  last : List Check
  lastAt : Int
  lock : Option T
  phase : T → Phase
  runs : List Run

/-- Time goes on, a request comes, goes on, ends its checks or fails. -/
inductive Request (T : Type u) where
  | tick (now : Int)
  | get (t : T)
  | post (t : T)
  | go (t : T)
  | finish (t : T) (found : Interface → Except Text Finding)
      (order : List Interface)
  | fail (t : T)

def Requests.set (s : Requests T) (t : T) (p : Phase) : Requests T :=
  { s with phase := Function.update s.phase t p }

/-- `get_cached` has given nothing: wait for the lock, or make a run. -/
def Requests.stale (s : Requests T) (locked : Bool) : Phase :=
  if locked then .running false s.now else .wait

def Requests.free (s : Requests T) (held : Bool) : Requests T :=
  { s with lock := if held then none else s.lock }

/-- The next step of a request, up to the next read or write. -/
def Requests.advance (maxAge : Int) (s : Requests T) (t : T) :
    Option (Requests T) :=
  match s.phase t with
  | .clock locked => some (s.set t (.judge locked s.now))
  | .judge locked asked =>
      if maxAge < asked - s.lastAt then some (s.set t (s.stale locked))
      else some (s.set t (.load locked asked))
  | .load locked asked =>
      if s.last = [] then some (s.set t (s.stale locked))
      else
        some ((s.free locked).set t (.answered (.cached asked) s.last))
  | .wait =>
      match s.lock with
      | none => some ({ s with lock := some t }.set t (.clock true))
      | some _ => none
  | .stored direct since checks =>
      some (s.set t (.stamped direct since checks s.now))
  | .stamped direct since checks stamp =>
      some ({ s.free !direct with
        lastAt := stamp
        runs := s.runs ++ [Run.mk direct since stamp checks] }.set t
          (.answered (.own since) checks))
  | .answered _ _ => some (s.set t .idle)
  | .idle | .running _ _ => none

def Requests.step (maxAge : Int) (s : Requests T) :
    Request T → Option (Requests T)
  | .tick now => if s.now ≤ now then some { s with now := now } else none
  | .get t =>
      match s.phase t with
      | .idle => some (s.set t (.clock false))
      | _ => none
  | .post t =>
      match s.phase t with
      | .idle => some (s.set t (.running true s.now))
      | _ => none
  | .go t => s.advance maxAge t
  | .finish t found order =>
      match s.phase t with
      | .running direct since =>
          if order.isPerm Interface.all then
            some ({ s with last := runHealthChecks found order }.set t
              (.stored direct since (runHealthChecks found order)))
          else none
      | _ => none
  | .fail t =>
      match s.phase t with
      | .running direct _ => some ((s.free !direct).set t .idle)
      | _ => none

/-- `_last = []` and `_last_at = 0.0`. -/
def requestsStart (now : Int) : Requests T where
  now := now
  last := []
  lastAt := 0
  lock := none
  phase := fun _ => .idle
  runs := []

def Phase.isRun : Phase → Bool
  | .running _ _ | .stored _ _ _ | .stamped _ _ _ _ => true
  | _ => false

def Phase.isDirect : Phase → Bool
  | .running direct _ | .stored direct _ _ | .stamped direct _ _ _ => direct
  | _ => false

/-- The request is inside the `with` block of `latest`. -/
def Phase.holds : Phase → Bool
  | .clock locked | .judge locked _ | .load locked _ => locked
  | .running direct _ | .stored direct _ _ | .stamped direct _ _ _ => !direct
  | _ => false

/-- No other run is under way beside one of `POST /health/run`. -/
def Requests.Alone (s : Requests T) : Prop :=
  ∀ t u, (s.phase t).isDirect = true → (s.phase u).isRun = true → t = u

end Requests

section Invariant

universe u

variable {T : Type u} {maxAge : Int}
variable {s s' : Requests T} {t : T} {p q : Phase}

/-- The checks are those of a run that had not ended longer ago. -/
def Requests.Fresh (maxAge : Int) (s : Requests T) (asked : Int)
    (checks : List Check) : Prop :=
  (∃ r ∈ s.runs, r.checks = checks ∧ asked ≤ r.stamp + maxAge) ∨
    ∃ v direct since, s.phase v = .stored direct since checks ∨
      ∃ stamp, s.phase v = .stamped direct since checks stamp ∧
        asked ≤ stamp + maxAge

/-- A run of `latest` begins more than `maxAge` after every other has ended. -/
def Requests.Spaced (maxAge : Int) (s : Requests T) (direct : Bool)
    (since : Int) : Prop :=
  direct = false → ∀ r ∈ s.runs, r.stamp + maxAge < since

/-- What holds of a request where it stands. -/
def Requests.Ok (maxAge : Int) (s : Requests T) : Phase → Prop
  | .judge _ asked => asked ≤ s.now
  | .load _ asked => asked ≤ s.now ∧ asked ≤ s.lastAt + maxAge
  | .running direct since => s.Spaced maxAge direct since
  | .stored direct since checks =>
      s.Spaced maxAge direct since ∧ s.last = checks ∧ checks ≠ []
  | .stamped direct since checks stamp =>
      s.Spaced maxAge direct since ∧ s.last = checks ∧ checks ≠ [] ∧
        s.lastAt ≤ stamp ∧ stamp ≤ s.now
  | .answered (.cached asked) checks =>
      asked ≤ s.now ∧ s.Fresh maxAge asked checks
  | .answered (.own since) checks =>
      ∃ r ∈ s.runs, r.since = since ∧ r.checks = checks
  | .idle | .wait | .clock _ => True

structure Requests.Inv (maxAge : Int) (s : Requests T) : Prop where
  lock : ∀ t, (s.phase t).holds = true ↔ s.lock = some t
  alone : s.Alone
  phases : ∀ t, s.Ok maxAge (s.phase t)
  lastAt : s.lastAt = (s.runs.getLast?.map Run.stamp).getD 0
  atMost : s.lastAt ≤ s.now
  stamps : ∀ r ∈ s.runs, r.stamp ≤ s.lastAt
  checks : ∀ r ∈ s.runs, r.checks ≠ []
  last : s.last = (s.runs.getLast?.map Run.checks).getD [] ∨
    ∃ v direct since, s.phase v = .stored direct since s.last ∨
      ∃ stamp, s.phase v = .stamped direct since s.last stamp
  spaced : s.runs.Pairwise fun r r' =>
    r'.direct = false → r.stamp + maxAge < r'.since

theorem Phase.holds_or_isDirect (h : p.isRun = true) :
    p.holds = true ∨ p.isDirect = true := by
  cases p with
  | running direct _ | stored direct _ _ | stamped direct _ _ _ =>
      cases direct
      · exact .inl rfl
      · exact .inr rfl
  | _ => cases h

/-- One run at a time. -/
theorem Requests.Inv.one (h : s.Inv maxAge) {u : T}
    (ht : (s.phase t).isRun = true) (hu : (s.phase u).isRun = true) :
    t = u := by
  rcases Phase.holds_or_isDirect ht with hlock | hdirect
  · rcases Phase.holds_or_isDirect hu with hlock' | hdirect'
    · exact Option.some.inj
        (((h.lock t).1 hlock).symm.trans ((h.lock u).1 hlock'))
    · exact (h.alone u t hdirect' ht).symm
  · exact h.alone t u hdirect hu

/-- The results that wait for their time to be written. -/
def Phase.isStored : Phase → Bool
  | .stored _ _ _ | .stamped _ _ _ _ => true
  | _ => false

theorem Requests.Fresh.set {asked : Int} {checks : List Check}
    (h : s.Fresh maxAge asked checks) (hruns : s'.runs = s.runs)
    (hphase : ∀ u, (s.phase u).isStored = true → s'.phase u = s.phase u) :
    s'.Fresh maxAge asked checks := by
  rcases h with h | ⟨v, direct, since, hv | ⟨stamp, hv, hstamp⟩⟩
  · rw [← hruns] at h
    exact .inl h
  · exact .inr ⟨v, direct, since, .inl ((hphase v (by rw [hv]; rfl)).trans hv)⟩
  · exact .inr ⟨v, direct, since,
      .inr ⟨stamp, (hphase v (by rw [hv]; rfl)).trans hv, hstamp⟩⟩

theorem Requests.Ok.mono (h : s.Ok maxAge p) (hnow : s.now ≤ s'.now)
    (hlastAt : s.lastAt ≤ s'.lastAt) (hsub : s.runs ⊆ s'.runs)
    (hrun : p.isRun = true →
      s'.last = s.last ∧ s'.lastAt = s.lastAt ∧ s'.runs = s.runs)
    (hfresh : ∀ {asked checks}, asked ≤ s.now → s.Fresh maxAge asked checks →
      s'.Fresh maxAge asked checks) : s'.Ok maxAge p := by
  cases p with
  | idle | wait | clock _ => trivial
  | judge _ _ => exact h.trans hnow
  | load _ asked =>
      exact ⟨h.1.trans hnow, h.2.trans (by omega)⟩
  | running direct since =>
      obtain ⟨-, -, hruns⟩ := hrun rfl
      simpa only [Requests.Ok, Requests.Spaced, hruns] using h
  | stored direct since checks =>
      obtain ⟨hlast, -, hruns⟩ := hrun rfl
      simpa only [Requests.Ok, Requests.Spaced, hlast, hruns] using h
  | stamped direct since checks stamp =>
      obtain ⟨hlast, heq, hruns⟩ := hrun rfl
      simp only [Requests.Ok, Requests.Spaced, hlast, heq, hruns] at h ⊢
      obtain ⟨hspaced, hsame, hne, hle, hstamp⟩ := h
      exact ⟨hspaced, hsame, hne, hle, hstamp.trans hnow⟩
  | answered source checks =>
      cases source with
      | cached asked => exact ⟨h.1.trans hnow, hfresh h.1 h.2⟩
      | own since =>
          obtain ⟨r, hr, hsince⟩ := h
          exact ⟨r, hsub hr, hsince⟩

theorem Requests.Inv.tick {now : Int} (h : s.Inv maxAge) (hnow : s.now ≤ now) :
    { s with now := now }.Inv maxAge := by
  refine ⟨h.lock, h.alone, fun u => ?_, h.lastAt, h.atMost.trans hnow,
    h.stamps, h.checks, h.last, h.spaced⟩
  exact (h.phases u).mono hnow le_rfl (List.Subset.refl _)
    (fun _ => ⟨rfl, rfl, rfl⟩) fun _ hfresh => hfresh.set rfl fun _ _ => rfl

/-- What `get_cached` gives when it gives something. -/
theorem Requests.Inv.fresh {locked : Bool} {asked : Int} (h : s.Inv maxAge)
    (hp : s.phase t = .load locked asked) (hne : s.last ≠ []) :
    s.Fresh maxAge asked s.last := by
  have hok := h.phases t
  rw [hp] at hok
  obtain ⟨-, hasked⟩ := hok
  rcases h.last with hlast | ⟨v, direct, since, hv | ⟨stamp, hv⟩⟩
  · cases hruns : s.runs.getLast? with
    | none =>
        rw [hruns] at hlast
        exact absurd hlast hne
    | some r =>
        have hat := h.lastAt
        rw [hruns] at hlast hat
        refine .inl ⟨r, List.mem_of_getLast? hruns, hlast.symm, ?_⟩
        rwa [hat] at hasked
  · exact .inr ⟨v, direct, since, .inl hv⟩
  · have hstamped := h.phases v
    rw [hv] at hstamped
    obtain ⟨-, -, -, hle, -⟩ := hstamped
    exact .inr ⟨v, direct, since, .inr ⟨stamp, hv, by omega⟩⟩

/-- Where nothing is kept there has been no run. -/
theorem Requests.Inv.runs_nil (h : s.Inv maxAge) (hlast : s.last = []) :
    s.runs = [] := by
  rcases h.last with hsame | ⟨v, direct, since, hv | ⟨stamp, hv⟩⟩
  · cases hruns : s.runs.getLast? with
    | none => exact List.getLast?_eq_none_iff.1 hruns
    | some r =>
        rw [hruns, hlast] at hsame
        exact absurd hsame.symm (h.checks r (List.mem_of_getLast? hruns))
  · have hok := h.phases v
    rw [hv] at hok
    exact absurd hlast hok.2.2
  · have hok := h.phases v
    rw [hv] at hok
    exact absurd hlast hok.2.2.1

theorem requestsInv_start {now : Int} (hnow : 0 ≤ now) :
    (requestsStart now : Requests T).Inv maxAge :=
  ⟨fun _ => iff_of_false nofun nofun, nofun, fun _ => trivial, rfl, hnow,
    nofun, nofun, .inl rfl, .nil⟩

variable [DecidableEq T]

theorem Requests.set_self (s : Requests T) (t : T) (p : Phase) :
    (s.set t p).phase t = p :=
  Function.update_self ..

theorem Requests.set_of_ne {u : T} (s : Requests T) (h : u ≠ t) (p : Phase) :
    (s.set t p).phase u = s.phase u :=
  Function.update_of_ne h ..

/-- A step of one request that changes no result. -/
theorem Requests.Inv.move (h : s.Inv maxAge) {lock : Option T}
    (hp : (s.phase t).isStored = false)
    (hlock : q.holds = true ↔ lock = some t)
    (hother : ∀ u, u ≠ t → (lock = some u ↔ s.lock = some u))
    (hok : s.Ok maxAge q)
    (halone : ({ s with lock := lock }.set t q).Alone) :
    ({ s with lock := lock }.set t q).Inv maxAge := by
  have hphase : ∀ u, (s.phase u).isStored = true →
      ({ s with lock := lock }.set t q).phase u = s.phase u := by
    intro u hu
    refine set_of_ne _ ?_ _
    rintro rfl
    rw [hp] at hu
    cases hu
  refine ⟨fun u => ?_, halone, fun u => ?_, h.lastAt, h.atMost, h.stamps,
    h.checks, ?_, h.spaced⟩
  · by_cases hu : u = t
    · rw [hu, set_self]
      exact hlock
    · rw [set_of_ne _ hu]
      exact (h.lock u).trans (hother u hu).symm
  · by_cases hu : u = t
    · rw [hu, set_self]
      exact hok.mono le_rfl le_rfl (List.Subset.refl _) (fun _ => ⟨rfl, rfl, rfl⟩)
        fun _ hfresh => hfresh.set rfl hphase
    · rw [set_of_ne _ hu]
      exact (h.phases u).mono le_rfl le_rfl (List.Subset.refl _)
        (fun _ => ⟨rfl, rfl, rfl⟩) fun _ hfresh => hfresh.set rfl hphase
  · rcases h.last with hlast | ⟨v, direct, since, hv | ⟨stamp, hv⟩⟩
    · exact .inl hlast
    · exact .inr ⟨v, direct, since, .inl ((hphase v (by rw [hv]; rfl)).trans hv)⟩
    · exact .inr ⟨v, direct, since,
        .inr ⟨stamp, (hphase v (by rw [hv]; rfl)).trans hv⟩⟩

/-- A step that neither takes nor gives the lock. -/
theorem Requests.Inv.move_same (h : s.Inv maxAge)
    (hp : (s.phase t).isStored = false)
    (hholds : q.holds = (s.phase t).holds) (hok : s.Ok maxAge q)
    (halone : (s.set t q).Alone) : (s.set t q).Inv maxAge :=
  h.move hp (by rw [hholds]; exact h.lock t) (fun _ _ => Iff.rfl) hok halone

/-- A step that gives the lock where the request has it. -/
theorem Requests.Inv.move_free (h : s.Inv maxAge)
    (hp : (s.phase t).isStored = false)
    (hfree : q.holds = false) (hok : s.Ok maxAge q)
    (halone : ((s.free (s.phase t).holds).set t q).Alone) :
    ((s.free (s.phase t).holds).set t q).Inv maxAge := by
  refine h.move hp ?_ (fun u hu => ?_) hok halone
  · cases hholds : (s.phase t).holds with
    | true => simp [hfree]
    | false =>
        have hlock := h.lock t
        rw [hholds] at hlock
        simpa [hfree] using hlock
  · cases hholds : (s.phase t).holds with
    | true =>
        rw [(h.lock t).1 hholds]
        simpa using Ne.symm hu
    | false => exact Iff.rfl

/-- The checks of a run are there. -/
theorem Requests.Inv.finish {direct : Bool} {since : Int} {checks : List Check}
    (h : s.Inv maxAge) (hp : s.phase t = .running direct since)
    (hne : checks ≠ [])
    (halone : ({ s with last := checks }.set t
      (.stored direct since checks)).Alone) :
    ({ s with last := checks }.set t (.stored direct since checks)).Inv
      maxAge := by
  have hnot : ∀ u, u ≠ t → (s.phase u).isRun = false := by
    intro u hu
    by_contra hrun
    exact hu (h.one (by simpa using hrun) (by rw [hp]; rfl))
  have hphase : ∀ u, (s.phase u).isStored = true →
      ({ s with last := checks }.set t (.stored direct since checks)).phase u =
        s.phase u := by
    intro u hu
    refine set_of_ne _ ?_ _
    rintro rfl
    rw [hp] at hu
    cases hu
  have hok := h.phases t
  rw [hp] at hok
  refine ⟨fun u => ?_, halone, fun u => ?_, h.lastAt, h.atMost, h.stamps,
    h.checks, .inr ⟨t, direct, since, .inl (set_self _ _ _)⟩, h.spaced⟩
  · by_cases hu : u = t
    · have hlock := h.lock t
      rw [hp] at hlock
      rw [hu, set_self]
      exact hlock
    · rw [set_of_ne _ hu]
      exact h.lock u
  · by_cases hu : u = t
    · rw [hu, set_self]
      exact ⟨hok, rfl, hne⟩
    · rw [set_of_ne _ hu]
      refine (h.phases u).mono le_rfl le_rfl (List.Subset.refl _) (fun hrun => ?_)
        fun _ hfresh => hfresh.set rfl hphase
      rw [hnot u hu] at hrun
      cases hrun

/-- The end of a run is noted. -/
theorem Requests.Inv.stamp {direct : Bool} {since : Int} {checks : List Check}
    (hage : 0 ≤ maxAge) (h : s.Inv maxAge)
    (hp : s.phase t = .stored direct since checks)
    (halone : (s.set t (.stamped direct since checks s.now)).Alone) :
    (s.set t (.stamped direct since checks s.now)).Inv maxAge := by
  have hok := h.phases t
  rw [hp] at hok
  obtain ⟨hspaced, hlast, hne⟩ := hok
  have hfresh : ∀ {asked : Int} {cs : List Check}, asked ≤ s.now →
      s.Fresh maxAge asked cs →
      (s.set t (.stamped direct since checks s.now)).Fresh maxAge asked cs := by
    rintro asked cs hasked (hruns | ⟨v, d, i, hv⟩)
    · exact .inl hruns
    · by_cases hvt : v = t
      · subst hvt
        rcases hv with hv | ⟨stamp, hv, -⟩
        · obtain ⟨rfl, rfl, rfl⟩ := Phase.stored.inj (hp.symm.trans hv)
          exact .inr ⟨v, direct, since, .inr ⟨s.now, set_self _ _ _, by omega⟩⟩
        · rw [hp] at hv
          cases hv
      · refine .inr ⟨v, d, i, ?_⟩
        rw [set_of_ne _ hvt]
        exact hv
  refine ⟨fun u => ?_, halone, fun u => ?_, h.lastAt, h.atMost, h.stamps,
    h.checks, .inr ⟨t, direct, since, .inr ⟨s.now, ?_⟩⟩, h.spaced⟩
  · by_cases hu : u = t
    · have hlock := h.lock t
      rw [hp] at hlock
      rw [hu, set_self]
      exact hlock
    · rw [set_of_ne _ hu]
      exact h.lock u
  · by_cases hu : u = t
    · rw [hu, set_self]
      exact ⟨hspaced, hlast, hne, h.atMost, le_rfl⟩
    · rw [set_of_ne _ hu]
      exact (h.phases u).mono le_rfl le_rfl (List.Subset.refl _)
        (fun _ => ⟨rfl, rfl, rfl⟩) hfresh
  · rw [set_self]
    exact congrArg (Phase.stamped direct since · s.now) hlast.symm

/-- A run ends. -/
theorem Requests.Inv.store {direct : Bool} {since stamp : Int}
    {checks : List Check} (h : s.Inv maxAge)
    (hp : s.phase t = .stamped direct since checks stamp)
    (halone : ({ s.free !direct with
      lastAt := stamp
      runs := s.runs ++ [Run.mk direct since stamp checks] }.set t
        (.answered (.own since) checks)).Alone) :
    ({ s.free !direct with
      lastAt := stamp
      runs := s.runs ++ [Run.mk direct since stamp checks] }.set t
        (.answered (.own since) checks)).Inv maxAge := by
  have hok := h.phases t
  rw [hp] at hok
  obtain ⟨hspaced, hlast, hne, hle, hstamp⟩ := hok
  have hnot : ∀ u, u ≠ t → (s.phase u).isRun = false := by
    intro u hu
    by_contra hrun
    exact hu (h.one (by simpa using hrun) (by rw [hp]; rfl))
  have hlock := h.lock t
  rw [hp] at hlock
  refine ⟨fun u => ?_, halone, fun u => ?_, ?_, hstamp, ?_, ?_, .inl ?_, ?_⟩
  · by_cases hu : u = t
    · rw [hu, set_self]
      cases direct
      · simp [Requests.set, Requests.free, Phase.holds]
      · simpa [Requests.set, Requests.free, Phase.holds] using hlock
    · rw [set_of_ne _ hu]
      have hother := h.lock u
      cases direct
      · have ht : s.lock = some t := hlock.1 rfl
        rw [ht] at hother
        simpa [Requests.set, Requests.free, Ne.symm hu] using hother
      · exact hother
  · by_cases hu : u = t
    · rw [hu, set_self]
      exact ⟨_, List.mem_append_right _ (List.mem_singleton_self _), rfl, rfl⟩
    · rw [set_of_ne _ hu]
      refine (h.phases u).mono le_rfl hle (List.subset_append_left _ _)
        (fun hrun => ?_) ?_
      · have hfalse : (s.phase u).isRun = false := hnot u hu
        rw [hfalse] at hrun
        cases hrun
      · rintro asked cs - (⟨r, hr, heq⟩ | ⟨v, d, i, hv⟩)
        · exact .inl ⟨r, List.mem_append_left _ hr, heq⟩
        · by_cases hvt : v = t
          · subst hvt
            rcases hv with hv | ⟨w, hv, hw⟩
            · rw [hp] at hv
              cases hv
            · obtain ⟨rfl, rfl, rfl, rfl⟩ := Phase.stamped.inj (hp.symm.trans hv)
              exact .inl ⟨_, List.mem_append_right _ (List.mem_singleton_self _),
                rfl, hw⟩
          · refine .inr ⟨v, d, i, ?_⟩
            rw [set_of_ne _ hvt]
            exact hv
  · simp [Requests.set]
  · simp only [Requests.set, List.forall_mem_append, List.forall_mem_singleton]
    exact ⟨fun r hr => (h.stamps r hr).trans hle, le_rfl⟩
  · simp only [Requests.set, List.forall_mem_append, List.forall_mem_singleton]
    exact ⟨h.checks, hne⟩
  · simp [Requests.set, hlast, Requests.free]
  · simp only [Requests.set, List.pairwise_append, List.pairwise_singleton,
      List.mem_singleton, forall_eq, true_and]
    exact ⟨h.spaced, fun r hr hd => hspaced hd r hr⟩

theorem Requests.Inv.advance (hage : 0 ≤ maxAge) (h : s.Inv maxAge)
    (hs : s.advance maxAge t = some s') (halone : s'.Alone) :
    s'.Inv maxAge := by
  have hok := h.phases t
  unfold Requests.advance at hs
  split at hs
  · rename_i locked hp
    obtain rfl := Option.some.inj hs
    exact h.move_same (by rw [hp]; rfl) (by rw [hp]; rfl) le_rfl halone
  · rename_i locked asked hp
    rw [hp] at hok
    split at hs
    · rename_i hold
      obtain rfl := Option.some.inj hs
      refine h.move_same (by rw [hp]; rfl) ?_ ?_ halone
      · rw [hp]
        cases locked <;> rfl
      · cases locked
        · trivial
        · intro _ r hr
          have hstamp := h.stamps r hr
          have hasked : asked ≤ s.now := hok
          omega
    · obtain rfl := Option.some.inj hs
      refine h.move_same (by rw [hp]; rfl) (by rw [hp]; rfl) ?_ halone
      exact ⟨hok, by omega⟩
  · rename_i locked asked hp
    split at hs
    · rename_i hlast
      obtain rfl := Option.some.inj hs
      refine h.move_same (by rw [hp]; rfl) ?_ ?_ halone
      · rw [hp]
        cases locked <;> rfl
      · cases locked
        · trivial
        · intro _ r hr
          rw [h.runs_nil hlast] at hr
          cases hr
    · rename_i hne
      obtain rfl := Option.some.inj hs
      rw [hp] at hok
      have hmove := h.move_free (q := .answered (.cached asked) s.last)
        (by rw [hp]; rfl) rfl ⟨hok.1, h.fresh hp hne⟩
      rw [hp] at hmove
      exact hmove halone
  · rename_i hp
    split at hs
    · rename_i hlock
      obtain rfl := Option.some.inj hs
      refine h.move (by rw [hp]; rfl) ?_ (fun u hu => ?_) trivial halone
      · exact iff_of_true rfl rfl
      · rw [hlock]
        simpa using Ne.symm hu
    · cases hs
  · rename_i direct since checks hp
    obtain rfl := Option.some.inj hs
    exact h.stamp hage hp halone
  · rename_i direct since checks stamp hp
    obtain rfl := Option.some.inj hs
    exact h.store hp halone
  · rename_i hp
    obtain rfl := Option.some.inj hs
    exact h.move_same (by rw [hp]; rfl) (by rw [hp]; rfl) trivial halone
  · cases hs
  · cases hs

theorem Requests.Inv.step {e : Request T} (hage : 0 ≤ maxAge)
    (h : s.Inv maxAge) (hs : s.step maxAge e = some s') (halone : s'.Alone) :
    s'.Inv maxAge := by
  cases e with
  | tick now =>
      obtain ⟨hnow, hs⟩ := Option.ite_none_right_eq_some.1 hs
      obtain rfl := Option.some.inj hs
      exact h.tick hnow
  | get t =>
      simp only [Requests.step] at hs
      split at hs
      · rename_i hp
        obtain rfl := Option.some.inj hs
        exact h.move_same (by rw [hp]; rfl) (by rw [hp]; rfl) trivial halone
      · cases hs
  | post t =>
      simp only [Requests.step] at hs
      split at hs
      · rename_i hp
        obtain rfl := Option.some.inj hs
        exact h.move_same (by rw [hp]; rfl) (by rw [hp]; rfl) nofun halone
      · cases hs
  | go t => exact h.advance hage hs halone
  | finish t found order =>
      simp only [Requests.step] at hs
      split at hs
      · rename_i direct since hp
        obtain ⟨horder, hs⟩ := Option.ite_none_right_eq_some.1 hs
        obtain rfl := Option.some.inj hs
        exact h.finish hp
          (runHealthChecks_ne_nil (List.isPerm_iff.1 horder) found) halone
      · cases hs
  | fail t =>
      simp only [Requests.step] at hs
      split at hs
      · rename_i direct since hp
        obtain rfl := Option.some.inj hs
        have hmove := h.move_free (q := .idle) (by rw [hp]; rfl) rfl trivial
        rw [hp] at hmove
        exact hmove halone
      · cases hs

/-- In every order of the requests in which no `POST /health/run` overlaps with
another run: one run at a time, the runs of `latest` more than `maxAge` after the
end of every other, and no answer of a run that had ended longer ago when the
request looked. -/
theorem Requests.spaced_of_alone (hage : 0 ≤ maxAge) {now : Int}
    (hnow : 0 ≤ now) (s : Requests T)
    (h : Reach (Requests.step maxAge)
      (fun s e => ∀ s', s.step maxAge e = some s' → s'.Alone)
      (requestsStart now) s) :
    (∀ t u, (s.phase t).isRun = true → (s.phase u).isRun = true → t = u) ∧
      s.runs.Pairwise (fun r r' =>
        r'.direct = false → r.stamp + maxAge < r'.since) ∧
      (∀ t asked checks, s.phase t = .answered (.cached asked) checks →
        s.Fresh maxAge asked checks) ∧
      ∀ t since checks, s.phase t = .answered (.own since) checks →
        ∃ r ∈ s.runs, r.since = since ∧ r.checks = checks := by
  have hinv : s.Inv maxAge :=
    Reach.inv (requestsInv_start hnow)
      (fun _ _ _ hi hok hs => hi.step hage hs (hok _ hs)) h
  refine ⟨fun t u => hinv.one, hinv.spaced, fun t asked checks hp => ?_,
    fun t since checks hp => ?_⟩
  · have hok := hinv.phases t
    rw [hp] at hok
    exact hok.2
  · have hok := hinv.phases t
    rw [hp] at hok
    exact hok

def Request.isPost : Request T → Bool
  | .post _ => true
  | _ => false

theorem Requests.isDirect_set (h : ∀ u, (s.phase u).isDirect = false)
    (hq : q.isDirect = false) (u : T) :
    ((s.set t q).phase u).isDirect = false := by
  by_cases hu : u = t
  · rw [hu, set_self]
    exact hq
  · rw [set_of_ne _ hu]
    exact h u

theorem Requests.isDirect_step {e : Request T}
    (h : ∀ u, (s.phase u).isDirect = false) (he : e.isPost = false)
    (hs : s.step maxAge e = some s') (u : T) :
    (s'.phase u).isDirect = false := by
  cases e with
  | post t => cases he
  | tick now =>
      obtain ⟨-, hs⟩ := Option.ite_none_right_eq_some.1 hs
      obtain rfl := Option.some.inj hs
      exact h u
  | get t =>
      simp only [Requests.step] at hs
      split at hs
      · obtain rfl := Option.some.inj hs
        exact isDirect_set h rfl u
      · cases hs
  | finish t found order =>
      simp only [Requests.step] at hs
      split at hs
      · rename_i direct since hp
        obtain ⟨-, hs⟩ := Option.ite_none_right_eq_some.1 hs
        obtain rfl := Option.some.inj hs
        have ht := h t
        rw [hp] at ht
        have hq : (Phase.stored direct since
          (runHealthChecks found order)).isDirect = false := ht
        exact isDirect_set h hq u
      · cases hs
  | fail t =>
      simp only [Requests.step] at hs
      split at hs
      · obtain rfl := Option.some.inj hs
        exact isDirect_set h rfl u
      · cases hs
  | go t =>
      have ht := h t
      simp only [Requests.step, Requests.advance] at hs
      split at hs
      · obtain rfl := Option.some.inj hs
        exact isDirect_set h rfl u
      · rename_i locked asked hp
        split at hs
        · obtain rfl := Option.some.inj hs
          exact isDirect_set h (by cases locked <;> rfl) u
        · obtain rfl := Option.some.inj hs
          exact isDirect_set h rfl u
      · rename_i locked asked hp
        split at hs
        · obtain rfl := Option.some.inj hs
          exact isDirect_set h (by cases locked <;> rfl) u
        · obtain rfl := Option.some.inj hs
          exact isDirect_set h rfl u
      · split at hs
        · obtain rfl := Option.some.inj hs
          exact isDirect_set h rfl u
        · cases hs
      · rename_i direct since checks hp
        obtain rfl := Option.some.inj hs
        rw [hp] at ht
        have hq : (Phase.stamped direct since checks s.now).isDirect = false :=
          ht
        exact isDirect_set h hq u
      · obtain rfl := Option.some.inj hs
        exact isDirect_set h rfl u
      · obtain rfl := Option.some.inj hs
        exact isDirect_set h rfl u
      · cases hs
      · cases hs

/-- Where only `latest` is asked, no other run is under way beside one of
`POST /health/run`. -/
theorem Requests.reach_of_latest {s₀ : Requests T} {es : List (Request T)}
    (hreach : Reach (Requests.step maxAge)
      (fun s e => ∀ s', s.step maxAge e = some s' → s'.Alone) s₀ s)
    (h : ∀ u, (s.phase u).isDirect = false)
    (hes : ∀ e ∈ es, e.isPost = false)
    (hexec : exec (Requests.step maxAge) s es = some s') :
    Reach (Requests.step maxAge)
      (fun s e => ∀ s', s.step maxAge e = some s' → s'.Alone) s₀ s' := by
  induction es generalizing s with
  | nil =>
      obtain rfl := Option.some.inj hexec
      exact hreach
  | cons e es ih =>
      rw [List.forall_mem_cons] at hes
      rw [exec] at hexec
      cases hs : s.step maxAge e with
      | none =>
          rw [hs] at hexec
          cases hexec
      | some t =>
          rw [hs] at hexec
          refine ih (hreach.step (fun s' hs' u _ hu => ?_) hs)
            (isDirect_step h hes.1 hs) hes.2 hexec
          rw [isDirect_step h hes.1 hs' u] at hu
          cases hu

/-- Two requests find nothing; the one that waits takes the other's results. -/
def sharedRun : List (Request Bool) :=
  [.tick 40, .get true, .go true, .go true, .get false, .go false, .go false,
    .go true, .go true, .go true,
    .finish true (fun _ => .error "no pod".toList) [.n3, .n2, .n6, .n4],
    .tick 60, .go true, .go true, .go false, .go false, .go false, .go false]

theorem Requests.spaced_sharedRun :
    ∃ s : Requests Bool, s.runs.length = 1 ∧
      s.phase false = .answered (.cached 60) s.last ∧
      s.Fresh 25 60 s.last := by
  have hreach := reach_of_latest .refl (fun _ => rfl)
    (show ∀ e ∈ sharedRun, e.isPost = false by decide)
    (show exec (Requests.step 25) (requestsStart 0) sharedRun = some _ from rfl)
  have hspaced := spaced_of_alone (by decide) le_rfl _ hreach
  exact ⟨_, rfl, rfl, hspaced.2.2.1 false 60 _ rfl⟩

end Invariant

end NetHealth
end Kelt
