import Kelt.Lib.Runs
import Kelt.Lib.Slots

/-!
# The resource cache of the dashboard

The pages read what they show from a cache with an entry for each key
(`resourceCache.js`). A refresh starts a fetch, joins the one that is out, or,
when it is to come after a write, waits for the one that is out and then starts
its own. What a page shows is the snapshot of the entry, which is renewed with
every request that is made and when the last of them is done.

One request of a key is out at a time, and what is stored is what the latest of
them brought. A request that is done while a newer one owns the entry stores its
data and leaves the snapshot, so the pages see it when the newer one is done
(`fresh_of_reach`).

The functions that subscribe to an entry are left out, and a fetcher does not
call the cache itself.
-/

namespace Kelt
namespace Frontend
namespace ResourceCache

universe u

section Entries

/-- Where a request is: it waits for the one before, its fetch is out, the fetch
has ended, its result is stored, its promise is settled. -/
inductive Place (V E : Type u) where
  | waiting (prev : Nat)
  | running
  | settled (result : Except E V)
  | stored (result : Except E V)
  | done (result : Except E V)

/-- A request, with the times at which it was made and its fetch started. -/
structure Req (V E : Type u) where
  called : Nat
  started : Option Nat
  place : Place V E

structure Snap (V E T : Type u) where
  data : Option V
  error : Option E
  updatedAt : Option T
  refreshing : Bool

/-- A call of `refresh`, with the request whose promise it returns. -/
structure Call where
  time : Nat
  after : Bool
  req : Nat

/-- An entry with its requests and calls; `shown` are the requests as they were
when the snapshot was taken. -/
structure Entry (V E T : Type u) where
  data : Option V
  error : Option E
  updatedAt : Option T
  inflight : Option Nat
  snap : Snap V E T
  reqs : List (Req V E)
  calls : List Call
  shown : List (Req V E)

variable {V E T : Type u}

/-- `entry` of a key that has none yet. -/
def Entry.empty : Entry V E T :=
  ⟨none, none, none, none, ⟨none, none, none, false⟩, [], [], []⟩

/-- `changed` -/
def Entry.changed (e : Entry V E T) : Entry V E T :=
  { e with
    snap := ⟨e.data, e.error, e.updatedAt, e.inflight.isSome⟩
    shown := e.reqs }

def Entry.setReq (e : Entry V E T) (i : Nat) (r : Req V E) : Entry V E T :=
  { e with reqs := e.reqs.set i r }

/-- A request of its own: it starts now, or right after the one in flight. -/
def Entry.request (e : Entry V E T) (clock : Nat) (after : Bool) :
    Entry V E T :=
  let r : Req V E :=
    match e.inflight with
    | some i => ⟨clock, none, .waiting i⟩
    | none => ⟨clock, some clock, .running⟩
  Entry.changed { e with
    reqs := e.reqs ++ [r]
    inflight := some e.reqs.length
    calls := ⟨clock, after, e.reqs.length⟩ :: e.calls }

/-- `refresh` -/
def Entry.refresh (e : Entry V E T) (clock : Nat) (after : Bool) :
    Entry V E T :=
  match e.inflight with
  | some i =>
      if after then e.request clock true
      else { e with calls := ⟨clock, false, i⟩ :: e.calls }
  | none => e.request clock after

/-- The promise of the request before is settled. -/
def Entry.start (e : Entry V E T) (clock i : Nat) : Option (Entry V E T) :=
  match e.reqs[i]? with
  | some ⟨called, _, .waiting prev⟩ =>
      match e.reqs[prev]? with
      | some ⟨_, _, .done _⟩ =>
          some (e.setReq i ⟨called, some clock, .running⟩)
      | _ => none
  | _ => none

/-- The fetch succeeds or fails. -/
def Entry.settle (e : Entry V E T) (i : Nat) (result : Except E V) :
    Option (Entry V E T) :=
  match e.reqs[i]? with
  | some ⟨called, started, .running⟩ =>
      some (e.setReq i ⟨called, started, .settled result⟩)
  | _ => none

/-- The callbacks of `then`. -/
def Entry.store (e : Entry V E T) (i : Nat) (now : T) :
    Option (Entry V E T) :=
  match e.reqs[i]? with
  | some ⟨called, started, .settled result⟩ =>
      let e := e.setReq i ⟨called, started, .stored result⟩
      match result with
      | .ok data =>
          some { e with
            data := some data
            error := none
            updatedAt := some now }
      | .error error => some { e with error := some error }
  | _ => none

/-- The callback of `finally`: a newer request may own the entry. -/
def Entry.finish (e : Entry V E T) (i : Nat) : Option (Entry V E T) :=
  match e.reqs[i]? with
  | some ⟨called, started, .stored result⟩ =>
      let e := e.setReq i ⟨called, started, .done result⟩
      some (if e.inflight = some i then
        Entry.changed { e with inflight := none } else e)
  | _ => none

inductive Act (V E T : Type u) where
  | refresh (after : Bool)
  | start (i : Nat)
  | settle (i : Nat) (result : Except E V)
  | store (i : Nat) (now : T)
  | finish (i : Nat)

def Entry.step (e : Entry V E T) (clock : Nat) :
    Act V E T → Option (Entry V E T)
  | .refresh after => some (e.refresh clock after)
  | .start i => e.start clock i
  | .settle i result => e.settle i result
  | .store i now => e.store i now
  | .finish i => e.finish i

end Entries

section Caches

variable {K V E T : Type u} [DecidableEq K]

/-- The entries, and a clock that counts the steps. -/
structure Cache (K V E T : Type u) where
  entries : K → Entry V E T
  clock : Nat

def Cache.empty : Cache K V E T :=
  ⟨fun _ => .empty, 0⟩

def Cache.step (c : Cache K V E T) (act : K × Act V E T) :
    Option (Cache K V E T) :=
  ((c.entries act.1).step c.clock act.2).map fun e =>
    ⟨Function.update c.entries act.1 e, c.clock + 1⟩

end Caches

section Freshness

variable {K V E T : Type u} [DecidableEq K]

def Req.isRunning (r : Req V E) : Bool :=
  match r.place with
  | .running => true
  | _ => false

def Req.isWaiting (r : Req V E) : Bool :=
  match r.place with
  | .waiting _ => true
  | _ => false

def Req.isDone (r : Req V E) : Bool :=
  match r.place with
  | .done _ => true
  | _ => false

/-- The data that the request has brought and stored, with the time at which its
fetch started. -/
def Req.success (r : Req V E) : Option (Nat × V) :=
  match r.place with
  | .stored (.ok data) | .done (.ok data) => r.started.map fun t => (t, data)
  | _ => none

/-- A fetch of these requests that started at the time has brought the data. -/
def Got (reqs : List (Req V E)) (t : Nat) (data : V) : Prop :=
  some (t, data) ∈ reqs.map Req.success

/-- The data is what the latest-started successful fetch has brought. -/
def Latest (reqs : List (Req V E)) (data : Option V) : Prop :=
  (data = none ∧ ∀ t v, ¬ Got reqs t v) ∨
    ∃ t v, data = some v ∧ Got reqs t v ∧ ∀ t' v', Got reqs t' v' → t' ≤ t

/-- What is asked of a key apart from what is shown: one fetch is out at a time,
and a refresh after a write is answered by a fetch that started later. -/
structure Entry.Ordered (e : Entry V E T) : Prop where
  single : ∀ (i j : Nat) (r r' : Req V E), e.reqs[i]? = some r →
    e.reqs[j]? = some r' → r.isRunning = true → r'.isRunning = true → i = j
  after : ∀ call ∈ e.calls, call.after = true → ∃ r,
    e.reqs[call.req]? = some r ∧ (∀ t, r.started = some t → call.time ≤ t) ∧
      (r.isDone = true → r.started.isSome = true)

/-- A failed fetch leaves the data, that which is shown too. -/
def Entry.KeepsData (e : Entry V E T) : Prop :=
  ∀ (i called : Nat) (started : Option Nat) (error : E) (now : T)
    (e' : Entry V E T),
    e.reqs[i]? = some ⟨called, started, .settled (.error error)⟩ →
      e.store i now = some e' →
        e'.data = e.data ∧ e'.error = some error ∧ e'.snap = e.snap

/-- With nothing out, what is shown is what the latest successful fetch has
brought; else it was that when the snapshot was taken. -/
structure Cache.Fresh (c : Cache K V E T) (k : K) : Prop where
  ordered : (c.entries k).Ordered
  keeps : (c.entries k).KeepsData
  rest : (c.entries k).inflight = none →
    Latest (c.entries k).reqs (c.entries k).snap.data
  out : Latest (c.entries k).shown (c.entries k).snap.data

/-- What is shown is always what the latest successful fetch has brought. -/
structure Cache.AlwaysFresh (c : Cache K V E T) (k : K) : Prop where
  ordered : (c.entries k).Ordered
  keeps : (c.entries k).KeepsData
  shown : Latest (c.entries k).reqs (c.entries k).snap.data

end Freshness

section Requests

variable {V E T : Type u}

/-- The order of the requests of an entry: each waits for the one before it, and
those before one that no longer waits are done. -/
structure Chain (clock : Nat) (reqs : List (Req V E)) : Prop where
  order : ∀ (i j : Nat) (r r' : Req V E), i < j → reqs[i]? = some r →
    reqs[j]? = some r' → r'.isWaiting = false → r.isDone = true
  prev : ∀ (j : Nat) (r : Req V E) (p : Nat), reqs[j]? = some r →
    r.place = .waiting p → p + 1 = j
  made : ∀ r ∈ reqs, r.called < clock
  times : ∀ r ∈ reqs, ∀ t, r.started = some t → r.called ≤ t ∧ t < clock
  begun : ∀ r ∈ reqs, r.started.isSome = !r.isWaiting
  mono : ∀ (i j : Nat) (r r' : Req V E) (t t' : Nat), i < j →
    reqs[i]? = some r → reqs[j]? = some r' → r.started = some t →
      r'.started = some t' → t ≤ t'

theorem Req.success_eq_none_of_isWaiting {r : Req V E}
    (h : r.isWaiting = true) : r.success = none := by
  unfold Req.isWaiting at h
  unfold Req.success
  split at h
  · rename_i hplace
    rw [hplace]
  · cases h

theorem Chain.later {clock : Nat} {reqs : List (Req V E)}
    (h : Chain clock reqs) : Chain (clock + 1) reqs :=
  ⟨h.order, h.prev, fun r hr => (h.made r hr).trans (Nat.lt_succ_self _),
    fun r hr t ht => ⟨(h.times r hr t ht).1,
      (h.times r hr t ht).2.trans (Nat.lt_succ_self _)⟩, h.begun, h.mono⟩

/-- Behind a request that is not done the others wait. -/
theorem Chain.waiting_of_lt {clock : Nat} {reqs : List (Req V E)}
    (h : Chain clock reqs) {i j : Nat} {r r' : Req V E} (hij : i < j)
    (hi : reqs[i]? = some r) (hj : reqs[j]? = some r')
    (hdone : r.isDone = false) : r'.isWaiting = true := by
  cases hw : r'.isWaiting with
  | true => rfl
  | false =>
      rw [h.order i j r r' hij hi hj hw] at hdone
      cases hdone

theorem Chain.not_started {clock : Nat} {reqs : List (Req V E)}
    (h : Chain clock reqs) {r : Req V E} (hr : r ∈ reqs)
    (hw : r.isWaiting = true) : r.started = none := by
  have hbegun := h.begun r hr
  rw [hw] at hbegun
  exact Option.not_isSome_iff_eq_none.1 (by simp [hbegun])

/-- A request moves on, those before it done. -/
theorem Chain.set {clock : Nat} {reqs : List (Req V E)} (h : Chain clock reqs)
    {i : Nat} {r r' : Req V E} (hi : reqs[i]? = some r)
    (hdone : r.isDone = false) (hwaiting : r'.isWaiting = false)
    (hbefore : ∀ (j : Nat) (q : Req V E), j < i → reqs[j]? = some q →
      q.isDone = true)
    (hcalled : r'.called = r.called) (hbegun : r'.started.isSome = true)
    (htimes : ∀ t, r'.started = some t → r.started = some t ∨ t = clock) :
    Chain (clock + 1) (reqs.set i r') where
  order j k q q' hjk hj hk hw := by
    obtain ⟨rfl, rfl⟩ | ⟨-, hj'⟩ := getElem?_set_cases hj
    · obtain ⟨rfl, -⟩ | ⟨-, hk'⟩ := getElem?_set_cases hk
      · exact absurd hjk (lt_irrefl _)
      · have := h.waiting_of_lt hjk hi hk' hdone
        rw [hw] at this
        cases this
    · obtain ⟨rfl, -⟩ | ⟨-, hk'⟩ := getElem?_set_cases hk
      · exact hbefore j q hjk hj'
      · exact h.order j k q q' hjk hj' hk' hw
  prev j q p hj hplace := by
    obtain ⟨-, rfl⟩ | ⟨-, hj'⟩ := getElem?_set_cases hj
    · simp [Req.isWaiting, hplace] at hwaiting
    · exact h.prev j q p hj' hplace
  made q hq := by
    rcases List.mem_or_eq_of_mem_set hq with hq | rfl
    · exact h.later.made q hq
    · rw [hcalled]
      exact h.later.made r (List.mem_of_getElem? hi)
  times q hq t ht := by
    rcases List.mem_or_eq_of_mem_set hq with hq | rfl
    · exact h.later.times q hq t ht
    · rw [hcalled]
      rcases htimes t ht with hsame | rfl
      · exact h.later.times r (List.mem_of_getElem? hi) t hsame
      · exact ⟨(h.made r (List.mem_of_getElem? hi)).le, Nat.lt_succ_self _⟩
  begun q hq := by
    rcases List.mem_or_eq_of_mem_set hq with hq | rfl
    · exact h.begun q hq
    · rw [hbegun, hwaiting]
      rfl
  mono j k q q' t t' hjk hj hk ht ht' := by
    obtain ⟨rfl, rfl⟩ | ⟨-, hj'⟩ := getElem?_set_cases hj
    · obtain ⟨rfl, -⟩ | ⟨-, hk'⟩ := getElem?_set_cases hk
      · exact absurd hjk (lt_irrefl _)
      · rw [h.not_started (List.mem_of_getElem? hk')
          (h.waiting_of_lt hjk hi hk' hdone)] at ht'
        cases ht'
    · obtain ⟨rfl, rfl⟩ | ⟨-, hk'⟩ := getElem?_set_cases hk
      · rcases htimes t' ht' with hsame | rfl
        · exact h.mono j k q r t t' hjk hj' hi ht hsame
        · exact (h.times q (List.mem_of_getElem? hj') t ht).2.le
      · exact h.mono j k q q' t t' hjk hj' hk' ht ht'

/-- A request is added. -/
theorem Chain.append {clock : Nat} {reqs : List (Req V E)}
    (h : Chain clock reqs) {r : Req V E}
    (hprev : ∀ p, r.place = .waiting p → p + 1 = reqs.length)
    (hdone : r.isWaiting = false → ∀ q ∈ reqs, q.isDone = true)
    (hcalled : r.called = clock)
    (htimes : ∀ t, r.started = some t → t = clock)
    (hbegun : r.started.isSome = !r.isWaiting) :
    Chain (clock + 1) (reqs ++ [r]) where
  order j k q q' hjk hj hk hw := by
    obtain ⟨rfl, -⟩ | ⟨hjlt, hj'⟩ := getElem?_append_cases hj
    · obtain ⟨rfl, -⟩ | ⟨hklt, -⟩ := getElem?_append_cases hk
      · exact absurd hjk (lt_irrefl _)
      · exact absurd (hjk.trans hklt) (lt_irrefl _)
    · obtain ⟨-, rfl⟩ | ⟨-, hk'⟩ := getElem?_append_cases hk
      · exact hdone hw q (List.mem_of_getElem? hj')
      · exact h.order j k q q' hjk hj' hk' hw
  prev j q p hj hplace := by
    obtain ⟨rfl, rfl⟩ | ⟨-, hj'⟩ := getElem?_append_cases hj
    · exact hprev p hplace
    · exact h.prev j q p hj' hplace
  made q hq := by
    rcases List.mem_append.1 hq with hq | hq
    · exact h.later.made q hq
    · obtain rfl := List.mem_singleton.1 hq
      rw [hcalled]
      exact Nat.lt_succ_self _
  times q hq t ht := by
    rcases List.mem_append.1 hq with hq | hq
    · exact h.later.times q hq t ht
    · obtain rfl := List.mem_singleton.1 hq
      rw [htimes t ht, hcalled]
      exact ⟨le_rfl, Nat.lt_succ_self _⟩
  begun q hq := by
    rcases List.mem_append.1 hq with hq | hq
    · exact h.begun q hq
    · obtain rfl := List.mem_singleton.1 hq
      exact hbegun
  mono j k q q' t t' hjk hj hk ht ht' := by
    obtain ⟨rfl, -⟩ | ⟨hjlt, hj'⟩ := getElem?_append_cases hj
    · obtain ⟨rfl, -⟩ | ⟨hklt, -⟩ := getElem?_append_cases hk
      · exact absurd hjk (lt_irrefl _)
      · exact absurd (hjk.trans hklt) (lt_irrefl _)
    · obtain ⟨-, rfl⟩ | ⟨-, hk'⟩ := getElem?_append_cases hk
      · rw [htimes t' ht']
        exact (h.times q (List.mem_of_getElem? hj') t ht).2.le
      · exact h.mono j k q q' t t' hjk hj' hk' ht ht'

/-- The requests that no longer wait follow each other. -/
theorem Chain.before {clock : Nat} {reqs : List (Req V E)}
    (h : Chain clock reqs) {i : Nat} {r : Req V E} (hi : reqs[i]? = some r)
    (hw : r.isWaiting = false) (j : Nat) (q : Req V E) (hji : j < i)
    (hj : reqs[j]? = some q) : q.isDone = true :=
  h.order j i q r hji hj hi hw

end Requests

section Data

variable {V E T : Type u}

theorem latest_congr {reqs reqs' : List (Req V E)} {data : Option V}
    (h : ∀ t v, Got reqs' t v ↔ Got reqs t v) :
    Latest reqs' data ↔ Latest reqs data := by
  simp only [Latest, h]

theorem got_set_iff {reqs : List (Req V E)} {i : Nat} {r r' : Req V E}
    (hi : reqs[i]? = some r) (h : r'.success = r.success) (t : Nat) (v : V) :
    Got (reqs.set i r') t v ↔ Got reqs t v := by
  have hmap : (reqs.set i r').map Req.success = reqs.map Req.success := by
    obtain ⟨hlt, rfl⟩ := List.getElem?_eq_some_iff.1 hi
    have hself : (reqs.map Req.success).set i reqs[i].success =
        reqs.map Req.success := by
      rw [← List.map_set, List.set_getElem_self]
    rw [List.map_set, h, hself]
  rw [Got, hmap, Got]

theorem got_append_iff {reqs : List (Req V E)} {r : Req V E}
    (h : r.success = none) (t : Nat) (v : V) :
    Got (reqs ++ [r]) t v ↔ Got reqs t v := by
  simp [Got, h]

theorem exists_of_got {reqs : List (Req V E)} {t : Nat} {v : V}
    (h : Got reqs t v) :
    ∃ (i : Nat) (r : Req V E), reqs[i]? = some r ∧
      r.success = some (t, v) := by
  obtain ⟨r, hr, hsuccess⟩ := List.mem_map.1 h
  obtain ⟨i, hi⟩ := List.mem_iff_getElem?.1 hr
  exact ⟨i, r, hi, hsuccess⟩

theorem Req.started_of_success {r : Req V E} {t : Nat} {v : V}
    (h : r.success = some (t, v)) : r.started = some t := by
  unfold Req.success at h
  split at h
  · obtain ⟨t', ht', heq⟩ := Option.map_eq_some_iff.1 h
    cases heq
    exact ht'
  · obtain ⟨t', ht', heq⟩ := Option.map_eq_some_iff.1 h
    cases heq
    exact ht'
  · cases h

/-- The fetch whose data is stored is the latest of those that have brought
some. -/
theorem latest_stored {clock i called t : Nat} {reqs : List (Req V E)} {v : V}
    (h : Chain clock reqs)
    (hi : reqs[i]? = some ⟨called, some t, .settled (.ok v)⟩) :
    Latest (reqs.set i ⟨called, some t, .stored (.ok v)⟩) (some v) := by
  refine Or.inr ⟨t, v, rfl, ?_, fun t' v' hgot => ?_⟩
  · have hself := List.getElem?_set_self (a :=
      (⟨called, some t, .stored (.ok v)⟩ : Req V E))
      (List.getElem?_eq_some_iff.1 hi).1
    exact List.mem_map.2 ⟨_, List.mem_of_getElem? hself, rfl⟩
  · obtain ⟨j, q, hj, hsuccess⟩ := exists_of_got hgot
    obtain ⟨-, rfl⟩ | ⟨hne, hj'⟩ := getElem?_set_cases hj
    · cases hsuccess
      exact le_rfl
    · have hstarted := Req.started_of_success hsuccess
      obtain hlt | hgt := lt_or_gt_of_ne hne
      · exact h.mono j i q _ t' t hlt hj' hi hstarted rfl
      · have hw := h.waiting_of_lt hgt hi hj' rfl
        rw [Req.success_eq_none_of_isWaiting hw] at hsuccess
        cases hsuccess

end Data

section Runs

variable {K V E T : Type u} [DecidableEq K]

structure Entry.Inv (clock : Nat) (e : Entry V E T) : Prop where
  chain : Chain clock e.reqs
  idle : e.inflight = none → ∀ r ∈ e.reqs, r.isDone = true
  last : ∀ p, e.inflight = some p → p + 1 = e.reqs.length
  calls : ∀ call ∈ e.calls, ∃ r, e.reqs[call.req]? = some r ∧
    (call.after = true → call.time = r.called)
  data : Latest e.reqs e.data
  shown : Latest e.shown e.snap.data
  rest : e.inflight = none → e.shown = e.reqs

theorem Entry.inv_empty (clock : Nat) : (Entry.empty : Entry V E T).Inv clock :=
  have hnone : Latest ([] : List (Req V E)) none :=
    Or.inl ⟨rfl, fun _ _ h => by cases h⟩
  { chain := ⟨nofun, nofun, nofun, nofun, nofun, nofun⟩
    idle := nofun
    last := nofun
    calls := nofun
    data := hnone
    shown := hnone
    rest := fun _ => rfl }

theorem Entry.Inv.later {clock : Nat} {e : Entry V E T} (h : e.Inv clock) :
    e.Inv (clock + 1) :=
  { h with chain := h.chain.later }

theorem Entry.Inv.request {clock : Nat} {e : Entry V E T} (h : e.Inv clock)
    (after : Bool) : (e.request clock after).Inv (clock + 1) := by
  have hcalls : ∀ call ∈ e.calls, ∀ r : Req V E,
      ∃ q, (e.reqs ++ [r])[call.req]? = some q ∧
        (call.after = true → call.time = q.called) := by
    intro call hcall r
    obtain ⟨q, hq, htime⟩ := h.calls call hcall
    have hlt := (List.getElem?_eq_some_iff.1 hq).1
    exact ⟨q, by rw [List.getElem?_append_left hlt, hq], htime⟩
  have hnew : ∀ r : Req V E, r.success = none → r.called = clock →
      Chain (clock + 1) (e.reqs ++ [r]) →
      Entry.Inv (clock + 1) (Entry.changed { e with
        reqs := e.reqs ++ [r]
        inflight := some e.reqs.length
        calls := ⟨clock, after, e.reqs.length⟩ :: e.calls }) := by
    intro r hsuccess hcalled hchain
    have hlatest : Latest (e.reqs ++ [r]) e.data :=
      (latest_congr fun t v => got_append_iff hsuccess t v).2 h.data
    refine ⟨hchain, nofun, fun p hp => ?_, fun call hcall => ?_, hlatest,
      hlatest, nofun⟩
    · cases hp
      simp [Entry.changed]
    · rcases List.mem_cons.1 hcall with rfl | hcall
      · exact ⟨r, List.getElem?_concat_length, fun _ => hcalled.symm⟩
      · exact hcalls call hcall r
  unfold Entry.request
  cases hin : e.inflight with
  | some i =>
      refine hnew _ rfl rfl (h.chain.append ?_ nofun rfl nofun rfl)
      intro p hp
      cases hp
      exact h.last i hin
  | none =>
      refine hnew _ rfl rfl
        (h.chain.append nofun (fun _ => h.idle hin) rfl ?_ rfl)
      intro t ht
      cases ht
      rfl

theorem Entry.Inv.refresh {clock : Nat} {e : Entry V E T} (h : e.Inv clock)
    (after : Bool) : (e.refresh clock after).Inv (clock + 1) := by
  unfold Entry.refresh
  split
  · rename_i i hin
    split
    · exact h.request true
    · refine { h.later with calls := fun call hcall => ?_ }
      rcases List.mem_cons.1 hcall with rfl | hcall
      · have hlast := h.last i hin
        have hlt : i < e.reqs.length := by omega
        exact ⟨e.reqs[i], List.getElem?_eq_getElem hlt, nofun⟩
      · exact h.calls call hcall
  · exact h.request after

/-- The entry after a request of its own has moved on, apart from the data. -/
theorem Entry.Inv.calls_set {clock : Nat} {e : Entry V E T} (h : e.Inv clock)
    {i : Nat} {r r' : Req V E} (hi : e.reqs[i]? = some r)
    (hcalled : r'.called = r.called) :
    ∀ call ∈ e.calls, ∃ q, (e.reqs.set i r')[call.req]? = some q ∧
      (call.after = true → call.time = q.called) := by
  intro call hcall
  obtain ⟨q, hq, htime⟩ := h.calls call hcall
  have hlt := (List.getElem?_eq_some_iff.1 hi).1
  by_cases hreq : call.req = i
  · rw [hreq, hi] at hq
    obtain rfl := Option.some.inj hq
    exact ⟨r', by rw [hreq, List.getElem?_set_self hlt], fun hafter =>
      (htime hafter).trans hcalled.symm⟩
  · exact ⟨q, by rw [List.getElem?_set_ne (Ne.symm hreq), hq], htime⟩

/-- A request that is not done is there while one is in flight only. -/
theorem Entry.Inv.inflight {clock : Nat} {e : Entry V E T} (h : e.Inv clock)
    {i : Nat} {r : Req V E} (hi : e.reqs[i]? = some r)
    (hdone : r.isDone = false) : e.inflight ≠ none := by
  intro hnone
  rw [h.idle hnone r (List.mem_of_getElem? hi)] at hdone
  cases hdone

/-- A request moves on and brings nothing. -/
theorem Entry.Inv.setReq {clock : Nat} {e : Entry V E T} (h : e.Inv clock)
    {i : Nat} {r r' : Req V E} (hi : e.reqs[i]? = some r)
    (hdone : r.isDone = false) (hcalled : r'.called = r.called)
    (hsuccess : r'.success = r.success)
    (hchain : Chain (clock + 1) (e.reqs.set i r')) :
    (e.setReq i r').Inv (clock + 1) where
  chain := hchain
  idle hnone := absurd hnone (h.inflight hi hdone)
  last p hp := (h.last p hp).trans List.length_set.symm
  calls := h.calls_set hi hcalled
  data := (latest_congr (got_set_iff hi hsuccess)).2 h.data
  shown := h.shown
  rest hnone := absurd hnone (h.inflight hi hdone)

theorem Entry.Inv.start {clock i : Nat} {e e' : Entry V E T} (h : e.Inv clock)
    (hs : e.start clock i = some e') : e'.Inv (clock + 1) := by
  unfold Entry.start at hs
  split at hs
  · rename_i called started prev hi
    split at hs
    · rename_i called' started' result hprev
      obtain rfl := Option.some.inj hs
      refine h.setReq hi rfl rfl rfl (h.chain.set hi rfl rfl ?_ rfl rfl ?_)
      · intro j q hji hj
        have hpos := h.chain.prev i _ prev hi rfl
        obtain heq | hlt := eq_or_lt_of_le (by omega : j ≤ prev)
        · rw [heq, hprev] at hj
          obtain rfl := Option.some.inj hj
          rfl
        · exact h.chain.before hprev rfl j q hlt hj
      · intro t ht
        cases ht
        exact Or.inr rfl
    · cases hs
  · cases hs

theorem Entry.Inv.settle {clock i : Nat} {e e' : Entry V E T}
    {result : Except E V} (h : e.Inv clock)
    (hs : e.settle i result = some e') : e'.Inv (clock + 1) := by
  unfold Entry.settle at hs
  split at hs
  · rename_i called started hi
    obtain rfl := Option.some.inj hs
    have hbegun := h.chain.begun _ (List.mem_of_getElem? hi)
    exact h.setReq hi rfl rfl rfl (h.chain.set hi rfl rfl
      (h.chain.before hi rfl) rfl hbegun (fun t ht => Or.inl ht))
  · cases hs

theorem Entry.Inv.store {clock i : Nat} {e e' : Entry V E T} {now : T}
    (h : e.Inv clock) (hs : e.store i now = some e') :
    e'.Inv (clock + 1) := by
  unfold Entry.store at hs
  split at hs
  · rename_i called started result hi
    have hbegun := h.chain.begun _ (List.mem_of_getElem? hi)
    have hchain : Chain (clock + 1)
        (e.reqs.set i ⟨called, started, .stored result⟩) :=
      h.chain.set hi rfl rfl (h.chain.before hi rfl) rfl hbegun
        (fun t ht => Or.inl ht)
    cases result with
    | ok v =>
        obtain rfl := Option.some.inj hs
        obtain ⟨t, rfl⟩ := Option.isSome_iff_exists.1 hbegun
        exact
          { chain := hchain
            idle := fun hnone => absurd hnone (h.inflight hi rfl)
            last := fun p hp => (h.last p hp).trans List.length_set.symm
            calls := h.calls_set hi rfl
            data := latest_stored h.chain hi
            shown := h.shown
            rest := fun hnone => absurd hnone (h.inflight hi rfl) }
    | error error =>
        obtain rfl := Option.some.inj hs
        have hset : (e.setReq i ⟨called, started, .stored (.error error)⟩).Inv
            (clock + 1) := h.setReq hi rfl rfl rfl hchain
        exact ⟨hset.chain, hset.idle, hset.last, hset.calls, hset.data,
          hset.shown, hset.rest⟩
  · cases hs

theorem Entry.Inv.finish {clock i : Nat} {e e' : Entry V E T}
    (h : e.Inv clock) (hs : e.finish i = some e') : e'.Inv (clock + 1) := by
  unfold Entry.finish at hs
  split at hs
  · rename_i called started result hi
    obtain rfl := Option.some.inj hs
    have hbegun := h.chain.begun _ (List.mem_of_getElem? hi)
    have hsuccess : (⟨called, started, .done result⟩ : Req V E).success =
        (⟨called, started, .stored result⟩ : Req V E).success := by
      cases result <;> rfl
    have hset : (e.setReq i ⟨called, started, .done result⟩).Inv (clock + 1) :=
      h.setReq hi rfl rfl hsuccess (h.chain.set hi rfl rfl
        (h.chain.before hi rfl) rfl hbegun (fun t ht => Or.inl ht))
    split
    · rename_i hin
      refine ⟨hset.chain, fun _ r hr => ?_, nofun, hset.calls, hset.data,
        hset.data, fun _ => rfl⟩
      obtain ⟨j, hj⟩ := List.mem_iff_getElem?.1 hr
      obtain ⟨-, rfl⟩ | ⟨hne, hj'⟩ := getElem?_set_cases hj
      · rfl
      · have hlast := h.last i hin
        have hlt := (List.getElem?_eq_some_iff.1 hj').1
        exact h.chain.before hi rfl j r (by omega) hj'
    · exact hset
  · cases hs

theorem Entry.Inv.step {clock : Nat} {e e' : Entry V E T} {act : Act V E T}
    (h : e.Inv clock) (hs : e.step clock act = some e') :
    e'.Inv (clock + 1) := by
  cases act with
  | refresh after =>
      obtain rfl := Option.some.inj hs
      exact h.refresh after
  | start i => exact h.start hs
  | settle i result => exact h.settle hs
  | store i now => exact h.store hs
  | finish i => exact h.finish hs

theorem Entry.Inv.ordered {clock : Nat} {e : Entry V E T} (h : e.Inv clock) :
    e.Ordered where
  single i j r r' hi hj hr hr' := by
    have hbusy : ∀ q : Req V E, q.isRunning = true →
        q.isWaiting = false ∧ q.isDone = false := by
      rintro ⟨called, started, place⟩ hq
      cases place <;> first | exact ⟨rfl, rfl⟩ | cases hq
    obtain hlt | heq | hlt := Nat.lt_trichotomy i j
    · have hdone := h.chain.before hj (hbusy r' hr').1 i r hlt hi
      rw [(hbusy r hr).2] at hdone
      cases hdone
    · exact heq
    · have hdone := h.chain.before hi (hbusy r hr).1 j r' hlt hj
      rw [(hbusy r' hr').2] at hdone
      cases hdone
  after call hcall hafter := by
    obtain ⟨r, hr, htime⟩ := h.calls call hcall
    have hmem := List.mem_of_getElem? hr
    refine ⟨r, hr, fun t ht => ?_, fun hdone => ?_⟩
    · rw [htime hafter]
      exact (h.chain.times r hmem t ht).1
    · rw [h.chain.begun r hmem]
      obtain ⟨called, started, place⟩ := r
      cases place <;> first | rfl | cases hdone

theorem Entry.keepsData (e : Entry V E T) : e.KeepsData := by
  intro i called started error now e' hi hs
  unfold Entry.store at hs
  rw [hi] at hs
  obtain rfl := Option.some.inj hs
  exact ⟨rfl, rfl, rfl⟩

/-- In every run of refreshes and fetches a key has one fetch out at a time, a
refresh after a write is answered by a later fetch, a failed one leaves the data,
and what is shown is the latest that there was when the snapshot was taken, with
nothing out the latest of all. -/
theorem fresh_of_reach {c : Cache K V E T}
    (h : ReachAny Cache.step Cache.empty c) (k : K) : c.Fresh k := by
  have hinv : ∀ k, (c.entries k).Inv c.clock := by
    refine h.inv (I := fun c : Cache K V E T => ∀ k,
      (c.entries k).Inv c.clock) (fun _ => Entry.inv_empty 0) ?_
    rintro c ⟨k', act⟩ c' hc - hs k
    obtain ⟨e, he, rfl⟩ := Option.map_eq_some_iff.1 hs
    by_cases hk : k = k'
    · subst hk
      simp only [Function.update_self]
      exact (hc k).step he
    · simp only [Function.update_of_ne hk]
      exact (hc k).later
  refine ⟨(hinv k).ordered, Entry.keepsData _, fun hrest => ?_, (hinv k).shown⟩
  rw [← (hinv k).rest hrest]
  exact (hinv k).shown

/-- One refresh, whose fetch succeeds. -/
theorem fresh_of_reach_once :
    ∃ c : Cache Nat Nat Nat Nat,
      (c.entries 0).snap = ⟨some 7, none, some 100, false⟩ ∧ c.Fresh 0 := by
  have hinit : ReachAny (Cache.step (V := Nat) (E := Nat) (T := Nat))
      (Cache.empty (K := Nat)) Cache.empty := .refl
  have hdone := hinit
    |>.step (a := (0, Act.refresh false)) trivial rfl
    |>.step (a := (0, Act.settle 0 (.ok 7))) trivial rfl
    |>.step (a := (0, Act.store 0 100)) trivial rfl
    |>.step (a := (0, Act.finish 0)) trivial rfl
  exact ⟨_, rfl, fresh_of_reach hdone 0⟩

/-- The first fetch has succeeded, and nothing is shown while the refresh that
was made after it is out. -/
theorem not_alwaysFresh_queued :
    ¬ ∀ c : Cache Nat Nat Nat Nat, ReachAny Cache.step Cache.empty c →
      ∀ k, c.AlwaysFresh k := by
  intro h
  cases hrun : exec Cache.step (Cache.empty : Cache Nat Nat Nat Nat)
      [(0, .refresh false), (0, .refresh true), (0, .settle 0 (.ok 7)),
        (0, .store 0 100), (0, .finish 0)] with
  | none => cases hrun
  | some c =>
      have hfresh := h c (Reach.exec .refl hrun) 0
      obtain rfl := Option.some.inj hrun
      obtain ⟨-, hnone⟩ | ⟨t, v, hdata, -⟩ := hfresh.shown
      · exact hnone 0 7 List.mem_cons_self
      · cases hdata

end Runs

end ResourceCache
end Frontend
end Kelt
