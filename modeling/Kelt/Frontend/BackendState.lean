import Kelt.Lib.Dict
import Kelt.Lib.Runs
import Kelt.Lib.Slots

/-!
# Reads while the backend is down

While the dashboard knows that the backend is down it holds its reads
(`backendState.js`): a read waits for the backend and is then sent, one send for
all that wait under a key. The send that is held for a key stays there until it
is answered, which may be in the next outage. A read of that outage joins it and
is answered by what was sent before, or fails with it; where this does not
happen every held read is answered by a send of its own recovery
(`sound_of_apart`).

What is sent while the backend is up is sent at once and not part of the state.
-/

namespace Kelt
namespace Frontend
namespace BackendState

universe u

section Gate

/-- Where a held send is: its callers wait for the backend, the wait is over, it
is out, it is answered, its key is free. With it the number of recoveries before
it went out. -/
inductive Place where
  | waiting
  | ready
  | sent (ups : Nat)
  | answered (ups : Nat)
  | finished (ups : Nat)

def Place.sentAt : Place → Option Nat
  | .sent n | .answered n | .finished n => some n
  | _ => none

def Place.isWaiting : Place → Bool
  | .waiting => true
  | _ => false

def Place.isFinished : Place → Bool
  | .finished _ => true
  | _ => false

/-- A send that is held under a key since an outage. -/
structure Held (κ : Type u) where
  key : κ
  outage : Nat
  place : Place

/-- A read that was made in an outage, after a number of recoveries, with the
send whose answer it gets. -/
structure Read (κ : Type u) where
  key : κ
  outage : Nat
  ups : Nat
  send : Nat

/-- The state of the module, with all sends that were ever held, the reads, and
the number of outages and recoveries. -/
structure Gate (κ : Type u) where
  down : Bool
  waiters : List Nat
  held : List (κ × Nat)
  sends : List (Held κ)
  reads : List (Read κ)
  outages : Nat
  ups : Nat

variable {κ : Type u}

def Gate.init : Gate κ :=
  ⟨false, [], [], [], [], 0, 0⟩

/-- The waiters are resolved when the backend is up. -/
def Gate.setBackendDown (g : Gate κ) (value : Bool) : Gate κ :=
  let g := { g with
    down := value
    outages := if value && !g.down then g.outages + 1 else g.outages
    ups := if !value && g.down then g.ups + 1 else g.ups }
  if value then g
  else
    { g with
      waiters := []
      sends := g.sends.mapIdx fun i h =>
        if i ∈ g.waiters then { h with place := .ready } else h }

/-- `whenBackendUp().then(send)` of a send. -/
def Gate.whenBackendUp (g : Gate κ) (key : κ) : Gate κ :=
  { g with
    waiters := if g.down then g.waiters ++ [g.sends.length] else g.waiters
    sends := g.sends ++
      [⟨key, g.outages, if g.down then .waiting else .ready⟩] }

variable [DecidableEq κ]

def Gate.holdWhileDown (g : Gate κ) (key : κ) : Gate κ :=
  if g.down then
    match Dict.getItem key g.held with
    | some i => { g with reads := ⟨key, g.outages, g.ups, i⟩ :: g.reads }
    | none =>
        { g.whenBackendUp key with
          held := Dict.setItem key g.sends.length g.held
          reads := ⟨key, g.outages, g.ups, g.sends.length⟩ :: g.reads }
  else g

omit [DecidableEq κ] in
def Gate.setPlace (g : Gate κ) (i : Nat) (h : Held κ) (place : Place) :
    Gate κ :=
  { g with sends := g.sends.set i { h with place := place } }

inductive Act (κ : Type u) where
  | health (down : Bool)
  | read (key : κ)
  | send (i : Nat)
  | reply (i : Nat)
  | free (i : Nat)

/-- The callbacks of a send: it is performed, its promise is settled, its key is
deleted. -/
def Gate.step (g : Gate κ) : Act κ → Option (Gate κ)
  | .health down => some (g.setBackendDown down)
  | .read key => some (g.holdWhileDown key)
  | .send i =>
      match g.sends[i]? with
      | some h =>
          match h.place with
          | .ready => some (g.setPlace i h (.sent g.ups))
          | _ => none
      | none => none
  | .reply i =>
      match g.sends[i]? with
      | some h =>
          match h.place with
          | .sent n => some (g.setPlace i h (.answered n))
          | _ => none
      | none => none
  | .free i =>
      match g.sends[i]? with
      | some h =>
          match h.place with
          | .answered n =>
              some { g.setPlace i h (.finished n) with
                held := Dict.eraseItem h.key g.held }
          | _ => none
      | none => none

end Gate

section Claims

variable {κ : Type u} [DecidableEq κ]

/-- What is promised of the reads of an outage. -/
structure Gate.Sound (g : Gate κ) : Prop where
  answered : ∀ r ∈ g.reads, ∀ h n, g.sends[r.send]? = some h →
    h.place.sentAt = some n → r.ups < n
  once : ∀ (i j : Nat) h h', g.sends[i]? = some h → g.sends[j]? = some h' →
    h.key = h'.key → h.outage = h'.outage → i = j
  shared : ∀ r ∈ g.reads, ∀ r' ∈ g.reads, r.key = r'.key →
    r.outage = r'.outage → r.send = r'.send

/-- No read joins a send that an earlier recovery has let go. -/
def Gate.Apart (g : Gate κ) : Act κ → Prop
  | .read key => g.down = true → ∀ i h, Dict.getItem key g.held = some i →
      g.sends[i]? = some h → h.place.isWaiting = true
  | _ => True

end Claims

section Invariant

variable {κ : Type u} [DecidableEq κ]

/-- What is known of a held send and of its key. -/
structure Gate.SendOk (g : Gate κ) (i : Nat) (h : Held κ) : Prop where
  held : Dict.getItem h.key g.held = some i ∨ h.place.isFinished = true
  outage : h.outage ≤ g.outages
  waiting : h.place.isWaiting = true →
    g.down = true ∧ i ∈ g.waiters ∧ h.outage = g.outages
  fresh : g.down = true → h.outage = g.outages → h.place.isWaiting = true
  sent : ∀ n, h.place.sentAt = some n → n ≤ g.ups

structure Gate.ReadOk (g : Gate κ) (r : Read κ) : Prop where
  send : ∃ h, g.sends[r.send]? = some h ∧ h.key = r.key ∧
    h.outage = r.outage ∧ (h.place.isWaiting = true → r.ups = g.ups) ∧
      (h.place.isWaiting = false → r.ups < g.ups) ∧
        ∀ n, h.place.sentAt = some n → r.ups < n

structure Gate.Inv (g : Gate κ) : Prop where
  sends : ∀ (i : Nat) h, g.sends[i]? = some h → g.SendOk i h
  held : ∀ k i, Dict.getItem k g.held = some i →
    ∃ h, g.sends[i]? = some h ∧ h.key = k
  waiters : ∀ i ∈ g.waiters, ∃ h, g.sends[i]? = some h ∧
    h.place.isWaiting = true
  once : ∀ (i j : Nat) h h', g.sends[i]? = some h → g.sends[j]? = some h' →
    h.key = h'.key → h.outage = h'.outage → i = j
  reads : ∀ r ∈ g.reads, g.ReadOk r

theorem Place.isFinished_of_isWaiting {p : Place} (h : p.isWaiting = true) :
    p.isFinished = false := by
  cases p with
  | waiting => rfl
  | _ => cases h

theorem Place.sentAt_of_isWaiting {p : Place} (h : p.isWaiting = true) :
    p.sentAt = none := by
  cases p with
  | waiting => rfl
  | _ => cases h

/-- A key is held until its send is done. -/
theorem Gate.SendOk.getItem {g : Gate κ} {i : Nat} {h : Held κ}
    (hok : g.SendOk i h) (hopen : h.place.isFinished = false) :
    Dict.getItem h.key g.held = some i :=
  hok.held.resolve_right (Bool.eq_false_iff.1 hopen)

omit [DecidableEq κ] in
/-- Two lists of sends with the same keys and outages. -/
theorem once_of_same {ss ss' : List (Held κ)}
    (honce : ∀ (i j : Nat) h h', ss[i]? = some h → ss[j]? = some h' →
      h.key = h'.key → h.outage = h'.outage → i = j)
    (hsame : ∀ (i : Nat) h, ss'[i]? = some h →
      ∃ h₀, ss[i]? = some h₀ ∧ h₀.key = h.key ∧ h₀.outage = h.outage) :
    ∀ (i j : Nat) h h', ss'[i]? = some h → ss'[j]? = some h' →
      h.key = h'.key → h.outage = h'.outage → i = j := by
  intro i j h h' hi hj hkey houtage
  obtain ⟨h₀, hi₀, hk₀, ho₀⟩ := hsame i h hi
  obtain ⟨h₁, hj₁, hk₁, ho₁⟩ := hsame j h' hj
  refine honce i j h₀ h₁ hi₀ hj₁ ?_ ?_
  · rw [hk₀, hk₁, hkey]
  · rw [ho₀, ho₁, houtage]

theorem inv_init : (Gate.init : Gate κ).Inv where
  sends := by intro i h hi; cases hi
  held := by intro k i hk; cases hk
  waiters := by intro i hi; cases hi
  once := by intro i j h h' hi; cases hi
  reads := by intro r hr; cases hr

/-- An outage begins: no send waits, and none is of the new outage. -/
theorem Gate.Inv.goDown {g : Gate κ} (hinv : g.Inv) :
    (g.setBackendDown true).Inv := by
  cases hdown : g.down with
  | true =>
      have hsame : g.setBackendDown true = g := by
        cases g with
        | mk down waiters held sends reads outages ups =>
            obtain rfl : down = true := hdown
            rfl
      rw [hsame]
      exact hinv
  | false =>
      have hg : g.setBackendDown true =
          { g with down := true, outages := g.outages + 1 } := by
        simp [Gate.setBackendDown, hdown]
      have hwait : ∀ (i : Nat) h, g.sends[i]? = some h →
          h.place.isWaiting = false := by
        intro i h hi
        cases hw : h.place.isWaiting with
        | false => rfl
        | true =>
            obtain ⟨hd, -⟩ := (hinv.sends i h hi).waiting hw
            rw [hdown] at hd
            cases hd
      rw [hg]
      refine ⟨fun i h hi => ?_, hinv.held, hinv.waiters, hinv.once,
        fun r hr => ⟨(hinv.reads r hr).send⟩⟩
      have hok := hinv.sends i h hi
      refine ⟨hok.held, Nat.le_succ_of_le hok.outage, fun hw => ?_,
        fun _ ho => ?_, hok.sent⟩
      · rw [hwait i h hi] at hw
        cases hw
      · have hle := hok.outage
        rw [ho] at hle
        exact absurd hle (Nat.not_succ_le_self _)

omit [DecidableEq κ] in
theorem Gate.getElem?_goUp (g : Gate κ) (i : Nat) :
    (g.setBackendDown false).sends[i]? =
      (g.sends[i]?).map fun h =>
        if i ∈ g.waiters then { h with place := .ready } else h := by
  simp [Gate.setBackendDown, List.getElem?_mapIdx]

omit [DecidableEq κ] in
theorem Gate.ups_le_goUp (g : Gate κ) :
    g.ups ≤ (g.setBackendDown false).ups := by
  cases hdown : g.down with
  | true => simp [Gate.setBackendDown, hdown]
  | false => simp [Gate.setBackendDown, hdown]

omit [DecidableEq κ] in
theorem Gate.ups_lt_goUp {g : Gate κ} (hdown : g.down = true) :
    g.ups < (g.setBackendDown false).ups := by
  simp [Gate.setBackendDown, hdown]

/-- A send after a recovery is one from before: what waited is let go, and the
others are where they were. -/
theorem Gate.Inv.goUp_cases {g : Gate κ} (hinv : g.Inv) {i : Nat} {h : Held κ}
    (hi : (g.setBackendDown false).sends[i]? = some h) :
    ∃ h₀, g.sends[i]? = some h₀ ∧ h₀.key = h.key ∧
      h₀.outage = h.outage ∧
        ((h₀.place.isWaiting = true ∧ h.place = .ready) ∨
          (h₀.place.isWaiting = false ∧ h.place = h₀.place)) := by
  rw [g.getElem?_goUp] at hi
  obtain ⟨h₀, hi₀, rfl⟩ := Option.map_eq_some_iff.1 hi
  refine ⟨h₀, hi₀, ?_⟩
  by_cases hmem : i ∈ g.waiters
  · obtain ⟨h₁, hi₁, hw⟩ := hinv.waiters i hmem
    obtain rfl := Option.some.inj (hi₀.symm.trans hi₁)
    rw [if_pos hmem]
    exact ⟨rfl, rfl, Or.inl ⟨hw, rfl⟩⟩
  · have hw : h₀.place.isWaiting = false := by
      cases hw : h₀.place.isWaiting with
      | false => rfl
      | true => exact absurd ((hinv.sends i h₀ hi₀).waiting hw).2.1 hmem
    rw [if_neg hmem]
    exact ⟨rfl, rfl, Or.inr ⟨hw, rfl⟩⟩

theorem Gate.Inv.not_isWaiting_goUp {g : Gate κ} (hinv : g.Inv) {i : Nat}
    {h : Held κ} (hi : (g.setBackendDown false).sends[i]? = some h) :
    h.place.isWaiting = false := by
  obtain ⟨h₀, -, -, -, ⟨-, hp⟩ | ⟨hw, hp⟩⟩ := hinv.goUp_cases hi
  · rw [hp]
    rfl
  · rw [hp, hw]

theorem Gate.Inv.sendOk_goUp {g : Gate κ} (hinv : g.Inv) {i : Nat} {h : Held κ}
    (hi : (g.setBackendDown false).sends[i]? = some h) :
    (g.setBackendDown false).SendOk i h := by
  have hnot := hinv.not_isWaiting_goUp hi
  obtain ⟨h₀, hi₀, hkey, houtage, hplace⟩ := hinv.goUp_cases hi
  have hok := hinv.sends i h₀ hi₀
  refine ⟨?_, ?_, fun hw => ?_, fun hd _ => ?_, fun n hn => ?_⟩
  · rw [← hkey]
    obtain ⟨hw, -⟩ | ⟨-, hp⟩ := hplace
    · exact Or.inl (hok.getItem (Place.isFinished_of_isWaiting hw))
    · rw [hp]
      exact hok.held
  · rw [← houtage]
    exact hok.outage
  · rw [hnot] at hw
    cases hw
  · cases hd
  · obtain ⟨-, hp⟩ | ⟨-, hp⟩ := hplace
    · rw [hp] at hn
      cases hn
    · rw [hp] at hn
      exact (hok.sent n hn).trans g.ups_le_goUp

theorem Gate.Inv.readOk_goUp {g : Gate κ} (hinv : g.Inv) {r : Read κ}
    (hr : r ∈ g.reads) : (g.setBackendDown false).ReadOk r := by
  obtain ⟨h₀, hi₀, hkey, houtage, hwait, hnot, hsent⟩ :=
    (hinv.reads r hr).send
  have hi := (g.getElem?_goUp r.send).trans (congrArg _ hi₀)
  have hw := hinv.not_isWaiting_goUp hi
  obtain ⟨h₁, hi₁, hkey₁, houtage₁, hplace⟩ := hinv.goUp_cases hi
  obtain rfl := Option.some.inj (hi₀.symm.trans hi₁)
  refine ⟨_, hi, hkey₁.symm.trans hkey, houtage₁.symm.trans houtage,
    fun hw' => ?_, fun _ => ?_, fun n hn => ?_⟩
  · rw [hw] at hw'
    cases hw'
  · obtain ⟨hw₀, -⟩ | ⟨hw₀, -⟩ := hplace
    · have hdown := ((hinv.sends r.send h₀ hi₀).waiting hw₀).1
      rw [hwait hw₀]
      exact g.ups_lt_goUp hdown
    · exact lt_of_lt_of_le (hnot hw₀) g.ups_le_goUp
  · obtain ⟨-, hp⟩ | ⟨-, hp⟩ := hplace
    · rw [hp] at hn
      cases hn
    · rw [hp] at hn
      exact hsent n hn

/-- The backend is up again: all that waited is let go. -/
theorem Gate.Inv.goUp {g : Gate κ} (hinv : g.Inv) :
    (g.setBackendDown false).Inv := by
  refine ⟨fun i h hi => hinv.sendOk_goUp hi, fun k i hk => ?_, fun i hi => ?_,
    once_of_same hinv.once fun i h hi => ?_,
    fun r hr => hinv.readOk_goUp hr⟩
  · obtain ⟨h, hi, hkey⟩ := hinv.held k i hk
    refine ⟨_, (g.getElem?_goUp i).trans (congrArg _ hi), ?_⟩
    split
    · exact hkey
    · exact hkey
  · cases hi
  · obtain ⟨h₀, hi₀, hkey, houtage, -⟩ := hinv.goUp_cases hi
    exact ⟨h₀, hi₀, hkey, houtage⟩

/-- A read that finds a send that waits joins it. -/
theorem Gate.Inv.join {g : Gate κ} (hinv : g.Inv) {key : κ} {i : Nat}
    {h : Held κ} (hi : g.sends[i]? = some h) (hkey : h.key = key)
    (hwait : h.place.isWaiting = true) :
    Gate.Inv { g with reads := ⟨key, g.outages, g.ups, i⟩ :: g.reads } := by
  have hok := hinv.sends i h hi
  refine ⟨fun j h' hj => ?_, hinv.held, hinv.waiters, hinv.once,
    List.forall_mem_cons.2 ⟨⟨h, hi, hkey, (hok.waiting hwait).2.2,
      fun _ => rfl, fun hnot => ?_, fun n hn => ?_⟩,
      fun r hr => ⟨(hinv.reads r hr).send⟩⟩⟩
  · have hok' := hinv.sends j h' hj
    exact ⟨hok'.held, hok'.outage, hok'.waiting, hok'.fresh, hok'.sent⟩
  · rw [hwait] at hnot
    cases hnot
  · rw [Place.sentAt_of_isWaiting hwait] at hn
    cases hn

/-- No send of the outage is there for a key that is not held. -/
theorem Gate.Inv.outage_ne {g : Gate κ} (hinv : g.Inv) {key : κ}
    (hdown : g.down = true) (hheld : Dict.getItem key g.held = none) {j : Nat}
    {h : Held κ} (hj : g.sends[j]? = some h) (hkey : h.key = key) :
    h.outage ≠ g.outages := by
  intro houtage
  have hok := hinv.sends j h hj
  have hwait := hok.fresh hdown houtage
  have hh := hok.getItem (Place.isFinished_of_isWaiting hwait)
  rw [hkey, hheld] at hh
  cases hh

/-- A read that finds none is held with a new send. -/
theorem Gate.Inv.hold {g : Gate κ} (hinv : g.Inv) {key : κ}
    (hdown : g.down = true) (hheld : Dict.getItem key g.held = none) :
    Gate.Inv { g.whenBackendUp key with
      held := Dict.setItem key g.sends.length g.held
      reads := ⟨key, g.outages, g.ups, g.sends.length⟩ :: g.reads } := by
  have hlast : (g.sends ++ [⟨key, g.outages, .waiting⟩])[g.sends.length]? =
      some ⟨key, g.outages, .waiting⟩ := List.getElem?_concat_length
  simp only [Gate.whenBackendUp, hdown, if_true]
  refine ⟨fun j h' hj => ?_, fun k i hk => ?_, fun i hi => ?_,
    fun i j h h' hi hj hkey houtage => ?_, List.forall_mem_cons.2
      ⟨⟨_, hlast, rfl, rfl, fun _ => rfl, fun hw => ?_, fun n hn => ?_⟩,
        fun r hr => ⟨?_⟩⟩⟩
  · rcases getElem?_append_cases hj with ⟨rfl, rfl⟩ | ⟨-, hj⟩
    · refine ⟨Or.inl ?_, le_rfl, fun _ => ⟨rfl, ?_, rfl⟩, fun _ _ => rfl,
        fun n hn => by cases hn⟩
      · rw [Dict.getItem_setItem, if_pos rfl]
      · exact List.mem_append_right _ List.mem_cons_self
    · have hok := hinv.sends j h' hj
      refine ⟨?_, hok.outage, fun hw => ?_, fun _ => hok.fresh hdown,
        hok.sent⟩
      · refine hok.held.imp (fun hh => ?_) id
        have hne : key ≠ h'.key := by
          rintro rfl
          rw [hheld] at hh
          cases hh
        rw [Dict.getItem_setItem, if_neg hne, hh]
      · obtain ⟨-, hmem, ho⟩ := hok.waiting hw
        exact ⟨rfl, List.mem_append_left _ hmem, ho⟩
  · rw [Dict.getItem_setItem] at hk
    split at hk
    · rename_i hkey
      obtain rfl := Option.some.inj hk
      exact ⟨_, hlast, hkey⟩
    · obtain ⟨h, hi, hkey⟩ := hinv.held k i hk
      exact ⟨h, getElem?_append_of_some _ hi, hkey⟩
  · rcases List.mem_append.1 hi with hi | hi
    · obtain ⟨h, hj, hw⟩ := hinv.waiters i hi
      exact ⟨h, getElem?_append_of_some _ hj, hw⟩
    · obtain rfl := List.mem_singleton.1 hi
      exact ⟨_, hlast, rfl⟩
  · rcases getElem?_append_cases hi with ⟨rfl, rfl⟩ | ⟨-, hi⟩
    · rcases getElem?_append_cases hj with ⟨rfl, rfl⟩ | ⟨-, hj⟩
      · rfl
      · exact absurd houtage.symm (hinv.outage_ne hdown hheld hj hkey.symm)
    · rcases getElem?_append_cases hj with ⟨rfl, rfl⟩ | ⟨-, hj⟩
      · exact absurd houtage (hinv.outage_ne hdown hheld hi hkey)
      · exact hinv.once i j h h' hi hj hkey houtage
  · cases hw
  · cases hn
  · obtain ⟨h, hi, hrest⟩ := (hinv.reads r hr).send
    exact ⟨h, getElem?_append_of_some _ hi, hrest⟩

theorem Gate.Inv.read {g : Gate κ} (hinv : g.Inv) {key : κ}
    (hapart : g.Apart (.read key)) : (g.holdWhileDown key).Inv := by
  unfold Gate.holdWhileDown
  split
  · rename_i hdown
    cases hheld : Dict.getItem key g.held with
    | some i =>
        obtain ⟨h, hi, hkey⟩ := hinv.held key i hheld
        exact hinv.join hi hkey (hapart hdown i h hheld hi)
    | none => exact hinv.hold hdown hheld
  · exact hinv

/-- A send that waits no more goes on: its key is held until it is done. -/
theorem Gate.Inv.place {g : Gate κ} (hinv : g.Inv) {i : Nat} {h : Held κ}
    {place : Place} {held : List (κ × Nat)} (hi : g.sends[i]? = some h)
    (hwas : h.place.isWaiting = false) (hopen : h.place.isFinished = false)
    (hnow : place.isWaiting = false)
    (hsent : ∀ n, place.sentAt = some n →
      h.place.sentAt = some n ∨ n = g.ups)
    (hheld : held = g.held ∨
      (held = Dict.eraseItem h.key g.held ∧ place.isFinished = true)) :
    Gate.Inv { g.setPlace i h place with held := held } := by
  have hok := hinv.sends i h hi
  have hself : (g.sends.set i { h with place := place })[i]? =
      some { h with place := place } := by
    obtain ⟨hlt, -⟩ := List.getElem?_eq_some_iff.1 hi
    exact List.getElem?_set_self hlt
  have hother : ∀ (j : Nat) h', j ≠ i → g.sends[j]? = some h' →
      (g.sends.set i { h with place := place })[j]? = some h' := by
    intro j h' hne hj
    rw [List.getElem?_set_ne hne.symm, hj]
  have hkeyHeld := hok.getItem hopen
  refine ⟨fun j h' hj => ?_, fun k j hk => ?_, fun j hj => ?_,
    once_of_same hinv.once fun j h' hj => ?_, fun r hr => ⟨?_⟩⟩
  · rcases getElem?_set_cases hj with ⟨rfl, rfl⟩ | ⟨hne, hj⟩
    · refine ⟨?_, hok.outage, fun hw => ?_, fun hd ho => ?_, fun n hn => ?_⟩
      · rcases hheld with rfl | ⟨-, hfin⟩
        · exact Or.inl hkeyHeld
        · exact Or.inr hfin
      · exact absurd (hnow.symm.trans hw) nofun
      · exact absurd (hwas.symm.trans (hok.fresh hd ho)) nofun
      · rcases hsent n hn with hn | rfl
        · exact hok.sent n hn
        · exact le_rfl
    · have hok' := hinv.sends j h' hj
      refine ⟨?_, hok'.outage, hok'.waiting, hok'.fresh, hok'.sent⟩
      rcases hheld with rfl | ⟨rfl, -⟩
      · exact hok'.held
      · refine hok'.held.imp (fun hh => ?_) id
        have hkey : h.key ≠ h'.key := by
          intro hkey
          rw [← hkey, hkeyHeld] at hh
          exact hne (Option.some.inj hh).symm
        rw [Dict.getItem_eraseItem, if_neg hkey, hh]
  · have hk' : Dict.getItem k g.held = some j := by
      rcases hheld with rfl | ⟨rfl, -⟩
      · exact hk
      · rw [Dict.getItem_eraseItem] at hk
        split at hk
        · cases hk
        · exact hk
    obtain ⟨h', hj, hkey⟩ := hinv.held k j hk'
    by_cases hne : j = i
    · subst hne
      obtain rfl := Option.some.inj (hi.symm.trans hj)
      exact ⟨_, hself, hkey⟩
    · exact ⟨h', hother j h' hne hj, hkey⟩
  · obtain ⟨h', hj', hw⟩ := hinv.waiters j hj
    have hne : j ≠ i := by
      rintro rfl
      obtain rfl := Option.some.inj (hi.symm.trans hj')
      exact absurd (hwas.symm.trans hw) nofun
    exact ⟨h', hother j h' hne hj', hw⟩
  · rcases getElem?_set_cases hj with ⟨rfl, rfl⟩ | ⟨-, hj⟩
    · exact ⟨h, hi, rfl, rfl⟩
    · exact ⟨h', hj, rfl, rfl⟩
  · obtain ⟨h', hj, hkey, houtage, hwait, hnot, hn⟩ := (hinv.reads r hr).send
    by_cases hne : r.send = i
    · rw [hne] at hj ⊢
      obtain rfl := Option.some.inj (hi.symm.trans hj)
      refine ⟨_, hself, hkey, houtage, fun hw => ?_, fun _ => hnot hwas,
        fun n hn' => ?_⟩
      · exact absurd (hnow.symm.trans hw) nofun
      · rcases hsent n hn' with hold | rfl
        · exact hn n hold
        · exact hnot hwas
    · exact ⟨h', hother _ h' hne hj, hkey, houtage, hwait, hnot, hn⟩

/-- What one step keeps. -/
theorem Gate.Inv.step {g g' : Gate κ} {a : Act κ} (hinv : g.Inv)
    (hapart : g.Apart a) (hs : g.step a = some g') : g'.Inv := by
  cases a with
  | health down =>
      obtain rfl := Option.some.inj hs
      cases down with
      | true => exact hinv.goDown
      | false => exact hinv.goUp
  | read key =>
      obtain rfl := Option.some.inj hs
      exact hinv.read hapart
  | send i =>
      simp only [Gate.step] at hs
      split at hs
      · rename_i h hi
        split at hs
        · rename_i hplace
          obtain rfl := Option.some.inj hs
          refine hinv.place hi (by rw [hplace]; rfl) (by rw [hplace]; rfl) rfl
            (fun n hn => ?_) (Or.inl rfl)
          exact Or.inr (Option.some.inj hn).symm
        · cases hs
      · cases hs
  | reply i =>
      simp only [Gate.step] at hs
      split at hs
      · rename_i h hi
        split at hs
        · rename_i n hplace
          obtain rfl := Option.some.inj hs
          refine hinv.place hi (by rw [hplace]; rfl) (by rw [hplace]; rfl) rfl
            (fun m hm => ?_) (Or.inl rfl)
          rw [hplace]
          exact Or.inl hm
        · cases hs
      · cases hs
  | free i =>
      simp only [Gate.step] at hs
      split at hs
      · rename_i h hi
        split at hs
        · rename_i n hplace
          obtain rfl := Option.some.inj hs
          refine hinv.place hi (by rw [hplace]; rfl) (by rw [hplace]; rfl) rfl
            (fun m hm => ?_) (Or.inr ⟨rfl, rfl⟩)
          rw [hplace]
          exact Or.inl hm
        · cases hs
      · cases hs

theorem Gate.Inv.sound {g : Gate κ} (hinv : g.Inv) : g.Sound where
  answered := by
    intro r hr h n hh hn
    obtain ⟨h', hh', -, -, -, -, hsent⟩ := (hinv.reads r hr).send
    obtain rfl := Option.some.inj (hh.symm.trans hh')
    exact hsent n hn
  once := hinv.once
  shared := by
    intro r hr r' hr' hkey houtage
    obtain ⟨h, hh, hk, ho, -⟩ := (hinv.reads r hr).send
    obtain ⟨h', hh', hk', ho', -⟩ := (hinv.reads r' hr').send
    refine hinv.once _ _ h h' hh hh' ?_ ?_
    · rw [hk, hk', hkey]
    · rw [ho, ho', houtage]

/-- Where no read joins a send that an earlier recovery has let go, every read
of an outage is answered by what is sent after it, one send a key. -/
theorem sound_of_apart {g : Gate κ}
    (h : Reach Gate.step Gate.Apart Gate.init g) : g.Sound :=
  (Reach.inv inv_init (fun _ _ _ hinv hok hs => hinv.step hok hs) h).sound

/-- One outage with two reads of a path. -/
theorem sound_of_apart_oneOutage :
    Gate.Sound (⟨false, [], [(7, 0)], [⟨7, 1, .answered 1⟩],
      [⟨7, 1, 0, 0⟩, ⟨7, 1, 0, 0⟩], 1, 1⟩ : Gate Nat) := by
  have h₁ := (Reach.refl : Reach Gate.step Gate.Apart (Gate.init : Gate Nat) _)
  have h₂ := h₁.step (a := Act.health true) trivial rfl
  have h₃ := h₂.step (a := Act.read 7) (by intro _ i h hheld; cases hheld) rfl
  have h₄ := h₃.step (a := Act.read 7) (by
    intro _ i h hheld hi
    obtain rfl := Option.some.inj hheld
    obtain rfl := Option.some.inj hi
    rfl) rfl
  have h₅ := h₄.step (a := Act.health false) trivial rfl
  have h₆ := h₅.step (a := Act.send 0) trivial rfl
  exact sound_of_apart (h₆.step (a := Act.reply 0) trivial rfl)

/-- A second outage begins before the send of the first recovery is answered,
and its read gets that answer. -/
theorem not_sound_secondOutage :
    ¬ ∀ g : Gate Nat, ReachAny Gate.step Gate.init g → g.Sound := by
  intro h
  have h₁ := (Reach.refl : ReachAny Gate.step (Gate.init : Gate Nat) _)
  have h₂ := h₁.step (a := Act.health true) trivial rfl
  have h₃ := h₂.step (a := Act.read 7) trivial rfl
  have h₄ := h₃.step (a := Act.health false) trivial rfl
  have h₅ := h₄.step (a := Act.send 0) trivial rfl
  have h₆ := h₅.step (a := Act.health true) trivial rfl
  have h₇ := h₆.step (a := Act.read 7) trivial rfl
  have hsound := h _ (h₇.step (a := Act.reply 0) trivial rfl)
  exact absurd (hsound.answered ⟨7, 2, 1, 0⟩ List.mem_cons_self _ 1 rfl rfl)
    (lt_irrefl 1)

end Invariant


end BackendState
end Frontend
end Kelt
