import Kelt.Lib.Runs
import Kelt.Subscribers.Reconcile

/-!
# Requests at the same time

Each request is a process that goes from one call of the database or of
Kubernetes to the next, and the calls of several requests come in any order.
The collection and the Secret are what they share. `log` and `listedAt` are
ghosts: the requests that have changed the collection, in that order, and how
many had when the list was read that the Secret holds.
-/

namespace Kelt
namespace Subscribers

section Requests

/-- Where a request is: which call comes next. -/
inductive Place
  | idle
  | begun (r : Request)
  | found (imsi : Text) (data existing : Doc)
  | reading (reads : List Doc → Answer)
  | syncing (answer : Answer)
  | listed (answer : Answer) (subs : List Doc) (seen : Nat)
  | returned (result : Except Raised Answer)

/-- No call of the request is to come. -/
def Place.isOver : Place → Bool
  | idle => true
  | returned _ => true
  | _ => false

structure Sys where
  docs : List Doc
  snapshot : Option (List Doc)
  procs : Nat → Place
  log : List (Nat × Request)
  listedAt : Nat

inductive Act
  /-- A request comes in. -/
  | begin (p : Nat) (r : Request)
  /-- The next call of a request succeeds. -/
  | go (p : Nat)
  /-- It raises, without effect. -/
  | fail (p : Nat)

namespace Sys

def setPlace (st : Sys) (p : Nat) (place : Place) : Sys :=
  { st with procs := Function.update st.procs p place }

/-- A request has changed the collection. -/
def changed (st : Sys) (p : Nat) (r : Request) (c : Change) : Sys :=
  { st with
    docs := c.docs
    procs := Function.update st.procs p (.reading c.reads)
    log := st.log ++ [(p, r)] }

theorem procs_setPlace (st : Sys) (p q : Nat) (place : Place) :
    (st.setPlace p place).procs q = if q = p then place else st.procs q :=
  Function.update_apply st.procs p place q

theorem procs_changed (st : Sys) (p q : Nat) (r : Request) (c : Change) :
    (st.changed p r c).procs q =
      if q = p then .reading c.reads else st.procs q :=
  Function.update_apply st.procs p (.reading c.reads) q

theorem length_log_changed (st : Sys) (p : Nat) (r : Request) (c : Change) :
    (st.changed p r c).log.length = st.log.length + 1 := by
  simp [changed]

variable [Printer] (server : Server)

/-- The end of a database step of a request. -/
def afterChange (st : Sys) (p : Nat) (r : Request)
    (result : Except Raised Change) : Sys :=
  match result with
  | .error e => st.setPlace p (.returned (.error e))
  | .ok c =>
      if c.mirrored then st.changed p r c
      else st.setPlace p (.returned (.ok c.answer))

/-- The next call of a request succeeds. -/
def go (st : Sys) (p : Nat) : Option Sys :=
  match st.procs p with
  | .idle => none
  | .returned _ => none
  | .begun (.update imsi data) =>
      match server.findOne (.str imsi) st.docs with
      | none => some (st.setPlace p (.returned (.ok (.updated none))))
      | some existing => some (st.setPlace p (.found imsi data existing))
  | .begun r => some (st.afterChange p r (change server r st.docs))
  | .found imsi data existing =>
      some (st.afterChange p (.update imsi data)
        (writeUpdate server imsi existing data st.docs))
  | .reading reads => some (st.setPlace p (.syncing (reads st.docs)))
  | .syncing answer =>
      some (st.setPlace p
        (.listed answer (listSubscribers st.docs) st.log.length))
  | .listed answer subs seen =>
      match write .succeed subs st.snapshot with
      | (.ok _, secret) =>
          some { st with
            snapshot := secret
            procs := Function.update st.procs p (.returned (.ok answer))
            listedAt := seen }
      | (.error e, _) =>
          some (st.setPlace p (.returned (.error (.sync e))))

/-- The next call of a request raises. The mirroring catches it. -/
def fail (st : Sys) (p : Nat) : Option Sys :=
  match st.procs p with
  | .idle => none
  | .returned _ => none
  | .syncing answer => some (st.setPlace p (.returned (.ok answer)))
  | .listed answer _ _ => some (st.setPlace p (.returned (.ok answer)))
  | _ => some (st.setPlace p (.returned (.error .refused)))

def step (st : Sys) (act : Act) : Option Sys :=
  match act with
  | .begin p r =>
      if (st.procs p).isOver then some (st.setPlace p (.begun r)) else none
  | .go p => st.go server p
  | .fail p => st.fail p

/-- No request is in progress. -/
def Idle (st : Sys) : Prop :=
  ∀ p, (st.procs p).isOver = true

/-- A collection with its snapshot, and no request yet. -/
def start (docs : List Doc) : Sys where
  docs := docs
  snapshot := some (sanitize (listSubscribers docs))
  procs := fun _ => .idle
  log := []
  listedAt := 0

end Sys

/-- The request has not changed the collection. -/
def Place.isEarly : Place → Bool
  | begun _ => true
  | found _ _ _ => true
  | _ => false

/-- The request has changed the collection, and the Secret may not have it. -/
def Place.isLate : Place → Bool
  | reading _ => true
  | syncing _ => true
  | listed _ _ _ => true
  | _ => false

/-- A successful update has given this answer, or is going to. -/
def Place.answers (place : Place) (answer : Answer) : Prop :=
  match place with
  | syncing a => a = answer
  | listed a _ _ => a = answer
  | returned (.ok a) => a = answer
  | _ => False

/-- The database step of a request. -/
def DbStep [Printer] (server : Server) (st : Sys) (p : Nat) (r : Request)
    (c : Change) : Prop :=
  (st.procs p = .begun r ∧ (∀ imsi data, r ≠ .update imsi data) ∧
      change server r st.docs = .ok c) ∨
    ∃ imsi data existing, st.procs p = .found imsi data existing ∧
      r = .update imsi data ∧
      writeUpdate server imsi existing data st.docs = .ok c

/-- Everything that a step can do. -/
inductive Moves [Printer] (server : Server) (st : Sys) : Act → Sys → Prop
  | begins {p : Nat} {r : Request} (hover : (st.procs p).isOver = true) :
      Moves server st (.begin p r) (st.setPlace p (.begun r))
  | finds {p : Nat} {imsi : Text} {data existing : Doc}
      (hplace : st.procs p = .begun (.update imsi data))
      (hfound : server.findOne (.str imsi) st.docs = some existing) :
      Moves server st (.go p) (st.setPlace p (.found imsi data existing))
  | ends {act : Act} {p : Nat} {result : Except Raised Answer}
      (hact : act = .go p ∨ act = .fail p)
      (hearly : (st.procs p).isEarly = true)
      (hresult : ∀ d, result ≠ .ok (.updated (some d))) :
      Moves server st act (st.setPlace p (.returned result))
  | changes {p : Nat} {r : Request} {c : Change}
      (hstep : DbStep server st p r c) :
      Moves server st (.go p) (st.changed p r c)
  | reads {p : Nat} {reads : List Doc → Answer}
      (hplace : st.procs p = .reading reads) :
      Moves server st (.go p) (st.setPlace p (.syncing (reads st.docs)))
  | lists {p : Nat} {answer : Answer} (hplace : st.procs p = .syncing answer) :
      Moves server st (.go p)
        (st.setPlace p
          (.listed answer (listSubscribers st.docs) st.log.length))
  | writes {p : Nat} {answer : Answer} {subs : List Doc} {seen : Nat}
      (hplace : st.procs p = .listed answer subs seen) :
      Moves server st (.go p)
        { st with
          snapshot := some (sanitize subs)
          procs := Function.update st.procs p (.returned (.ok answer))
          listedAt := seen }
  | drops {act : Act} {p : Nat} {result : Except Raised Answer}
      (hact : act = .fail p ∨ act = .go p ∧ ∃ answer subs seen,
        st.procs p = .listed answer subs seen ∧ ¬ Mirrorable subs)
      (hlate : (st.procs p).isLate = true)
      (hresult : ∀ answer, result = .ok answer →
        (st.procs p).answers answer) :
      Moves server st act (st.setPlace p (.returned result))

variable [Printer] {server : Server} {st st' : Sys}

/-- A request other than an update that changes nothing answers so. -/
theorem answer_of_not_mirrored {r : Request} {docs : List Doc} {c : Change}
    (hr : ∀ imsi data, r ≠ .update imsi data)
    (h : change server r docs = .ok c) (hc : c.mirrored = false) (d : Doc) :
    c.answer ≠ .updated (some d) := by
  cases r with
  | create data =>
      have haccepted : c.mirrored = true := mirrored_createSubscriber h
      rw [hc] at haccepted
      cases haccepted
  | update imsi data => exact (hr imsi data rfl).elim
  | delete imsi =>
      change Except.ok (deleteSubscriber server imsi docs) = .ok c at h
      obtain rfl := Except.ok.inj h
      unfold deleteSubscriber
      split_ifs <;> simp [Change.answer]

theorem moves_of_afterChange {p : Nat} {r : Request}
    {result : Except Raised Change} (hearly : (st.procs p).isEarly = true)
    (hstep : ∀ c, result = .ok c → DbStep server st p r c)
    (hanswer : ∀ c d, result = .ok c → c.mirrored = false →
      c.answer ≠ .updated (some d)) :
    Moves server st (.go p) (st.afterChange p r result) := by
  cases result with
  | error e => exact .ends (Or.inl rfl) hearly (fun d h => by cases h)
  | ok c =>
      unfold Sys.afterChange
      simp only
      split_ifs with hc
      · exact .changes (hstep c rfl)
      · refine .ends (Or.inl rfl) hearly (fun d h => ?_)
        exact hanswer c d rfl (by simpa using hc) (Except.ok.inj h)

theorem moves_of_go {p : Nat} (h : st.go server p = some st') :
    Moves server st (.go p) st' := by
  unfold Sys.go at h
  split at h
  · cases h
  · cases h
  · rename_i imsi data hplace
    split at h
    · cases h
      exact .ends (Or.inl rfl) (by rw [hplace]; rfl) (fun d h => by cases h)
    · rename_i existing hfound
      cases h
      exact .finds hplace hfound
  · rename_i r hr hplace
    cases h
    exact moves_of_afterChange (by rw [hplace]; rfl)
      (fun c hc => Or.inl ⟨hplace, hr, hc⟩)
      (fun c d hc hm => answer_of_not_mirrored hr hc hm d)
  · rename_i imsi data existing hplace
    cases h
    refine moves_of_afterChange (by rw [hplace]; rfl)
      (fun c hc => Or.inr ⟨imsi, data, existing, hplace, rfl, hc⟩)
      (fun c d hc hm => ?_)
    rw [mirrored_writeUpdate hc] at hm
    cases hm
  · rename_i reads hplace
    cases h
    exact .reads hplace
  · rename_i answer hplace
    cases h
    exact .lists hplace
  · rename_i answer subs seen hplace
    by_cases hdump : Mirrorable subs
    · have hwrite : write .succeed subs st.snapshot =
          (.ok true, some (sanitize subs)) := by
        rw [write, if_pos ((canDump_sanitize_iff subs).2 hdump)]
        rfl
      rw [hwrite] at h
      cases h
      exact .writes hplace
    · have hwrite : write .succeed subs st.snapshot =
          (.error .notSerializable, st.snapshot) := by
        rw [write, if_neg (mt (canDump_sanitize_iff subs).1 hdump)]
      rw [hwrite] at h
      cases h
      exact .drops (Or.inr ⟨rfl, answer, subs, seen, hplace, hdump⟩)
        (by rw [hplace]; rfl) (fun _ h => by cases h)

theorem moves_of_fail {p : Nat} (h : st.fail p = some st') :
    Moves server st (.fail p) st' := by
  unfold Sys.fail at h
  cases hplace : st.procs p with
  | idle => simp [hplace] at h
  | returned result => simp [hplace] at h
  | begun r =>
      simp only [hplace] at h
      cases h
      exact .ends (Or.inr rfl) (by rw [hplace]; rfl) (fun d h => by cases h)
  | found imsi data existing =>
      simp only [hplace] at h
      cases h
      exact .ends (Or.inr rfl) (by rw [hplace]; rfl) (fun d h => by cases h)
  | reading reads =>
      simp only [hplace] at h
      cases h
      exact .drops (Or.inl rfl) (by rw [hplace]; rfl) (fun _ h => by cases h)
  | syncing answer =>
      simp only [hplace] at h
      cases h
      refine .drops (Or.inl rfl) (by rw [hplace]; rfl) (fun a h => ?_)
      rw [hplace]
      exact Except.ok.inj h
  | listed answer subs seen =>
      simp only [hplace] at h
      cases h
      refine .drops (Or.inl rfl) (by rw [hplace]; rfl) (fun a h => ?_)
      rw [hplace]
      exact Except.ok.inj h

theorem moves_of_step {act : Act} (h : st.step server act = some st') :
    Moves server st act st' := by
  cases act with
  | begin p r =>
      change (if (st.procs p).isOver then some (st.setPlace p (.begun r))
        else none) = some st' at h
      split_ifs at h with hover
      cases h
      exact .begins hover
  | go p => exact moves_of_go h
  | fail p => exact moves_of_fail h

end Requests

section Mirrored

/-- The request is going to write the collection as it is after `n` changes. -/
def Place.pending (n : Nat) : Place → Prop
  | reading _ => True
  | syncing _ => True
  | listed _ _ seen => seen = n
  | _ => False

theorem Place.not_pending_of_isEarly {place : Place} {n : Nat}
    (h : place.isEarly = true) : ¬ place.pending n := by
  cases place <;> simp_all [isEarly, pending]

theorem Place.isLate_of_isEarly {place : Place}
    (h : place.isEarly = true) : place.isLate = false := by
  cases place <;> simp_all [isEarly, isLate]

theorem Place.not_pending_of_isOver {place : Place} {n : Nat}
    (h : place.isOver = true) : ¬ place.pending n := by
  cases place <;> simp_all [isOver, pending]

variable [Printer] {server : Server} {st st' : Sys}

/-- The Secret is not overwritten by a list that was read before the one it
holds, it can be written, and a request that has changed the collection goes on
to the mirroring. -/
def Calm (st : Sys) : Act → Prop
  | .begin _ _ => True
  | .go p => ∀ answer subs seen, st.procs p = .listed answer subs seen →
      st.listedAt ≤ seen ∧ Mirrorable subs
  | .fail p => (st.procs p).isEarly = true

/-- The Secret holds the last list that was read, or some request is still
going to write one as good as the collection. -/
structure SyncInv (st : Sys) : Prop where
  listedLe : st.listedAt ≤ st.log.length
  seen : ∀ p answer subs seen, st.procs p = .listed answer subs seen →
    seen ≤ st.log.length ∧
      (seen = st.log.length → subs = listSubscribers st.docs)
  current : st.listedAt = st.log.length →
    st.snapshot = some (sanitize (listSubscribers st.docs))
  covered : st.listedAt = st.log.length ∨
    ∃ p, (st.procs p).pending st.log.length

namespace SyncInv

theorem start (docs : List Doc) : SyncInv (Sys.start docs) where
  listedLe := Nat.le_refl 0
  seen := fun _ _ _ _ h => by cases h
  current := fun _ => rfl
  covered := Or.inl rfl

/-- A step of one request that shares nothing. -/
theorem of_setPlace (hinv : SyncInv st) {p : Nat} {place : Place}
    (hseen : ∀ answer subs seen, place = .listed answer subs seen →
      seen ≤ st.log.length ∧
        (seen = st.log.length → subs = listSubscribers st.docs))
    (hpending : (st.procs p).pending st.log.length →
      place.pending st.log.length) :
    SyncInv (st.setPlace p place) where
  listedLe := hinv.listedLe
  seen := by
    intro q answer subs seen hq
    rw [Sys.procs_setPlace] at hq
    split_ifs at hq with hqp
    · exact hseen answer subs seen hq
    · exact hinv.seen q answer subs seen hq
  current := hinv.current
  covered := by
    refine hinv.covered.imp id ?_
    rintro ⟨q, hq⟩
    refine ⟨q, ?_⟩
    rw [Sys.procs_setPlace]
    split_ifs with hqp
    · exact hpending (hqp ▸ hq)
    · exact hq

/-- A change makes every list that has been read an old one, and its own request
is going to read a new one. -/
theorem of_changed (hinv : SyncInv st) {p : Nat} {r : Request} {c : Change} :
    SyncInv (st.changed p r c) := by
  have hlen := st.length_log_changed p r c
  constructor
  · rw [hlen]
    exact Nat.le_succ_of_le hinv.listedLe
  · intro q answer subs seen hq
    rw [hlen]
    rw [Sys.procs_changed] at hq
    split_ifs at hq with hqp
    have hle := (hinv.seen q answer subs seen hq).1
    exact ⟨Nat.le_succ_of_le hle, fun heq => by omega⟩
  · intro heq
    have hle := hinv.listedLe
    rw [hlen] at heq
    change st.listedAt = _ at heq
    omega
  · refine Or.inr ⟨p, ?_⟩
    rw [Sys.procs_changed, if_pos rfl]
    trivial

/-- A list that is not older than the one in the Secret is written. -/
theorem of_write (hinv : SyncInv st) {p : Nat} {answer : Answer}
    {subs : List Doc} {seen : Nat}
    (hplace : st.procs p = .listed answer subs seen)
    (hle : st.listedAt ≤ seen) :
    SyncInv { st with
      snapshot := some (sanitize subs)
      procs := Function.update st.procs p (.returned (.ok answer))
      listedAt := seen } := by
  obtain ⟨hseen, hsubs⟩ := hinv.seen p answer subs seen hplace
  constructor
  · exact hseen
  · intro q answer' subs' seen' hq
    change Function.update st.procs p _ q = _ at hq
    rw [Function.update_apply] at hq
    split_ifs at hq with hqp
    exact hinv.seen q answer' subs' seen' hq
  · intro heq
    exact congrArg (fun subs => some (sanitize subs)) (hsubs heq)
  · by_cases heq : seen = st.log.length
    · exact Or.inl heq
    · refine Or.inr ?_
      rcases hinv.covered with hcurrent | ⟨q, hq⟩
      · omega
      · have hqp : q ≠ p := by
          rintro rfl
          rw [hplace] at hq
          exact heq hq
        refine ⟨q, ?_⟩
        change (Function.update st.procs p _ q).pending _
        rw [Function.update_of_ne hqp]
        exact hq

theorem step (hinv : SyncInv st) {act : Act} (hcalm : Calm st act)
    (h : st.step server act = some st') : SyncInv st' := by
  cases moves_of_step h with
  | begins hover =>
      exact hinv.of_setPlace (fun _ _ _ h => by cases h)
        (fun h => (Place.not_pending_of_isOver hover h).elim)
  | finds hplace _ =>
      exact hinv.of_setPlace (fun _ _ _ h => by cases h)
        (fun h => by rw [hplace] at h; exact h.elim)
  | ends _ hearly _ =>
      exact hinv.of_setPlace (fun _ _ _ h => by cases h)
        (fun h => (Place.not_pending_of_isEarly hearly h).elim)
  | changes _ => exact hinv.of_changed
  | reads _ =>
      exact hinv.of_setPlace (fun _ _ _ h => by cases h) (fun _ => trivial)
  | lists _ =>
      refine hinv.of_setPlace (fun answer subs seen h => ?_) (fun _ => rfl)
      cases h
      exact ⟨Nat.le_refl _, fun _ => rfl⟩
  | writes hplace => exact hinv.of_write hplace (hcalm _ _ _ hplace).1
  | drops hact hlate _ =>
      rcases hact with rfl | ⟨rfl, answer, subs, seen, hplace, hdump⟩
      · rw [Place.isLate_of_isEarly hcalm] at hlate
        cases hlate
      · exact (hdump (hcalm answer subs seen hplace).2).elim

/-- When no request is in progress, the Secret holds the collection. -/
theorem mirrored (hinv : SyncInv st) (hidle : st.Idle) :
    st.snapshot = some (sanitize (listSubscribers st.docs)) := by
  refine hinv.current (hinv.covered.resolve_right ?_)
  rintro ⟨p, hp⟩
  exact Place.not_pending_of_isOver (hidle p) hp

end SyncInv

/-- In every run in which no Secret is overwritten by an older list, the Secret
holds the sanitised collection once no request is in progress; and if every
IMSI is a text that is not empty, a reconcile from it removes no subscriber and
brings none back. -/
theorem snapshot_mirrors (server : Server) (docs : List Doc) {st : Sys}
    (h : Reach (Sys.step server) Calm (Sys.start docs) st)
    (hidle : st.Idle) :
    st.snapshot = some (sanitize (listSubscribers st.docs)) ∧
      (NonemptyTexts st.docs → ∀ (volume : Volume) (t : Text),
        (HasText (reconcile server st.snapshot
            (volume.docs st.docs)).1 t → HasText st.docs t) ∧
          ((volume = .intact ∨ (reconcile server st.snapshot
              (volume.docs st.docs)).2 = true) →
            HasText st.docs t →
              HasText (reconcile server st.snapshot
                (volume.docs st.docs)).1 t)) := by
  have hinv : SyncInv st :=
    h.inv (I := SyncInv) (SyncInv.start docs)
      (fun _ _ _ hI hok hs => hI.step hok hs)
  have hmirrored := hinv.mirrored hidle
  refine ⟨hmirrored, fun htexts volume t => ?_⟩
  rw [hmirrored]
  exact texts_reconcile_mirrored server htexts volume t

end Mirrored

section Crossed

def firstSubscriber : Request :=
  .create (newSubscriber (.str "1".toList) zeroKey)

def secondSubscriber : Request :=
  .create (newSubscriber (.str "2".toList) zeroKey)

/-- The state after one subscriber has been created. -/
def onceSys : Sys :=
  (exec (Sys.step plainServer) (Sys.start [])
    [.begin 0 firstSubscriber, .go 0, .go 0, .go 0, .go 0]).getD
      (Sys.start [])

theorem snapshot_mirrors_once :
    onceSys.docs.length = 1 ∧
      onceSys.snapshot = some (sanitize (listSubscribers onceSys.docs)) := by
  have hreach : Reach (Sys.step plainServer) Calm (Sys.start []) onceSys :=
    ((((Reach.refl.step (a := Act.begin 0 firstSubscriber) trivial rfl).step
      (a := Act.go 0) (fun _ _ _ h => by cases h) rfl).step
      (a := Act.go 0) (fun _ _ _ h => by cases h) rfl).step
      (a := Act.go 0) (fun _ _ _ h => by cases h) rfl).step
      (a := Act.go 0) (fun _ _ _ h => by
        cases h
        exact ⟨Nat.zero_le _, (canDump_sanitize_iff _).1 rfl⟩) rfl
  refine ⟨rfl, (snapshot_mirrors plainServer [] hreach ?_).1⟩
  intro p
  match p with
  | 0 => rfl
  | p + 1 => rfl

/-- The list of one creation is read before the other creation and written
after its mirroring. -/
def crossedActs : List Act :=
  [.begin 0 firstSubscriber, .begin 1 secondSubscriber, .go 0, .go 0, .go 0,
    .go 1, .go 1, .go 1, .go 1, .go 0]

def crossedSys : Sys :=
  (exec (Sys.step plainServer) (Sys.start []) crossedActs).getD (Sys.start [])

/-- Both creations succeed, the Secret lacks one of the subscribers, and the next
reconcile removes it. -/
theorem crossed_loses_created :
    ReachAny (Sys.step plainServer) (Sys.start []) crossedSys ∧
      crossedSys.Idle ∧ HasText crossedSys.docs "2".toList ∧
      crossedSys.snapshot ≠
        some (sanitize (listSubscribers crossedSys.docs)) ∧
      ¬ HasText (reconcile plainServer crossedSys.snapshot
        crossedSys.docs).1 "2".toList := by
  have hlen : crossedSys.snapshot.map List.length = some 1 := rfl
  have hlen' : (sanitize (listSubscribers crossedSys.docs)).length = 2 := rfl
  have himsis : (reconcile plainServer crossedSys.snapshot
      crossedSys.docs).1.map (fun d => d.get? imsiField) =
        [some (.str "1".toList)] := rfl
  refine ⟨@Reach.exec _ _ _ _ _ _ crossedActs .refl rfl, ?_, ?_, ?_, ?_⟩
  · intro p
    match p with
    | 0 => rfl
    | 1 => rfl
    | p + 2 => rfl
  · exact ⟨_, List.mem_cons_of_mem _ List.mem_cons_self, rfl⟩
  · intro h
    rw [h, Option.map_some, hlen'] at hlen
    cases hlen
  · rintro ⟨d, hd, ht⟩
    have hmem := List.mem_map_of_mem (f := fun d => d.get? imsiField) hd
    rw [himsis, ht] at hmem
    cases List.mem_singleton.1 hmem

end Crossed

end Subscribers
end Kelt
