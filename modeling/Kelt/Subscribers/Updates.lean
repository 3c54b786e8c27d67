import Kelt.Subscribers.Requests

/-!
# Updates at the same time

An update reads the document, merges in Python and sets every field of the
merged document. As long as each finds the document as it has read it, the
requests have the effect that they have one after the other, in the order in
which they have changed the collection (`run_serial`). Otherwise the second of
two updates puts the old values back over what the first has changed.
-/

namespace Kelt
namespace Subscribers

section Serial

variable [Printer] {server : Server} {st st' : Sys}

/-- The requests that are there from the start, and no other. -/
def Sys.started (docs : List Doc) (req : Nat → Option Request) : Sys :=
  { Sys.start docs with
    procs := fun p => ((req p).map Place.begun).getD .idle }

/-- No further request comes in, and a write finds the document as its request
has read it. -/
def Undisturbed (server : Server) (st : Sys) : Act → Prop
  | .begin _ _ => False
  | .go p => ∀ imsi data existing, st.procs p = .found imsi data existing →
      server.findOne (.str imsi) st.docs = some existing
  | .fail _ => True

/-- The numbers of the requests that have changed the collection. -/
def Sys.writers (st : Sys) : List Nat :=
  st.log.map Prod.fst

/-- The collection is that of the logged requests one after the other, and each
request is logged at most once, when it has changed the collection. -/
structure SerialInv (server : Server) (docs : List Doc)
    (req : Nat → Option Request) (st : Sys) : Prop where
  serial : exec (accept server) docs (st.log.map Prod.snd) = some st.docs
  once : st.writers.Nodup
  logged : ∀ e ∈ st.log, req e.1 = some e.2
  begun : ∀ p r, st.procs p = .begun r →
    req p = some r ∧ p ∉ st.writers
  found : ∀ p imsi data existing, st.procs p = .found imsi data existing →
    req p = some (.update imsi data) ∧ p ∉ st.writers
  late : ∀ p, (st.procs p).isLate = true → p ∈ st.writers
  done : ∀ p d, st.procs p = .returned (.ok (.updated (some d))) →
    p ∈ st.writers

/-- A database step has the effect of the whole request. -/
theorem accept_of_dbStep {p : Nat} {r : Request} {c : Change}
    (h : DbStep server st p r c) (hcalm : Undisturbed server st (.go p)) :
    accept server st.docs r = some c.docs := by
  rcases h with ⟨-, -, hchange⟩ |
    ⟨imsi, data, existing, hplace, rfl, hwrite⟩
  · rw [accept, hchange]
    rfl
  · have hfound := hcalm imsi data existing hplace
    have hchange : change server (.update imsi data) st.docs = .ok c := by
      simp only [change, updateSubscriber, hfound, hwrite]
    rw [accept, hchange]
    rfl

namespace SerialInv

variable {docs : List Doc} {req : Nat → Option Request}

theorem started : SerialInv server docs req (Sys.started docs req) where
  serial := rfl
  once := List.nodup_nil
  logged := fun _ h => absurd h List.not_mem_nil
  begun := by
    intro p r h
    cases hreq : req p with
    | none => simp [Sys.started, hreq] at h
    | some r' =>
        simp only [Sys.started, hreq, Option.map_some,
          Option.getD_some] at h
        cases h
        exact ⟨rfl, List.not_mem_nil⟩
  found := by
    intro p imsi data existing h
    cases hreq : req p <;> simp [Sys.started, hreq] at h
  late := by
    intro p h
    cases hreq : req p <;> simp [Sys.started, hreq, Place.isLate] at h
  done := by
    intro p d h
    cases hreq : req p <;> simp [Sys.started, hreq] at h

/-- A step of one request that leaves the collection. -/
theorem of_setPlace (hinv : SerialInv server docs req st) {p : Nat}
    {place : Place} (hbegun : ∀ r, place ≠ .begun r)
    (hfound : ∀ imsi data existing, place = .found imsi data existing →
      req p = some (.update imsi data) ∧ p ∉ st.writers)
    (hlate : place.isLate = true → p ∈ st.writers)
    (hdone : ∀ d, place = .returned (.ok (.updated (some d))) →
      p ∈ st.writers) :
    SerialInv server docs req (st.setPlace p place) where
  serial := hinv.serial
  once := hinv.once
  logged := hinv.logged
  begun := by
    intro q r hq
    rw [Sys.procs_setPlace] at hq
    split_ifs at hq with hqp
    · exact (hbegun r hq).elim
    · exact hinv.begun q r hq
  found := by
    intro q imsi data existing hq
    rw [Sys.procs_setPlace] at hq
    split_ifs at hq with hqp
    · subst hqp
      exact hfound imsi data existing hq
    · exact hinv.found q imsi data existing hq
  late := by
    intro q hq
    rw [Sys.procs_setPlace] at hq
    split_ifs at hq with hqp
    · subst hqp
      exact hlate hq
    · exact hinv.late q hq
  done := by
    intro q d hq
    rw [Sys.procs_setPlace] at hq
    split_ifs at hq with hqp
    · subst hqp
      exact hdone d hq
    · exact hinv.done q d hq

/-- A request changes the collection. -/
theorem of_changed (hinv : SerialInv server docs req st) {p : Nat}
    {r : Request} {c : Change}
    (haccept : accept server st.docs r = some c.docs)
    (hreq : req p = some r) (hp : p ∉ st.writers) :
    SerialInv server docs req (st.changed p r c) := by
  have hwriters : (st.changed p r c).writers = st.writers ++ [p] := by
    simp [Sys.writers, Sys.changed]
  have hkept : ∀ q, q ∈ st.writers → q ∈ (st.changed p r c).writers := by
    intro q hq
    rw [hwriters]
    exact List.mem_append_left _ hq
  have hnot : ∀ q, q ≠ p → q ∉ st.writers →
      q ∉ (st.changed p r c).writers := by
    intro q hqp hq
    rw [hwriters, List.mem_append, List.mem_singleton]
    exact not_or.2 ⟨hq, hqp⟩
  constructor
  · have hlog : (st.changed p r c).log.map Prod.snd =
        st.log.map Prod.snd ++ [r] := by
      simp [Sys.changed]
    rw [hlog, exec_append_singleton, hinv.serial]
    exact haccept
  · rw [hwriters]
    exact List.nodup_append'.2 ⟨hinv.once, List.nodup_singleton p,
      by simpa using hp⟩
  · intro e he
    rcases List.mem_append.1 he with he | he
    · exact hinv.logged e he
    · rw [List.mem_singleton.1 he]
      exact hreq
  · intro q r' hq
    rw [Sys.procs_changed] at hq
    split_ifs at hq with hqp
    exact (hinv.begun q r' hq).imp id (hnot q hqp)
  · intro q imsi data existing hq
    rw [Sys.procs_changed] at hq
    split_ifs at hq with hqp
    exact (hinv.found q imsi data existing hq).imp id (hnot q hqp)
  · intro q hq
    rw [Sys.procs_changed] at hq
    split_ifs at hq with hqp
    · rw [hwriters, hqp]
      simp
    · exact hkept q (hinv.late q hq)
  · intro q d hq
    rw [Sys.procs_changed] at hq
    split_ifs at hq with hqp
    exact hkept q (hinv.done q d hq)

theorem step (hinv : SerialInv server docs req st) {act : Act}
    (hcalm : Undisturbed server st act)
    (h : st.step server act = some st') :
    SerialInv server docs req st' := by
  cases moves_of_step h with
  | begins _ => exact hcalm.elim
  | finds hplace _ =>
      refine hinv.of_setPlace (fun _ h => by cases h) ?_
        (fun h => by cases h) (fun _ h => by cases h)
      intro imsi data existing h
      cases h
      exact hinv.begun _ _ hplace
  | ends _ _ hresult =>
      refine hinv.of_setPlace (fun _ h => by cases h)
        (fun _ _ _ h => by cases h) (fun h => by cases h) ?_
      intro d h
      exact (hresult d (by cases h; rfl)).elim
  | changes hstep =>
      have haccept := accept_of_dbStep hstep hcalm
      rcases hstep with ⟨hplace, -, -⟩ | ⟨imsi, data, existing, hplace, rfl, -⟩
      · obtain ⟨hreq, hp⟩ := hinv.begun _ _ hplace
        exact hinv.of_changed haccept hreq hp
      · obtain ⟨hreq, hp⟩ := hinv.found _ _ _ _ hplace
        exact hinv.of_changed haccept hreq hp
  | reads hplace =>
      exact hinv.of_setPlace (fun _ h => by cases h)
        (fun _ _ _ h => by cases h)
        (fun _ => hinv.late _ (by rw [hplace]; rfl)) (fun _ h => by cases h)
  | lists hplace =>
      exact hinv.of_setPlace (fun _ h => by cases h)
        (fun _ _ _ h => by cases h)
        (fun _ => hinv.late _ (by rw [hplace]; rfl)) (fun _ h => by cases h)
  | writes hplace =>
      rename_i p answer subs seen
      have hreturned : SerialInv server docs req
          (st.setPlace p (.returned (.ok answer))) :=
        hinv.of_setPlace (fun _ h => by cases h)
          (fun _ _ _ h => by cases h) (fun h => by cases h)
          (fun _ _ => hinv.late p (by rw [hplace]; rfl))
      exact ⟨hreturned.serial, hreturned.once, hreturned.logged,
        hreturned.begun, hreturned.found, hreturned.late, hreturned.done⟩
  | drops _ hlate _ =>
      exact hinv.of_setPlace (fun _ h => by cases h)
        (fun _ _ _ h => by cases h) (fun h => by cases h)
        (fun _ _ => hinv.late _ hlate)

end SerialInv

/-- In a run in which every write finds the document as its request has read it,
the collection is that of the requests one after the other. -/
theorem run_serial (server : Server) (docs : List Doc)
    (req : Nat → Option Request) {st : Sys}
    (h : Reach (Sys.step server) (Undisturbed server)
      (Sys.started docs req) st) : SerialInv server docs req st :=
  h.inv (I := SerialInv server docs req) SerialInv.started
    (fun _ _ _ hI hok hs => hI.step hok hs)

end Serial

section TwoUpdates

/-- Two updates of one subscriber. -/
def twoUpdates (imsi : Text) (data data' : Doc) : Nat → Option Request
  | 0 => some (.update imsi data)
  | 1 => some (.update imsi data')
  | _ => none

/-- Two entries with the numbers 0 and 1. -/
theorem eq_pair_of_writers {log : List (Nat × Request)} {r r' : Request}
    {req : Nat → Option Request} (hr : req 0 = some r)
    (hr' : req 1 = some r') (hnone : ∀ p, 2 ≤ p → req p = none)
    (hlogged : ∀ e ∈ log, req e.1 = some e.2)
    (honce : (log.map Prod.fst).Nodup) (h0 : 0 ∈ log.map Prod.fst)
    (h1 : 1 ∈ log.map Prod.fst) :
    log.map Prod.snd = [r, r'] ∨ log.map Prod.snd = [r', r] := by
  have hnumbers : ∀ e ∈ log, e.1 = 0 ∧ e.2 = r ∨ e.1 = 1 ∧ e.2 = r' := by
    intro e he
    have hreq := hlogged e he
    have hlt : e.1 < 2 := by
      by_contra hge
      rw [hnone e.1 (by omega)] at hreq
      cases hreq
    rcases (by omega : e.1 = 0 ∨ e.1 = 1) with h | h
    · rw [h, hr] at hreq
      exact Or.inl ⟨h, (Option.some.inj hreq).symm⟩
    · rw [h, hr'] at hreq
      exact Or.inr ⟨h, (Option.some.inj hreq).symm⟩
  have hperm : (log.map Prod.fst).Perm [0, 1] := by
    refine (List.perm_ext_iff_of_nodup honce (by decide)).2 (fun p => ?_)
    constructor
    · intro hp
      obtain ⟨e, he, rfl⟩ := List.mem_map.1 hp
      rcases hnumbers e he with ⟨h, -⟩ | ⟨h, -⟩ <;> simp [h]
    · intro hp
      rcases List.mem_pair.1 hp with rfl | rfl
      · exact h0
      · exact h1
  match log with
  | [] => cases h0
  | [e] => exact absurd hperm.length_eq (by simp)
  | e :: e' :: f :: rest => exact absurd hperm.length_eq (by simp)
  | [e, e'] =>
      have hne : e.1 ≠ e'.1 := by simpa using honce
      rcases hnumbers e (by simp) with ⟨h, hreq⟩ | ⟨h, hreq⟩ <;>
        rcases hnumbers e' (by simp) with ⟨h', hreq'⟩ | ⟨h', hreq'⟩
      · exact (hne (h.trans h'.symm)).elim
      · exact Or.inl (by simp [hreq, hreq'])
      · exact Or.inr (by simp [hreq, hreq'])
      · exact (hne (h.trans h'.symm)).elim

variable [Printer]

/-- Two updates that have both succeeded, in a run in which every write finds the
document as its request has read it, have had the effect of one after the
other. -/
theorem updates_serial (server : Server) (docs : List Doc) (imsi : Text)
    (data data' : Doc) {st : Sys}
    (h : Reach (Sys.step server) (Undisturbed server)
      (Sys.started docs (twoUpdates imsi data data')) st) {d d' : Doc}
    (h0 : st.procs 0 = .returned (.ok (.updated (some d))))
    (h1 : st.procs 1 = .returned (.ok (.updated (some d')))) :
    exec (accept server) docs [.update imsi data, .update imsi data'] =
        some st.docs ∨
      exec (accept server) docs [.update imsi data', .update imsi data] =
        some st.docs := by
  have hinv := run_serial server docs (twoUpdates imsi data data') h
  have hnone : ∀ p, 2 ≤ p → twoUpdates imsi data data' p = none := by
    intro p hp
    match p with
    | 0 => omega
    | 1 => omega
    | p + 2 => rfl
  have hserial := hinv.serial
  refine (eq_pair_of_writers rfl rfl hnone hinv.logged hinv.once
    (hinv.done 0 d h0) (hinv.done 1 d' h1)).imp ?_ ?_
  · intro hlog
    rwa [hlog] at hserial
  · intro hlog
    rwa [hlog] at hserial

end TwoUpdates

section Lost

def storedOne : List Doc :=
  [((newSubscriber (.str "1".toList) zeroKey).set
    "subscriber_status".toList (.int 0)).set
      "network_access_mode".toList (.int 0)]

def statusUpdate : Doc :=
  Dict.single "subscriber_status".toList (.int 1)

def modeUpdate : Doc :=
  Dict.single "network_access_mode".toList (.int 2)

def statusAndMode : Nat → Option Request :=
  twoUpdates "1".toList statusUpdate modeUpdate

/-- One update after the other. -/
def oneByOne : Sys :=
  (exec (Sys.step plainServer) (Sys.started storedOne statusAndMode)
    [.go 0, .go 0, .go 0, .go 0, .go 0, .go 1, .go 1, .go 1, .go 1,
      .go 1]).getD (Sys.started [] statusAndMode)

theorem updates_serial_oneByOne :
    exec (accept plainServer) storedOne [.update "1".toList statusUpdate,
        .update "1".toList modeUpdate] = some oneByOne.docs ∨
      exec (accept plainServer) storedOne [.update "1".toList modeUpdate,
        .update "1".toList statusUpdate] = some oneByOne.docs := by
  have hreach : Reach (Sys.step plainServer) (Undisturbed plainServer)
      (Sys.started storedOne statusAndMode) oneByOne :=
    (((((((((Reach.refl.step
      (a := Act.go 0) (fun _ _ _ h => by cases h) rfl).step
      (a := Act.go 0) (fun _ _ _ h => by cases h; rfl) rfl).step
      (a := Act.go 0) (fun _ _ _ h => by cases h) rfl).step
      (a := Act.go 0) (fun _ _ _ h => by cases h) rfl).step
      (a := Act.go 0) (fun _ _ _ h => by cases h) rfl).step
      (a := Act.go 1) (fun _ _ _ h => by cases h) rfl).step
      (a := Act.go 1) (fun _ _ _ h => by cases h; rfl) rfl).step
      (a := Act.go 1) (fun _ _ _ h => by cases h) rfl).step
      (a := Act.go 1) (fun _ _ _ h => by cases h) rfl).step
      (a := Act.go 1) (fun _ _ _ h => by cases h) rfl
  exact updates_serial plainServer storedOne "1".toList statusUpdate
    modeUpdate hreach rfl rfl

/-- Both read before either writes. -/
def bothRead : Sys :=
  (exec (Sys.step plainServer) (Sys.started storedOne statusAndMode)
    [.go 0, .go 1, .go 0, .go 1, .go 0, .go 0, .go 0, .go 1, .go 1,
      .go 1]).getD (Sys.started [] statusAndMode)

/-- A field of the collection. -/
def fieldOf (name : String) (docs : List Doc) : List (Option Value) :=
  docs.map (fun d => d.get? name.toList)

theorem bothRead_loses_status :
    ReachAny (Sys.step plainServer) (Sys.started storedOne statusAndMode)
        bothRead ∧
      (∃ d, bothRead.procs 0 = .returned (.ok (.updated (some d)))) ∧
      (∃ d, bothRead.procs 1 = .returned (.ok (.updated (some d)))) ∧
      exec (accept plainServer) storedOne [.update "1".toList statusUpdate,
        .update "1".toList modeUpdate] ≠ some bothRead.docs ∧
      exec (accept plainServer) storedOne [.update "1".toList modeUpdate,
        .update "1".toList statusUpdate] ≠ some bothRead.docs := by
  have hstatus : fieldOf "subscriber_status" bothRead.docs =
      [some (.int 0)] := rfl
  have hserial : (exec (accept plainServer) storedOne
      [.update "1".toList statusUpdate, .update "1".toList modeUpdate]).map
        (fieldOf "subscriber_status") = some [some (.int 1)] := rfl
  have hserial' : (exec (accept plainServer) storedOne
      [.update "1".toList modeUpdate, .update "1".toList statusUpdate]).map
        (fieldOf "subscriber_status") = some [some (.int 1)] := rfl
  refine ⟨@Reach.exec _ _ _ _ _ _
    [.go 0, .go 1, .go 0, .go 1, .go 0, .go 0, .go 0, .go 1, .go 1, .go 1]
    .refl rfl, ⟨_, rfl⟩, ⟨_, rfl⟩, ?_, ?_⟩
  · intro h
    rw [h, Option.map_some, hstatus] at hserial
    cases hserial
  · intro h
    rw [h, Option.map_some, hstatus] at hserial'
    cases hserial'

end Lost

end Subscribers
end Kelt
