import Kelt.Subscribers.Snapshot

/-!
# The mirroring at the start of the backend

`_sync_subscriber_snapshot_on_startup` of `main.py` leaves an existing snapshot
alone when MongoDB is empty. Whether a snapshot exists is asked of `exists`,
which answers no when it could not be asked; and the list that is looked at is
not the list that is written. `startup_keeps_iff` says which ends of the calls
wipe a snapshot.
-/

namespace Kelt
namespace Subscribers

section Startup

/-- How `ping` ends. -/
inductive Ping
  | ok
  | connectionFailure
  | raises
deriving DecidableEq, Repr

/-- How the calls end that a start of the backend makes. -/
structure StartupCalls where
  ping : Ping
  lists : Bool
  readsSecret : Outcome
  sync : SyncCalls
deriving DecidableEq, Repr

/-- `exists`. -/
def snapshotExists (readsSecret : Outcome) : Bool :=
  match readsSecret with
  | .ok => true
  | .notFound => false
  | .error _ _ => false

variable [Printer]

/-- The Secret after a start, at which the collection is first `docs` and, when
it is mirrored, `later`. Everything that is raised is caught. -/
def startup (calls : StartupCalls) (docs later : List Doc)
    (secret : Option (List Doc)) : Option (List Doc) :=
  let synced := (syncSnapshot calls.sync ⟨later, secret⟩).2.snapshot
  match calls.ping with
  | .connectionFailure => secret
  | .raises => secret
  | .ok =>
      if calls.lists then
        if (listSubscribers docs).isEmpty then
          if calls.sync.planned then
            if snapshotExists calls.readsSecret then secret else synced
          else secret
        else synced
      else secret

/-- The snapshot is as it was, or it is that of a collection with documents. -/
def KeptOrFilled (old : List Doc) (later : List Doc)
    (secret : Option (List Doc)) : Prop :=
  secret = some old ∨
    later ≠ [] ∧ secret = some (sanitize (listSubscribers later))

/-- The calls end so that an empty list is written: the start gets as far as a
mirroring, which reads an empty collection and writes it. -/
structure Wipes (calls : StartupCalls) (docs later : List Doc) : Prop where
  ping : calls.ping = .ok
  lists : calls.lists = true
  goesOn : docs = [] → snapshotExists calls.readsSecret = false
  listsAgain : calls.sync.lists = true
  planned : calls.sync.planned = true
  empty : later = []
  written : (upsertSecret calls.sync).takesEffect = true

/-- The start gets as far as the mirroring. -/
def Mirrors (calls : StartupCalls) (docs : List Doc) : Prop :=
  calls.ping = .ok ∧ calls.lists = true ∧
    (docs = [] → calls.sync.planned = true ∧
      snapshotExists calls.readsSecret = false)

theorem startup_eq {calls : StartupCalls} {docs : List Doc}
    (h : Mirrors calls docs) (later : List Doc)
    (secret : Option (List Doc)) :
    startup calls docs later secret =
      (syncSnapshot calls.sync ⟨later, secret⟩).2.snapshot := by
  obtain ⟨hping, hlists, hempty⟩ := h
  cases docs with
  | nil =>
      obtain ⟨hplanned, hexists⟩ := hempty rfl
      simp [startup, hping, hlists, listSubscribers, hplanned, hexists]
  | cons d rest =>
      simp [startup, hping, hlists, listSubscribers]

theorem startup_eq_of_not {calls : StartupCalls} {docs : List Doc}
    (h : ¬ Mirrors calls docs) (later : List Doc)
    (secret : Option (List Doc)) :
    startup calls docs later secret = secret := by
  have hdocs : (listSubscribers docs).isEmpty = true ↔ docs = [] := by
    simp [listSubscribers]
  simp only [startup]
  cases hping : calls.ping with
  | connectionFailure => rfl
  | raises => rfl
  | ok =>
      simp only
      split_ifs with hlists hempty hplanned hexists <;> try rfl
      · refine absurd ⟨hping, hlists, fun _ => ⟨hplanned, ?_⟩⟩ h
        exact Bool.eq_false_iff.2 hexists
      · exact absurd ⟨hping, hlists, fun hnil => absurd (hdocs.2 hnil) hempty⟩ h

/-- What a mirroring leaves in the Secret. -/
theorem snapshot_syncSnapshot (calls : SyncCalls) (s : Store) :
    (syncSnapshot calls s).2.snapshot = s.snapshot ∨
      calls.lists = true ∧ calls.planned = true ∧
        (upsertSecret calls).takesEffect = true ∧
        (syncSnapshot calls s).2.snapshot =
          some (sanitize (listSubscribers s.docs)) := by
  unfold syncSnapshot write
  split_ifs with hlists hplanned hdump heffect
  · exact Or.inr ⟨hlists, hplanned, heffect, rfl⟩
  · exact Or.inl rfl
  · exact Or.inl rfl
  · exact Or.inl rfl
  · exact Or.inl rfl

/-- A snapshot with subscribers is kept, or replaced by that of a collection
with documents, unless the calls end as `Wipes` says. -/
theorem startup_keeps_iff (calls : StartupCalls) (docs later old : List Doc)
    (hold : old ≠ []) :
    KeptOrFilled old later (startup calls docs later (some old)) ↔
      ¬ Wipes calls docs later := by
  constructor
  · intro hkept hwipes
    have hmirrors : Mirrors calls docs :=
      ⟨hwipes.ping, hwipes.lists,
        fun hnil => ⟨hwipes.planned, hwipes.goesOn hnil⟩⟩
    have hempty : startup calls docs later (some old) = some [] := by
      rw [startup_eq hmirrors, hwipes.empty]
      simp [syncSnapshot, write, hwipes.listsAgain, hwipes.planned,
        hwipes.written, listSubscribers, sanitize, canDump]
    rcases hkept with hkept | ⟨hne, -⟩
    · rw [hempty] at hkept
      exact hold (Option.some.inj hkept).symm
    · exact hne hwipes.empty
  · intro hwipes
    by_cases hmirrors : Mirrors calls docs
    · rw [startup_eq hmirrors]
      rcases snapshot_syncSnapshot calls.sync ⟨later, some old⟩ with
        hsame | ⟨hlists, hplanned, heffect, hwritten⟩
      · exact Or.inl hsame
      · refine Or.inr ⟨fun hnil => hwipes ?_, hwritten⟩
        exact ⟨hmirrors.1, hmirrors.2.1, fun h => (hmirrors.2.2 h).2, hlists,
          hplanned, hnil, heffect⟩
    · exact Or.inl (startup_eq_of_not hmirrors later (some old))

end Startup

section Wiped

/-- MongoDB is up but still empty, and everything succeeds but for the reading
of the Secret, which the API answers with an error. -/
def forbiddenCalls : StartupCalls where
  ping := .ok
  lists := true
  readsSecret := .error true false
  sync := .succeed

def oneSubscriber : List Doc :=
  [Dict.single imsiField (.str "1".toList)]

/-- The snapshot of one subscriber is replaced by the snapshot of none. -/
theorem forbidden_wipes :
    startup forbiddenCalls [] [] (some oneSubscriber) = some [] ∧
      ¬ KeptOrFilled oneSubscriber []
        (startup forbiddenCalls [] [] (some oneSubscriber)) := by
  refine ⟨rfl, ?_⟩
  rintro (h | ⟨h, -⟩)
  · exact List.cons_ne_nil _ _ (Option.some.inj h).symm
  · exact h rfl

/-- Had the Secret been read, it would have been kept. -/
theorem startup_keeps_readable :
    oneSubscriber ≠ [] ∧
      KeptOrFilled oneSubscriber []
        (startup { forbiddenCalls with readsSecret := .ok } [] []
          (some oneSubscriber)) :=
  ⟨List.cons_ne_nil _ _,
    (startup_keeps_iff { forbiddenCalls with readsSecret := .ok } [] []
      oneSubscriber (List.cons_ne_nil _ _)).2
        (fun h => Bool.noConfusion (h.goesOn rfl))⟩

end Wiped

end Subscribers
end Kelt
