import Kelt.Subscribers.Value

/-!
# The snapshot of the subscribers

`subscriber_snapshot.py` and `_sync_snapshot`: the sanitised list that goes
into the Secret, and how a write of it ends for each end of the calls that it
makes. `syncSnapshot_ok_iff` says when the mirroring does not raise.
-/

namespace Kelt
namespace Subscribers

section Snapshot

/-- The collection, and what the Secret holds when there is one. -/
structure Store where
  docs : List Doc
  snapshot : Option (List Doc)

/-- How a call of the Kubernetes API ends. An error may come after the call has
had its effect; `api` is an `ApiException`. -/
inductive Outcome
  | ok
  | notFound
  | error (api : Bool) (applied : Bool)
deriving DecidableEq, Repr

namespace Outcome

def isOk : Outcome → Bool
  | ok => true
  | _ => false

/-- The call has had its effect. -/
def takesEffect : Outcome → Bool
  | ok => true
  | notFound => false
  | error _ applied => applied

end Outcome

/-- How the calls end that one mirroring makes: the collection is listed, the
plan has the names of the Secret, the client patches the Secret or else creates
it. -/
structure SyncCalls where
  lists : Bool
  planned : Bool
  patch : Outcome
  create : Outcome
deriving DecidableEq, Repr

/-- A mirroring in which everything succeeds. -/
def SyncCalls.succeed : SyncCalls where
  lists := true
  planned := true
  patch := .ok
  create := .ok

/-- `upsert_secret`: the call that decides is the patch, or the creation of a
Secret that is not there. -/
def upsertSecret (calls : SyncCalls) : Outcome :=
  match calls.patch with
  | .notFound => calls.create
  | patch => patch

/-- What a mirroring raises. -/
inductive SyncError
  | plan
  | notSerializable
deriving DecidableEq, Repr

/-- `json.dumps(payload)` does not raise. -/
def canDump (payload : List Doc) : Bool :=
  payload.all (fun d => d.items.all (fun kv => kv.2.isPlain))

theorem canDump_iff (payload : List Doc) :
    canDump payload = true ↔
      ∀ d ∈ payload, ∀ f v, d.get? f = some v → v.isPlain = true := by
  simp only [canDump, List.all_eq_true, Dict.get?_eq_some_iff, Prod.forall]

/-- `list_subscribers`. -/
def listSubscribers (docs : List Doc) : List Doc :=
  docs.map (fun d => d.erase idField)

/-- Every field that reaches the snapshot can be spelt in JSON. The IMSI is
made a text before, and the identifier is dropped. -/
def Mirrorable (docs : List Doc) : Prop :=
  ∀ d ∈ docs, d.get? imsiField ≠ none → ∀ f v, d.get? f = some v →
    f ≠ idField → f ≠ imsiField → v.isPlain = true

theorem mirrorable_listSubscribers_iff (docs : List Doc) :
    Mirrorable (listSubscribers docs) ↔ Mirrorable docs := by
  constructor
  · intro h d hd himsi f v hf hid
    refine h (d.erase idField) (List.mem_map.2 ⟨d, hd, rfl⟩) ?_ f v ?_ hid
    · rwa [d.get?_erase_of_ne idField_ne_imsiField.symm]
    · rwa [d.get?_erase_of_ne hid]
  · intro h d' hd' himsi f v hf hid
    obtain ⟨d, hd, rfl⟩ := List.mem_map.1 hd'
    rw [d.get?_erase_of_ne idField_ne_imsiField.symm] at himsi
    rw [d.get?_erase_of_ne hid] at hf
    exact h d hd himsi f v hf hid

variable [Printer]

/-- One round of the loop in `_sanitize`. -/
def sanitizeDoc (sub : Doc) : Option Doc :=
  let clean := sub.erase idField
  match clean.get? imsiField with
  | none => none
  | some v => some (clean.set imsiField (.str v.text))

/-- `_sanitize`. -/
def sanitize (subs : List Doc) : List Doc :=
  subs.filterMap sanitizeDoc

/-- `write`: whether it returns `True`, and the Secret after it. -/
def write (calls : SyncCalls) (subs : List Doc) (secret : Option (List Doc)) :
    Except SyncError Bool × Option (List Doc) :=
  if canDump (sanitize subs) then
    (.ok (upsertSecret calls).isOk,
      if (upsertSecret calls).takesEffect then some (sanitize subs)
      else secret)
  else (.error .notSerializable, secret)

/-- `_sync_snapshot`; the service object of the snapshot is built on the way,
which reads the plan. -/
def syncSnapshot (calls : SyncCalls) (s : Store) :
    Except SyncError Bool × Store :=
  if calls.lists then
    if calls.planned then
      let (answer, secret) := write calls (listSubscribers s.docs) s.snapshot
      (answer, { s with snapshot := secret })
    else (.error .plan, s)
  else (.ok false, s)

@[simp] theorem docs_syncSnapshot (calls : SyncCalls) (s : Store) :
    (syncSnapshot calls s).2.docs = s.docs := by
  unfold syncSnapshot
  split_ifs <;> rfl

theorem sanitizeDoc_eq_some_iff (d clean : Doc) :
    sanitizeDoc d = some clean ↔
      ∃ v, d.get? imsiField = some v ∧
        clean = (d.erase idField).set imsiField (.str v.text) := by
  have himsi : (d.erase idField).get? imsiField = d.get? imsiField :=
    d.get?_erase_of_ne idField_ne_imsiField.symm
  simp only [sanitizeDoc, himsi]
  cases d.get? imsiField with
  | none => simp
  | some v => simp [eq_comm]

/-- What a sanitised document has under a name. -/
theorem get?_of_sanitizeDoc {d clean : Doc} {v : Value}
    (hv : d.get? imsiField = some v) (h : sanitizeDoc d = some clean)
    (f : Text) :
    clean.get? f =
      if f = imsiField then some (.str v.text)
      else if f = idField then none else d.get? f := by
  obtain ⟨w, hw, rfl⟩ := (sanitizeDoc_eq_some_iff d clean).1 h
  rw [hv] at hw
  cases hw
  rw [Dict.get?_set, Dict.get?_erase]
  by_cases hf : f = imsiField
  · rw [if_pos hf, if_pos hf.symm]
  · by_cases hid : f = idField
    · rw [if_neg (Ne.symm hf), if_pos hid.symm, if_neg hf, if_pos hid]
    · rw [if_neg (Ne.symm hf), if_neg (Ne.symm hid), if_neg hf, if_neg hid]

theorem canDump_sanitize_iff (docs : List Doc) :
    canDump (sanitize docs) = true ↔ Mirrorable docs := by
  rw [canDump_iff]
  constructor
  · intro h d hd himsi f v hf hid hne
    obtain ⟨w, hw⟩ := Option.ne_none_iff_exists'.1 himsi
    have hclean := (sanitizeDoc_eq_some_iff d _).2 ⟨w, hw, rfl⟩
    refine h _ (List.mem_filterMap.2 ⟨d, hd, hclean⟩) f v ?_
    rw [get?_of_sanitizeDoc hw hclean, if_neg hne, if_neg hid]
    exact hf
  · intro h clean hclean f v hf
    obtain ⟨d, hd, hdoc⟩ := List.mem_filterMap.1 hclean
    obtain ⟨w, hw, -⟩ := (sanitizeDoc_eq_some_iff d clean).1 hdoc
    rw [get?_of_sanitizeDoc hw hdoc] at hf
    split_ifs at hf with himsi hid
    · cases hf
      rfl
    · exact h d hd (by rw [hw]; simp) f v hf hid himsi

theorem write_ok_iff (calls : SyncCalls) (subs : List Doc)
    (secret : Option (List Doc)) :
    (∃ answer, (write calls subs secret).1 = .ok answer) ↔
      Mirrorable subs := by
  rw [← canDump_sanitize_iff]
  unfold write
  split_ifs with hdump <;> simp [hdump]

/-- The mirroring does not raise: either it stops at the list, or it gets past
the plan and past `json.dumps`. -/
theorem syncSnapshot_ok_iff (calls : SyncCalls) (s : Store) :
    (∃ answer, (syncSnapshot calls s).1 = .ok answer) ↔
      (calls.lists = true →
        calls.planned = true ∧ Mirrorable s.docs) := by
  rw [← mirrorable_listSubscribers_iff]
  unfold syncSnapshot
  split_ifs with hlists hplanned
  · simpa [hlists, hplanned] using
      write_ok_iff calls (listSubscribers s.docs) s.snapshot
  · simp [hlists, hplanned]
  · simp [hlists]

end Snapshot

end Subscribers
end Kelt
