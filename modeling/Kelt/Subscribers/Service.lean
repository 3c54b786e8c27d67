import Kelt.Subscribers.Schema
import Kelt.Subscribers.Snapshot

/-!
# Create, update and delete

The calls of `mongo_service.py` on the collection, first the part that reads
and changes the database and then the mirroring. The database itself is a
parameter: which documents meet a query for an IMSI, and what becomes of a
document that is set or inserted, or whether it is refused.

The mirroring is promised never to fail a call. It raises all the same where
`syncSnapshot_ok_iff` says so, and then the change has been made and the answer
is an error (`unaffected_iff`).
-/

namespace Kelt
namespace Subscribers

section Database

/-- A name that an update takes as the name of a field: no path, no
operator. -/
def isPlainField (f : Text) : Bool :=
  !f.isEmpty && !f.contains '.' && f.head? != some '$'

/-- The database, as far as the calls see it. -/
structure Server where
  /-- A document meets `{"imsi": v}`. -/
  meets : Value → Doc → Bool
  /-- `$set` on a document; nothing when it is refused. -/
  set : Doc → Doc → Option Doc
  /-- What an upsert on `{"imsi": v}` inserts. -/
  insert : Value → Doc → Option Doc
  /-- Texts are compared as texts. -/
  meets_text : ∀ {t t' : Text} {d : Doc},
    d.get? imsiField = some (.str t') → (meets (.str t) d = true ↔ t' = t)
  /-- A field that is set has the value that it is set to. -/
  get?_set : ∀ {d u d' : Doc} {f : Text} {v : Value},
    set d u = some d' → isPlainField f = true → u.get? f = some v →
      d'.get? f = some v
  get?_insert : ∀ {w : Value} {u d' : Doc} {f : Text} {v : Value},
    insert w u = some d' → isPlainField f = true → u.get? f = some v →
      d'.get? f = some v

/-- A document is the first that meets a query. -/
structure First (server : Server) (v : Value) (before : List Doc) (d : Doc) :
    Prop where
  meets : server.meets v d = true
  before : ∀ e ∈ before, server.meets v e = false

theorem First.unique {server : Server} {v : Value} {before before' after
    after' : List Doc} {d d' : Doc} (h : First server v before d)
    (h' : First server v before' d')
    (heq : before ++ d :: after = before' ++ d' :: after') :
    before = before' ∧ d = d' ∧ after = after' := by
  induction before generalizing before' with
  | nil =>
      cases before' with
      | nil =>
          cases heq
          exact ⟨rfl, rfl, rfl⟩
      | cons e rest =>
          cases heq
          have hfalse := h'.before d List.mem_cons_self
          rw [h.meets] at hfalse
          cases hfalse
  | cons e rest ih =>
      cases before' with
      | nil =>
          cases heq
          have hfalse := h.before d' List.mem_cons_self
          rw [h'.meets] at hfalse
          cases hfalse
      | cons e' rest' =>
          rw [List.cons_append, List.cons_append, List.cons_eq_cons] at heq
          obtain ⟨rfl, heq⟩ := heq
          obtain ⟨rfl, rfl, rfl⟩ := ih
            ⟨h.meets, fun x hx => h.before x (List.mem_cons_of_mem _ hx)⟩
            ⟨h'.meets, fun x hx => h'.before x (List.mem_cons_of_mem _ hx)⟩
            heq
          exact ⟨rfl, rfl, rfl⟩

namespace Server

variable (server : Server)

/-- `find_one({"imsi": v})`. -/
def findOne (v : Value) (docs : List Doc) : Option Doc :=
  docs.find? (server.meets v)

/-- `update_one({"imsi": v}, {"$set": u})`. -/
def updateOne (v : Value) (u : Doc) : List Doc → Option (List Doc)
  | [] => some []
  | d :: rest =>
      if server.meets v d then (server.set d u).map (fun d' => d' :: rest)
      else (updateOne v u rest).map (fun rest' => d :: rest')

/-- `delete_one({"imsi": v})`. -/
def deleteOne (v : Value) (docs : List Doc) : List Doc :=
  docs.eraseP (server.meets v)

/-- `get_subscriber`. -/
def getSubscriber (v : Value) (docs : List Doc) : Option Doc :=
  (server.findOne v docs).map (fun d => d.erase idField)

/-- An update changes nothing, or it sets one of the documents that meet the
query. -/
theorem updateOne_cases {v : Value} {u : Doc} {docs docs' : List Doc}
    (h : server.updateOne v u docs = some docs') :
    (docs' = docs ∧ ∀ d ∈ docs, server.meets v d = false) ∨
      ∃ before d d' after, docs = before ++ d :: after ∧
        docs' = before ++ d' :: after ∧ First server v before d ∧
        server.set d u = some d' := by
  induction docs generalizing docs' with
  | nil =>
      cases h
      exact Or.inl ⟨rfl, by simp⟩
  | cons d rest ih =>
      rw [updateOne] at h
      by_cases hmeets : server.meets v d = true
      · rw [if_pos hmeets, Option.map_eq_some_iff] at h
        obtain ⟨d', hset, rfl⟩ := h
        exact Or.inr ⟨[], d, d', rest, rfl, rfl, ⟨hmeets, by simp⟩, hset⟩
      · rw [if_neg hmeets, Option.map_eq_some_iff] at h
        obtain ⟨rest', hrest, rfl⟩ := h
        rcases ih hrest with ⟨rfl, hnone⟩ |
          ⟨before, e, e', after, rfl, rfl, hfirst, hset⟩
        · exact Or.inl ⟨rfl, by simpa [hmeets] using hnone⟩
        · refine Or.inr ⟨d :: before, e, e', after, rfl, rfl, ?_, hset⟩
          exact ⟨hfirst.meets, by simpa [hmeets] using hfirst.before⟩

end Server

theorem Server.findOne_eq_some_iff (server : Server) (v : Value)
    (docs : List Doc) (d : Doc) :
    server.findOne v docs = some d ↔
      ∃ before after, docs = before ++ d :: after ∧
        First server v before d := by
  unfold findOne
  rw [List.find?_eq_some_iff_append]
  constructor
  · rintro ⟨hmeets, before, after, rfl, hbefore⟩
    exact ⟨before, after, rfl, hmeets, by simpa using hbefore⟩
  · rintro ⟨before, after, rfl, hfirst⟩
    exact ⟨hfirst.meets, before, after, rfl, by simpa using hfirst.before⟩

/-- The document that an accepted update has written is the one that is found
afterwards. -/
theorem findOne_updated {imsi : Text} {d normalized d' : Doc}
    {before after : List Doc} (hfirst : First server (.str imsi) before d)
    (himsi : normalized.get? imsiField = some (.str imsi))
    (hset : server.set d normalized = some d') :
    server.findOne (.str imsi) (before ++ d' :: after) = some d' := by
  have hd' := server.get?_set hset (by decide) himsi
  exact (server.findOne_eq_some_iff _ _ _).2
    ⟨before, after, rfl, (server.meets_text hd').2 rfl, hfirst.before⟩

theorem updateOne_first {server : Server} {v : Value} {u d : Doc}
    {before after : List Doc} (h : First server v before d) :
    server.updateOne v u (before ++ d :: after) =
      (server.set d u).map (fun d' => before ++ d' :: after) := by
  induction before with
  | nil =>
      rw [List.nil_append, Server.updateOne, if_pos h.meets]
      rfl
  | cons e rest ih =>
      have hrest : First server v rest d :=
        ⟨h.meets, fun x hx => h.before x (List.mem_cons_of_mem _ hx)⟩
      have he : ¬ server.meets v e = true := by
        rw [h.before e List.mem_cons_self]
        exact Bool.false_ne_true
      rw [List.cons_append, Server.updateOne, if_neg he, ih hrest,
        Option.map_map]
      rfl

theorem deleteOne_first {server : Server} {v : Value} {d : Doc}
    {before after : List Doc} (h : First server v before d) :
    server.deleteOne v (before ++ d :: after) = before ++ after := by
  rw [Server.deleteOne, List.eraseP_append_right _
    (fun e he => by simp [h.before e he]), List.eraseP_cons_of_pos h.meets]

def objectId : Value :=
  .other "ObjectId".toList false

/-- Texts, numbers, truth values and null compared as values. -/
def sameScalar : Value → Value → Bool
  | .str t, .str t' => t = t'
  | .bool b, .bool b' => b = b'
  | .null, .null => true
  | .int n, .int n' => n = n'
  | .int n, .float _ whole => whole = some n
  | .float _ whole, .int n => whole = some n
  | .float shown _, .float shown' _ => shown = shown'
  | _, _ => false

/-- A server for plain documents, which refuses nothing. -/
def plainServer : Server where
  meets v d :=
    match d.get? imsiField with
    | none => false
    | some (.list items) => items.any (sameScalar v)
    | some w => sameScalar v w
  set d u := some (d.update u)
  insert _ u :=
    some (if (u.get? idField).isSome then u else u.set idField objectId)
  meets_text := by
    intro t t' d hd
    simp [hd, sameScalar, eq_comm]
  get?_set := by
    intro d u d' f v h _ hf
    cases h
    rw [Dict.get?_update, hf]
    rfl
  get?_insert := by
    intro w u d' f v h _ hf
    cases h
    split_ifs with hid
    · exact hf
    · rw [Dict.get?_set, if_neg, hf]
      rintro rfl
      rw [hf] at hid
      exact hid rfl

/-- A new subscriber with the same text for K and OPc. -/
def newSubscriber (imsi : Value) (key : Text) : Doc :=
  (Dict.single imsiField imsi).set securityField
    (.doc [("k".toList, .str key), ("opc".toList, .str key)])

def zeroKey : Text :=
  List.replicate 32 '0'

end Database

section Calls

/-- What a call raises. -/
inductive Raised
  | schema (message : Text)
  | exists (message : Text)
  | keyError
  | typeError
  | refused
  | sync (e : SyncError)
deriving DecidableEq, Repr

inductive Request
  | create (data : Doc)
  | update (imsi : Text) (data : Doc)
  | delete (imsi : Text)

inductive Answer
  | created (subscriber : Doc)
  | updated (subscriber : Option Doc)
  | deleted (found : Bool)

/-- What a request has done to the database, and what it is going to answer,
which it reads back from the collection. -/
structure Change where
  docs : List Doc
  reads : List Doc → Answer
  mirrored : Bool

/-- The answer, when nothing comes between. -/
def Change.answer (c : Change) : Answer :=
  c.reads c.docs

/-- `existing.get("security") or {}`, unpacked. -/
def existingSecurity (v : Option Value) : Except Raised Fields :=
  match v with
  | none => .ok []
  | some (.doc fields) => .ok fields
  | some v => if v.truthy then .error .typeError else .ok []

theorem existingSecurity_eq {d : Doc} {old : Fields}
    (hd : d.get? securityField = some (.doc old)) :
    existingSecurity ((d.erase idField).get? securityField) = .ok old := by
  rw [Dict.get?_erase_of_ne _ securityField_ne_idField, hd]
  rfl

/-- `name` has a true value and `other` is not given. -/
def replaces (new : Fields) (name other : String) : Bool :=
  (new.get name).any Value.truthy && (new.get other).isNone

/-- The security block key by key. -/
def mergeSecurity (existing new : Fields) : Fields :=
  let sec : Fields := Dict.updateItems existing new
  let sec := if replaces new "op" "opc" then sec.set "opc" .null else sec
  if replaces new "opc" "op" then sec.set "op" .null else sec

/-- `merged` in `update_subscriber`, before the IMSI is put back. -/
def mergeDoc (existing data : Doc) : Except Raised Doc :=
  let merged := existing.update (data.erase imsiField)
  match data.get? securityField with
  | some (.doc new) => do
      let old ← existingSecurity (existing.get? securityField)
      .ok (merged.set securityField (.doc (mergeSecurity old new)))
  | _ => .ok merged

/-- The security block that an update normalises. -/
def updatedSecurity (existing data : Doc) : Except Raised (Option Value) :=
  match data.get? securityField with
  | some (.doc new) =>
      (existingSecurity (existing.get? securityField)).map
        (fun old => some (.doc (mergeSecurity old new)))
  | some v => .ok (some v)
  | none => .ok (existing.get? securityField)

theorem mergeDoc_ok {existing data merged : Doc}
    (h : mergeDoc existing data = .ok merged) :
    updatedSecurity existing data = .ok (merged.get? securityField) ∧
      ∀ f, f ≠ securityField → f ≠ imsiField →
        merged.get? f = (data.get? f).or (existing.get? f) := by
  have hdata : ∀ f, f ≠ imsiField →
      (existing.update (data.erase imsiField)).get? f =
        (data.get? f).or (existing.get? f) := by
    intro f hf
    rw [Dict.get?_update, Dict.get?_erase_of_ne _ hf]
  unfold mergeDoc at h
  unfold updatedSecurity
  split at h
  · rename_i new hnew
    cases hold : existingSecurity (existing.get? securityField) with
    | error e => simp [hold, bind, Except.bind] at h
    | ok old =>
        simp only [hold, bind, Except.bind] at h
        cases h
        refine ⟨by simp [hnew, Except.map], fun f hf himsi => ?_⟩
        rw [Dict.get?_set_of_ne _ _ hf, hdata f himsi]
  · rename_i hdoc
    cases h
    refine ⟨?_, fun f _ himsi => hdata f himsi⟩
    rw [hdata _ securityField_ne_imsiField]
    cases hv : data.get? securityField with
    | none => rfl
    | some v => cases v <;> first | rfl | exact absurd hv (hdoc _)

variable [Printer]

/-- `normalized` in `update_subscriber`. -/
def mergeUpdate (imsi : Text) (existing data : Doc) : Except Raised Doc := do
  let merged ← mergeDoc (existing.erase idField) data
  (normalizeSubscriber (merged.set imsiField (.str imsi))).mapError .schema

/-- What an update writes: the IMSI it was called with, the security block
normalised, and every other field as it is given, or stored, or by default. -/
theorem mergeUpdate_ok {imsi : Text} {existing data normalized : Doc}
    (h : mergeUpdate imsi existing data = .ok normalized) :
    (∃ v sec, updatedSecurity (existing.erase idField) data = .ok v ∧
        normalizeSecurity v = .ok sec ∧
        normalized.get? securityField = some (.doc sec)) ∧
      normalized.get? imsiField = some (.str imsi) ∧
      normalized.get? idField = none ∧
      ∀ f, f ≠ securityField → f ≠ imsiField → f ≠ idField →
        normalized.get? f = ((data.get? f).or (existing.get? f)).or
          (subscriberDefaults.get? f) := by
  unfold mergeUpdate at h
  cases hmerged : mergeDoc (existing.erase idField) data with
  | error e => simp [hmerged, bind, Except.bind] at h
  | ok merged =>
      simp only [hmerged, bind, Except.bind] at h
      cases hnorm : normalizeSubscriber
          (merged.set imsiField (.str imsi)) with
      | error e => simp [hnorm, Except.mapError] at h
      | ok data' =>
          obtain rfl : data' = normalized := by
            simpa [hnorm, Except.mapError] using h
          obtain ⟨hsec, hfields⟩ := mergeDoc_ok hmerged
          obtain ⟨sec, hok, hget⟩ := normalizeSubscriber_security hnorm
          rw [Dict.get?_set_of_ne _ _ securityField_ne_imsiField] at hok
          refine ⟨⟨_, sec, hsec, hok, hget⟩, ?_, ?_, ?_⟩
          · rw [get?_normalizeSubscriber hnorm
              securityField_ne_imsiField.symm,
              if_neg idField_ne_imsiField.symm, Dict.get?_set_self]
            rfl
          · rw [get?_normalizeSubscriber hnorm
              securityField_ne_idField.symm, if_pos rfl]
          · intro f hf himsi hid
            rw [get?_normalizeSubscriber hnorm hf, if_neg hid,
              Dict.get?_set_of_ne _ _ himsi, hfields f hf himsi,
              Dict.get?_erase_of_ne _ hid]

def alreadyExists (v : Value) : Text :=
  "Subscriber ".toList ++ v.text ++ " already exists".toList

variable (server : Server)

/-- `create_subscriber` up to the mirroring. -/
def createSubscriber (data : Doc) (docs : List Doc) :
    Except Raised Change := do
  let data ← (normalizeSubscriber data).mapError .schema
  match data.get? imsiField with
  | none => .error .keyError
  | some v =>
      match server.insert v data with
      | none => .error .refused
      | some d =>
          if (server.findOne v docs).isSome then
            .error (.exists (alreadyExists v))
          else
            .ok ⟨docs ++ [d], fun docs =>
              let found := (server.getSubscriber v docs).filter
                (fun d => !d.items.isEmpty)
              .created (found.getD data), true⟩

/-- The database step and the rest of `update_subscriber` up to the mirroring,
with the document that it has read. -/
def writeUpdate (imsi : Text) (existing data : Doc) (docs : List Doc) :
    Except Raised Change := do
  let normalized ← mergeUpdate imsi existing data
  match server.updateOne (.str imsi) normalized docs with
  | none => .error .refused
  | some docs =>
      .ok ⟨docs,
        fun docs => .updated (server.getSubscriber (.str imsi) docs), true⟩

/-- `update_subscriber` up to the mirroring. -/
def updateSubscriber (imsi : Text) (data : Doc) (docs : List Doc) :
    Except Raised Change :=
  match server.findOne (.str imsi) docs with
  | none => .ok ⟨docs, fun _ => .updated none, false⟩
  | some existing => writeUpdate server imsi existing data docs

/-- `delete_subscriber` up to the mirroring. -/
def deleteSubscriber (imsi : Text) (docs : List Doc) : Change :=
  if (server.findOne (.str imsi) docs).isSome then
    ⟨server.deleteOne (.str imsi) docs, fun _ => .deleted true, true⟩
  else ⟨docs, fun _ => .deleted false, false⟩

/-- What a request does before it mirrors. -/
def change (r : Request) (docs : List Doc) : Except Raised Change :=
  match r with
  | .create data => createSubscriber server data docs
  | .update imsi data => updateSubscriber server imsi data docs
  | .delete imsi => .ok (deleteSubscriber server imsi docs)

/-- A whole call, whose mirroring is `sync`. -/
def callWith (sync : Store → Except SyncError Bool × Store) (r : Request)
    (s : Store) : Except Raised Answer × Store :=
  match change server r s.docs with
  | .error e => (.error e, s)
  | .ok c =>
      let s := { s with docs := c.docs }
      if c.mirrored then
        match sync s with
        | (.ok _, s) => (.ok c.answer, s)
        | (.error e, s) => (.error (.sync e), s)
      else (.ok c.answer, s)

/-- A mirroring that succeeds. -/
def mirror (s : Store) : Except SyncError Bool × Store :=
  (.ok true, { s with snapshot := some (sanitize (listSubscribers s.docs)) })

/-- A whole call. -/
def call (calls : SyncCalls) (r : Request) (s : Store) :
    Except Raised Answer × Store :=
  callWith server (syncSnapshot calls) r s

variable {server}

/-- What a call answers that has got to its mirroring. -/
theorem callWith_eq {sync : Store → Except SyncError Bool × Store}
    {r : Request} {s : Store} {c : Change}
    (h : change server r s.docs = .ok c) (hc : c.mirrored = true) :
    callWith server sync r s =
      match sync { s with docs := c.docs } with
      | (.ok _, s) => (.ok c.answer, s)
      | (.error e, s) => (.error (.sync e), s) := by
  simp only [callWith, h, hc, if_true]

/-- A call answers what it would answer with a mirroring that succeeds, unless
it raises what its mirroring raises. -/
theorem call_eq_iff (calls : SyncCalls) (r : Request) (s : Store) :
    (call server calls r s).1 = (callWith server mirror r s).1 ↔
      ∀ c, change server r s.docs = .ok c → c.mirrored = true →
        ∃ answer,
          (syncSnapshot calls { s with docs := c.docs }).1 = .ok answer := by
  unfold call
  cases hchange : change server r s.docs with
  | error e => simp [callWith, hchange]
  | ok c =>
      cases hc : c.mirrored with
      | false => simp [callWith, hchange, hc]
      | true =>
          rw [callWith_eq hchange hc, callWith_eq hchange hc]
          rcases hsync : syncSnapshot calls { s with docs := c.docs } with
            ⟨e | answer, s'⟩ <;> simp [mirror, hc, hsync]

/-- The answer of a call and the collection after it. -/
theorem call_of_change {r : Request} {s : Store} {c : Change}
    (h : change server r s.docs = .ok c) (calls : SyncCalls) :
    (call server calls r s).2.docs = c.docs ∧
      ((call server calls r s).1 = .ok c.answer ∨
        ∃ e, (call server calls r s).1 = .error (.sync e)) := by
  cases hc : c.mirrored with
  | false => simp [call, callWith, h, hc]
  | true =>
      have hsync := docs_syncSnapshot calls { s with docs := c.docs }
      rw [call, callWith_eq h hc]
      rcases hs : syncSnapshot calls { s with docs := c.docs } with
        ⟨e | answer, s'⟩
      · rw [hs] at hsync
        exact ⟨hsync, Or.inr ⟨e, rfl⟩⟩
      · rw [hs] at hsync
        exact ⟨hsync, Or.inl rfl⟩

/-- A call that answers has answered what its change says. -/
theorem change_of_call {r : Request} {s : Store} {calls : SyncCalls}
    {a : Answer} (h : (call server calls r s).1 = .ok a) :
    ∃ c, change server r s.docs = .ok c ∧ c.answer = a := by
  cases hchange : change server r s.docs with
  | error e =>
      simp only [call, callWith, hchange] at h
      cases h
  | ok c =>
      refine ⟨c, rfl, ?_⟩
      rcases (call_of_change hchange calls).2 with hok | ⟨e, he⟩
      · exact Except.ok.inj (hok.symm.trans h)
      · rw [he] at h
        cases h

theorem mirrored_createSubscriber {data : Doc} {docs : List Doc}
    {c : Change} (h : createSubscriber server data docs = .ok c) :
    c.mirrored = true := by
  unfold createSubscriber at h
  cases hnorm : normalizeSubscriber data with
  | error e => simp [hnorm, Except.mapError, bind, Except.bind] at h
  | ok normalized =>
      simp only [hnorm, Except.mapError, bind, Except.bind] at h
      split at h
      · cases h
      · split at h
        · cases h
        · split_ifs at h
          cases h
          rfl

/-- An update that is written has merged, and the database has taken it. -/
theorem writeUpdate_eq_ok {imsi : Text} {existing data : Doc}
    {docs : List Doc} {c : Change}
    (h : writeUpdate server imsi existing data docs = .ok c) :
    ∃ normalized docs', mergeUpdate imsi existing data = .ok normalized ∧
      server.updateOne (.str imsi) normalized docs = some docs' ∧
      c = ⟨docs',
        fun docs => .updated (server.getSubscriber (.str imsi) docs), true⟩ := by
  unfold writeUpdate at h
  cases hmerge : mergeUpdate imsi existing data with
  | error e => simp [hmerge, bind, Except.bind] at h
  | ok normalized =>
      simp only [hmerge, bind, Except.bind] at h
      cases hupdate : server.updateOne (.str imsi) normalized docs with
      | none => simp [hupdate] at h
      | some docs' =>
          simp only [hupdate] at h
          exact ⟨normalized, docs', rfl, hupdate, (Except.ok.inj h).symm⟩

theorem mirrored_writeUpdate {imsi : Text} {existing data : Doc}
    {docs : List Doc} {c : Change}
    (h : writeUpdate server imsi existing data docs = .ok c) :
    c.mirrored = true := by
  obtain ⟨normalized, docs', -, -, rfl⟩ := writeUpdate_eq_ok h
  rfl

/-- Only what changes the collection is mirrored, and all of it is. -/
theorem docs_of_not_mirrored {r : Request} {docs : List Doc} {c : Change}
    (h : change server r docs = .ok c) (hc : c.mirrored = false) :
    c.docs = docs := by
  cases r with
  | create data =>
      rw [mirrored_createSubscriber h] at hc
      cases hc
  | update imsi data =>
      change updateSubscriber server imsi data docs = .ok c at h
      unfold updateSubscriber at h
      split at h
      · cases h
        rfl
      · rw [mirrored_writeUpdate h] at hc
        cases hc
  | delete imsi =>
      obtain rfl := Except.ok.inj h
      unfold deleteSubscriber at hc ⊢
      split_ifs at hc ⊢
      rfl

end Calls

section Accepted

variable [Printer]

/-- What an accepted request does to the collection. -/
inductive Accepted (server : Server) (docs : List Doc) :
    Request → List Doc → Prop
  | notUpdated {imsi : Text} {data : Doc}
      (hnone : server.findOne (.str imsi) docs = none) :
      Accepted server docs (.update imsi data) docs
  | notDeleted {imsi : Text}
      (hnone : server.findOne (.str imsi) docs = none) :
      Accepted server docs (.delete imsi) docs
  | created {data normalized d : Doc} {v : Value}
      (hnorm : normalizeSubscriber data = .ok normalized)
      (himsi : normalized.get? imsiField = some v)
      (hinsert : server.insert v normalized = some d)
      (hnew : server.findOne v docs = none) :
      Accepted server docs (.create data) (docs ++ [d])
  | updated {imsi : Text} {data normalized d d' : Doc}
      {before after : List Doc} (hdocs : docs = before ++ d :: after)
      (hfirst : First server (.str imsi) before d)
      (hmerge : mergeUpdate imsi d data = .ok normalized)
      (hset : server.set d normalized = some d') :
      Accepted server docs (.update imsi data) (before ++ d' :: after)
  | deleted {imsi : Text} {d : Doc} {before after : List Doc}
      (hdocs : docs = before ++ d :: after)
      (hfirst : First server (.str imsi) before d) :
      Accepted server docs (.delete imsi) (before ++ after)

theorem accepted_of_create {server : Server} {data : Doc} {docs : List Doc}
    {c : Change} (h : createSubscriber server data docs = .ok c) :
    Accepted server docs (.create data) c.docs := by
  unfold createSubscriber at h
  cases hnorm : normalizeSubscriber data with
  | error e => simp [hnorm, Except.mapError, bind, Except.bind] at h
  | ok normalized =>
      simp only [hnorm, Except.mapError, bind, Except.bind] at h
      cases himsi : normalized.get? imsiField with
      | none => simp [himsi] at h
      | some v =>
          cases hinsert : server.insert v normalized with
          | none => simp [himsi, hinsert] at h
          | some d =>
              simp only [himsi, hinsert] at h
              split_ifs at h with hfound
              cases h
              exact .created hnorm himsi hinsert (by simpa using hfound)

theorem accepted_of_update {server : Server} {imsi : Text} {data : Doc}
    {docs : List Doc} {c : Change}
    (h : updateSubscriber server imsi data docs = .ok c) :
    Accepted server docs (.update imsi data) c.docs := by
  unfold updateSubscriber at h
  cases hfound : server.findOne (.str imsi) docs with
  | none =>
      simp only [hfound] at h
      cases h
      exact .notUpdated hfound
  | some d =>
      simp only [hfound] at h
      obtain ⟨normalized, docs', hmerge, hupdate, rfl⟩ :=
        writeUpdate_eq_ok h
      rcases server.updateOne_cases hupdate with ⟨rfl, hnone⟩ |
        ⟨before, e, e', after, rfl, rfl, hfirst', hset⟩
      · refine .notUpdated (List.find?_eq_none.2 ?_)
        exact fun e he => by simp [hnone e he]
      · obtain ⟨before', after', heq, hfirst⟩ :=
          (server.findOne_eq_some_iff _ _ d).1 hfound
        obtain ⟨rfl, rfl, rfl⟩ :=
          hfirst'.unique hfirst heq
        exact .updated rfl hfirst hmerge hset

theorem accepted_of_delete (server : Server) (imsi : Text)
    (docs : List Doc) :
    Accepted server docs (.delete imsi)
      (deleteSubscriber server imsi docs).docs := by
  unfold deleteSubscriber
  split_ifs with hfound
  · obtain ⟨d, hd⟩ := Option.isSome_iff_exists.1 hfound
    obtain ⟨before, after, rfl, hfirst⟩ :=
      (server.findOne_eq_some_iff _ _ d).1 hd
    simp only [deleteOne_first hfirst]
    exact .deleted rfl hfirst
  · exact .notDeleted (by simpa using hfound)

theorem accepted_of_change {server : Server} {r : Request}
    {docs : List Doc} {c : Change} (h : change server r docs = .ok c) :
    Accepted server docs r c.docs := by
  cases r with
  | create data => exact accepted_of_create h
  | update imsi data => exact accepted_of_update h
  | delete imsi =>
      cases h
      exact accepted_of_delete server imsi docs

/-- The collection after an accepted request. -/
def accept (server : Server) (docs : List Doc) (r : Request) :
    Option (List Doc) :=
  (change server r docs).toOption.map Change.docs

theorem accepted_of_accept {server : Server} {r : Request}
    {docs docs' : List Doc} (h : accept server docs r = some docs') :
    Accepted server docs r docs' := by
  unfold accept at h
  cases hchange : change server r docs with
  | error e => simp [hchange, Except.toOption] at h
  | ok c =>
      rw [hchange] at h
      cases h
      exact accepted_of_change hchange

/-- A call that raises before its mirroring changes nothing, and otherwise it
has been accepted. -/
theorem docs_call (server : Server) (calls : SyncCalls) (r : Request)
    (s : Store) :
    (call server calls r s).2.docs = s.docs ∨
      Accepted server s.docs r (call server calls r s).2.docs := by
  cases hchange : change server r s.docs with
  | error e =>
      exact Or.inl (by simp only [call, callWith, hchange])
  | ok c =>
      rw [(call_of_change hchange calls).1]
      exact Or.inr (accepted_of_change hchange)

end Accepted

section Unaffected

variable [Printer]

/-- A snapshot that fails leaves every answer as it is, and neither part of the
mirroring raises, exactly when no mirroring gets as far as a service without a
plan, or as a document with a field that JSON has no spelling for. -/
theorem unaffected_iff (server : Server) (calls : SyncCalls) (r : Request)
    (s : Store) (subs : List Doc) (secret : Option (List Doc)) :
    ((call server calls r s).1 = (callWith server mirror r s).1 ↔
        ∀ c, change server r s.docs = .ok c → c.mirrored = true →
          calls.lists = true →
            calls.planned = true ∧ Mirrorable c.docs) ∧
      ((∃ answer, (syncSnapshot calls s).1 = .ok answer) ↔
        (calls.lists = true →
          calls.planned = true ∧ Mirrorable s.docs)) ∧
      ((∃ answer, (write calls subs secret).1 = .ok answer) ↔
        Mirrorable subs) := by
  refine ⟨?_, syncSnapshot_ok_iff calls s, write_ok_iff calls subs secret⟩
  rw [call_eq_iff]
  simp only [syncSnapshot_ok_iff]

end Unaffected

section DatedSubscriber

/-- Two subscribers, one of them with a date of the database. -/
def datedStore : Store where
  docs :=
    [(Dict.single imsiField (.str "1".toList)).set "created".toList
        (.other "2026-01-01 00:00:00".toList false),
      Dict.single imsiField (.str "2".toList)]
  snapshot := none

/-- Every call succeeds and the subscriber is deleted, but what it gets to hear
is the `TypeError` of `json.dumps`. -/
theorem dated_delete_raises :
    (call plainServer .succeed (.delete "2".toList) datedStore).1 =
        .error (.sync .notSerializable) ∧
      (callWith plainServer mirror (.delete "2".toList) datedStore).1 =
        .ok (.deleted true) ∧
      (call plainServer .succeed (.delete "2".toList) datedStore).2.docs =
        datedStore.docs.take 1 :=
  ⟨rfl, rfl, rfl⟩

end DatedSubscriber

end Subscribers
end Kelt
