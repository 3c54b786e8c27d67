import Kelt.Lib.Runs
import Kelt.Subscribers.Keyed

/-!
# The routes of the subscribers

The handlers of `routers/subscribers.py`. A subscriber is addressed by the text
in the path, while the database compares IMSIs as values of the payload. As
long as every IMSI that comes in is a text which can stand in a path, the
stored IMSIs stay distinct and each subscriber can be reached by its own
(`subscribers_addressed`); a number beside the same digits as a text cannot.
-/

namespace Kelt
namespace Subscribers

section Routes

/-- What a handler answers instead of a result. -/
inductive RouteError
  | noRoute
  | http (status : Nat) (detail : Text)
  | internal (e : Raised)
deriving DecidableEq, Repr

inductive RouteAnswer
  | subscriber (d : Doc)
  | deleted (imsi : Text)
  | imported (created skipped : List Text)

inductive RouteRequest
  | create (payload : Doc)
  | importAll (payload : Doc)
  | update (imsi : Text) (payload : Doc)
  | delete (imsi : Text)

/-- `{imsi}` in a path takes one segment. -/
def routable (imsi : Text) : Bool :=
  !imsi.isEmpty && !imsi.contains '/'

/-- The mapping of a field of a payload. -/
def Fields.toDoc (fields : Fields) : Doc :=
  fields.foldl (fun d kv => d.set kv.1 kv.2) Dict.empty

/-- An entry of an import as a payload, when it is a mapping. -/
def entryDoc (sub : Value) : Option Doc :=
  match sub with
  | .doc fields => some (Fields.toDoc fields)
  | _ => none

/-- `payload.get("subscribers", [])`, when it is a list. -/
def importEntries (payload : Doc) : Option (List Value) :=
  match payload.get? "subscribers".toList with
  | none => some []
  | some (.list subs) => some subs
  | some _ => none

def notFound (imsi : Text) : RouteError :=
  .http 404 ("Subscriber ".toList ++ imsi ++ " not found".toList)

variable [Printer]

/-- What is wrong with the entry at a position of an import. -/
def entryError (sub : Value) (i : Nat) : Option Text :=
  let required := "entry ".toList ++ (toString i).toList ++
    ": imsi is required".toList
  match entryDoc sub with
  | none => some required
  | some sub =>
      match sub.get? imsiField with
      | none => some required
      | some v =>
          if v.truthy then
            match normalizeSubscriber sub with
            | .ok _ => none
            | .error message => some (v.text ++ ": ".toList ++ message)
          else some required

def importErrors (subs : List Value) : List Text :=
  subs.zipIdx.filterMap (fun p => entryError p.1 p.2)

/-- `str(sub["imsi"])`. -/
def entryImsi (sub : Doc) : Text :=
  ((sub.get? imsiField).map Value.text).getD []

variable (server : Server)

/-- The GET route. -/
def getRoute (imsi : Text) (s : Store) : Except RouteError Doc :=
  if routable imsi then
    match server.getSubscriber (.str imsi) s.docs with
    | none => .error (notFound imsi)
    | some d => .ok d
  else .error .noRoute

/-- The POST route. -/
def createRoute (calls : SyncCalls) (payload : Doc) (s : Store) :
    Except RouteError RouteAnswer × Store :=
  match payload.get? imsiField with
  | none => (.error (.http 400 "imsi is required".toList), s)
  | some _ =>
      match call server calls (.create payload) s with
      | (.ok (.created d), s) => (.ok (.subscriber d), s)
      | (.ok _, s) => (.error .noRoute, s)
      | (.error (.exists m), s) =>
          (.error (.http 409 (m ++ ": edit it instead".toList)), s)
      | (.error (.schema m), s) => (.error (.http 422 m), s)
      | (.error e, s) => (.error (.internal e), s)

/-- The PUT route. -/
def updateRoute (calls : SyncCalls) (imsi : Text) (payload : Doc)
    (s : Store) : Except RouteError RouteAnswer × Store :=
  if routable imsi then
    match call server calls (.update imsi payload) s with
    | (.ok (.updated (some d)), s) => (.ok (.subscriber d), s)
    | (.ok _, s) => (.error (notFound imsi), s)
    | (.error (.schema m), s) => (.error (.http 422 m), s)
    | (.error e, s) => (.error (.internal e), s)
  else (.error .noRoute, s)

/-- The DELETE route. -/
def deleteRoute (calls : SyncCalls) (imsi : Text) (s : Store) :
    Except RouteError RouteAnswer × Store :=
  if routable imsi then
    match call server calls (.delete imsi) s with
    | (.ok (.deleted true), s) => (.ok (.deleted imsi), s)
    | (.ok _, s) => (.error (notFound imsi), s)
    | (.error e, s) => (.error (.internal e), s)
  else (.error .noRoute, s)

/-- The loop that creates the entries; the calls of the mirrorings are numbered
by the entries that are left. -/
def importLoop (calls : Nat → SyncCalls) :
    List Doc → Store → Except Raised (List Text × List Text) × Store
  | [], s => (.ok ([], []), s)
  | sub :: rest, s =>
      match call server (calls rest.length.succ) (.create sub) s with
      | (.ok _, s) =>
          match importLoop calls rest s with
          | (.ok (created, skipped), s) =>
              (.ok (entryImsi sub :: created, skipped), s)
          | (.error e, s) => (.error e, s)
      | (.error (.exists _), s) =>
          match importLoop calls rest s with
          | (.ok (created, skipped), s) =>
              (.ok (created, entryImsi sub :: skipped), s)
          | (.error e, s) => (.error e, s)
      | (.error e, s) => (.error e, s)

/-- The import route. -/
def importRoute (calls : Nat → SyncCalls) (payload : Doc) (s : Store) :
    Except RouteError RouteAnswer × Store :=
  match importEntries payload with
  | none =>
      (.error (.http 400
        "Expected \x7b subscribers: [...] \x7d".toList), s)
  | some subs =>
      if importErrors subs = [] then
        match importLoop server calls (subs.filterMap entryDoc) s with
        | (.error e, s) => (.error (.internal e), s)
        | (.ok (created, skipped), s) =>
            match syncSnapshot (calls 0) s with
            | (.ok _, s) => (.ok (.imported created skipped), s)
            | (.error e, s) => (.error (.internal (.sync e)), s)
      else
        (.error (.http 422 ("Nothing imported. ".toList ++
          "; ".toList.intercalate (importErrors subs))), s)

/-- One request, whose mirrorings end as `calls` says. -/
def handle (calls : Nat → SyncCalls) (r : RouteRequest) (s : Store) :
    Except RouteError RouteAnswer × Store :=
  match r with
  | .create payload => createRoute server (calls 0) payload s
  | .importAll payload => importRoute server calls payload s
  | .update imsi payload => updateRoute server (calls 0) imsi payload s
  | .delete imsi => deleteRoute server (calls 0) imsi s

/-- Requests one after the other. -/
def serve (s : Store) (a : RouteRequest × (Nat → SyncCalls)) : Option Store :=
  some (handle server a.2 a.1 s).2

end Routes

section Imported

variable [Printer] {server : Server}

/-- The IMSIs can stand in a path. -/
abbrev Routable (t : Text) : Prop :=
  routable t = true

theorem Keyed.importLoop {s : Store} (h : Keyed Routable s.docs)
    (calls : Nat → SyncCalls) {subs : List Doc}
    (hclean : ∀ sub ∈ subs, CleanImsi Routable sub) :
    Keyed Routable (importLoop server calls subs s).2.docs := by
  induction subs generalizing s with
  | nil => exact h
  | cons sub rest ih =>
      have hsub : Keyed Routable (Subscribers.call server (calls rest.length.succ)
          (.create sub) s).2.docs :=
        h.call _ (fun data hdata => by
          cases hdata
          exact hclean sub List.mem_cons_self)
      have hrest : ∀ e ∈ rest, CleanImsi Routable e :=
        fun e he => hclean e (List.mem_cons_of_mem _ he)
      unfold Subscribers.importLoop
      split
      · rename_i s' hcall
        rw [hcall] at hsub
        have hih := ih hsub hrest
        split <;> rename_i hloop <;> rw [hloop] at hih <;> exact hih
      · rename_i s' hcall
        rw [hcall] at hsub
        have hih := ih hsub hrest
        split <;> rename_i hloop <;> rw [hloop] at hih <;> exact hih
      · rename_i s' _ hcall
        rw [hcall] at hsub
        exact hsub

end Imported

section Addressed

variable [Printer]

/-- The IMSI of a document read as a text. -/
def imsiText (d : Doc) : Option Text :=
  (d.get? imsiField).map Value.text

/-- The routes called with `t` are about the document `d`: GET answers with it,
PUT never misses it and, when the update can be written, replaces it, and
DELETE never misses it and removes it. -/
structure Addressed (server : Server) (s : Store) (d : Doc) (t : Text) :
    Prop where
  found : getRoute server t s = .ok (d.erase idField)
  updates : ∀ calls data,
    (updateRoute server calls t data s).1 ≠ .error (notFound t)
  updated : ∀ calls data normalized d',
    mergeUpdate t d data = .ok normalized →
    server.set d normalized = some d' →
    ∃ before after, s.docs = before ++ d :: after ∧
      (updateRoute server calls t data s).2.docs = before ++ d' :: after
  deletes : ∀ calls,
    (deleteRoute server calls t s).1 ≠ .error (notFound t)
  deleted : ∀ calls, ∃ before after, s.docs = before ++ d :: after ∧
    (deleteRoute server calls t s).2.docs = before ++ after ∧
    getRoute server t (deleteRoute server calls t s).2 = .error (notFound t)

variable {server : Server}

/-- What an update does that finds a document. -/
theorem change_update {imsi : Text} {data d normalized d' : Doc}
    {before : List Doc} (after : List Doc) (hfirst : First server (.str imsi) before d)
    (hmerge : mergeUpdate imsi d data = .ok normalized)
    (hset : server.set d normalized = some d') :
    ∃ c, change server (.update imsi data) (before ++ d :: after) = .ok c ∧
      c.docs = before ++ d' :: after ∧
      c.answer = .updated (some (d'.erase idField)) := by
  have hfound : server.findOne (.str imsi) (before ++ d :: after) = some d :=
    (server.findOne_eq_some_iff _ _ d).2 ⟨before, after, rfl, hfirst⟩
  have hagain : server.getSubscriber (.str imsi) (before ++ d' :: after) =
      some (d'.erase idField) := by
    obtain ⟨-, himsi, -⟩ := mergeUpdate_ok hmerge
    rw [Server.getSubscriber, findOne_updated hfirst himsi hset]
    rfl
  simp only [change, updateSubscriber, hfound, writeUpdate, hmerge, bind,
    Except.bind, updateOne_first hfirst, hset, Option.map_some]
  exact ⟨_, rfl, rfl, congrArg Answer.updated hagain⟩

/-- An update that finds a document answers with one. -/
theorem change_update_answer {imsi : Text} {data d : Doc} {docs : List Doc}
    (hfound : server.findOne (.str imsi) docs = some d) {c : Change}
    (h : change server (.update imsi data) docs = .ok c) :
    ∃ d', c.answer = .updated (some d') := by
  obtain ⟨before, after, rfl, hfirst⟩ :=
    (server.findOne_eq_some_iff _ _ d).1 hfound
  cases hmerge : mergeUpdate imsi d data with
  | error e =>
      simp [change, updateSubscriber, hfound, writeUpdate, hmerge, bind,
        Except.bind] at h
  | ok normalized =>
      cases hset : server.set d normalized with
      | none =>
          simp [change, updateSubscriber, hfound, writeUpdate, hmerge, bind,
            Except.bind, updateOne_first hfirst, hset] at h
      | some d' =>
          obtain ⟨c', hc', -, hanswer⟩ :=
            change_update after hfirst hmerge hset
          rw [hc'] at h
          cases h
          exact ⟨_, hanswer⟩

theorem change_delete {imsi : Text} {d : Doc} {before after : List Doc}
    (hfirst : First server (.str imsi) before d) :
    change server (.delete imsi) (before ++ d :: after) =
      .ok ⟨before ++ after, fun _ => .deleted true, true⟩ := by
  have hfound : server.findOne (.str imsi) (before ++ d :: after) = some d :=
    (server.findOne_eq_some_iff _ _ d).2 ⟨before, after, rfl, hfirst⟩
  simp only [change, deleteSubscriber, hfound, Option.isSome_some, if_true,
    deleteOne_first hfirst]

variable {s : Store} {d : Doc} {t : Text}

theorem store_updateRoute (ht : routable t = true) (calls : SyncCalls)
    (data : Doc) :
    (updateRoute server calls t data s).2 =
      (call server calls (.update t data) s).2 := by
  rw [updateRoute, if_pos ht]
  split <;> rename_i hcall <;> rw [hcall]

theorem updateRoute_ne {calls : SyncCalls} {data : Doc}
    (h : ∀ a, (call server calls (.update t data) s).1 = .ok a →
      ∃ d', a = .updated (some d')) :
    (updateRoute server calls t data s).1 ≠ .error (notFound t) := by
  unfold updateRoute
  split_ifs with ht
  · split
    · simp
    · rename_i a s' hne hcall
      rw [hcall] at h
      obtain ⟨d', rfl⟩ := h a rfl
      exact (hne d' rfl).elim
    · simp [notFound]
    · simp [notFound]
  · simp [notFound]

theorem store_deleteRoute (ht : routable t = true) (calls : SyncCalls) :
    (deleteRoute server calls t s).2 =
      (call server calls (.delete t) s).2 := by
  rw [deleteRoute, if_pos ht]
  split <;> rename_i hcall <;> rw [hcall]

theorem deleteRoute_ne {calls : SyncCalls}
    (h : ∀ a, (call server calls (.delete t) s).1 = .ok a →
      a = .deleted true) :
    (deleteRoute server calls t s).1 ≠ .error (notFound t) := by
  unfold deleteRoute
  split_ifs with ht
  · split
    · simp
    · rename_i a s' hne hcall
      rw [hcall] at h
      exact (hne (h a rfl)).elim
    · simp [notFound]
  · simp [notFound]

/-- A document that is found by its IMSI is what the routes called with it are
about. -/
theorem addressed_of_keyed (h : Keyed Routable s.docs) (hmem : d ∈ s.docs)
    (hd : HasImsi Routable d t) : Addressed server s d t := by
  obtain ⟨before, after, hdocs⟩ := List.append_of_mem hmem
  have hfirst : First server (.str t) before d := h.first hdocs hd
  have hfound : server.findOne (.str t) s.docs = some d := h.findOne hmem hd
  have hdelete : change server (.delete t) s.docs =
      .ok ⟨before ++ after, fun _ => .deleted true, true⟩ := by
    rw [hdocs]
    exact change_delete hfirst
  constructor
  · rw [getRoute, if_pos hd.2, Server.getSubscriber, hfound]
    rfl
  · intro calls data
    refine updateRoute_ne (fun a ha => ?_)
    obtain ⟨c, hchange, rfl⟩ := change_of_call ha
    exact change_update_answer hfound hchange
  · intro calls data normalized d' hmerge hset
    refine ⟨before, after, hdocs, ?_⟩
    obtain ⟨c, hupdate, hc, -⟩ :=
      hdocs ▸ change_update after hfirst hmerge hset
    rw [store_updateRoute hd.2, (call_of_change hupdate calls).1, hc]
  · intro calls
    refine deleteRoute_ne (fun a ha => ?_)
    obtain ⟨c, hchange, rfl⟩ := change_of_call ha
    rw [hdelete] at hchange
    cases hchange
    rfl
  · intro calls
    refine ⟨before, after, hdocs, ?_, ?_⟩
    · rw [store_deleteRoute hd.2, (call_of_change hdelete calls).1]
    · have hnone : server.findOne (.str t) (before ++ after) = none := by
        refine List.find?_eq_none.2 (fun e he hmeets => ?_)
        obtain ⟨t', ht'⟩ := (hdocs ▸ h).delete.texts e he
        obtain rfl : t' = t := (server.meets_text ht'.1).1 hmeets
        exact (hdocs ▸ h).ne_of_mem he (ht'.1.trans hd.1.symm)
      rw [getRoute, if_pos hd.2, store_deleteRoute hd.2,
        (call_of_change hdelete calls).1, Server.getSubscriber, hnone]
      rfl

/-- The IMSIs that a request brings can stand in a path. An import whose entries
are not all named is refused. -/
def CleanRequest (r : RouteRequest) : Prop :=
  match r with
  | .create payload => CleanImsi Routable payload
  | .importAll payload =>
      ∀ subs, importEntries payload = some subs → importErrors subs = [] →
        ∀ sub ∈ subs.filterMap entryDoc, CleanImsi Routable sub
  | .update _ _ => True
  | .delete _ => True

theorem Keyed.createRoute (h : Keyed Routable s.docs) (calls : SyncCalls)
    {payload : Doc} (hclean : CleanImsi Routable payload) :
    Keyed Routable (createRoute server calls payload s).2.docs := by
  have hcall : Keyed Routable (Subscribers.call server calls
      (.create payload) s).2.docs :=
    h.call calls (fun data hdata => by
      cases hdata
      exact hclean)
  unfold Subscribers.createRoute
  split
  · exact h
  · split <;> rename_i hresult <;> rw [hresult] at hcall <;> exact hcall

theorem Keyed.importRoute (h : Keyed Routable s.docs) (calls : Nat → SyncCalls)
    {payload : Doc} (hclean : CleanRequest (.importAll payload)) :
    Keyed Routable (importRoute server calls payload s).2.docs := by
  unfold Subscribers.importRoute
  split
  · exact h
  · rename_i subs hsubs
    split_ifs with herrors
    · have hloop : Keyed Routable (Subscribers.importLoop server calls
          (subs.filterMap entryDoc) s).2.docs :=
        h.importLoop calls (hclean subs hsubs herrors)
      split
      · rename_i hresult
        rw [hresult] at hloop
        exact hloop
      · rename_i s' hresult
        rw [hresult] at hloop
        have hsync := docs_syncSnapshot (calls 0) s'
        split <;> rename_i hs <;> rw [hs] at hsync <;> exact hsync ▸ hloop
    · exact h

/-- One request. -/
theorem Keyed.handle (h : Keyed Routable s.docs) (calls : Nat → SyncCalls)
    {r : RouteRequest} (hclean : CleanRequest r) :
    Keyed Routable (handle server calls r s).2.docs := by
  cases r with
  | create payload => exact h.createRoute (calls 0) hclean
  | importAll payload => exact h.importRoute calls hclean
  | update imsi payload =>
      change Keyed Routable (updateRoute server (calls 0) imsi payload s).2.docs
      by_cases ht : routable imsi = true
      · rw [store_updateRoute ht]
        exact h.call (calls 0) (fun data hdata => by cases hdata)
      · rw [updateRoute, if_neg ht]
        exact h
  | delete imsi =>
      change Keyed Routable (deleteRoute server (calls 0) imsi s).2.docs
      by_cases ht : routable imsi = true
      · rw [store_deleteRoute ht]
        exact h.call (calls 0) (fun data hdata => by cases hdata)
      · rw [deleteRoute, if_neg ht]
        exact h

theorem nodup_imsiText {docs : List Doc} (h : Keyed Routable docs) :
    (docs.map imsiText).Nodup := by
  refine List.pairwise_map.2 (h.distinct.imp_of_mem ?_)
  intro d e hd he hne htext
  obtain ⟨t, ht⟩ := h.texts d hd
  obtain ⟨t', ht'⟩ := h.texts e he
  unfold imsiText at htext
  rw [ht.1, ht'.1] at htext
  have heq : t = t' := Option.some.inj htext
  exact hne (by rw [ht.1, ht'.1, heq])

/-- In every run of requests whose new IMSIs are texts that can stand in a path,
the stored IMSIs are distinct as texts and each subscriber is reached by its
own. -/
theorem subscribers_addressed (server : Server) {s : Store}
    (h : Reach (serve server) (fun _ a => CleanRequest a.1) ⟨[], none⟩ s) :
    (s.docs.map imsiText).Nodup ∧
      ∀ d ∈ s.docs, ∃ t, imsiText d = some t ∧ Addressed server s d t := by
  have hkeyed : Keyed Routable s.docs :=
    h.inv (I := fun s => Keyed Routable s.docs) (Keyed.nil Routable)
      (fun _ _ _ hI hok hs => Option.some.inj hs ▸ hI.handle _ hok)
  refine ⟨nodup_imsiText hkeyed, fun d hd => ?_⟩
  obtain ⟨t, ht⟩ := hkeyed.texts d hd
  refine ⟨t, ?_, addressed_of_keyed hkeyed hd ht⟩
  rw [imsiText, ht.1]
  rfl

end Addressed

section NumberAndText

/-- A new subscriber with this IMSI. -/
def withImsi (v : Value) : RouteRequest :=
  .create (newSubscriber v zeroKey)

theorem subscribers_addressed_created :
    ∃ s, serve plainServer ⟨[], none⟩
        (withImsi (.str "1".toList), fun _ => .succeed) = some s ∧
      ∀ d ∈ s.docs, ∃ t, imsiText d = some t ∧
        Addressed plainServer s d t := by
  have hclean : CleanRequest (withImsi (.str "1".toList)) := by
    intro v hv
    cases hv
    exact ⟨_, rfl, rfl⟩
  exact ⟨_, rfl, (subscribers_addressed plainServer
    (Reach.refl.step (a := (withImsi (.str "1".toList), fun _ => .succeed))
      hclean rfl)).2⟩

/-- The number 1 and the text "1" are both created. Their IMSIs are the same
text, and GET finds only one of them. -/
theorem number_hides_text :
    ∃ s d, ReachAny (serve plainServer) ⟨[], none⟩ s ∧ d ∈ s.docs ∧
      ¬ (s.docs.map imsiText).Nodup ∧ imsiText d = some "1".toList ∧
      getRoute plainServer "1".toList s ≠ .ok (d.erase idField) := by
  refine ⟨_, _, (Reach.refl.step
      (a := (withImsi (.int 1), fun _ => .succeed)) trivial rfl).step
      (a := (withImsi (.str "1".toList), fun _ => .succeed)) trivial rfl,
    List.mem_cons_self, ?_, rfl, ?_⟩
  · intro hnodup
    exact (List.nodup_cons.1 hnodup).1 List.mem_cons_self
  · intro h
    have himsi := congrArg (fun d => d.get? imsiField) (Except.ok.inj h)
    cases himsi

end NumberAndText

end Subscribers
end Kelt
