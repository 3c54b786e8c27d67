import Kelt.Subscribers.Routes

/-!
# The import of subscribers

`import_subscribers` checks the whole file before it writes. What it checks is
the schema of each entry; whether the database takes the entry, and whether the
mirroring after it raises, is known only while the entries are created. All or
nothing is written where no entry fails there, or where nothing was created
before the first that does (`whole_iff`).
-/

namespace Kelt
namespace Subscribers

section Entries

variable [Printer] (server : Server)

/-- An entry whose IMSI is a non-empty text. -/
def TextImsi (sub : Doc) : Prop :=
  ∃ t, t ≠ [] ∧ sub.get? imsiField = some (.str t)

/-- The entries of a payload. -/
def IsImport (payload : Doc) (subs : List Doc) : Prop :=
  ∃ values, importEntries payload = some values ∧
    values.map entryDoc = subs.map some ∧ ∀ sub ∈ subs, TextImsi sub

def isValid (sub : Doc) : Bool :=
  match normalizeSubscriber sub with
  | .ok _ => true
  | .error _ => false

/-- The document that is stored of an entry, when the database takes it. -/
def insertOf (sub : Doc) : Option Doc :=
  match normalizeSubscriber sub with
  | .ok data => (data.get? imsiField).bind fun v => server.insert v data
  | .error _ => none

/-- No stored subscriber has the IMSI of the entry. -/
def isNew (docs : List Doc) (sub : Doc) : Bool :=
  (sub.get? imsiField).all fun v => (server.findOne v docs).isNone

def addEntry (docs : List Doc) (sub : Doc) : List Doc :=
  if isNew server docs sub then docs ++ (insertOf server sub).toList else docs

/-- The IMSIs that are new in their turn. -/
def createdOf : List Doc → List Doc → List Text
  | _, [] => []
  | docs, sub :: rest =>
      if isNew server docs sub then
        entryImsi sub :: createdOf (addEntry server docs sub) rest
      else createdOf (addEntry server docs sub) rest

def skippedOf : List Doc → List Doc → List Text
  | _, [] => []
  | docs, sub :: rest =>
      if isNew server docs sub then skippedOf (addEntry server docs sub) rest
      else entryImsi sub :: skippedOf (addEntry server docs sub) rest

/-- A mirroring of this collection does not raise. -/
def MirrorsOk (calls : SyncCalls) (docs : List Doc) : Prop :=
  calls.lists = true → calls.planned = true ∧ Mirrorable docs

/-- No mirroring after a created entry raises. -/
def EachMirrored (calls : Nat → SyncCalls) : List Doc → List Doc → Prop
  | _, [] => True
  | docs, sub :: rest =>
      (isNew server docs sub = true →
          MirrorsOk (calls rest.length.succ) (addEntry server docs sub)) ∧
        EachMirrored calls (addEntry server docs sub) rest

/-- What an import that goes through has done: each entry is in the report, the
new IMSIs are created once each, from their entries, what was stored is
unchanged, and the same payload creates nothing more. -/
structure Imported (payload : Doc) (subs : List Doc) (s s' : Store)
    (created skipped : List Text) : Prop where
  report : (created ++ skipped).Perm (subs.map entryImsi)
  fresh : ∀ t, t ∈ created ↔
    t ∈ subs.map entryImsi ∧ server.findOne (.str t) s.docs = none
  once : created.Nodup
  stored : ∃ added, s'.docs = s.docs ++ added ∧
    added.map imsiText = created.map some ∧
    ∀ d ∈ added, ∃ sub ∈ subs, insertOf server sub = some d
  again : ∀ calls, (importRoute server calls payload s').2.docs = s'.docs

/-- An import is refused and nothing is written, or it goes through. -/
def Whole (calls : Nat → SyncCalls) (payload : Doc) (subs : List Doc)
    (s : Store) : Prop :=
  ((∃ e, (importRoute server calls payload s).1 = .error e) ∧
      (importRoute server calls payload s).2.docs = s.docs) ∨
    ∃ created skipped,
      (importRoute server calls payload s).1 =
          .ok (.imported created skipped) ∧
        Imported server payload subs s
          (importRoute server calls payload s).2 created skipped

/-- Every entry and every mirroring goes through. -/
structure GoesThrough (calls : Nat → SyncCalls) (subs docs : List Doc) :
    Prop where
  taken : ∀ sub ∈ subs, (insertOf server sub).isSome = true
  mirrored : EachMirrored server calls docs subs
  last : MirrorsOk (calls 0) (subs.foldl (addEntry server) docs)

/-- The condition: an entry fails the schema, or all goes through, or no entry
before the first that the database refuses is new. -/
def ImportFits (calls : Nat → SyncCalls) (subs docs : List Doc) : Prop :=
  (∃ sub ∈ subs, isValid sub = false) ∨ GoesThrough server calls subs docs ∨
    ∀ sub ∈ subs.takeWhile (fun sub => (insertOf server sub).isSome),
      isNew server docs sub = false

end Entries

section Entry

variable [Printer] {server : Server} {docs : List Doc} {sub d : Doc} {t : Text}

theorem isValid_iff :
    isValid sub = true ↔ ∃ data, normalizeSubscriber sub = .ok data := by
  unfold isValid
  cases normalizeSubscriber sub with
  | ok data => exact ⟨fun _ => ⟨data, rfl⟩, fun _ => rfl⟩
  | error e => exact ⟨fun h => (nomatch h), fun ⟨_, h⟩ => (nomatch h)⟩

/-- The IMSI of an entry goes into its document. -/
theorem imsi_normalizeSubscriber {data : Doc}
    (h : normalizeSubscriber sub = .ok data)
    (ht : sub.get? imsiField = some (.str t)) :
    data.get? imsiField = some (.str t) := by
  rw [get?_normalizeSubscriber h securityField_ne_imsiField.symm,
    if_neg idField_ne_imsiField.symm, ht]
  rfl

theorem insertOf_eq (server : Server) {data : Doc}
    (h : normalizeSubscriber sub = .ok data)
    (ht : sub.get? imsiField = some (.str t)) :
    insertOf server sub = server.insert (.str t) data := by
  rw [insertOf, h]
  simp only
  rw [imsi_normalizeSubscriber h ht]
  rfl

theorem imsi_insertOf (ht : sub.get? imsiField = some (.str t))
    (hd : insertOf server sub = some d) :
    d.get? imsiField = some (.str t) := by
  cases hnorm : normalizeSubscriber sub with
  | error e =>
      rw [insertOf, hnorm] at hd
      cases hd
  | ok data =>
      rw [insertOf_eq server hnorm ht] at hd
      exact server.get?_insert hd (by decide) (imsi_normalizeSubscriber hnorm ht)

omit [Printer] in
theorem isNew_iff (ht : sub.get? imsiField = some (.str t)) :
    isNew server docs sub = true ↔ server.findOne (.str t) docs = none := by
  rw [isNew, ht]
  exact Option.isNone_iff_eq_none

theorem entryImsi_eq (ht : sub.get? imsiField = some (.str t)) :
    entryImsi sub = t := by
  rw [entryImsi, ht]
  rfl

/-- An IMSI is found after an entry has been stored when it was found before or
is that of the entry. -/
theorem findOne_append_insertOf (ht : sub.get? imsiField = some (.str t))
    (hd : insertOf server sub = some d) (t' : Text) :
    server.findOne (.str t') (docs ++ [d]) = none ↔
      server.findOne (.str t') docs = none ∧ t' ≠ t := by
  have hmeets := server.meets_text (t := t') (imsi_insertOf ht hd)
  rw [Server.findOne, Server.findOne, List.find?_append, Option.or_eq_none_iff]
  refine and_congr_right fun _ => ?_
  rw [List.find?_singleton]
  by_cases hsame : t = t'
  · rw [if_pos (hmeets.2 hsame)]
    exact ⟨fun h => (nomatch h), fun h => absurd hsame.symm h⟩
  · rw [if_neg fun h => hsame (hmeets.1 h)]
    exact ⟨fun _ => Ne.symm hsame, fun _ => rfl⟩

theorem mirrorsOk_iff (calls : SyncCalls) (s : Store) :
    MirrorsOk calls s.docs ↔
      ∃ answer, (syncSnapshot calls s).1 = .ok answer :=
  (syncSnapshot_ok_iff calls s).symm

/-- What a valid entry does: the database refuses it, or its IMSI is there, or
it is stored, and its mirroring raises or not. -/
inductive Created (server : Server) (calls : SyncCalls) (sub : Doc) (s : Store)
    (r : Except Raised Answer × Store) : Prop
  | refused (hins : insertOf server sub = none)
      (hr : r = (.error .refused, s))
  | skipped (hins : (insertOf server sub).isSome = true)
      (hnew : isNew server s.docs sub = false) (m : Text)
      (hr : r = (.error (.exists m), s))
  | created (d : Doc) (hins : insertOf server sub = some d)
      (hnew : isNew server s.docs sub = true) (a : Answer)
      (hr : r.1 = .ok a) (hdocs : r.2.docs = s.docs ++ [d])
      (hsync : MirrorsOk calls (s.docs ++ [d]))
  | raised (d : Doc) (hins : insertOf server sub = some d)
      (hnew : isNew server s.docs sub = true) (e : SyncError)
      (hr : r.1 = .error (.sync e)) (hdocs : r.2.docs = s.docs ++ [d])
      (hsync : ¬ MirrorsOk calls (s.docs ++ [d]))

theorem created_call (server : Server) (calls : SyncCalls) {s : Store}
    (hsub : TextImsi sub) (hvalid : isValid sub = true) :
    Created server calls sub s (call server calls (.create sub) s) := by
  obtain ⟨t, -, ht⟩ := hsub
  obtain ⟨data, hnorm⟩ := isValid_iff.1 hvalid
  have himsi := imsi_normalizeSubscriber hnorm ht
  have hins := insertOf_eq server hnorm ht
  cases hd : server.insert (.str t) data with
  | none =>
      refine .refused (hins.trans hd) ?_
      simp only [call, callWith, change, createSubscriber, hnorm, himsi, hd,
        Except.mapError, bind, Except.bind]
  | some d =>
      cases hnew : isNew server s.docs sub with
      | false =>
          have hfound : (server.findOne (.str t) s.docs).isSome = true := by
            rw [isNew, ht] at hnew
            simpa using hnew
          refine .skipped (by rw [hins, hd]; rfl) hnew
            (alreadyExists (.str t)) ?_
          simp only [call, callWith, change, createSubscriber, hnorm, himsi, hd,
            hfound, Except.mapError, bind, Except.bind, if_true]
      | true =>
          have hnone := (isNew_iff ht).1 hnew
          have hchange : ∃ c, change server (.create sub) s.docs = .ok c ∧
              c.docs = s.docs ++ [d] ∧ c.mirrored = true := by
            simp only [change, createSubscriber, hnorm, himsi, hd, hnone,
              Except.mapError, bind, Except.bind, Option.isSome_none]
            exact ⟨_, rfl, rfl, rfl⟩
          obtain ⟨c, hc, hdocs, hmirrored⟩ := hchange
          have hstored := (call_of_change hc calls).1.trans hdocs
          have hok := mirrorsOk_iff calls { s with docs := c.docs }
          rw [hdocs] at hok
          cases hsync : (syncSnapshot calls { s with docs := s.docs ++ [d] }) with
          | mk answer s' =>
              rw [hsync] at hok
              have hcall : call server calls (.create sub) s = _ :=
                callWith_eq hc hmirrored
              rw [hdocs, hsync] at hcall
              cases answer with
              | ok answer =>
                  exact .created d (hins.trans hd) hnew c.answer
                    (congrArg Prod.fst hcall) hstored (hok.2 ⟨answer, rfl⟩)
              | error e =>
                  refine .raised d (hins.trans hd) hnew e
                    (congrArg Prod.fst hcall) hstored fun h => ?_
                  obtain ⟨answer, hanswer⟩ := hok.1 h
                  cases hanswer

theorem addEntry_of_new (hins : insertOf server sub = some d)
    (hnew : isNew server docs sub = true) :
    addEntry server docs sub = docs ++ [d] := by
  rw [addEntry, if_pos hnew, hins]
  rfl

theorem addEntry_of_not_new (hnew : isNew server docs sub = false) :
    addEntry server docs sub = docs := by
  rw [addEntry, hnew]
  exact if_neg Bool.false_ne_true

end Entry

section Loop

variable [Printer] {server : Server}

/-- The entries have passed the checks. -/
def PassesChecks (subs : List Doc) : Prop :=
  ∀ sub ∈ subs, TextImsi sub ∧ isValid sub = true

theorem PassesChecks.tail {sub : Doc} {rest : List Doc}
    (h : PassesChecks (sub :: rest)) : PassesChecks rest :=
  fun e he => h e (List.mem_cons_of_mem _ he)

theorem importLoop_of_ok {calls : Nat → SyncCalls} {sub : Doc}
    {rest : List Doc} {s s₁ : Store} {a : Answer}
    (h : call server (calls rest.length.succ) (.create sub) s = (.ok a, s₁)) :
    (importLoop server calls (sub :: rest) s).1 =
        (importLoop server calls rest s₁).1.map
          (fun r => (entryImsi sub :: r.1, r.2)) ∧
      (importLoop server calls (sub :: rest) s).2 =
        (importLoop server calls rest s₁).2 := by
  rw [importLoop, h]
  simp only
  cases importLoop server calls rest s₁ with
  | mk r s₂ =>
      cases r with
      | ok r => exact ⟨rfl, rfl⟩
      | error e => exact ⟨rfl, rfl⟩

theorem importLoop_of_exists {calls : Nat → SyncCalls} {sub : Doc}
    {rest : List Doc} {s s₁ : Store} {m : Text}
    (h : call server (calls rest.length.succ) (.create sub) s =
      (.error (.exists m), s₁)) :
    (importLoop server calls (sub :: rest) s).1 =
        (importLoop server calls rest s₁).1.map
          (fun r => (r.1, entryImsi sub :: r.2)) ∧
      (importLoop server calls (sub :: rest) s).2 =
        (importLoop server calls rest s₁).2 := by
  rw [importLoop, h]
  simp only
  cases importLoop server calls rest s₁ with
  | mk r s₂ =>
      cases r with
      | ok r => exact ⟨rfl, rfl⟩
      | error e => exact ⟨rfl, rfl⟩

theorem importLoop_of_error {calls : Nat → SyncCalls} {sub : Doc}
    {rest : List Doc} {s s₁ : Store} {e : Raised}
    (h : call server (calls rest.length.succ) (.create sub) s =
      (.error e, s₁)) (he : ∀ m, e ≠ .exists m) :
    importLoop server calls (sub :: rest) s = (.error e, s₁) := by
  rw [importLoop, h]
  cases e with
  | «exists» m => exact absurd rfl (he m)
  | _ => rfl

/-- What one turn of the loop does: the entry is refused and the loop raises, it
is skipped or created and the loop goes on, or it is stored and its mirroring
raises. -/
inductive Turn (server : Server) (calls : Nat → SyncCalls) (sub : Doc)
    (rest : List Doc) (s : Store) : Prop
  | refused (hins : insertOf server sub = none)
      (hturn : importLoop server calls (sub :: rest) s = (.error .refused, s))
  | skipped (hins : (insertOf server sub).isSome = true)
      (hnew : isNew server s.docs sub = false)
      (hfst : (importLoop server calls (sub :: rest) s).1 =
        (importLoop server calls rest s).1.map
          (fun r => (r.1, entryImsi sub :: r.2)))
      (hsnd : (importLoop server calls (sub :: rest) s).2 =
        (importLoop server calls rest s).2)
  | created (d : Doc) (s₁ : Store) (hins : insertOf server sub = some d)
      (hnew : isNew server s.docs sub = true)
      (hdocs : s₁.docs = s.docs ++ [d])
      (hsync : MirrorsOk (calls rest.length.succ) (s.docs ++ [d]))
      (hfst : (importLoop server calls (sub :: rest) s).1 =
        (importLoop server calls rest s₁).1.map
          (fun r => (entryImsi sub :: r.1, r.2)))
      (hsnd : (importLoop server calls (sub :: rest) s).2 =
        (importLoop server calls rest s₁).2)
  | raised (d : Doc) (s₁ : Store) (e : SyncError)
      (hins : insertOf server sub = some d)
      (hnew : isNew server s.docs sub = true)
      (hdocs : s₁.docs = s.docs ++ [d])
      (hsync : ¬ MirrorsOk (calls rest.length.succ) (s.docs ++ [d]))
      (hturn : importLoop server calls (sub :: rest) s =
        (.error (.sync e), s₁))

theorem turn_importLoop (server : Server) (calls : Nat → SyncCalls)
    {sub : Doc} {rest : List Doc} (s : Store)
    (h : PassesChecks (sub :: rest)) : Turn server calls sub rest s := by
  obtain ⟨htext, hvalid⟩ := h sub List.mem_cons_self
  have hcreated := created_call server (calls rest.length.succ)
    (s := s) htext hvalid
  cases hcall : call server (calls rest.length.succ) (.create sub) s with
  | mk r s₁ =>
      rw [hcall] at hcreated
      cases hcreated with
      | refused hins hr =>
          cases hr
          exact .refused hins
            (importLoop_of_error hcall fun m hm => by cases hm)
      | skipped hins hnew m hr =>
          cases hr
          obtain ⟨hfst, hsnd⟩ := importLoop_of_exists hcall
          exact .skipped hins hnew hfst hsnd
      | created d hins hnew a hr hdocs hsync =>
          cases hr
          obtain ⟨hfst, hsnd⟩ := importLoop_of_ok hcall
          exact .created d s₁ hins hnew hdocs hsync hfst hsnd
      | raised d hins hnew e hr hdocs hsync =>
          cases hr
          exact .raised d s₁ e hins hnew hdocs hsync
            (importLoop_of_error hcall fun m hm => by cases hm)

/-- The loop goes through where every entry is taken and every mirroring is
fine, and then creates what is new in its turn; otherwise it raises. -/
theorem importLoop_cases (server : Server) (calls : Nat → SyncCalls)
    (subs : List Doc) (s : Store) (h : PassesChecks subs) :
    ((∀ sub ∈ subs, (insertOf server sub).isSome = true) ∧
        EachMirrored server calls s.docs subs ∧
        (importLoop server calls subs s).1 =
          .ok (createdOf server s.docs subs, skippedOf server s.docs subs) ∧
        (importLoop server calls subs s).2.docs =
          subs.foldl (addEntry server) s.docs) ∨
      (¬ ((∀ sub ∈ subs, (insertOf server sub).isSome = true) ∧
          EachMirrored server calls s.docs subs) ∧
        ∃ e, (importLoop server calls subs s).1 = .error e) := by
  induction subs generalizing s with
  | nil => exact .inl ⟨fun _ hsub => (nomatch hsub), trivial, rfl, rfl⟩
  | cons sub rest ih =>
      cases turn_importLoop server calls s h with
      | refused hins hturn =>
          refine .inr ⟨fun hall => ?_, _, congrArg Prod.fst hturn⟩
          have hsome := hall.1 sub List.mem_cons_self
          rw [hins] at hsome
          cases hsome
      | skipped hins hnew hfst hsnd =>
          have hadd := addEntry_of_not_new hnew
          rw [hfst, hsnd]
          rcases ih s h.tail with ⟨htaken, hmirrored, hloop, hdocs⟩ |
            ⟨hnot, e, hloop⟩
          · refine .inl ⟨List.forall_mem_cons.2 ⟨hins, htaken⟩,
              ⟨fun h => ?_, ?_⟩, ?_, ?_⟩
            · rw [hnew] at h
              cases h
            · rwa [hadd]
            · rw [hloop, createdOf, skippedOf, hadd, hnew]
              rfl
            · rw [hdocs, List.foldl_cons, hadd]
          · refine .inr ⟨fun hall => hnot ⟨?_, ?_⟩, e, ?_⟩
            · exact (List.forall_mem_cons.1 hall.1).2
            · rw [← hadd]
              exact hall.2.2
            · rw [hloop]
              rfl
      | created d s₁ hins hnew hdocs hsync hfst hsnd =>
          have hadd := addEntry_of_new hins hnew
          have hstored : s₁.docs = addEntry server s.docs sub :=
            hdocs.trans hadd.symm
          rw [hfst, hsnd]
          rcases ih s₁ h.tail with ⟨htaken, hmirrored, hloop, hdocs'⟩ |
            ⟨hnot, e, hloop⟩
          · refine .inl ⟨List.forall_mem_cons.2 ⟨by rw [hins]; rfl, htaken⟩,
              ⟨fun _ => ?_, ?_⟩, ?_, ?_⟩
            · rwa [hadd]
            · rwa [← hstored]
            · rw [hloop, createdOf, skippedOf, hnew, hstored]
              rfl
            · rw [hdocs', List.foldl_cons, hstored]
          · refine .inr ⟨fun hall => hnot ⟨?_, ?_⟩, e, ?_⟩
            · exact (List.forall_mem_cons.1 hall.1).2
            · rw [hstored]
              exact hall.2.2
            · rw [hloop]
              rfl
      | raised d s₁ e hins hnew hdocs hsync hturn =>
          refine .inr ⟨fun hall => hsync ?_, _, congrArg Prod.fst hturn⟩
          rw [← addEntry_of_new hins hnew]
          exact hall.2.1 hnew

/-- The collection only grows. -/
theorem prefix_importLoop (server : Server) (calls : Nat → SyncCalls)
    (subs : List Doc) (s : Store) (h : PassesChecks subs) :
    s.docs <+: (importLoop server calls subs s).2.docs := by
  induction subs generalizing s with
  | nil => exact List.prefix_refl _
  | cons sub rest ih =>
      cases turn_importLoop server calls s h with
      | refused hins hturn => rw [hturn]
      | skipped hins hnew hfst hsnd =>
          rw [hsnd]
          exact ih s h.tail
      | created d s₁ hins hnew hdocs hsync hfst hsnd =>
          rw [hsnd]
          refine List.IsPrefix.trans ?_ (ih s₁ h.tail)
          exact hdocs ▸ List.prefix_append _ _
      | raised d s₁ e hins hnew hdocs hsync hturn =>
          rw [hturn]
          exact hdocs ▸ List.prefix_append _ _

omit [Printer] in
theorem ne_of_prefix_append {docs docs' : List Doc} {d : Doc}
    (h : docs ++ [d] <+: docs') : docs' ≠ docs := by
  intro heq
  have hlen := h.length_le
  rw [heq, List.length_append, List.length_singleton] at hlen
  omega

/-- Nothing is written exactly when no entry before the first that is refused is
new. -/
theorem docs_importLoop_eq_iff (server : Server) (calls : Nat → SyncCalls)
    (subs : List Doc) (s : Store) (h : PassesChecks subs) :
    (importLoop server calls subs s).2.docs = s.docs ↔
      ∀ sub ∈ subs.takeWhile (fun sub => (insertOf server sub).isSome),
        isNew server s.docs sub = false := by
  induction subs generalizing s with
  | nil => exact ⟨fun _ _ hsub => (nomatch hsub), fun _ => rfl⟩
  | cons sub rest ih =>
      cases turn_importLoop server calls s h with
      | refused hins hturn =>
          rw [hturn, List.takeWhile_cons_of_neg (by rw [hins]; exact nofun)]
          exact ⟨fun _ _ hsub => (nomatch hsub), fun _ => rfl⟩
      | skipped hins hnew hfst hsnd =>
          rw [hsnd, List.takeWhile_cons_of_pos
              (p := fun sub => (insertOf server sub).isSome) hins,
            List.forall_mem_cons, ih s h.tail]
          exact ⟨fun hrest => ⟨hnew, hrest⟩, And.right⟩
      | created d s₁ hins hnew hdocs hsync hfst hsnd =>
          rw [hsnd, List.takeWhile_cons_of_pos (by rw [hins]; rfl),
            List.forall_mem_cons, hnew]
          have hgrown := prefix_importLoop server calls rest s₁ h.tail
          rw [hdocs] at hgrown
          exact ⟨fun heq => absurd heq (ne_of_prefix_append hgrown),
            fun hall => nomatch hall.1⟩
      | raised d s₁ e hins hnew hdocs hsync hturn =>
          rw [hturn, List.takeWhile_cons_of_pos (by rw [hins]; rfl),
            List.forall_mem_cons, hnew]
          have hgrown : s.docs ++ [d] <+: s₁.docs := by
            rw [hdocs]
          exact ⟨fun heq => absurd heq (ne_of_prefix_append hgrown),
            fun hall => nomatch hall.1⟩

end Loop

section Report

variable [Printer] {server : Server}

omit [Printer] in
theorem text_of_checked {subs : List Doc} (h : ∀ sub ∈ subs, TextImsi sub)
    {sub : Doc} (hsub : sub ∈ subs) :
    ∃ t, sub.get? imsiField = some (.str t) := by
  obtain ⟨t, -, ht⟩ := h sub hsub
  exact ⟨t, ht⟩

/-- Each entry is created or skipped. -/
theorem report_perm (docs subs : List Doc) :
    (createdOf server docs subs ++ skippedOf server docs subs).Perm
      (subs.map entryImsi) := by
  induction subs generalizing docs with
  | nil => exact List.Perm.refl _
  | cons sub rest ih =>
      rw [createdOf, skippedOf, List.map_cons]
      cases hnew : isNew server docs sub with
      | true => exact (ih _).cons _
      | false => exact List.perm_middle.trans ((ih _).cons _)

/-- The IMSIs that are created are those of the file that are not stored. -/
theorem mem_createdOf_iff (docs subs : List Doc)
    (htexts : ∀ sub ∈ subs, TextImsi sub)
    (htaken : ∀ sub ∈ subs, (insertOf server sub).isSome = true) (t : Text) :
    t ∈ createdOf server docs subs ↔
      t ∈ subs.map entryImsi ∧ server.findOne (.str t) docs = none := by
  induction subs generalizing docs with
  | nil => exact ⟨fun h => (nomatch h), fun h => (nomatch h.1)⟩
  | cons sub rest ih =>
      obtain ⟨htext, htextRest⟩ := List.forall_mem_cons.1 htexts
      obtain ⟨hsome, hsomeRest⟩ := List.forall_mem_cons.1 htaken
      obtain ⟨u, -, hu⟩ := htext
      obtain ⟨d, hins⟩ := Option.isSome_iff_exists.1 hsome
      rw [createdOf, List.map_cons, List.mem_cons, entryImsi_eq hu]
      cases hnew : isNew server docs sub with
      | true =>
          have hfree := (isNew_iff hu).1 hnew
          rw [if_pos rfl, List.mem_cons, addEntry_of_new hins hnew,
            ih _ htextRest hsomeRest, findOne_append_insertOf hu hins]
          by_cases htu : t = u
          · subst htu
            exact ⟨fun _ => ⟨.inl rfl, hfree⟩, fun _ => .inl rfl⟩
          · simp only [htu, false_or, ne_eq, not_false_eq_true, and_true]
      | false =>
          rw [if_neg Bool.false_ne_true, addEntry_of_not_new hnew,
            ih _ htextRest hsomeRest]
          have hstored : server.findOne (.str u) docs ≠ none := by
            intro hnone
            rw [(isNew_iff hu).2 hnone] at hnew
            cases hnew
          constructor
          · exact fun h => ⟨.inr h.1, h.2⟩
          · rintro ⟨rfl | hmem, hnone⟩
            · exact absurd hnone hstored
            · exact ⟨hmem, hnone⟩

theorem nodup_createdOf (docs subs : List Doc)
    (htexts : ∀ sub ∈ subs, TextImsi sub)
    (htaken : ∀ sub ∈ subs, (insertOf server sub).isSome = true) :
    (createdOf server docs subs).Nodup := by
  induction subs generalizing docs with
  | nil => exact List.nodup_nil
  | cons sub rest ih =>
      obtain ⟨htext, htextRest⟩ := List.forall_mem_cons.1 htexts
      obtain ⟨hsome, hsomeRest⟩ := List.forall_mem_cons.1 htaken
      obtain ⟨u, -, hu⟩ := htext
      obtain ⟨d, hins⟩ := Option.isSome_iff_exists.1 hsome
      rw [createdOf]
      cases hnew : isNew server docs sub with
      | true =>
          rw [if_pos rfl]
          refine List.nodup_cons.2 ⟨fun hmem => ?_, ih _ htextRest hsomeRest⟩
          rw [mem_createdOf_iff _ _ htextRest hsomeRest, entryImsi_eq hu,
            addEntry_of_new hins hnew, findOne_append_insertOf hu hins] at hmem
          exact hmem.2.2 rfl
      | false =>
          rw [if_neg Bool.false_ne_true]
          exact ih _ htextRest hsomeRest

/-- What was stored is unchanged, and what is added are the documents of entries,
one for each IMSI that is created. -/
theorem stored_addEntries (docs subs : List Doc)
    (htexts : ∀ sub ∈ subs, TextImsi sub)
    (htaken : ∀ sub ∈ subs, (insertOf server sub).isSome = true) :
    ∃ added, subs.foldl (addEntry server) docs = docs ++ added ∧
      added.map imsiText = (createdOf server docs subs).map some ∧
      ∀ d ∈ added, ∃ sub ∈ subs, insertOf server sub = some d := by
  induction subs generalizing docs with
  | nil => exact ⟨[], (List.append_nil docs).symm, rfl, fun _ h => (nomatch h)⟩
  | cons sub rest ih =>
      obtain ⟨htext, htextRest⟩ := List.forall_mem_cons.1 htexts
      obtain ⟨hsome, hsomeRest⟩ := List.forall_mem_cons.1 htaken
      obtain ⟨u, -, hu⟩ := htext
      obtain ⟨d, hins⟩ := Option.isSome_iff_exists.1 hsome
      obtain ⟨added, hdocs, hmap, hfrom⟩ :=
        ih (addEntry server docs sub) htextRest hsomeRest
      have hlater : ∀ e ∈ added, ∃ sub' ∈ sub :: rest,
          insertOf server sub' = some e := by
        intro e he
        obtain ⟨sub', hsub', hins'⟩ := hfrom e he
        exact ⟨sub', List.mem_cons_of_mem _ hsub', hins'⟩
      rw [List.foldl_cons, hdocs, createdOf]
      cases hnew : isNew server docs sub with
      | true =>
          have himsi : imsiText d = some (entryImsi sub) := by
            rw [imsiText, imsi_insertOf hu hins, entryImsi_eq hu]
            rfl
          refine ⟨d :: added, ?_, ?_, ?_⟩
          · rw [addEntry_of_new hins hnew, List.append_assoc]
            rfl
          · rw [if_pos rfl, List.map_cons, List.map_cons, hmap, himsi]
          · exact List.forall_mem_cons.2
              ⟨⟨sub, List.mem_cons_self, hins⟩, hlater⟩
      | false =>
          refine ⟨added, ?_, ?_, hlater⟩
          · rw [addEntry_of_not_new hnew]
          · rw [if_neg Bool.false_ne_true, hmap]

/-- Afterwards no IMSI of the file is new. -/
theorem not_new_addEntries (docs subs : List Doc)
    (htexts : ∀ sub ∈ subs, TextImsi sub)
    (htaken : ∀ sub ∈ subs, (insertOf server sub).isSome = true) :
    ∀ sub ∈ subs,
      isNew server (subs.foldl (addEntry server) docs) sub = false := by
  intro sub hsub
  obtain ⟨t, ht⟩ := text_of_checked htexts hsub
  obtain ⟨added, hdocs, hmap, hfrom⟩ :=
    stored_addEntries docs subs htexts htaken
  rw [hdocs, Bool.eq_false_iff, Ne, isNew_iff ht, Server.findOne,
    List.find?_append, Option.or_eq_none_iff]
  rintro ⟨hfree, hnone⟩
  have hcreated : t ∈ createdOf server docs subs :=
    (mem_createdOf_iff docs subs htexts htaken t).2
      ⟨List.mem_map.2 ⟨sub, hsub, entryImsi_eq ht⟩, hfree⟩
  have hadded : some t ∈ added.map imsiText := by
    rw [hmap]
    exact List.mem_map_of_mem hcreated
  obtain ⟨d, hd, hdt⟩ := List.mem_map.1 hadded
  obtain ⟨sub', hsub', hins⟩ := hfrom d hd
  obtain ⟨u, hu⟩ := text_of_checked htexts hsub'
  have himsi := imsi_insertOf hu hins
  have hut : u = t := by
    rw [imsiText, himsi] at hdt
    exact Option.some.inj hdt
  exact List.find?_eq_none.1 hnone d hd ((server.meets_text himsi).2 hut)

end Report

section Route

variable [Printer] {server : Server}

theorem entryError_eq_none_iff {v : Value} {sub : Doc}
    (hdoc : entryDoc v = some sub) (htext : TextImsi sub) (i : Nat) :
    entryError v i = none ↔ isValid sub = true := by
  obtain ⟨t, hne, ht⟩ := htext
  have htruthy : (Value.str t).truthy = true := by
    cases t with
    | nil => exact absurd rfl hne
    | cons c rest => rfl
  rw [entryError, hdoc]
  simp only [ht, if_pos htruthy]
  unfold isValid
  cases normalizeSubscriber sub with
  | ok data => exact ⟨fun _ => rfl, fun _ => rfl⟩
  | error e => exact ⟨fun h => (nomatch h), fun h => (nomatch h)⟩

/-- The checks of the file are those of the schema. -/
theorem importErrors_eq_nil_iff {values : List Value} {subs : List Doc}
    (hvalues : values.map entryDoc = subs.map some)
    (htexts : ∀ sub ∈ subs, TextImsi sub) :
    importErrors values = [] ↔ ∀ sub ∈ subs, isValid sub = true := by
  have hfrom (k : Nat) :
      (values.zipIdx k).filterMap (fun p => entryError p.1 p.2) = [] ↔
        ∀ sub ∈ subs, isValid sub = true := by
    induction values generalizing subs k with
    | nil =>
        rw [List.map_nil, eq_comm, List.map_eq_nil_iff] at hvalues
        subst hvalues
        exact ⟨fun _ _ h => (nomatch h), fun _ => rfl⟩
    | cons v rest ih =>
        cases subs with
        | nil => cases hvalues
        | cons sub subs =>
            rw [List.map_cons, List.map_cons] at hvalues
            obtain ⟨hdoc, hrest⟩ := List.cons.inj hvalues
            obtain ⟨htext, htextRest⟩ := List.forall_mem_cons.1 htexts
            rw [List.zipIdx_cons, List.forall_mem_cons,
              ← entryError_eq_none_iff hdoc htext k,
              ← ih hrest htextRest (k + 1), List.filterMap_cons]
            cases entryError v k with
            | none => exact ⟨fun h => ⟨rfl, h⟩, And.right⟩
            | some e => exact ⟨fun h => (nomatch h), fun h => (nomatch h.1)⟩
  exact hfrom 0

omit [Printer] in
theorem filterMap_entryDoc {values : List Value} {subs : List Doc}
    (hvalues : values.map entryDoc = subs.map some) :
    values.filterMap entryDoc = subs := by
  have hmap : values.filterMap entryDoc = (values.map entryDoc).filterMap id := by
    rw [List.filterMap_map]
    rfl
  rw [hmap, hvalues, List.filterMap_map]
  exact List.filterMap_some

/-- A file with an entry that fails the schema is refused. -/
theorem importRoute_invalid {payload : Doc} {subs : List Doc}
    (himport : IsImport payload subs) (hbad : ∃ sub ∈ subs, isValid sub = false)
    (calls : Nat → SyncCalls) (s : Store) :
    (∃ e, (importRoute server calls payload s).1 = .error e) ∧
      (importRoute server calls payload s).2.docs = s.docs := by
  obtain ⟨values, hentries, hvalues, htexts⟩ := himport
  have herrors : importErrors values ≠ [] := by
    rw [Ne, importErrors_eq_nil_iff hvalues htexts]
    obtain ⟨sub, hsub, hinvalid⟩ := hbad
    intro hall
    rw [hall sub hsub] at hinvalid
    cases hinvalid
  have hroute : ∃ e, importRoute server calls payload s = (.error e, s) := by
    rw [importRoute, hentries]
    exact ⟨_, if_neg herrors⟩
  obtain ⟨e, he⟩ := hroute
  rw [he]
  exact ⟨⟨e, rfl⟩, rfl⟩

/-- The collection after a file that passes the checks, and the answer. -/
theorem importRoute_valid (server : Server) {payload : Doc} {subs : List Doc}
    (himport : IsImport payload subs)
    (hvalid : ∀ sub ∈ subs, isValid sub = true)
    (calls : Nat → SyncCalls) (s : Store) :
    (importRoute server calls payload s).2.docs =
        (importLoop server calls subs s).2.docs ∧
      ((∃ e, (importRoute server calls payload s).1 = .error e) ∧
          (∀ r, (importLoop server calls subs s).1 = .ok r →
            ¬ MirrorsOk (calls 0) (importLoop server calls subs s).2.docs) ∨
        ∃ created skipped,
          (importLoop server calls subs s).1 = .ok (created, skipped) ∧
            MirrorsOk (calls 0) (importLoop server calls subs s).2.docs ∧
            (importRoute server calls payload s).1 =
              .ok (.imported created skipped)) := by
  obtain ⟨values, hentries, hvalues, htexts⟩ := himport
  have herrors := (importErrors_eq_nil_iff hvalues htexts).2 hvalid
  rw [importRoute, hentries]
  simp only [if_pos herrors, filterMap_entryDoc hvalues]
  cases hloop : importLoop server calls subs s with
  | mk r s₁ =>
      cases r with
      | error e => exact ⟨rfl, .inl ⟨⟨_, rfl⟩, fun _ h => (nomatch h)⟩⟩
      | ok r =>
          have hdocs := docs_syncSnapshot (calls 0) s₁
          have hok := mirrorsOk_iff (calls 0) s₁
          cases hsync : syncSnapshot (calls 0) s₁ with
          | mk answer s₂ =>
              rw [hsync] at hdocs hok
              simp only [hsync]
              cases answer with
              | ok answer =>
                  exact ⟨hdocs, .inr ⟨r.1, r.2, rfl, hok.2 ⟨answer, rfl⟩, rfl⟩⟩
              | error e =>
                  refine ⟨hdocs, .inl ⟨⟨_, rfl⟩, fun _ _ h => ?_⟩⟩
                  obtain ⟨answer, hanswer⟩ := hok.1 h
                  cases hanswer

end Route

section Whole

variable [Printer] {server : Server}

theorem imported_of_goesThrough {payload : Doc} {subs : List Doc}
    (himport : IsImport payload subs)
    (hvalid : ∀ sub ∈ subs, isValid sub = true)
    {s s' : Store}
    (htaken : ∀ sub ∈ subs, (insertOf server sub).isSome = true)
    (hdocs : s'.docs = subs.foldl (addEntry server) s.docs) :
    Imported server payload subs s s' (createdOf server s.docs subs)
      (skippedOf server s.docs subs) := by
  obtain ⟨-, -, -, htexts⟩ := id himport
  refine ⟨report_perm _ _, fun t => ?_, ?_, ?_, fun calls => ?_⟩
  · exact mem_createdOf_iff _ _ htexts htaken t
  · exact nodup_createdOf _ _ htexts htaken
  · rw [hdocs]
    exact stored_addEntries _ _ htexts htaken
  · have hchecked : PassesChecks subs := fun sub hsub =>
      ⟨htexts sub hsub, hvalid sub hsub⟩
    rw [(importRoute_valid server himport hvalid calls s').1,
      docs_importLoop_eq_iff server calls subs s' hchecked]
    intro sub hsub
    rw [hdocs]
    exact not_new_addEntries _ _ htexts htaken sub
      ((List.takeWhile_prefix _).subset hsub)

/-- An import is all or nothing exactly when an entry fails the schema, or every
entry and every mirroring goes through, or no entry before the first that the
database refuses is new. -/
theorem whole_iff (server : Server) (calls : Nat → SyncCalls) (payload : Doc)
    (subs : List Doc) (s : Store) (himport : IsImport payload subs) :
    Whole server calls payload subs s ↔
      ImportFits server calls subs s.docs := by
  by_cases hbad : ∃ sub ∈ subs, isValid sub = false
  · exact ⟨fun _ => .inl hbad,
      fun _ => .inl (importRoute_invalid himport hbad calls s)⟩
  have hvalid : ∀ sub ∈ subs, isValid sub = true := fun sub hsub => by
    cases hsubValid : isValid sub with
    | true => rfl
    | false => exact absurd ⟨sub, hsub, hsubValid⟩ hbad
  obtain ⟨-, -, -, htexts⟩ := id himport
  have hchecked : PassesChecks subs := fun sub hsub =>
    ⟨htexts sub hsub, hvalid sub hsub⟩
  have hkept := docs_importLoop_eq_iff server calls subs s hchecked
  obtain ⟨hdocs, hanswer⟩ := importRoute_valid server himport hvalid
    calls s
  have hcases := importLoop_cases server calls subs s hchecked
  constructor
  · rintro (⟨-, hsame⟩ | ⟨created, skipped, hok, -⟩)
    · rw [hdocs] at hsame
      exact .inr (.inr (hkept.1 hsame))
    · rcases hanswer with ⟨⟨e, he⟩, -⟩ | ⟨_, _, hloop, hlast, -⟩
      · rw [hok] at he
        cases he
      · rcases hcases with ⟨htaken, hmirrored, -, hadded⟩ | ⟨-, e, he⟩
        · exact .inr (.inl ⟨htaken, hmirrored, hadded ▸ hlast⟩)
        · rw [hloop] at he
          cases he
  · rintro (h | ⟨htaken, hmirrored, hlast⟩ | hnone)
    · exact absurd h hbad
    · rcases hcases with ⟨-, -, hloop, hadded⟩ | ⟨hnot, -⟩
      · rcases hanswer with ⟨-, hraised⟩ | ⟨created, skipped, hloop', -, hok⟩
        · exact absurd (hadded ▸ hlast) (hraised _ hloop)
        · rw [hloop] at hloop'
          cases hloop'
          exact .inr ⟨_, _, hok, imported_of_goesThrough himport hvalid htaken
            (hdocs.trans hadded)⟩
      · exact absurd ⟨htaken, hmirrored⟩ hnot
    · have hsame := hkept.2 hnone
      rcases hanswer with ⟨hraised, -⟩ | ⟨created, skipped, hloop, -, hok⟩
      · exact .inl ⟨hraised, hdocs.trans hsame⟩
      · rcases hcases with ⟨htaken, -, hloop', hadded⟩ | ⟨-, e, he⟩
        · rw [hloop] at hloop'
          cases hloop'
          exact .inr ⟨_, _, hok, imported_of_goesThrough himport hvalid htaken
            (hdocs.trans hadded)⟩
        · rw [hloop] at he
          cases he

end Whole

section HugeEntry

/-- A file with these entries. -/
def importPayload (entries : List Doc) : Doc :=
  Dict.single "subscribers".toList
    (.list (entries.map fun e => .doc e.items))

def emptyStore : Store where
  docs := []
  snapshot := none

def firstEntry : Doc :=
  newSubscriber (.str "1".toList) zeroKey

/-- An entry with a number that takes more than eight bytes. -/
def hugeEntry : Doc :=
  (newSubscriber (.str "2".toList) zeroKey).set "subscriber_status".toList
    (.int (2 ^ 63))

theorem isImport_importPayload :
    IsImport (importPayload [firstEntry, hugeEntry])
      [firstEntry, hugeEntry] := by
  refine ⟨_, rfl, rfl, ?_⟩
  intro sub hsub
  rcases List.mem_cons.1 hsub with rfl | hsub
  · exact ⟨"1".toList, by decide, rfl⟩
  · rw [List.mem_singleton.1 hsub]
    exact ⟨"2".toList, by decide, rfl⟩

/-- A database that takes both entries, and mirrorings that succeed. -/
theorem whole_iff_bothTaken :
    Whole plainServer (fun _ => .succeed)
      (importPayload [firstEntry, hugeEntry]) [firstEntry, hugeEntry]
      emptyStore := by
  refine (whole_iff plainServer _ _ _ _ isImport_importPayload).2
    (.inr (.inl ⟨?_, ⟨fun _ _ => ⟨rfl, ?_⟩, fun _ _ => ⟨rfl, ?_⟩, trivial⟩,
      fun _ => ⟨rfl, ?_⟩⟩))
  · intro sub hsub
    rcases List.mem_cons.1 hsub with rfl | hsub
    · rfl
    · rw [List.mem_singleton.1 hsub]
      rfl
  · exact (canDump_sanitize_iff _).1 rfl
  · exact (canDump_sanitize_iff _).1 rfl
  · exact (canDump_sanitize_iff _).1 rfl

/-- A whole number takes eight bytes in the database. -/
def fitsInt64 : Value → Bool
  | .int n => decide (-(2 ^ 63) ≤ n ∧ n < 2 ^ 63)
  | _ => true

/-- A server that refuses larger numbers. -/
def int64Server : Server where
  meets := plainServer.meets
  set := plainServer.set
  insert v u :=
    if u.items.all fun kv => kv.2.all fitsInt64 then plainServer.insert v u
    else none
  meets_text := plainServer.meets_text
  get?_set := plainServer.get?_set
  get?_insert := by
    intro w u d' f v h hf hv
    split_ifs at h
    exact plainServer.get?_insert h hf hv

/-- The first entry is stored before the second is refused. -/
theorem not_whole_hugeEntry :
    IsImport (importPayload [firstEntry, hugeEntry])
        [firstEntry, hugeEntry] ∧
      ([firstEntry, hugeEntry].all fun e =>
        e.items.all fun kv => kv.2.isJson) = true ∧
      ¬ Whole int64Server (fun _ => .succeed)
        (importPayload [firstEntry, hugeEntry]) [firstEntry, hugeEntry]
        emptyStore := by
  refine ⟨isImport_importPayload, rfl, ?_⟩
  rintro (⟨-, hsame⟩ | ⟨created, skipped, hok, -⟩)
  · exact absurd (congrArg List.length hsame) (by decide)
  · cases hok

end HugeEntry

end Subscribers
end Kelt
