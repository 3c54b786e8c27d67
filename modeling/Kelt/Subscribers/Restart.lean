import Mathlib.Data.Char
import Mathlib.Data.List.Lex
import Mathlib.Data.List.Sort
import Kelt.Lib.Runs
import Kelt.Subscribers.Keyed
import Kelt.Subscribers.Reconcile
import Kelt.Subscribers.Stored

/-!
# A restart of MongoDB between two calls

The snapshot of a collection is replayed into the collection itself, or into an
empty one when the volume is lost. Values are compared as Python compares them:
numbers by value and mappings by their fields. What does not survive is an
integer that is no double (`restart_same_iff`).
-/

namespace Kelt
namespace Subscribers

section Same

/-- The fields in the order of their names. -/
def sortFields (fields : Fields) : Fields :=
  fields.insertionSort (fun a b => a.1 ≤ b.1)

mutual

/-- The same for equal values, and only for those. -/
def canon : Value → Value
  | .float _ (some n) => .int n
  | .list items => .list (canonItems items)
  | .doc fields => .doc (sortFields (canonFields fields))
  | v => v

def canonItems : List Value → List Value
  | [] => []
  | v :: rest => canon v :: canonItems rest

def canonFields : List (Text × Value) → List (Text × Value)
  | [] => []
  | (name, v) :: rest => (name, canon v) :: canonFields rest

end

/-- Equal apart from the identifier. -/
def SameDoc (d e : Doc) : Prop :=
  ∀ f, f ≠ idField → (d.get? f).map canon = (e.get? f).map canon

/-- An integer that JavaScript reads as it is. -/
def isKept : Value → Bool
  | .int n => jsInt n = n
  | _ => true

theorem nearestDouble_of_lt {n : Nat} (h : n < 2 ^ 53) :
    nearestDouble n = n := by
  have hdropped : droppedBits n = 0 := by
    unfold droppedBits
    by_cases hn : n = 0
    · rw [hn]
      rfl
    · have hlog := (Nat.log2_lt hn).2 h
      omega
  simp [nearestDouble, hdropped, Nat.mod_one]

theorem jsInt_of_isInt32 {n : Int} (h : isInt32 n = true) : jsInt n = n := by
  have hbounds : -2 ^ 31 ≤ n ∧ n < 2 ^ 31 := by simpa [isInt32] using h
  unfold jsInt
  split_ifs with hn
  · rw [nearestDouble_of_lt (by omega)]
    omega
  · rw [nearestDouble_of_lt (by omega)]
    omega

theorem names_of_mem_zip {l l' : Fields}
    (hnames : l.map Prod.fst = l'.map Prod.fst) :
    ∀ x ∈ l.zip l', x.1.1 = x.2.1 := by
  induction l generalizing l' with
  | nil => simp
  | cons p rest ih =>
      cases l' with
      | nil => simp
      | cons q rest' =>
          rw [List.map_cons, List.map_cons, List.cons_eq_cons] at hnames
          intro x hx
          rcases List.mem_cons.1 hx with rfl | hx
          · exact hnames.1
          · exact ih hnames.2 x hx

/-- Lists of fields with the same names in the same places are equal when they
are equal sorted. -/
theorem eq_of_sortFields {l l' : Fields}
    (hnames : l.map Prod.fst = l'.map Prod.fst)
    (h : sortFields l = sortFields l') : l = l' := by
  have hlen : l.length = l'.length := by
    simpa using congrArg List.length hnames
  have hfst : (l.zip l').map Prod.fst = l := List.map_fst_zip hlen.le
  have hsnd : (l.zip l').map Prod.snd = l' := List.map_snd_zip hlen.ge
  -- both lists are sorted by the names of the pairs
  let sorted := (l.zip l').insertionSort (fun a b => a.1.1 ≤ b.1.1)
  have hl : sorted.map Prod.fst = sortFields l := by
    conv_rhs => rw [← hfst]
    exact List.map_insertionSort _ _ Prod.fst _ (fun _ _ _ _ => Iff.rfl)
  have hl' : sorted.map Prod.snd = sortFields l' := by
    conv_rhs => rw [← hsnd]
    refine List.map_insertionSort _ _ Prod.snd _ (fun a ha b hb => ?_)
    rw [names_of_mem_zip hnames a ha, names_of_mem_zip hnames b hb]
  have heq : ∀ x ∈ sorted, x.1 = x.2 :=
    List.map_inj_left.1 (hl.trans (h.trans hl'.symm))
  calc l = (l.zip l').map Prod.fst := hfst.symm
    _ = (l.zip l').map Prod.snd :=
      List.map_congr_left
        (fun x hx => heq x ((List.mem_insertionSort _).2 hx))
    _ = l' := hsnd

theorem names_canonFields (fields : List (Text × Value)) :
    (canonFields fields).map Prod.fst = fields.map Prod.fst := by
  induction fields with
  | nil => rfl
  | cons p rest ih => rw [canonFields, List.map_cons, List.map_cons, ih]

variable [Printer]

theorem names_jsReadFields (fields : List (Text × Value)) :
    (jsReadFields fields).map Prod.fst = fields.map Prod.fst := by
  induction fields with
  | nil => rfl
  | cons p rest ih => rw [jsReadFields, List.map_cons, List.map_cons, ih]

mutual

/-- A value survives the reading when all integers in it do. -/
theorem canon_jsRead_iff (v : Value) :
    canon (jsRead v) = canon v ↔ v.all isKept = true := by
  cases v with
  | int n =>
      rw [jsRead]
      split_ifs with h32
      · simp [Value.all, isKept, jsInt_of_isInt32 h32]
      · simp [canon, Value.all, isKept]
  | float shown whole =>
      cases whole with
      | none => simp [jsRead, Value.all, isKept]
      | some n =>
          rw [jsRead]
          split_ifs <;> simp [canon, Value.all, isKept]
  | list items =>
      have hitems := canonItems_jsReadItems_iff items
      simp [jsRead, canon, Value.all, isKept, hitems]
  | doc fields =>
      have hfields := canonFields_jsReadFields_iff fields
      have hnames : (canonFields (jsReadFields fields)).map Prod.fst =
          (canonFields fields).map Prod.fst := by
        rw [names_canonFields, names_jsReadFields, names_canonFields]
      rw [jsRead, canon, canon, Value.doc.injEq, Value.all]
      simp only [isKept, Bool.true_and]
      rw [← hfields]
      exact ⟨eq_of_sortFields hnames, congrArg sortFields⟩
  | null => simp [jsRead, Value.all, isKept]
  | bool b => simp [jsRead, Value.all, isKept]
  | str t => simp [jsRead, Value.all, isKept]
  | other shown empty => simp [jsRead, Value.all, isKept]

theorem canonItems_jsReadItems_iff (items : List Value) :
    canonItems (jsReadItems items) = canonItems items ↔
      Value.allItems isKept items = true := by
  cases items with
  | nil => simp [jsReadItems, Value.allItems]
  | cons v rest =>
      have hv := canon_jsRead_iff v
      have hrest := canonItems_jsReadItems_iff rest
      simp [jsReadItems, canonItems, Value.allItems, hv, hrest]

theorem canonFields_jsReadFields_iff (fields : List (Text × Value)) :
    canonFields (jsReadFields fields) = canonFields fields ↔
      Value.allFields isKept fields = true := by
  cases fields with
  | nil => simp [jsReadFields, Value.allFields]
  | cons p rest =>
      obtain ⟨name, v⟩ := p
      have hv := canon_jsRead_iff v
      have hrest := canonFields_jsReadFields_iff rest
      simp [jsReadFields, canonFields, Value.allFields, hv, hrest]

end

end Same

section PlainServer

/-- A name that an update takes as a field's, the database as a text of its own
and JavaScript as a property's. -/
def isDataField (f : Text) : Bool :=
  isPlainField f && !f.contains '\x00' && f != protoField

/-- Every field is named plainly, and there is no identifier. -/
def PlainFields (u : Doc) : Prop :=
  u.get? idField = none ∧ ∀ f v, u.get? f = some v → isDataField f = true

/-- A database whose updates under plain names are those of mappings, and which
refuses nothing but values that it cannot store. Documents stay below the size
that it can hold. -/
structure PlainServer extends Server where
  storable : Value → Bool
  /-- The numbers of JavaScript can be stored. -/
  storable_jsRead : ∀ [Printer] (v : Value), v.isJson = true →
    storable v = true → storable (jsRead v) = true
  set_isSome_iff : ∀ {d u : Doc}, PlainFields u →
    ((set d u).isSome = true ↔
      ∀ f v, u.get? f = some v → storable v = true)
  get?_set_plain : ∀ {d u d' : Doc}, PlainFields u → set d u = some d' →
    ∀ f, f ≠ idField → d'.get? f = (u.get? f).or (d.get? f)
  insert_isSome_iff : ∀ {t : Text} {u : Doc}, PlainFields u →
    u.get? imsiField = some (.str t) →
    ((insert (.str t) u).isSome = true ↔
      ∀ f v, u.get? f = some v → storable v = true)
  get?_insert_plain : ∀ {t : Text} {u d' : Doc}, PlainFields u →
    u.get? imsiField = some (.str t) → insert (.str t) u = some d' →
    ∀ f, f ≠ idField → d'.get? f = u.get? f

/-- A document with an IMSI that is a text, plain names, and values of JSON. -/
structure PlainDoc (server : PlainServer) (d : Doc) : Prop where
  imsi : ∃ t, d.get? imsiField = some (.str t) ∧ t ≠ []
  field : ∀ f v, f ≠ idField → d.get? f = some v →
    isDataField f = true ∧ v.isJson = true ∧ server.storable v = true

/-- A store of plain documents with distinct IMSIs, whose snapshot has been
mirrored, or is not there yet. -/
structure PlainStore [Printer] (server : PlainServer) (s : Store) : Prop where
  plain : ∀ d ∈ s.docs, PlainDoc server d
  distinct : s.docs.Pairwise (fun d e => d.get? imsiField ≠ e.get? imsiField)
  mirrored : s.snapshot = some (sanitize (listSubscribers s.docs)) ∨
    s.docs = [] ∧ s.snapshot = none

/-- What JavaScript makes of a document of the snapshot, field by field. -/
def ReadAs [Printer] (d d' : Doc) : Prop :=
  ∀ f, f ≠ idField → d'.get? f = (d.get? f).map jsRead

variable [Printer] {server : PlainServer}

/-- `u` is what a reconcile sets for the document `d` with the IMSI `t`. -/
structure Replays (server : PlainServer) (d u : Doc) (t : Text) : Prop where
  stored : d.get? imsiField = some (.str t)
  imsi : u.get? imsiField = some (.str t)
  plain : PlainFields u
  storable : ∀ f v, u.get? f = some v → server.storable v = true
  reads : ReadAs d u

/-- The entry of a plain document in the snapshot. -/
theorem replays_of_plain {d : Doc} (h : PlainDoc server d) :
    ∃ clean t, sanitizeDoc (d.erase idField) = some clean ∧
      jsImsi clean = some t ∧ Replays server d (jsDoc clean) t := by
  obtain ⟨t, ht, hne⟩ := h.imsi
  have herase : ∀ f, f ≠ idField →
      (d.erase idField).get? f = d.get? f :=
    fun f hf => d.get?_erase_of_ne hf
  have himsi : (d.erase idField).get? imsiField = some (.str t) := by
    rw [herase _ idField_ne_imsiField.symm, ht]
  obtain ⟨clean, hclean⟩ : ∃ clean,
      sanitizeDoc (d.erase idField) = some clean :=
    ⟨_, (sanitizeDoc_eq_some_iff _ _).2 ⟨_, himsi, rfl⟩⟩
  have hfields := get?_of_sanitizeDoc himsi hclean
  have hcleanImsi : clean.get? imsiField = some (.str t) := by
    rw [hfields, if_pos rfl]
    rfl
  have hjs : jsImsi clean = some t := by
    simp [jsImsi, hcleanImsi, hne]
  have hreads : ReadAs d (jsDoc clean) := by
    intro f hf
    by_cases hproto : f = protoField
    · have hnone : d.get? f = none := by
        cases hget : d.get? f with
        | none => rfl
        | some v =>
            have hdata := (h.field f v hf hget).1
            simp [isDataField, hproto] at hdata
      rw [hnone, hproto, jsDoc, get?_mapValues, Dict.get?_erase,
        if_pos rfl]
    · rw [get?_jsDoc clean hproto, hfields]
      by_cases himsif : f = imsiField
      · rw [if_pos himsif, himsif, ht]
        rfl
      · rw [if_neg himsif, if_neg hf, herase f hf]
  have hid : (jsDoc clean).get? idField = none := by
    rw [get?_jsDoc clean (by decide), hfields, if_neg idField_ne_imsiField,
      if_pos rfl]
    rfl
  have hvalue : ∀ f v, (jsDoc clean).get? f = some v →
      isDataField f = true ∧ server.storable v = true := by
    intro f v hv
    have hf : f ≠ idField := by
      rintro rfl
      rw [hid] at hv
      cases hv
    rw [hreads f hf, Option.map_eq_some_iff] at hv
    obtain ⟨w, hw, rfl⟩ := hv
    obtain ⟨hdata, hjson, hstorable⟩ := h.field f w hf hw
    exact ⟨hdata, server.storable_jsRead w hjson hstorable⟩
  refine ⟨clean, t, hclean, hjs, ht, (imsi_jsDoc hjs).2, ⟨hid, ?_⟩,
    fun f v hv => (hvalue f v hv).2, hreads⟩
  exact fun f v hv => (hvalue f v hv).1

/-- The upsert of an entry whose document is there. -/
theorem upsertOne_intact {d u : Doc} {t : Text} {before : List Doc}
    (after : List Doc) (h : Replays server d u t)
    (hfirst : First server.toServer (.str t) before d) :
    ∃ d', upsertOne server.toServer t u (before ++ d :: after) =
      some (before ++ d' :: after) ∧ ReadAs d d' := by
  have hfound : server.findOne (.str t) (before ++ d :: after) = some d :=
    (server.findOne_eq_some_iff _ _ d).2 ⟨before, after, rfl, hfirst⟩
  obtain ⟨d', hset⟩ := Option.isSome_iff_exists.1
    ((server.set_isSome_iff (d := d) h.plain).2 h.storable)
  refine ⟨d', ?_, fun f hf => ?_⟩
  · rw [upsertOne, hfound, Option.isSome_some, if_pos rfl,
      updateOne_first hfirst, hset]
    rfl
  · rw [server.get?_set_plain h.plain hset f hf, h.reads f hf]
    cases d.get? f <;> rfl

/-- The upsert of an entry whose document is not there. -/
theorem upsertOne_lost {d u : Doc} {t : Text} {docs : List Doc}
    (h : Replays server d u t)
    (hnone : server.findOne (.str t) docs = none) :
    ∃ d', upsertOne server.toServer t u docs = some (docs ++ [d']) ∧
      ReadAs d d' := by
  obtain ⟨d', hinsert⟩ := Option.isSome_iff_exists.1
    ((server.insert_isSome_iff h.plain h.imsi).2 h.storable)
  refine ⟨d', ?_, fun f hf => ?_⟩
  · rw [upsertOne, hnone, hinsert]
    rfl
  · rw [server.get?_insert_plain h.plain h.imsi hinsert f hf, h.reads f hf]

theorem imsi_of_readAs {d d' : Doc} {t : Text} (h : ReadAs d d')
    (hd : d.get? imsiField = some (.str t)) :
    d'.get? imsiField = some (.str t) := by
  rw [h imsiField idField_ne_imsiField.symm, hd]
  simp [jsRead]

/-- The upserts of a snapshot, with what has been upserted before in front. -/
theorem upsertAll_replays (volume : Volume) (done : List Doc)
    {rest : List Doc}
    (hplain : ∀ d ∈ rest, PlainDoc server d)
    (hdistinct : rest.Pairwise
      (fun d e => d.get? imsiField ≠ e.get? imsiField))
    (htexts : AllTexts done)
    (hapart : ∀ e ∈ done, ∀ d ∈ rest,
      e.get? imsiField ≠ d.get? imsiField) :
    ∃ rest' imsis,
      upsertAll server.toServer (sanitize (listSubscribers rest))
        (done ++ volume.docs rest) = (done ++ rest', some imsis) ∧
      List.Forall₂ ReadAs rest rest' ∧
      (∀ d' ∈ rest', ∃ t ∈ imsis, d'.get? imsiField = some (.str t)) ∧
      (rest ≠ [] → imsis ≠ []) := by
  induction rest generalizing done with
  | nil =>
      refine ⟨[], [], ?_, .nil, by simp, by simp⟩
      cases volume <;> rfl
  | cons d rest ih =>
      obtain ⟨clean, t, hclean, hjs, hreplays⟩ :=
        replays_of_plain (hplain d List.mem_cons_self)
      have hnot : ∀ e ∈ done, server.meets (.str t) e = false := by
        intro e he
        obtain ⟨t', ht'⟩ := htexts e he
        refine Bool.eq_false_iff.2 (fun hmeets => ?_)
        rw [(server.meets_text ht').1 hmeets] at ht'
        exact hapart e he d List.mem_cons_self
          (ht'.trans hreplays.stored.symm)
      have hmeets : server.meets (.str t) d = true :=
        (server.meets_text hreplays.stored).2 rfl
      obtain ⟨d', hupsert, hread⟩ : ∃ d',
          upsertOne server.toServer t (jsDoc clean)
            (done ++ volume.docs (d :: rest)) =
              some ((done ++ [d']) ++ volume.docs rest) ∧
            ReadAs d d' := by
        cases volume with
        | intact =>
            obtain ⟨d', hd', hread⟩ :=
              upsertOne_intact rest hreplays ⟨hmeets, hnot⟩
            exact ⟨d', by simpa [Volume.docs] using hd', hread⟩
        | lost =>
            have hnone : server.findOne (.str t) done = none :=
              List.find?_eq_none.2 (fun e he => by simp [hnot e he])
            obtain ⟨d', hd', hread⟩ := upsertOne_lost hreplays hnone
            exact ⟨d', by simpa [Volume.docs] using hd', hread⟩
      have himsi := imsi_of_readAs hread hreplays.stored
      obtain ⟨hhead, htail⟩ := List.pairwise_cons.1 hdistinct
      obtain ⟨rest', imsis, hall, hforall, hthere, -⟩ := ih (done ++ [d'])
        (fun e he => hplain e (List.mem_cons_of_mem _ he)) htail
        (texts_append htexts himsi).1 (by
          intro e he d₁ hd₁
          rcases List.mem_append.1 he with he | he
          · exact hapart e he d₁ (List.mem_cons_of_mem _ hd₁)
          · rw [List.mem_singleton.1 he, himsi, ← hreplays.stored]
            exact hhead d₁ hd₁)
      refine ⟨d' :: rest', t :: imsis, ?_, .cons hread hforall, ?_, by simp⟩
      · have hsnap : sanitize (listSubscribers (d :: rest)) =
            clean :: sanitize (listSubscribers rest) := by
          simp [sanitize, listSubscribers, hclean]
        rw [hsnap]
        simp only [upsertAll, hjs, hupsert]
        rw [hall, List.append_assoc, List.singleton_append]
        rfl
      · intro e he
        rcases List.mem_cons.1 he with rfl | he
        · exact ⟨t, List.mem_cons_self, himsi⟩
        · obtain ⟨t', ht', he'⟩ := hthere e he
          exact ⟨t', List.mem_cons_of_mem _ ht', he'⟩

theorem jsParses_of_plain {docs : List Doc}
    (h : ∀ d ∈ docs, PlainDoc server d) :
    jsParses (sanitize (listSubscribers docs)) = true := by
  unfold jsParses
  simp only [List.all_eq_true]
  rintro clean hclean ⟨f, v⟩ hv
  obtain ⟨d', hd', hdoc⟩ := List.mem_filterMap.1 hclean
  obtain ⟨d, hd, rfl⟩ := List.mem_map.1 hd'
  obtain ⟨w, hw, -⟩ := (sanitizeDoc_eq_some_iff _ _).1 hdoc
  rw [← Dict.get?_eq_some_iff, get?_of_sanitizeDoc hw hdoc] at hv
  split_ifs at hv with himsi hid
  · cases hv
    rfl
  · rw [Dict.get?_erase_of_ne _ hid] at hv
    exact ((h d hd).field f v hid hv).2.1

/-- A restart replays every document, whatever has become of the volume. -/
theorem reconcile_replays {s : Store} (h : PlainStore server s)
    (volume : Volume) :
    ∃ docs', reconcile server.toServer s.snapshot (volume.docs s.docs) =
      (docs', true) ∧ List.Forall₂ ReadAs s.docs docs' := by
  rcases h.mirrored with hsnap | ⟨hdocs, hsnap⟩
  · obtain ⟨docs', imsis, hall, hforall, hthere, hne⟩ :=
      upsertAll_replays volume [] h.plain h.distinct
        (fun _ hmem => absurd hmem List.not_mem_nil)
        (fun _ hmem => absurd hmem List.not_mem_nil)
    refine ⟨docs', ?_, hforall⟩
    rw [List.nil_append, List.nil_append] at hall
    rw [hsnap, reconcile]
    simp only [jsParses_of_plain h.plain, if_true, hall]
    cases imsis with
    | nil => rfl
    | cons t rest =>
        have hkeep : deleteOthers server.toServer (t :: rest) docs' =
            docs' := by
          refine List.filter_eq_self.2 (fun d' hd' => ?_)
          obtain ⟨t', ht', himsi⟩ := hthere d' hd'
          exact List.any_eq_true.2
            ⟨t', ht', (server.meets_text himsi).2 rfl⟩
        simp only [hkeep]
  · refine ⟨[], ?_, by rw [hdocs]; exact .nil⟩
    rw [hsnap, hdocs]
    cases volume <;> rfl

/-- Every integer in the documents is a double. -/
def AllKept (docs : List Doc) : Prop :=
  ∀ d ∈ docs, ∀ f v, f ≠ idField → d.get? f = some v → v.all isKept = true

theorem sameDoc_iff {d d' : Doc} (h : ReadAs d d') :
    SameDoc d d' ↔
      ∀ f v, f ≠ idField → d.get? f = some v → v.all isKept = true := by
  constructor
  · intro hsame f v hf hv
    have heq := hsame f hf
    rw [h f hf, hv, Option.map_some, Option.map_some, Option.map_some] at heq
    exact (canon_jsRead_iff v).1 (Option.some.inj heq).symm
  · intro hkept f hf
    rw [h f hf]
    cases hv : d.get? f with
    | none => rfl
    | some v =>
        exact congrArg some ((canon_jsRead_iff v).2 (hkept f v hf hv)).symm

theorem forall₂_sameDoc_iff {docs docs' : List Doc}
    (h : List.Forall₂ ReadAs docs docs') :
    List.Forall₂ SameDoc docs docs' ↔ AllKept docs := by
  induction h with
  | nil => exact ⟨fun _ _ hd => absurd hd List.not_mem_nil, fun _ => .nil⟩
  | cons hread _ ih =>
      rw [List.forall₂_cons, sameDoc_iff hread, ih]
      simp only [AllKept, List.forall_mem_cons]

end PlainServer

section PlainRequests

/-- Values of JSON under plain names. -/
def jsonTest : FieldTest where
  name := isDataField
  value := fun v => !v.isOther && !v.isNonFinite
  imsi := by decide
  security := by decide
  text := fun _ => rfl
  null := rfl
  doc := fun _ => rfl
  default := Dict.forall_get? (by decide)

/-- Integers that are doubles, under any names. -/
def keptTest : FieldTest where
  name := fun _ => true
  value := isKept
  imsi := rfl
  security := rfl
  text := fun _ => rfl
  null := rfl
  doc := fun _ => rfl
  default := Dict.forall_get? (by decide)

def Request.Passes (test : FieldTest) : Request → Prop
  | .create data => Subscribers.Passes test data
  | .update _ data => Subscribers.Passes test data
  | .delete _ => True

/-- Values of JSON under plain names, and for an IMSI a text that is not
empty. -/
def PlainRequest (r : Request) : Prop :=
  r.Passes jsonTest ∧
    ∀ data, r = .create data → CleanImsi (· ≠ []) data

theorem allKept_iff (docs : List Doc) :
    AllKept docs ↔ ∀ d ∈ docs, Passes keptTest d := by
  simp [AllKept, Passes, keptTest]

theorem plainFields_of_passes {u : Doc} (hid : u.get? idField = none)
    (h : Passes jsonTest u) : PlainFields u := by
  refine ⟨hid, fun f v hv => (h f v ?_ hv).1⟩
  rintro rfl
  rw [hid] at hv
  cases hv

variable [Printer] {server : PlainServer}

/-- What the request `r` writes, over a document of the collection or over
none, makes the document `e`. -/
def WrittenBy (server : PlainServer) (r : Request) (docs : List Doc)
    (e : Doc) : Prop :=
  ∃ u base : Doc, (base ∈ docs ∨ base = Dict.empty) ∧
    (∀ test, r.Passes test → (∀ d ∈ docs, Passes test d) →
      Passes test u) ∧
    (∀ f v, u.get? f = some v → server.storable v = true) ∧
    ∀ f, f ≠ idField → e.get? f = (u.get? f).or (base.get? f)

/-- A document that an accepted request leaves was there, or has been written
by it. -/
theorem written_of_accepted {r : Request} {docs docs' : List Doc}
    (hr : PlainRequest r) (hdocs : ∀ d ∈ docs, Passes jsonTest d)
    (h : Accepted server.toServer docs r docs') :
    ∀ e ∈ docs', e ∈ docs ∨ WrittenBy server r docs e := by
  cases h with
  | notUpdated => exact fun e he => Or.inl he
  | notDeleted => exact fun e he => Or.inl he
  | deleted heq _ =>
      subst heq
      intro e he
      refine Or.inl ?_
      rcases List.mem_append.1 he with he | he
      · exact List.mem_append_left _ he
      · exact List.mem_append_right _ (List.mem_cons_of_mem _ he)
  | created hnorm himsi hinsert hnew =>
      rename_i data normalized d v
      have hid : normalized.get? idField = none := by
        rw [get?_normalizeSubscriber hnorm securityField_ne_idField.symm,
          if_pos rfl]
      have hplain := plainFields_of_passes hid
        (passes_normalizeSubscriber hr.1 hnorm)
      obtain ⟨t, rfl⟩ : ∃ t, v = .str t := by
        rw [get?_normalizeSubscriber hnorm securityField_ne_imsiField.symm,
          if_neg idField_ne_imsiField.symm] at himsi
        rcases Option.or_eq_some_iff.1 himsi with hgiven | ⟨-, hdefault⟩
        · obtain ⟨t, rfl, -⟩ := hr.2 data rfl v hgiven
          exact ⟨t, rfl⟩
        · cases hdefault
      intro e he
      rcases List.mem_append.1 he with he | he
      · exact Or.inl he
      · rw [List.mem_singleton.1 he]
        refine Or.inr ⟨normalized, Dict.empty, Or.inr rfl,
          fun test hpass _ => passes_normalizeSubscriber hpass hnorm,
          (server.insert_isSome_iff hplain himsi).1 (by rw [hinsert]; rfl),
          fun f hf => ?_⟩
        rw [server.get?_insert_plain hplain himsi hinsert f hf,
          Dict.get?_empty, Option.or_none]
  | updated heq hfirst hmerge hset =>
      rename_i imsi data normalized d d' before after
      subst heq
      have hmem : d ∈ before ++ d :: after := by simp
      have hplain := plainFields_of_passes (mergeUpdate_ok hmerge).2.2.1
        (passes_mergeUpdate (hdocs d hmem) hr.1 hmerge)
      intro e he
      rcases List.mem_append.1 he with he | he
      · exact Or.inl (List.mem_append_left _ he)
      · rcases List.mem_cons.1 he with rfl | he
        · exact Or.inr ⟨normalized, d, Or.inl hmem,
            fun test hpass hold =>
              passes_mergeUpdate (hold d hmem) hpass hmerge,
            (server.set_isSome_iff hplain).1 (by rw [hset]; rfl),
            server.get?_set_plain hplain hset⟩
        · exact Or.inl (List.mem_append_right _ (List.mem_cons_of_mem _ he))

/-- What all documents and the request pass, all documents pass afterwards. -/
theorem passes_accepted {test : FieldTest} {r : Request}
    {docs docs' : List Doc} (hr : PlainRequest r)
    (hjson : ∀ d ∈ docs, Passes jsonTest d) (hpass : r.Passes test)
    (hdocs : ∀ d ∈ docs, Passes test d)
    (h : Accepted server.toServer docs r docs') :
    ∀ e ∈ docs', Passes test e := by
  intro e he f v hf hv
  rcases written_of_accepted hr hjson h e he with hold |
    ⟨u, base, hbase, hu, -, hfields⟩
  · exact hdocs e hold f v hf hv
  · rw [hfields f hf] at hv
    rcases Option.or_eq_some_iff.1 hv with hnew | ⟨-, hstored⟩
    · exact hu test hpass hdocs f v hf hnew
    · rcases hbase with hmem | rfl
      · exact hdocs base hmem f v hf hstored
      · cases hstored

theorem storable_accepted {r : Request} {docs docs' : List Doc}
    (hr : PlainRequest r) (hdocs : ∀ d ∈ docs, PlainDoc server d)
    (hjson : ∀ d ∈ docs, Passes jsonTest d)
    (h : Accepted server.toServer docs r docs') :
    ∀ e ∈ docs', ∀ f v, f ≠ idField → e.get? f = some v →
      server.storable v = true := by
  intro e he f v hf hv
  rcases written_of_accepted hr hjson h e he with hold |
    ⟨u, base, hbase, -, hu, hfields⟩
  · exact ((hdocs e hold).field f v hf hv).2.2
  · rw [hfields f hf] at hv
    rcases Option.or_eq_some_iff.1 hv with hnew | ⟨-, hstored⟩
    · exact hu f v hnew
    · rcases hbase with hmem | rfl
      · exact ((hdocs base hmem).field f v hf hstored).2.2
      · cases hstored

end PlainRequests

section Restart

theorem mirrorable_of_plain {server : PlainServer} {docs : List Doc}
    (h : ∀ d ∈ docs, PlainDoc server d) : Mirrorable docs :=
  fun d hd _ f v hv hf _ =>
    Value.isPlain_of_isJson ((h d hd).field f v hf hv).2.1

variable [Printer] {server : PlainServer} {s : Store}

/-- One call after the other, whose mirrorings succeed. -/
def serveOne (server : PlainServer) (s : Store) (r : Request) :
    Option Store :=
  some (call server.toServer .succeed r s).2

theorem PlainStore.fresh (server : PlainServer) :
    PlainStore server ⟨[], none⟩ where
  plain := fun _ hd => absurd hd List.not_mem_nil
  distinct := List.Pairwise.nil
  mirrored := Or.inr ⟨rfl, rfl⟩

theorem PlainStore.keyed (h : PlainStore server s) :
    Keyed (· ≠ []) s.docs :=
  ⟨fun d hd => (h.plain d hd).imsi, h.distinct⟩

theorem PlainStore.passes (h : PlainStore server s) :
    ∀ d ∈ s.docs, Passes jsonTest d := by
  intro d hd f v hf hv
  obtain ⟨hname, hjson, -⟩ := (h.plain d hd).field f v hf hv
  exact ⟨hname, hjson⟩

theorem syncSnapshot_succeed (h : Mirrorable s.docs) :
    syncSnapshot .succeed s = mirror s := by
  have hdump : canDump (sanitize (listSubscribers s.docs)) = true :=
    (canDump_sanitize_iff _).2 ((mirrorable_listSubscribers_iff _).2 h)
  simp [syncSnapshot, SyncCalls.succeed, write, hdump, mirror,
    upsertSecret, Outcome.isOk, Outcome.takesEffect]

/-- The documents after an accepted request are plain. -/
theorem PlainStore.plain_accepted (h : PlainStore server s) {r : Request}
    (hr : PlainRequest r) {docs' : List Doc}
    (hacc : Accepted server.toServer s.docs r docs') :
    ∀ d ∈ docs', PlainDoc server d := by
  intro d hd
  have hpass := passes_accepted hr h.passes hr.1 h.passes hacc d hd
  refine ⟨(h.keyed.accepted hr.2 hacc).texts d hd, fun f v hf hv => ?_⟩
  obtain ⟨hname, hjson⟩ := hpass f v hf hv
  exact ⟨hname, hjson,
    storable_accepted hr h.plain h.passes hacc d hd f v hf hv⟩

/-- A call keeps the store plain and mirrored. -/
theorem PlainStore.step (h : PlainStore server s) {r : Request}
    (hr : PlainRequest r) :
    PlainStore server (call server.toServer .succeed r s).2 := by
  cases hchange : change server.toServer r s.docs with
  | error e =>
      simp only [call, callWith, hchange]
      exact h
  | ok c =>
      have hacc := accepted_of_change hchange
      have hplain := h.plain_accepted hr hacc
      have hdistinct := (h.keyed.accepted hr.2 hacc).distinct
      cases hc : c.mirrored with
      | false =>
          simp only [call, callWith, hchange, hc, Bool.false_eq_true, if_false]
          refine ⟨hplain, hdistinct, ?_⟩
          rw [docs_of_not_mirrored hchange hc]
          exact h.mirrored
      | true =>
          rw [call, callWith_eq hchange hc,
            syncSnapshot_succeed (mirrorable_of_plain hplain)]
          exact ⟨hplain, hdistinct, Or.inl rfl⟩

/-- A collection of doubles stays one. -/
theorem allKept_step (h : PlainStore server s) {r : Request}
    (hr : PlainRequest r) (hkept : r.Passes keptTest)
    (hdocs : AllKept s.docs) :
    AllKept (call server.toServer .succeed r s).2.docs := by
  rcases docs_call server.toServer .succeed r s with hsame | hacc
  · rw [hsame]
    exact hdocs
  · rw [allKept_iff] at hdocs ⊢
    exact passes_accepted hr h.passes hkept hdocs hacc

/-- After any run of calls one after the other, a restart brings back an equal
collection, whether the volume is intact or lost, exactly when every integer in
it is a double. So it is when the start and the requests have no others. -/
theorem restart_same_iff (server : PlainServer) {s₀ : Store}
    (hstart : PlainStore server s₀) :
    (∀ s, Reach (serveOne server) (fun _ r => PlainRequest r) s₀ s →
      ∀ volume : Volume,
        List.Forall₂ SameDoc s.docs
            (reconcile server.toServer s.snapshot (volume.docs s.docs)).1 ↔
          AllKept s.docs) ∧
      (AllKept s₀.docs → ∀ s,
        Reach (serveOne server)
            (fun _ r => PlainRequest r ∧ r.Passes keptTest) s₀ s →
          ∀ volume : Volume,
            List.Forall₂ SameDoc s.docs
              (reconcile server.toServer s.snapshot
                (volume.docs s.docs)).1) := by
  have hiff : ∀ s, PlainStore server s → ∀ volume : Volume,
      List.Forall₂ SameDoc s.docs
          (reconcile server.toServer s.snapshot (volume.docs s.docs)).1 ↔
        AllKept s.docs := by
    intro s hs volume
    obtain ⟨docs', hresult, hread⟩ := reconcile_replays hs volume
    rw [hresult]
    exact forall₂_sameDoc_iff hread
  constructor
  · intro s hs
    refine hiff s (hs.inv hstart ?_)
    rintro s r s' hplain hr hstep
    cases hstep
    exact hplain.step hr
  · intro hkept s hs
    have hinv : PlainStore server s ∧ AllKept s.docs := by
      refine hs.inv (I := fun s => PlainStore server s ∧ AllKept s.docs)
        ⟨hstart, hkept⟩ ?_
      rintro s r s' ⟨hplain, hdocs⟩ ⟨hr, hpass⟩ hstep
      cases hstep
      exact ⟨hplain.step hr, allKept_step hplain hr hpass hdocs⟩
    exact fun volume => (hiff s hinv.1 volume).2 hinv.2

end Restart

section LargeNumber

/-- A database for plain documents that can store every value. -/
def plainDatabase : PlainServer where
  toServer := plainServer
  storable := fun _ => true
  storable_jsRead := fun _ _ _ => rfl
  set_isSome_iff := by
    intro d u _
    simp [plainServer]
  get?_set_plain := by
    intro d u d' _ h f _
    cases h
    exact Dict.get?_update d u f
  insert_isSome_iff := by
    intro t u _ _
    simp [plainServer]
  get?_insert_plain := by
    intro t u d' hu _ h f hf
    cases h
    rw [hu.1, Option.isSome_none, if_neg Bool.false_ne_true,
      Dict.get?_set_of_ne _ _ hf]

def versionField : Text :=
  "schema_version".toList

/-- A new subscriber with this number as its version. -/
def versioned (n : Int) : Request :=
  .create ((newSubscriber (.str "1".toList) zeroKey).set versionField (.int n))

theorem plainRequest_versioned (n : Int) : PlainRequest (versioned n) := by
  constructor
  · exact (passes_newSubscriber jsonTest _ _).set (by decide) rfl
  · rintro data ⟨⟩ v hv
    cases hv
    exact ⟨"1".toList, rfl, by decide⟩

/-- With a small version it is the same collection after any restart. -/
theorem restart_same_versioned :
    ∃ s, serveOne plainDatabase ⟨[], none⟩ (versioned 7) = some s ∧
      s.docs.length = 1 ∧
      ∀ volume : Volume, List.Forall₂ SameDoc s.docs
        (reconcile plainDatabase.toServer s.snapshot
          (volume.docs s.docs)).1 := by
  have hkept : (versioned 7).Passes keptTest :=
    (passes_newSubscriber keptTest _ _).set rfl (by decide)
  refine ⟨_, rfl, rfl, ?_⟩
  exact (restart_same_iff plainDatabase (PlainStore.fresh _)).2
    (fun _ hd => absurd hd List.not_mem_nil) _
    (Reach.refl.step (a := versioned 7)
      ⟨plainRequest_versioned 7, hkept⟩ rfl)

/-- 2^53 + 1 is stored as it is, and is 2^53 after any restart. -/
theorem large_not_restored :
    ∃ s, Reach (serveOne plainDatabase) (fun _ r => PlainRequest r)
        ⟨[], none⟩ s ∧
      ∀ volume : Volume, ¬ List.Forall₂ SameDoc s.docs
        (reconcile plainDatabase.toServer s.snapshot
          (volume.docs s.docs)).1 := by
  refine ⟨_, Reach.refl.step (a := versioned 9007199254740993)
    (plainRequest_versioned _) rfl, fun volume hsame => ?_⟩
  cases volume with
  | intact =>
      have hversion := (List.forall₂_cons.1 hsame).1 versionField (by decide)
      exact absurd (Value.int.inj (Option.some.inj hversion)) (by decide)
  | lost =>
      have hversion := (List.forall₂_cons.1 hsame).1 versionField (by decide)
      exact absurd (Value.int.inj (Option.some.inj hversion)) (by decide)

end LargeNumber

end Subscribers
end Kelt
