import Kelt.Subscribers.Service

/-!
# The reconcile at a start of MongoDB

`mongo_init.sh` reads the snapshot in JavaScript, upserts its subscribers and
deletes what is not in it, unless it has none. JavaScript has one kind of
number: an integer is read as the nearest double, and what it writes is a
32-bit integer or a double.

`texts_reconcile` says which IMSIs there are afterwards.
-/

namespace Kelt
namespace Subscribers

section JavaScript

/-- The bits of a natural number that the mantissa of a double drops. -/
def droppedBits (n : Nat) : Nat :=
  Nat.log2 n - 52

/-- The double nearest to a natural number, the even one of two. -/
def nearestDouble (n : Nat) : Nat :=
  let unit := 2 ^ droppedBits n
  let below := n / unit
  let rest := n % unit
  if 2 * rest < unit ∨ 2 * rest = unit ∧ below % 2 = 0 then below * unit
  else (below + 1) * unit

/-- The number that `JSON.parse` reads. -/
def jsInt (n : Int) : Int :=
  if 0 ≤ n then nearestDouble n.toNat else -nearestDouble (-n).toNat

def isInt32 (n : Int) : Bool :=
  -2 ^ 31 ≤ n ∧ n < 2 ^ 31

def mapValues (f : Value → Value) (d : Doc) : Doc where
  items := d.items.map (fun kv => (kv.1, f kv.2))
  nodup := by
    rw [List.map_map]
    exact d.nodup

theorem get?_mapValues (f : Value → Value) (d : Doc) (name : Text) :
    (mapValues f d).get? name = (d.get? name).map f :=
  d.get?_mapVals (fun _ v => f v) name

variable [Printer]

mutual

/-- A value of the snapshot as `mongosh` hands it to the database. -/
def jsRead : Value → Value
  | .int n =>
      if isInt32 n then .int n
      else .float (Printer.double (jsInt n)) (some (jsInt n))
  | .float shown (some n) =>
      if isInt32 n then .int n else .float shown (some n)
  | .list items => .list (jsReadItems items)
  | .doc fields => .doc (jsReadFields fields)
  | v => v

def jsReadItems : List Value → List Value
  | [] => []
  | v :: rest => jsRead v :: jsReadItems rest

def jsReadFields : List (Text × Value) → List (Text × Value)
  | [] => []
  | (name, v) :: rest => (name, jsRead v) :: jsReadFields rest

end

/-- The field that `Object.assign` does not copy. -/
def protoField : Text :=
  "__proto__".toList

/-- `Object.assign({}, raw, {imsi})`, for an IMSI that is a text already. -/
def jsDoc (raw : Doc) : Doc :=
  mapValues jsRead (raw.erase protoField)

theorem get?_jsDoc (raw : Doc) {name : Text} (hne : name ≠ protoField) :
    (jsDoc raw).get? name = (raw.get? name).map jsRead := by
  rw [jsDoc, get?_mapValues, Dict.get?_erase_of_ne _ hne]

end JavaScript

section Reconcile

/-- `raw.imsi`, when the entry is not skipped. The snapshot has nothing but
texts there. -/
def jsImsi (raw : Doc) : Option Text :=
  match raw.get? imsiField with
  | some (.str t) => if t = [] then none else some t
  | _ => none

/-- `JSON.parse` does not raise. -/
def jsParses (subs : List Doc) : Bool :=
  subs.all (fun d => d.items.all (fun kv => kv.2.isJson))

variable [Printer] (server : Server)

/-- `updateOne({imsi: t}, {$set: u}, {upsert: true})`. -/
def upsertOne (t : Text) (u : Doc) (docs : List Doc) : Option (List Doc) :=
  if (server.findOne (.str t) docs).isSome then
    server.updateOne (.str t) u docs
  else (server.insert (.str t) u).map (fun d => docs ++ [d])

/-- The loop of upserts: the collection after it, and the IMSIs unless an upsert
is refused. -/
def upsertAll : List Doc → List Doc → List Doc × Option (List Text)
  | [], docs => (docs, some [])
  | raw :: rest, docs =>
      match jsImsi raw with
      | none => upsertAll rest docs
      | some t =>
          match upsertOne server t (jsDoc raw) docs with
          | none => (docs, none)
          | some docs =>
              let (docs, imsis) := upsertAll rest docs
              (docs, imsis.map (fun imsis => t :: imsis))

/-- `deleteMany({imsi: {$nin: imsis}})`. -/
def deleteOthers (imsis : List Text) (docs : List Doc) : List Doc :=
  docs.filter (fun d => imsis.any (fun t => server.meets (.str t) d))

/-- What the reconcile makes of a collection, and whether it gets to its end. -/
def reconcile (snapshot : Option (List Doc)) (docs : List Doc) :
    List Doc × Bool :=
  match snapshot with
  | none => (docs, true)
  | some subs =>
      if jsParses subs then
        match upsertAll server subs docs with
        | (docs, none) => (docs, false)
        | (docs, some []) => (docs, true)
        | (docs, some (t :: imsis)) =>
            (deleteOthers server (t :: imsis) docs, true)
      else (docs, false)

/-- What a restart leaves of the volume. -/
inductive Volume
  | intact
  | lost

def Volume.docs (volume : Volume) (docs : List Doc) : List Doc :=
  match volume with
  | .intact => docs
  | .lost => []

end Reconcile

section Texts

/-- A document with this IMSI is in the collection. -/
def HasText (docs : List Doc) (t : Text) : Prop :=
  ∃ d ∈ docs, d.get? imsiField = some (.str t)

/-- Every IMSI is a text. -/
def AllTexts (docs : List Doc) : Prop :=
  ∀ d ∈ docs, ∃ t, d.get? imsiField = some (.str t)

variable {server : Server} {docs : List Doc}

theorem texts_replace {before after : List Doc} {d d' : Doc} {t : Text}
    (hall : AllTexts (before ++ d :: after))
    (hd : d.get? imsiField = some (.str t))
    (hd' : d'.get? imsiField = some (.str t)) :
    AllTexts (before ++ d' :: after) ∧
      ∀ t', HasText (before ++ d' :: after) t' ↔
        t' = t ∨ HasText (before ++ d :: after) t' := by
  unfold AllTexts HasText at *
  simp only [List.mem_append, List.mem_cons] at hall ⊢
  constructor
  · rintro e (he | rfl | he)
    · exact hall e (Or.inl he)
    · exact ⟨t, hd'⟩
    · exact hall e (Or.inr (Or.inr he))
  · intro t'
    constructor
    · rintro ⟨e, he | rfl | he, ht'⟩
      · exact Or.inr ⟨e, Or.inl he, ht'⟩
      · rw [hd'] at ht'
        cases ht'
        exact Or.inl rfl
      · exact Or.inr ⟨e, Or.inr (Or.inr he), ht'⟩
    · rintro (rfl | ⟨e, he | rfl | he, ht'⟩)
      · exact ⟨d', Or.inr (Or.inl rfl), hd'⟩
      · exact ⟨e, Or.inl he, ht'⟩
      · rw [hd] at ht'
        cases ht'
        exact ⟨d', Or.inr (Or.inl rfl), hd'⟩
      · exact ⟨e, Or.inr (Or.inr he), ht'⟩

theorem texts_append {d : Doc} {t : Text} (hall : AllTexts docs)
    (hd : d.get? imsiField = some (.str t)) :
    AllTexts (docs ++ [d]) ∧
      ∀ t', HasText (docs ++ [d]) t' ↔ t' = t ∨ HasText docs t' := by
  unfold AllTexts HasText at *
  simp only [List.mem_append, List.mem_singleton]
  constructor
  · rintro e (he | rfl)
    · exact hall e he
    · exact ⟨t, hd⟩
  · intro t'
    constructor
    · rintro ⟨e, he | rfl, ht'⟩
      · exact Or.inr ⟨e, he, ht'⟩
      · rw [hd] at ht'
        cases ht'
        exact Or.inl rfl
    · rintro (rfl | ⟨e, he, ht'⟩)
      · exact ⟨d, Or.inr rfl, hd⟩
      · exact ⟨e, Or.inl he, ht'⟩

/-- An upsert adds its IMSI, if it was not there. -/
theorem texts_upsertOne {t : Text} {u : Doc} {docs' : List Doc}
    (hall : AllTexts docs) (hu : u.get? imsiField = some (.str t))
    (h : upsertOne server t u docs = some docs') :
    AllTexts docs' ∧ ∀ t', HasText docs' t' ↔ t' = t ∨ HasText docs t' := by
  unfold upsertOne at h
  split_ifs at h with hfound
  · rcases server.updateOne_cases h with ⟨rfl, hnone⟩ |
      ⟨before, d, d', after, rfl, rfl, hfirst, hset⟩
    · obtain ⟨d, hd⟩ := Option.isSome_iff_exists.1 hfound
      have hmeets := hnone d (List.mem_of_find?_eq_some hd)
      rw [List.find?_some hd] at hmeets
      cases hmeets
    · obtain ⟨t', ht'⟩ := hall d (by simp)
      obtain rfl : t' = t := (server.meets_text ht').1 hfirst.meets
      have hd' := server.get?_set hset (by decide) hu
      exact texts_replace hall ht' hd'
  · obtain ⟨d, hinsert, rfl⟩ := Option.map_eq_some_iff.1 h
    exact texts_append hall (server.get?_insert hinsert (by decide) hu)

theorem texts_deleteOthers (imsis : List Text) (t : Text) :
    HasText (deleteOthers server imsis docs) t ↔
      HasText docs t ∧ t ∈ imsis := by
  constructor
  · rintro ⟨d, hd, ht⟩
    obtain ⟨hmem, hany⟩ := List.mem_filter.1 hd
    obtain ⟨t', ht', hmeets⟩ := List.any_eq_true.1 hany
    obtain rfl := (server.meets_text ht).1 hmeets
    exact ⟨⟨d, hmem, ht⟩, ht'⟩
  · rintro ⟨⟨d, hmem, ht⟩, himsi⟩
    refine ⟨d, List.mem_filter.2 ⟨hmem, ?_⟩, ht⟩
    exact List.any_eq_true.2 ⟨t, himsi, (server.meets_text ht).2 rfl⟩

variable [Printer]

theorem imsi_jsDoc {raw : Doc} {t : Text} (h : jsImsi raw = some t) :
    raw.get? imsiField = some (.str t) ∧
      (jsDoc raw).get? imsiField = some (.str t) := by
  unfold jsImsi at h
  split at h
  · rename_i t' ht'
    split_ifs at h
    cases h
    refine ⟨ht', ?_⟩
    rw [get?_jsDoc raw (by decide), ht']
    simp [jsRead]
  · cases h

/-- The loop of upserts keeps the IMSIs that there are, and adds none but those
of the entries; when it gets to its end it has added all of them. -/
theorem texts_upsertAll (subs : List Doc) (hall : AllTexts docs) :
    AllTexts (upsertAll server subs docs).1 ∧
      (∀ t, HasText docs t → HasText (upsertAll server subs docs).1 t) ∧
      (∀ t, HasText (upsertAll server subs docs).1 t →
        HasText docs t ∨ t ∈ subs.filterMap jsImsi) ∧
      ∀ imsis, (upsertAll server subs docs).2 = some imsis →
        imsis = subs.filterMap jsImsi ∧
          ∀ t ∈ imsis, HasText (upsertAll server subs docs).1 t := by
  induction subs generalizing docs with
  | nil =>
      refine ⟨hall, fun _ h => h, fun _ h => Or.inl h, ?_⟩
      intro imsis himsis
      cases himsis
      exact ⟨rfl, fun _ h => absurd h List.not_mem_nil⟩
  | cons raw rest ih =>
      cases himsi : jsImsi raw with
      | none =>
          simp only [upsertAll, himsi, List.filterMap_cons]
          exact ih hall
      | some t =>
          cases hupsert : upsertOne server t (jsDoc raw) docs with
          | none =>
              simp only [upsertAll, himsi, hupsert]
              exact ⟨hall, fun _ h => h, fun _ h => Or.inl h,
                (fun _ h => by cases h)⟩
          | some docs' =>
              obtain ⟨hall', htexts⟩ :=
                texts_upsertOne hall (imsi_jsDoc himsi).2 hupsert
              obtain ⟨hresult, hkept, hadded, hend⟩ := ih hall'
              simp only [upsertAll, himsi, hupsert, List.filterMap_cons]
              refine ⟨hresult,
                fun t' h => hkept t' ((htexts t').2 (Or.inr h)), ?_, ?_⟩
              · intro t' h
                rcases hadded t' h with h | h
                · rcases (htexts t').1 h with rfl | h
                  · exact Or.inr List.mem_cons_self
                  · exact Or.inl h
                · exact Or.inr (List.mem_cons_of_mem _ h)
              · intro imsis himsis
                obtain ⟨imsis', hsome, rfl⟩ := Option.map_eq_some_iff.1 himsis
                obtain ⟨rfl, hthere⟩ := hend imsis' hsome
                refine ⟨rfl, fun t' h => ?_⟩
                rcases List.mem_cons.1 h with rfl | h
                · exact hkept t' ((htexts t').2 (Or.inl rfl))
                · exact hthere t' h

/-- A reconcile that gets to the end of a snapshot with subscribers leaves just
their IMSIs; one that does not removes none. In no case is there an IMSI that
is neither in the collection nor in the snapshot. -/
theorem texts_reconcile (server : Server) (subs : List Doc)
    (hall : AllTexts docs) (t : Text) :
    (HasText (reconcile server (some subs) docs).1 t →
        HasText docs t ∨ t ∈ subs.filterMap jsImsi) ∧
      ((reconcile server (some subs) docs).2 = true →
        subs.filterMap jsImsi ≠ [] →
        (HasText (reconcile server (some subs) docs).1 t ↔
          t ∈ subs.filterMap jsImsi)) ∧
      ((reconcile server (some subs) docs).2 = false → HasText docs t →
        HasText (reconcile server (some subs) docs).1 t) := by
  unfold reconcile
  by_cases hparses : jsParses subs = true
  · obtain ⟨hresult, hkept, hadded, hend⟩ :=
      @texts_upsertAll server docs _ subs hall
    simp only [hparses, if_true]
    rcases hloop : upsertAll server subs docs with ⟨docs', _ | imsis⟩
    · rw [hloop] at hkept hadded
      exact ⟨hadded t, (fun h => by cases h), fun _ h => hkept t h⟩
    · rw [hloop] at hresult hkept hadded hend
      obtain ⟨rfl, hthere⟩ := hend imsis rfl
      cases himsis : subs.filterMap jsImsi with
      | nil =>
          exact ⟨fun h => himsis ▸ hadded t h, fun _ h => (h rfl).elim,
            (fun h => by cases h)⟩
      | cons t₀ rest =>
          rw [himsis] at hthere hadded
          have hdelete :
              HasText (deleteOthers server (t₀ :: rest) docs') t ↔
                HasText docs' t ∧ t ∈ t₀ :: rest :=
            texts_deleteOthers (t₀ :: rest) t
          refine ⟨fun h => Or.inr (hdelete.1 h).2, fun _ _ => ?_,
            fun h => by cases h⟩
          exact ⟨fun h => (hdelete.1 h).2,
            fun h => hdelete.2 ⟨hthere t h, h⟩⟩
  · simp only [hparses, if_false, Bool.false_eq_true]
    exact ⟨Or.inl, False.elim, fun _ h => h⟩

/-- Every IMSI is a text that the reconcile does not skip. -/
def NonemptyTexts (docs : List Doc) : Prop :=
  ∀ d ∈ docs, ∃ t, d.get? imsiField = some (.str t) ∧ t ≠ []

/-- The IMSIs of a snapshot are those of its collection. -/
theorem mem_imsis_sanitize (h : NonemptyTexts docs) (t : Text) :
    t ∈ (sanitize (listSubscribers docs)).filterMap jsImsi ↔
      HasText docs t := by
  have hclean : ∀ d ∈ docs, ∀ t', d.get? imsiField = some (.str t') →
      ∃ clean, sanitizeDoc (d.erase idField) = some clean ∧
        clean.get? imsiField = some (.str t') := by
    intro d _ t' ht'
    have herase : (d.erase idField).get? imsiField = some (.str t') := by
      rw [Dict.get?_erase_of_ne _ idField_ne_imsiField.symm, ht']
    refine ⟨_, (sanitizeDoc_eq_some_iff _ _).2 ⟨_, herase, rfl⟩, ?_⟩
    exact Dict.get?_set_self _ _ _
  constructor
  · intro ht
    obtain ⟨clean, hmem, himsi⟩ := List.mem_filterMap.1 ht
    obtain ⟨d', hd', hdoc⟩ := List.mem_filterMap.1 hmem
    obtain ⟨d, hd, rfl⟩ := List.mem_map.1 hd'
    obtain ⟨t', ht', -⟩ := h d hd
    obtain ⟨clean', hclean', himsi'⟩ := hclean d hd t' ht'
    rw [hdoc] at hclean'
    cases hclean'
    rw [(imsi_jsDoc himsi).1] at himsi'
    cases himsi'
    exact ⟨d, hd, ht'⟩
  · rintro ⟨d, hd, ht⟩
    obtain ⟨clean, hdoc, himsi⟩ := hclean d hd t ht
    refine List.mem_filterMap.2 ⟨clean, ?_, ?_⟩
    · exact List.mem_filterMap.2 ⟨_, List.mem_map_of_mem hd, hdoc⟩
    · obtain ⟨t', ht', hne⟩ := h d hd
      rw [ht] at ht'
      cases ht'
      simp [jsImsi, himsi, hne]

/-- A reconcile from the snapshot of a collection brings back no other IMSI, and
loses none when the volume is intact or the reconcile gets to its end. -/
theorem texts_reconcile_mirrored (server : Server) (h : NonemptyTexts docs)
    (volume : Volume) (t : Text) :
    (HasText (reconcile server (some (sanitize (listSubscribers docs)))
        (volume.docs docs)).1 t → HasText docs t) ∧
      ((volume = .intact ∨
          (reconcile server (some (sanitize (listSubscribers docs)))
            (volume.docs docs)).2 = true) →
        HasText docs t →
          HasText (reconcile server (some (sanitize (listSubscribers docs)))
            (volume.docs docs)).1 t) := by
  have hsub : ∀ t, HasText (volume.docs docs) t → HasText docs t := by
    intro t
    cases volume with
    | intact => exact id
    | lost => exact fun ⟨_, hmem, _⟩ => absurd hmem List.not_mem_nil
  have hall : AllTexts (volume.docs docs) := by
    cases volume with
    | intact => exact fun d hd => (h d hd).imp fun _ ht => ht.1
    | lost => exact fun _ hmem => absurd hmem List.not_mem_nil
  obtain ⟨hadded, hend, hnot⟩ :=
    texts_reconcile server (sanitize (listSubscribers docs)) hall t
  have himsis := mem_imsis_sanitize h t
  refine ⟨fun ht => (hadded ht).elim (hsub t) himsis.1, fun hkept ht => ?_⟩
  cases hresult : (reconcile server
      (some (sanitize (listSubscribers docs))) (volume.docs docs)).2 with
  | true =>
      exact (hend hresult (List.ne_nil_of_mem (himsis.2 ht))).2 (himsis.2 ht)
  | false =>
      rcases hkept with rfl | hkept
      · exact hnot hresult ht
      · rw [hresult] at hkept
        cases hkept

end Texts

end Subscribers
end Kelt
