import Kelt.Lib.Dict
import Kelt.Lib.PyText
import Kelt.Lib.Slots
import Mathlib.Data.Char
import Mathlib.Data.List.Lex
import Mathlib.Order.Bounds.Basic

/-!
# The feed of UE events

`_deduplicate_events` goes once over the events, newest first. The event types
that come in bursts are merged into one row for each type, IMSI and bucket of 30
seconds; of some other types only the newest event with a key is kept. The row
of a burst is changed where it stands in the list, so what is known of the rows
is known of them at their places (`Feed.Inv`).

What `datetime.fromisoformat` makes of a timestamp is left open.
-/

namespace Kelt
namespace Ue

universe u

section Events

/-- The fields that are read, of an event that may lack them. -/
structure Event (ρ : Type u) where
  type : Text
  ts : Text
  imsi : Text
  gnbIp : Text
  source : Text
  ueIp : Text
  dnn : Text
  rest : ρ

/-- `_normalize_gnb_ip` -/
def normalizeGnbIp (ip : Text) : Text :=
  if ip.contains ':' && !(ip.head? == some '[') then before ':' ip else ip

/-- `_BURST_EVENT_TYPES` -/
def burstEventTypes : List Text :=
  ["registration_req", "registration_fail", "auth_reject",
    "deregistration_req", "deregistration_ok", "pdu_request",
    "pdu_session_est"].map String.toList

/-- `_BURST_BUCKET_SECONDS` -/
def burstBucketSeconds : Int := 30

/-- `_ts_bucket`; `epoch` is the time of a text that `fromisoformat` reads. -/
def tsBucket (epoch : Text → Option Int) (ts : Text) (size : Int) :
    Option Int :=
  if ts.length < 19 then none
  else
    (epoch (ts.flatMap fun c => if c = 'Z' then "+00:00".toList else [c])).map
      fun t => t / size * size

variable {ρ : Type u}

/-- The key by which an event of another type is kept once. -/
def Event.key (ev : Event ρ) : Option Text :=
  if ev.type = "gnb_connect".toList then some (normalizeGnbIp ev.gnbIp)
  else if ev.type ∈ ["registration_ok", "ue_context_release",
      "service_request"].map String.toList then some ev.imsi
  else if ev.type ∈ ["ue_count_change", "session_count_change"].map
      String.toList then some ev.source
  else if ev.type = "pdu_session_est".toList then
    some (ev.imsi ++ ':' :: ev.ueIp ++ ':' :: ev.dnn)
  else none

def Event.isBurst (ev : Event ρ) : Bool :=
  burstEventTypes.contains ev.type

/-- Type, IMSI and bucket. -/
abbrev BurstKey := Text × Text × Int

/-- The key of a burst event with a timestamp that can be read. -/
def Event.burstKey (epoch : Text → Option Int) (ev : Event ρ) :
    Option BurstKey :=
  (tsBucket epoch ev.ts burstBucketSeconds).map fun b => (ev.type, ev.imsi, b)

/-- A row of the feed: an event as it is, or one with the fields of a burst. -/
inductive Row (ρ : Type u) where
  | single (ev : Event ρ)
  | burst (ev : Event ρ) (multiplicity : Nat) (firstTs lastTs : Text)

/-- `agg["multiplicity"] += 1`, and `first_ts` when the event is older. -/
def Row.merge (ts : Text) : Row ρ → Row ρ
  | .burst ev n firstTs lastTs =>
      .burst ev (n + 1) (if ts ≠ [] ∧ ts < firstTs then ts else firstTs) lastTs
  | row => row

/-- `latest_keys`, `burst` with the places of its rows, and `out`. -/
structure Feed (ρ : Type u) where
  latestKeys : List (Text × List Text)
  burst : List (BurstKey × Nat)
  out : List (Row ρ)

def Feed.init : Feed ρ :=
  ⟨[], [], []⟩

def Feed.append (s : Feed ρ) (row : Row ρ) : Feed ρ :=
  { s with out := s.out ++ [row] }

/-- An event of a burst type. -/
def Feed.addBurst (epoch : Text → Option Int) (s : Feed ρ) (ev : Event ρ) :
    Feed ρ :=
  let row := Row.burst ev 1 ev.ts ev.ts
  match ev.burstKey epoch with
  | none => s.append row
  | some key =>
      match Dict.getItem key s.burst with
      | some i => { s with out := s.out.modify i (Row.merge ev.ts) }
      | none =>
          { s.append row with burst := Dict.setItem key s.out.length s.burst }

/-- An event of another type. -/
def Feed.addSingle (s : Feed ρ) (ev : Event ρ) : Feed ρ :=
  match ev.key with
  | none => s.append (.single ev)
  | some key =>
      let seen := (Dict.getItem ev.type s.latestKeys).getD []
      if key ≠ [] ∧ key ∈ seen then s
      else
        { s.append (.single ev) with
          latestKeys := Dict.setItem ev.type
            (if key ≠ [] then key :: seen else seen) s.latestKeys }

def Feed.add (epoch : Text → Option Int) (s : Feed ρ) (ev : Event ρ) :
    Feed ρ :=
  if ev.isBurst then s.addBurst epoch ev else s.addSingle ev

/-- `_deduplicate_events` -/
def deduplicateEvents (epoch : Text → Option Int) (events : List (Event ρ)) :
    List (Row ρ) :=
  (events.foldl (Feed.add epoch) Feed.init).out

end Events

section Deduplicated

variable {ρ : Type u}

def Row.event : Row ρ → Event ρ
  | .single ev => ev
  | .burst ev _ _ _ => ev

def Row.multiplicity : Row ρ → Nat
  | .single _ => 0
  | .burst _ n _ _ => n

/-- The key of a burst event, if it is one and has a readable timestamp. -/
def Event.merges (epoch : Text → Option Int) (ev : Event ρ) :
    Option BurstKey :=
  if ev.isBurst then ev.burstKey epoch else none

/-- The burst events with a key. -/
def group (epoch : Text → Option Int) (events : List (Event ρ))
    (key : BurstKey) : List (Event ρ) :=
  events.filter fun ev => ev.merges epoch == some key

/-- What a row says of the events that it stands for. -/
def Row.Tells (epoch : Text → Option Int) (events : List (Event ρ)) :
    Row ρ → Prop
  | .single ev => ev.isBurst = false
  | .burst ev n firstTs lastTs =>
      ev.isBurst = true ∧
        match ev.burstKey epoch with
        | none => n = 1 ∧ firstTs = ev.ts ∧ lastTs = ev.ts
        | some key =>
            n = (group epoch events key).length ∧
              IsLeast { t | ∃ ev ∈ group epoch events key, ev.ts = t } firstTs ∧
              IsGreatest { t | ∃ ev ∈ group epoch events key, ev.ts = t } lastTs

/-- The newest of the events comes first, as far as their timestamps can be
read. -/
def NewestFirst (epoch : Text → Option Int) (events : List (Event ρ)) : Prop :=
  events.Pairwise fun ev ev' => (ev.merges epoch).isSome →
    (ev'.merges epoch).isSome → ev'.ts ≤ ev.ts

/-- The rows stand for the events: each row has the event at its place in
`kept`. -/
structure Deduplicated (epoch : Text → Option Int) (events : List (Event ρ))
    (rows : List (Row ρ)) (kept : List Nat) : Prop where
  order : kept.Pairwise (· < ·)
  rows_eq : rows.map (fun row => some row.event) =
    kept.map (fun i => events[i]?)
  tells : ∀ row ∈ rows, row.Tells epoch events
  count : (rows.map Row.multiplicity).sum = events.countP Event.isBurst
  once : ∀ (i j : Nat) row row' key, rows[i]? = some row →
    rows[j]? = some row' → row.event.merges epoch = some key →
    row'.event.merges epoch = some key → i = j
  all : ∀ key, (∃ row ∈ rows, row.event.merges epoch = some key) ↔
    ∃ ev ∈ events, ev.merges epoch = some key
  apart : ∀ i ev, events[i]? = some ev → ev.isBurst = true →
    ev.burstKey epoch = none → i ∈ kept
  dropped : ∀ i ev, events[i]? = some ev → ev.isBurst = false → i ∉ kept →
    ∃ j newer, j < i ∧ j ∈ kept ∧ events[j]? = some newer ∧
      newer.type = ev.type ∧ ∃ key, key ≠ [] ∧ ev.key = some key ∧
        newer.key = some key

end Deduplicated

section Invariant

variable {ρ : Type u} {epoch : Text → Option Int}

theorem group_concat (events : List (Event ρ)) (ev : Event ρ)
    (key : BurstKey) :
    group epoch (events ++ [ev]) key =
      group epoch events key ++
        if ev.merges epoch = some key then [ev] else [] := by
  unfold group
  rw [List.filter_append]
  by_cases h : ev.merges epoch = some key
  · simp [h]
  · simp [h]

/-- A row tells the same of more events when they are none of its own. -/
theorem Row.Tells.concat {events : List (Event ρ)} {row : Row ρ}
    (h : row.Tells epoch events) {ev : Event ρ}
    (hne : ∀ key, row.event.merges epoch = some key →
      ev.merges epoch ≠ some key) :
    row.Tells epoch (events ++ [ev]) := by
  cases row with
  | single ev' => exact h
  | burst ev' n firstTs lastTs =>
      obtain ⟨hburst, htells⟩ := h
      refine ⟨hburst, ?_⟩
      cases hkey : ev'.burstKey epoch with
      | none =>
          rw [hkey] at htells
          exact htells
      | some key =>
          have hmerges : ev'.merges epoch = some key := by
            rw [Event.merges, if_pos hburst, hkey]
          simp only [hkey] at htells ⊢
          rw [group_concat, if_neg (hne key hmerges), List.append_nil]
          exact htells

theorem Row.event_merge (ts : Text) (row : Row ρ) :
    (row.merge ts).event = row.event := by
  cases row with
  | single ev => rfl
  | burst ev n firstTs lastTs => rfl

/-- A timestamp that can be read is not empty. -/
theorem ts_ne_nil_of_merges {ev : Event ρ} {key : BurstKey}
    (h : ev.merges epoch = some key) : ev.ts ≠ [] := by
  intro hts
  unfold Event.merges Event.burstKey tsBucket at h
  rw [hts] at h
  split at h
  · cases h
  · cases h

/-- The row of a burst takes one more of its events, none newer than it. -/
theorem Row.Tells.merge {events : List (Event ρ)} {row : Row ρ}
    (h : row.Tells epoch events) {ev : Event ρ} {key : BurstKey}
    (hrow : row.event.merges epoch = some key)
    (hev : ev.merges epoch = some key)
    (holder : ∀ ev' ∈ group epoch events key, ev.ts ≤ ev'.ts) :
    (row.merge ev.ts).Tells epoch (events ++ [ev]) := by
  cases row with
  | single ev' =>
      have hsingle : ev'.isBurst = false := h
      rw [Row.event, Event.merges, hsingle] at hrow
      cases hrow
  | burst ev' n firstTs lastTs =>
      obtain ⟨hburst, htells⟩ := h
      have hkey : ev'.burstKey epoch = some key := by
        rwa [Row.event, Event.merges, if_pos hburst] at hrow
      refine ⟨hburst, ?_⟩
      simp only [hkey] at htells ⊢
      obtain ⟨hn, ⟨hfirst, hleast⟩, hlast, hgreatest⟩ := htells
      rw [group_concat, if_pos hev]
      refine ⟨?_, ⟨?_, ?_⟩, ?_, ?_⟩
      · rw [hn, List.length_append]
        rfl
      · split
        · exact ⟨ev, List.mem_append_right _ List.mem_cons_self, rfl⟩
        · obtain ⟨ev₀, hmem, hts⟩ := hfirst
          exact ⟨ev₀, List.mem_append_left _ hmem, hts⟩
      · rintro t ⟨ev₀, hmem, rfl⟩
        rcases List.mem_append.1 hmem with hmem | hmem
        · have hle := hleast ⟨ev₀, hmem, rfl⟩
          split
          · rename_i hlt
            exact le_of_lt (lt_of_lt_of_le hlt.2 hle)
          · exact hle
        · rw [List.mem_singleton.1 hmem]
          split
          · exact le_refl _
          · rename_i hlt
            exact not_lt.1 fun h => hlt ⟨ts_ne_nil_of_merges hev, h⟩
      · obtain ⟨ev₀, hmem, hts⟩ := hlast
        exact ⟨ev₀, List.mem_append_left _ hmem, hts⟩
      · rintro t ⟨ev₀, hmem, rfl⟩
        rcases List.mem_append.1 hmem with hmem | hmem
        · exact hgreatest ⟨ev₀, hmem, rfl⟩
        · obtain ⟨ev₁, hmem₁, rfl⟩ := hlast
          rw [List.mem_singleton.1 hmem]
          exact holder ev₁ hmem₁

theorem sum_map_modify {α : Type*} {f : α → α} {g : α → Nat} {l : List α}
    {i : Nat} {a : α} (hi : l[i]? = some a) (hf : g (f a) = g a + 1) :
    ((l.modify i f).map g).sum = (l.map g).sum + 1 := by
  induction l generalizing i with
  | nil => cases hi
  | cons b rest ih =>
      cases i with
      | zero =>
          obtain rfl := Option.some.inj hi
          simp only [List.modify_zero_cons, List.map_cons, List.sum_cons, hf]
          omega
      | succ i =>
          have hrest := ih (i := i) hi
          simp only [List.modify_succ_cons, List.map_cons, List.sum_cons,
            hrest]
          omega

end Invariant

section Steps

variable {ρ : Type u} {epoch : Text → Option Int} {events : List (Event ρ)}
  {rows : List (Row ρ)} {kept : List Nat} {ev : Event ρ}

theorem map_getElem?_concat (hlt : ∀ i ∈ kept, i < events.length) :
    kept.map (fun i => (events ++ [ev])[i]?) =
      kept.map (fun i => events[i]?) :=
  List.map_congr_left fun i hi => List.getElem?_append_left (hlt i hi)

theorem countP_concat (events : List (Event ρ)) (ev : Event ρ) :
    (events ++ [ev]).countP Event.isBurst =
      events.countP Event.isBurst + if ev.isBurst then 1 else 0 := by
  rw [List.countP_append, List.countP_singleton]

/-- What was dropped stays so. -/
theorem Deduplicated.dropped_concat (h : Deduplicated epoch events rows kept)
    (hlt : ∀ i ∈ kept, i < events.length) {kept' : List Nat}
    (hkept : ∀ i ∈ kept, i ∈ kept')
    (hlast : ev.isBurst = false → events.length ∉ kept' →
      ∃ j newer, j ∈ kept ∧ events[j]? = some newer ∧
        newer.type = ev.type ∧ ∃ key, key ≠ [] ∧ ev.key = some key ∧
          newer.key = some key) :
    ∀ i ev', (events ++ [ev])[i]? = some ev' → ev'.isBurst = false →
      i ∉ kept' → ∃ j newer, j < i ∧ j ∈ kept' ∧
        (events ++ [ev])[j]? = some newer ∧ newer.type = ev'.type ∧
          ∃ key, key ≠ [] ∧ ev'.key = some key ∧ newer.key = some key := by
  intro i ev' hi hsingle hnot
  rcases getElem?_append_cases hi with ⟨rfl, rfl⟩ | ⟨-, hi⟩
  · obtain ⟨j, newer, hj, hnewer, hsame⟩ := hlast hsingle hnot
    exact ⟨j, newer, hlt j hj, hkept j hj, getElem?_append_of_some _ hnewer,
      hsame⟩
  · obtain ⟨j, newer, hji, hj, hnewer, hsame⟩ :=
      h.dropped i ev' hi hsingle fun hmem => hnot (hkept i hmem)
    exact ⟨j, newer, hji, hkept j hj, getElem?_append_of_some _ hnewer, hsame⟩

/-- A row of its own. -/
theorem Deduplicated.append (h : Deduplicated epoch events rows kept)
    (hlt : ∀ i ∈ kept, i < events.length) {row : Row ρ}
    (hrow : row.event = ev) (htells : row.Tells epoch (events ++ [ev]))
    (hcount : row.multiplicity = if ev.isBurst then 1 else 0)
    (hnew : ∀ key, ev.merges epoch = some key →
      ∀ row ∈ rows, row.event.merges epoch ≠ some key) :
    Deduplicated epoch (events ++ [ev]) (rows ++ [row])
      (kept ++ [events.length]) where
  order := by
    rw [List.pairwise_append]
    refine ⟨h.order, List.pairwise_singleton _ _, fun i hi j hj => ?_⟩
    rw [List.mem_singleton.1 hj]
    exact hlt i hi
  rows_eq := by
    rw [List.map_append, List.map_append, h.rows_eq, map_getElem?_concat hlt,
      List.map_singleton, List.map_singleton, hrow, List.getElem?_concat_length]
  tells := by
    intro row' hrow'
    rcases List.mem_append.1 hrow' with hmem | hmem
    · exact (h.tells row' hmem).concat fun key hkey hev =>
        hnew key hev row' hmem hkey
    · rw [List.mem_singleton.1 hmem]
      exact htells
  count := by
    rw [List.map_append, List.sum_append, h.count, countP_concat, List.map_singleton,
      List.sum_singleton, hcount]
  once := by
    intro i j row₁ row₂ key hi hj hkey₁ hkey₂
    rcases getElem?_append_cases hi with ⟨rfl, rfl⟩ | ⟨-, hi'⟩
    · rcases getElem?_append_cases hj with ⟨rfl, rfl⟩ | ⟨-, hj'⟩
      · rfl
      · rw [hrow] at hkey₁
        exact absurd hkey₂ (hnew key hkey₁ _ (List.mem_of_getElem? hj'))
    · rcases getElem?_append_cases hj with ⟨rfl, rfl⟩ | ⟨-, hj'⟩
      · rw [hrow] at hkey₂
        exact absurd hkey₁ (hnew key hkey₂ _ (List.mem_of_getElem? hi'))
      · exact h.once i j row₁ row₂ key hi' hj' hkey₁ hkey₂
  all := by
    intro key
    constructor
    · rintro ⟨row', hmem, hkey⟩
      rcases List.mem_append.1 hmem with hmem | hmem
      · obtain ⟨ev', hev', hkey'⟩ := (h.all key).1 ⟨row', hmem, hkey⟩
        exact ⟨ev', List.mem_append_left _ hev', hkey'⟩
      · rw [List.mem_singleton.1 hmem, hrow] at hkey
        exact ⟨ev, List.mem_append_right _ List.mem_cons_self, hkey⟩
    · rintro ⟨ev', hmem, hkey⟩
      rcases List.mem_append.1 hmem with hmem | hmem
      · obtain ⟨row', hrow', hkey'⟩ := (h.all key).2 ⟨ev', hmem, hkey⟩
        exact ⟨row', List.mem_append_left _ hrow', hkey'⟩
      · rw [List.mem_singleton.1 hmem, ← hrow] at hkey
        exact ⟨row, List.mem_append_right _ List.mem_cons_self, hkey⟩
  apart := by
    intro i ev' hi hburst hkey
    rcases getElem?_append_cases hi with ⟨rfl, rfl⟩ | ⟨-, hi⟩
    · exact List.mem_append_right _ List.mem_cons_self
    · exact List.mem_append_left _ (h.apart i ev' hi hburst hkey)
  dropped :=
    h.dropped_concat hlt (fun _ hi => List.mem_append_left _ hi) fun _ hnot =>
      absurd (List.mem_append_right _ List.mem_cons_self) hnot

/-- An event that is dropped. -/
theorem Deduplicated.drop (h : Deduplicated epoch events rows kept)
    (hlt : ∀ i ∈ kept, i < events.length) (hsingle : ev.isBurst = false)
    (hnewer : ∃ j newer, j ∈ kept ∧ events[j]? = some newer ∧
      newer.type = ev.type ∧ ∃ key, key ≠ [] ∧ ev.key = some key ∧
        newer.key = some key) :
    Deduplicated epoch (events ++ [ev]) rows kept where
  order := h.order
  rows_eq := by
    rw [h.rows_eq, map_getElem?_concat hlt]
  tells := by
    intro row hrow
    refine (h.tells row hrow).concat fun key _ hev => ?_
    rw [Event.merges, hsingle] at hev
    cases hev
  count := by
    rw [h.count, countP_concat, hsingle]
    rfl
  once := h.once
  all := by
    intro key
    rw [h.all key]
    refine exists_congr fun ev' => and_congr_left fun hkey => ?_
    rw [List.mem_append, List.mem_singleton]
    refine (or_iff_left fun hev => ?_).symm
    rw [hev, Event.merges, hsingle] at hkey
    cases hkey
  apart := by
    intro i ev' hi hburst hkey
    rcases getElem?_append_cases hi with ⟨rfl, rfl⟩ | ⟨-, hi⟩
    · rw [hsingle] at hburst
      cases hburst
    · exact h.apart i ev' hi hburst hkey
  dropped := h.dropped_concat hlt (fun _ hi => hi) fun _ _ => hnewer

/-- An event that goes into the row of its burst. -/
theorem Deduplicated.merge (h : Deduplicated epoch events rows kept)
    (hlt : ∀ i ∈ kept, i < events.length) {key : BurstKey} {i : Nat}
    {row : Row ρ} (hi : rows[i]? = some row)
    (hrow : row.event.merges epoch = some key)
    (hev : ev.merges epoch = some key)
    (holder : ∀ ev' ∈ group epoch events key, ev.ts ≤ ev'.ts) :
    Deduplicated epoch (events ++ [ev]) (rows.modify i (Row.merge ev.ts))
      kept := by
  have hburst : ev.isBurst = true := by
    by_contra hsingle
    rw [Event.merges, if_neg hsingle] at hev
    cases hev
  -- a row afterwards has the event of the one that was there
  have hrows : ∀ (j : Nat) row', (rows.modify i (Row.merge ev.ts))[j]? =
      some row' → ∃ row₀, rows[j]? = some row₀ ∧ row'.event = row₀.event ∧
        row' = if i = j then row₀.merge ev.ts else row₀ := by
    intro j row' hj
    rw [List.getElem?_modify] at hj
    obtain ⟨row₀, hrow₀, rfl⟩ := Option.map_eq_some_iff.1 hj
    refine ⟨row₀, hrow₀, ?_, rfl⟩
    split
    · exact row₀.event_merge ev.ts
    · rfl
  have hmap : (rows.modify i (Row.merge ev.ts)).map (fun row => some row.event) =
      rows.map (fun row => some row.event) := by
    refine List.ext_getElem? fun j => ?_
    rw [List.getElem?_map, List.getElem?_map, List.getElem?_modify]
    cases rows[j]? with
    | none => rfl
    | some row₀ =>
        simp only [Option.map_eq_map, Option.map_some]
        split
        · rw [row₀.event_merge ev.ts]
        · rfl
  refine ⟨h.order, ?_, fun row' hmem => ?_, ?_, ?_, fun k => ?_, ?_, ?_⟩
  · rw [hmap, h.rows_eq, map_getElem?_concat hlt]
  · obtain ⟨j, hj⟩ := List.mem_iff_getElem?.1 hmem
    obtain ⟨row₀, hrow₀, -, rfl⟩ := hrows j row' hj
    have htells := h.tells row₀ (List.mem_of_getElem? hrow₀)
    by_cases hij : i = j
    · subst hij
      obtain rfl := Option.some.inj (hi.symm.trans hrow₀)
      rw [if_pos rfl]
      exact htells.merge hrow hev holder
    · rw [if_neg hij]
      refine htells.concat fun key' hkey' hev' => hij ?_
      obtain rfl := Option.some.inj (hev.symm.trans hev')
      exact h.once i j row row₀ key hi hrow₀ hrow hkey'
  · have hmult : (row.merge ev.ts).multiplicity = row.multiplicity + 1 := by
      cases row with
      | single ev' =>
          have hsingle : ev'.isBurst = false :=
            h.tells _ (List.mem_of_getElem? hi)
          rw [Row.event, Event.merges, hsingle] at hrow
          cases hrow
      | burst ev' n firstTs lastTs => rfl
    rw [sum_map_modify hi hmult, h.count, countP_concat, if_pos hburst]
  · intro j j' row₁ row₂ key' hj hj' hkey₁ hkey₂
    obtain ⟨row₁', hj, heq₁, -⟩ := hrows j row₁ hj
    obtain ⟨row₂', hj', heq₂, -⟩ := hrows j' row₂ hj'
    exact h.once j j' row₁' row₂' key' hj hj' (heq₁ ▸ hkey₁) (heq₂ ▸ hkey₂)
  · have hevents : ∀ ev', some ev' ∈ (rows.modify i (Row.merge ev.ts)).map
        (fun row => some row.event) ↔ some ev' ∈ rows.map
          (fun row => some row.event) := by
      intro ev'
      rw [hmap]
    constructor
    · rintro ⟨row', hmem, hkey⟩
      obtain ⟨row₀, hrow₀, heq⟩ := List.mem_map.1 ((hevents row'.event).1
        (List.mem_map.2 ⟨row', hmem, rfl⟩))
      rw [← Option.some.inj heq] at hkey
      obtain ⟨ev', hev', hkey'⟩ := (h.all k).1 ⟨row₀, hrow₀, hkey⟩
      exact ⟨ev', List.mem_append_left _ hev', hkey'⟩
    · rintro ⟨ev', hmem, hkey⟩
      have hold : ∃ row ∈ rows, row.event.merges epoch = some k := by
        rcases List.mem_append.1 hmem with hmem | hmem
        · exact (h.all k).2 ⟨ev', hmem, hkey⟩
        · rw [List.mem_singleton.1 hmem, hev] at hkey
          obtain rfl := Option.some.inj hkey
          exact ⟨row, List.mem_of_getElem? hi, hrow⟩
      obtain ⟨row₀, hrow₀, hkey₀⟩ := hold
      obtain ⟨row', hrow', heq⟩ := List.mem_map.1 ((hevents row₀.event).2
        (List.mem_map.2 ⟨row₀, hrow₀, rfl⟩))
      refine ⟨row', hrow', ?_⟩
      rw [Option.some.inj heq, hkey₀]
  · intro j ev' hj hburst' hkey'
    rcases getElem?_append_cases hj with ⟨rfl, rfl⟩ | ⟨-, hj⟩
    · rw [Event.merges, if_pos hburst, hkey'] at hev
      cases hev
    · exact h.apart j ev' hj hburst' hkey'
  · refine h.dropped_concat hlt (fun _ hi => hi) fun hsingle _ => ?_
    rw [hburst] at hsingle
    cases hsingle

end Steps

section Run

variable {ρ : Type u} {epoch : Text → Option Int} {events : List (Event ρ)}
  {s : Feed ρ} {kept : List Nat} {ev : Event ρ}

/-- The rows so far, and what the two indexes know of them. -/
structure Feed.Inv (epoch : Text → Option Int) (events : List (Event ρ))
    (s : Feed ρ) (kept : List Nat) : Prop where
  rows : Deduplicated epoch events s.out kept
  lt : ∀ i ∈ kept, i < events.length
  burst : ∀ key i, Dict.getItem key s.burst = some i →
    ∃ row, s.out[i]? = some row ∧ row.event.merges epoch = some key
  new : ∀ key, Dict.getItem key s.burst = none →
    ∀ row ∈ s.out, row.event.merges epoch ≠ some key
  seen : ∀ type key, key ∈ (Dict.getItem type s.latestKeys).getD [] →
    key ≠ [] ∧ ∃ j newer, j ∈ kept ∧ events[j]? = some newer ∧
      newer.type = type ∧ newer.key = some key

theorem Feed.Inv.init : (Feed.init : Feed ρ).Inv epoch [] [] where
  rows :=
    { order := List.Pairwise.nil
      rows_eq := rfl
      tells := List.forall_mem_nil _
      count := rfl
      once := by intro i j row row' key hi; cases hi
      all := by
        intro key
        constructor
        · rintro ⟨row, hrow, -⟩
          cases hrow
        · rintro ⟨ev, hev, -⟩
          cases hev
      apart := by intro i ev hi; cases hi
      dropped := by intro i ev hi; cases hi }
  lt := List.forall_mem_nil _
  burst := by intro key i h; cases h
  new := fun _ _ => List.forall_mem_nil _
  seen := by intro type key h; cases h

theorem lt_concat (hlt : ∀ i ∈ kept, i < events.length) :
    ∀ i ∈ kept ++ [events.length], i < (events ++ [ev]).length := by
  intro i hi
  rw [List.length_append, List.length_singleton]
  rcases List.mem_append.1 hi with hi | hi
  · exact Nat.lt_succ_of_lt (hlt i hi)
  · rw [List.mem_singleton.1 hi]
    exact Nat.lt_succ_self _

/-- What has been seen, has been seen. -/
theorem Feed.Inv.seen_concat (h : s.Inv epoch events kept) {kept' : List Nat}
    (hkept : ∀ i ∈ kept, i ∈ kept') {type key : Text}
    (hkey : key ∈ (Dict.getItem type s.latestKeys).getD []) :
    key ≠ [] ∧ ∃ j newer, j ∈ kept' ∧ (events ++ [ev])[j]? = some newer ∧
      newer.type = type ∧ newer.key = some key := by
  obtain ⟨hne, j, newer, hj, hnewer, hsame⟩ := h.seen type key hkey
  exact ⟨hne, j, newer, hkept j hj, getElem?_append_of_some _ hnewer, hsame⟩

/-- A burst event goes into the row of its burst, where there is one. -/
theorem Feed.Inv.addBurst (h : s.Inv epoch events kept)
    (hburst : ev.isBurst = true)
    (holder : ∀ key, ev.merges epoch = some key →
      ∀ ev' ∈ group epoch events key, ev.ts ≤ ev'.ts) :
    ∃ kept', (s.addBurst epoch ev).Inv epoch (events ++ [ev]) kept' := by
  have hmerges : ev.merges epoch = ev.burstKey epoch := if_pos hburst
  have hcount : (Row.burst ev 1 ev.ts ev.ts).multiplicity =
      if ev.isBurst then 1 else 0 := by
    rw [if_pos hburst]
    rfl
  have hkept : ∀ i ∈ kept, i ∈ kept ++ [events.length] :=
    fun _ hi => List.mem_append_left _ hi
  unfold Feed.addBurst
  cases hkey : ev.burstKey epoch with
  | none =>
      have hnone : ∀ key, ev.merges epoch ≠ some key := by
        intro key hsome
        rw [hmerges, hkey] at hsome
        cases hsome
      have htells : (Row.burst ev 1 ev.ts ev.ts).Tells epoch
          (events ++ [ev]) := by
        refine ⟨hburst, ?_⟩
        simp only [hkey, and_self]
      refine ⟨kept ++ [events.length],
        h.rows.append h.lt rfl htells hcount
          (fun key hsome => absurd hsome (hnone key)),
        lt_concat h.lt, fun key i hi => ?_, fun key hi row hrow => ?_,
        fun _ _ => h.seen_concat hkept⟩
      · obtain ⟨row, hrow, hkey'⟩ := h.burst key i hi
        exact ⟨row, getElem?_append_of_some _ hrow, hkey'⟩
      · rcases List.mem_append.1 hrow with hrow | hrow
        · exact h.new key hi row hrow
        · rw [List.mem_singleton.1 hrow]
          exact hnone key
  | some key =>
      have hev : ev.merges epoch = some key := hmerges.trans hkey
      simp only
      cases hplace : Dict.getItem key s.burst with
      | some i =>
          obtain ⟨row, hi, hrow⟩ := h.burst key i hplace
          refine ⟨kept, h.rows.merge h.lt hi hrow hev (holder key hev),
            fun j hj => ?_, fun key' j hj => ?_, fun key' hj row' hrow' => ?_,
            fun _ _ => h.seen_concat fun _ hi => hi⟩
          · exact (lt_concat h.lt) j (hkept j hj)
          · obtain ⟨row', hrow', hkey'⟩ := h.burst key' j hj
            refine ⟨if i = j then row'.merge ev.ts else row', ?_, ?_⟩
            · change (s.out.modify i (Row.merge ev.ts))[j]? = _
              rw [List.getElem?_modify, hrow']
              rfl
            · split
              · rw [Row.event_merge, hkey']
              · exact hkey'
          · obtain ⟨j, hj'⟩ := List.mem_iff_getElem?.1 hrow'
            rw [List.getElem?_modify] at hj'
            obtain ⟨row₀, hrow₀, rfl⟩ := Option.map_eq_some_iff.1 hj'
            have hne := h.new key' hj row₀ (List.mem_of_getElem? hrow₀)
            split
            · rw [Row.event_merge]
              exact hne
            · exact hne
      | none =>
          have hgroup : group epoch events key = [] := by
            refine List.filter_eq_nil_iff.2 fun ev' hev' hsame => ?_
            obtain ⟨row, hrow, hkey'⟩ :=
              (h.rows.all key).2 ⟨ev', hev', beq_iff_eq.1 hsame⟩
            exact h.new key hplace row hrow hkey'
          have htells : (Row.burst ev 1 ev.ts ev.ts).Tells epoch
              (events ++ [ev]) := by
            refine ⟨hburst, ?_⟩
            simp only [hkey]
            rw [group_concat, if_pos hev, hgroup, List.nil_append]
            refine ⟨rfl, ⟨⟨ev, List.mem_cons_self, rfl⟩, ?_⟩,
              ⟨ev, List.mem_cons_self, rfl⟩, ?_⟩
            · rintro t ⟨ev', hev', rfl⟩
              rw [List.mem_singleton.1 hev']
            · rintro t ⟨ev', hev', rfl⟩
              rw [List.mem_singleton.1 hev']
          refine ⟨kept ++ [events.length],
            h.rows.append h.lt rfl htells hcount fun key' hsome => ?_,
            lt_concat h.lt, fun key' i hi => ?_, fun key' hi row hrow => ?_,
            fun _ _ => h.seen_concat hkept⟩
          · obtain rfl := Option.some.inj (hev.symm.trans hsome)
            exact h.new key hplace
          · rw [Dict.getItem_setItem] at hi
            split at hi
            · rename_i hsame
              obtain rfl := Option.some.inj hi
              exact ⟨_, List.getElem?_concat_length, hev.trans
                (congrArg some hsame)⟩
            · obtain ⟨row, hrow, hkey'⟩ := h.burst key' i hi
              exact ⟨row, getElem?_append_of_some _ hrow, hkey'⟩
          · rw [Dict.getItem_setItem] at hi
            split at hi
            · cases hi
            · rename_i hne
              rcases List.mem_append.1 hrow with hrow | hrow
              · exact h.new key' hi row hrow
              · rw [List.mem_singleton.1 hrow]
                intro hsame
                exact hne (Option.some.inj (hev.symm.trans hsame))

/-- Another event is dropped when its key has been seen. -/
theorem Feed.Inv.addSingle (h : s.Inv epoch events kept)
    (hsingle : ev.isBurst = false) :
    ∃ kept', (s.addSingle ev).Inv epoch (events ++ [ev]) kept' := by
  have hnone : ∀ key, ev.merges epoch ≠ some key := by
    intro key hsome
    rw [Event.merges, hsingle] at hsome
    cases hsome
  have hcount : (Row.single ev).multiplicity =
      if ev.isBurst then 1 else 0 := by
    rw [hsingle]
    rfl
  have hkept : ∀ i ∈ kept, i ∈ kept ++ [events.length] :=
    fun _ hi => List.mem_append_left _ hi
  have happend : Deduplicated epoch (events ++ [ev]) (s.out ++ [.single ev])
      (kept ++ [events.length]) :=
    h.rows.append h.lt rfl hsingle hcount
      (fun key hsome => absurd hsome (hnone key))
  have hburst : ∀ key i, Dict.getItem key s.burst = some i →
      ∃ row, (s.out ++ [.single ev])[i]? = some row ∧
        row.event.merges epoch = some key := by
    intro key i hi
    obtain ⟨row, hrow, hkey⟩ := h.burst key i hi
    exact ⟨row, getElem?_append_of_some _ hrow, hkey⟩
  have hnew : ∀ key, Dict.getItem key s.burst = none →
      ∀ row ∈ s.out ++ [.single ev], row.event.merges epoch ≠ some key := by
    intro key hi row hrow
    rcases List.mem_append.1 hrow with hrow | hrow
    · exact h.new key hi row hrow
    · rw [List.mem_singleton.1 hrow]
      exact hnone key
  unfold Feed.addSingle
  cases hkey : ev.key with
  | none =>
      exact ⟨_, happend, lt_concat h.lt, hburst, hnew,
        fun _ _ => h.seen_concat hkept⟩
  | some key =>
      simp only
      split
      · rename_i hseen
        obtain ⟨-, j, newer, hj, hnewer, htype, hkey'⟩ :=
          h.seen ev.type key hseen.2
        exact ⟨kept, h.rows.drop h.lt hsingle ⟨j, newer, hj, hnewer, htype,
          key, hseen.1, hkey, hkey'⟩, fun i hi => lt_concat h.lt i (hkept i hi),
          h.burst, h.new, fun _ _ => h.seen_concat fun _ hi => hi⟩
      · refine ⟨_, happend, lt_concat h.lt, hburst, hnew,
          fun type key' hmem => ?_⟩
        rw [Dict.getItem_setItem] at hmem
        by_cases htype : ev.type = type
        · subst htype
          rw [if_pos rfl, Option.getD_some] at hmem
          by_cases hne : key ≠ []
          · rw [if_pos hne] at hmem
            rcases List.mem_cons.1 hmem with rfl | hmem
            · exact ⟨hne, events.length, ev,
                List.mem_append_right _ List.mem_cons_self,
                List.getElem?_concat_length, rfl, hkey⟩
            · exact h.seen_concat hkept hmem
          · rw [if_neg hne] at hmem
            exact h.seen_concat hkept hmem
        · rw [if_neg htype] at hmem
          exact h.seen_concat hkept hmem

theorem Feed.exists_inv (hnewest : NewestFirst epoch events) :
    ∃ kept, (events.foldl (Feed.add epoch) Feed.init).Inv epoch events kept := by
  induction events using List.reverseRecOn with
  | nil => exact ⟨[], Feed.Inv.init⟩
  | append_singleton events ev ih =>
      obtain ⟨hevents, -, hlast⟩ := List.pairwise_append.1 hnewest
      obtain ⟨kept, h⟩ := ih hevents
      rw [List.foldl_append, List.foldl_cons, List.foldl_nil, Feed.add]
      split
      · rename_i hburst
        refine h.addBurst hburst fun key hkey ev' hev' => ?_
        obtain ⟨hmem, hsame⟩ := List.mem_filter.1 hev'
        refine hlast ev' hmem ev List.mem_cons_self ?_ ?_
        · rw [beq_iff_eq.1 hsame]
          rfl
        · rw [hkey]
          rfl
      · rename_i hsingle
        exact h.addSingle (Bool.eq_false_iff.2 hsingle)

/-- Merging the bursts loses no event and keeps the order, and each row tells
how many events it stands for and from when to when. -/
theorem exists_deduplicated (epoch : Text → Option Int)
    (events : List (Event ρ)) (hnewest : NewestFirst epoch events) :
    ∃ kept, Deduplicated epoch events (deduplicateEvents epoch events) kept := by
  obtain ⟨kept, h⟩ := Feed.exists_inv hnewest
  exact ⟨kept, h.rows⟩

/-- A UE that registers twice within four seconds. -/
def twoRetries : List (Event Unit) :=
  ["2026-05-01T10:00:09Z", "2026-05-01T10:00:05Z"].map fun ts =>
    ⟨"registration_req".toList, ts.toList, "imsi-001010000000001".toList, [],
      [], [], [], ()⟩

/-- The times of the two, as `fromisoformat` reads them. -/
def twoRetriesEpoch (ts : Text) : Option Int :=
  if ts = "2026-05-01T10:00:09+00:00".toList then some 1777629609
  else if ts = "2026-05-01T10:00:05+00:00".toList then some 1777629605
  else none

theorem exists_deduplicated_twoRetries :
    NewestFirst twoRetriesEpoch twoRetries ∧
      ∃ kept, Deduplicated twoRetriesEpoch twoRetries
        (deduplicateEvents twoRetriesEpoch twoRetries) kept := by
  have hnewest : NewestFirst twoRetriesEpoch twoRetries := by
    unfold NewestFirst
    decide
  exact ⟨hnewest, exists_deduplicated twoRetriesEpoch twoRetries hnewest⟩

example : (deduplicateEvents twoRetriesEpoch twoRetries).map Row.multiplicity =
    [2] := by
  decide

end Run

end Ue
end Kelt
