import Kelt.Lib.Dict
import Kelt.Lib.Places
import Kelt.Lib.PyInt
import Mathlib.Data.Char
import Mathlib.Data.List.Lex

/-!
# The active UEs

`get_active_ues` lists the UEs of the AMF with the sessions of the SMF. Where the
gNBs count fewer UEs than the AMF has connected, the excess is shown as stale,
the oldest last activity first. That activity is kept in a cache, and a poll sets
it to now for every connected UE before it sorts by it. So the order of the AMF
decides, and the UEs that are shown as stale are the right ones only in a poll
that has no choice (`lawful_run_iff`).

The subscription and the nickname that a row gets from the database are left out;
they are looked up by the IMSI.
-/

namespace Kelt
namespace Ue
namespace Active

universe u

section Answers

/-- A UE of the AMF, with the PSIs of its sessions. The values that are only
passed on are of any type. -/
structure AmfUe (ν : Type u) where
  supi : Text
  cmState : Text
  psis : List Int
  gnbId : Option ν
  tac : Option ν

structure Pdu (ν : Type u) where
  psi : Option Int
  dnn : Text
  ipv4 : Text
  pduState : Text
  snssai : Option ν

structure SmfUe (ν : Type u) where
  supi : Text
  pdus : List (Pdu ν)

structure Gnb where
  peer : Text
  numConnectedUes : Option Int

/-- One answer of a listing. -/
structure Page (α : Type u) where
  items : List α
  count : Int

/-- The loop over the pages, as they are answered one after the other; what is
not there is answered with no items. -/
def fetchItems {α : Type u} (items : List α) : List (Page α) → List α
  | [] => items
  | page :: pages =>
      let items := items ++ page.items
      if page.count ≤ items.length ∨ page.items.isEmpty then items
      else fetchItems items pages

/-- What the network functions answer to one poll, and its time. -/
structure Poll (ν : Type u) where
  now : Text
  amf : List (Page (AmfUe ν))
  smf : List (Page (SmfUe ν))
  gnbs : List Gnb

def imsiPrefix : Text :=
  "imsi-".toList

/-- `supi.removeprefix("imsi-")` -/
def imsiOf (supi : Text) : Text :=
  if imsiPrefix <+: supi then supi.drop imsiPrefix.length else supi

def connectedState : Text :=
  "connected".toList

def inactiveState : Text :=
  "inactive".toList

end Answers

section Sessions

variable {ν : Type u}

structure Session (ν : Type u) where
  psi : Option Int
  dnn : Text
  ueIp : Text
  pduState : Text
  snssai : Option ν
  ts : Text

/-- `psi_filter` -/
def psiFilter (ues : List (AmfUe ν)) : Dict Text (List Int) :=
  ues.foldl (fun filter ue =>
    if imsiOf ue.supi = [] then filter
    else filter.set (imsiOf ue.supi) ue.psis) .empty

/-- The PSIs that are shown; none of them stands for all. -/
def allowed (filter : Dict Text (List Int)) (imsi : Text) :
    Option (List Int) :=
  (filter.get? imsi).filter fun psis => !psis.isEmpty

def sessions (filter : Dict Text (List Int)) (item : SmfUe ν) :
    List (Session ν) :=
  (item.pdus.filter fun pdu =>
      decide (pdu.pduState ≠ inactiveState) &&
        (allowed filter (imsiOf item.supi)).all fun psis =>
          pdu.psi.any psis.contains).map fun pdu =>
    ⟨pdu.psi, pdu.dnn, pdu.ipv4, pdu.pduState, pdu.snssai, []⟩

/-- `_get_pdu_by_imsi` -/
def getPduByImsi (filter : Dict Text (List Int)) (items : List (SmfUe ν)) :
    Dict Text (List (Session ν)) :=
  items.foldl (fun byImsi item =>
    if imsiOf item.supi = [] then byImsi
    else byImsi.set (imsiOf item.supi) (sessions filter item)) .empty

end Sessions

section Rows

variable {ν : Type u}

inductive Status where
  | registered
  | idle
  | stale
deriving DecidableEq

inductive Plmn where
  | raw (imsi : Text)
  | parts (imsi mcc mnc msin : Text) (isTestPlmn : Bool)

/-- `_parse_imsi`, of ASCII digits. -/
def parseImsi (imsi : Text) : Plmn :=
  if imsi.length < 6 ∨ imsi.all Char.isDigit = false then .raw imsi
  else
    let mcc := imsi.take 3
    .parts imsi mcc ((imsi.drop 3).take 2) (imsi.drop 5)
      (decide (mcc = "001".toList ∨ mcc = "999".toList))

structure Row (ν : Type u) where
  imsi : Text
  status : Status
  lastSeen : Text
  sessions : List (Session ν)
  cmState : Text
  gnbId : Option ν
  tac : Option ν
  plmn : Plmn
  gnbIp : Option Text
  statusReason : Option Text

/-- `_last_seen_cache` -/
abbrev Cache := Dict Text Text

/-- The loop over the UEs of the AMF. -/
def activeRows (now : Text) (pdus : Dict Text (List (Session ν)))
    (cache : Cache) : List (AmfUe ν) → Cache × List (Row ν)
  | [] => (cache, [])
  | ue :: ues =>
      let imsi := imsiOf ue.supi
      if imsi = [] then activeRows now pdus cache ues
      else
        let status : Status :=
          if ue.cmState = connectedState then .registered else .idle
        let cache :=
          if status = .registered then cache.set imsi now else cache
        let row : Row ν :=
          { imsi, status, lastSeen := (cache.get? imsi).getD [],
            sessions := (pdus.get? imsi).getD [], cmState := ue.cmState,
            gnbId := ue.gnbId, tac := ue.tac, plmn := parseImsi imsi,
            gnbIp := none, statusReason := none }
        let rest := activeRows now pdus cache ues
        (rest.1, row :: rest.2)

def gnbUeCount (gnbs : List Gnb) : Int :=
  (gnbs.map fun g => g.numConnectedUes.getD 0).sum

def isRegistered (u : Row ν) : Bool :=
  u.status = .registered

/-- The connected UEs with their places, the oldest activity first. -/
def byLastSeen (active : List (Row ν)) : List (Row ν × ℕ) :=
  (placed isRegistered active).mergeSort fun u v =>
    decide (u.1.lastSeen ≤ v.1.lastSeen)

def staleReason (connected : ℕ) (gnbUeCount : Int) : Text :=
  "AMF reports ".toList ++ intText connected ++ " CM-CONNECTED UE".toList ++
    (if connected = 1 then [] else "s".toList) ++
    " but gNB reports ".toList ++ intText gnbUeCount ++
    (". Likely hard crash or radio drop without " ++
      "Deregistration.").toList

/-- The row of a UE that is taken for stale. -/
def Row.stale (reason : Text) (u : Row ν) : Row ν :=
  { u with status := .stale, statusReason := some reason, sessions := [] }

/-- The detection of stale UEs. -/
def markStale (gnbs : List Gnb) (active : List (Row ν)) : List (Row ν) :=
  let connected := byLastSeen active
  let count := gnbUeCount gnbs
  if gnbs ≠ [] ∧ count < connected.length then
    let excess := (connected.length - count).toNat
    changeAt (Row.stale (staleReason connected.length count))
      ((connected.take excess).map Prod.snd) active
  else active

/-- The address in an SCTP peer. -/
def gnbIpOf (peer : Text) : Text :=
  if peer.head? = some '[' then
    if ']' ∈ peer then before ']' (peer.drop 1) else (peer.drop 1).dropLast
  else before ':' peer

/-- The peer address, where there is one gNB. -/
def attachGnbIp (gnbs : List Gnb) (u : Row ν) : Row ν :=
  match gnbs with
  | [g] =>
      if gnbIpOf g.peer = [] then u
      else { u with gnbIp := some (gnbIpOf g.peer) }
  | _ => u

/-- `_DEFAULT_REASONS` -/
def defaultReasons : Status → Option Text
  | .idle =>
      some ("Registered. PDU session and IP preserved. Radio suspended for " ++
        "power saving; reactivates on next packet (Service Request).").toList
  | .stale =>
      some ("AMF context present but the gNB reports a lower UE count. " ++
        "Likely orphaned context after a hard drop without " ++
        "Deregistration.").toList
  | .registered => none

def setDefaultReason (u : Row ν) : Row ν :=
  { u with statusReason := u.statusReason.or (defaultReasons u.status) }

/-- `get_active_ues`: the cache that it leaves and the rows. -/
def getActiveUes (cache : Cache) (poll : Poll ν) : Cache × List (Row ν) :=
  let amfUes := fetchItems [] poll.amf
  let pdus := getPduByImsi (psiFilter amfUes) (fetchItems [] poll.smf)
  let active := activeRows poll.now pdus cache amfUes
  let rows := (markStale poll.gnbs active.2).map fun u =>
    setDefaultReason (attachGnbIp poll.gnbs u)
  (active.1, rows.mergeSort fun u v => decide (u.imsi ≤ v.imsi))

/-- The cache after some polls. -/
def cacheAfter (past : List (Poll ν)) : Cache :=
  past.foldl (fun cache poll => (getActiveUes cache poll).1) .empty

/-- The rows of a poll after others. -/
def shown (past : List (Poll ν)) (poll : Poll ν) : List (Row ν) :=
  (getActiveUes (cacheAfter past) poll).2

end Rows

section Laws

variable {ν : Type u}

/-- The UE is one that the AMF has connected. -/
def AmfUe.isConnected (ue : AmfUe ν) : Bool :=
  decide (imsiOf ue.supi ≠ [] ∧ ue.cmState = connectedState)

/-- The IMSIs of the connected UEs, as the AMF lists them. -/
def Poll.connected (poll : Poll ν) : List Text :=
  ((fetchItems [] poll.amf).filter AmfUe.isConnected).map fun ue =>
    imsiOf ue.supi

/-- The number of polls since the UE was last connected; all of them where it
never was. -/
def age (past : List (Poll ν)) (imsi : Text) : ℕ :=
  past.reverse.findIdx fun poll => decide (imsi ∈ poll.connected)

/-- The IMSIs of the rows with a status. -/
def imsisOf (status : Status) (rows : List (Row ν)) : List Text :=
  (rows.filter fun u => u.status = status).map Row.imsi

/-- What is to hold of the rows of a poll. -/
structure Lawful (past : List (Poll ν)) (poll : Poll ν) : Prop where
  registered_le :
    ((imsisOf .registered (shown past poll)).length : Int) ≤
      gnbUeCount poll.gnbs
  stale_count : ((imsisOf .stale (shown past poll)).length : Int) =
    max 0 (poll.connected.length - gnbUeCount poll.gnbs)
  stale_rows : ∀ u ∈ shown past poll, u.status = .stale →
    u.cmState = connectedState ∧ u.sessions = []
  oldest : ∀ s ∈ imsisOf .stale (shown past poll),
    ∀ r ∈ imsisOf .registered (shown past poll), age past r ≤ age past s
  orderFree : ∀ amf : List (Page (AmfUe ν)),
    (fetchItems [] amf).Perm (fetchItems [] poll.amf) →
    (imsisOf .stale (shown past { poll with amf })).Perm
      (imsisOf .stale (shown past poll))

/-- There is no choice which UEs are stale. -/
def Decided (poll : Poll ν) : Prop :=
  (poll.connected.length : Int) ≤ gnbUeCount poll.gnbs ∨
    gnbUeCount poll.gnbs = 0 ∨
    0 ≤ gnbUeCount poll.gnbs ∧
      ∀ a ∈ poll.connected, ∀ b ∈ poll.connected, a = b

end Laws

section ActiveRows

variable {ν : Type u} (now : Text) (pdus : Dict Text (List (Session ν)))

theorem status_of_mem_activeRows {cache : Cache} {ues : List (AmfUe ν)}
    {u : Row ν} (h : u ∈ (activeRows now pdus cache ues).2) :
    u.status = (if u.cmState = connectedState then .registered else .idle) ∧
      (u.status = .registered → u.lastSeen = now) := by
  induction ues generalizing cache with
  | nil => cases h
  | cons ue ues ih =>
      rw [activeRows] at h
      split at h
      · exact ih h
      · rcases List.mem_cons.1 h with rfl | h
        · refine ⟨rfl, fun hstatus => ?_⟩
          dsimp only at hstatus ⊢
          rw [if_pos hstatus, Dict.get?_set_self]
          rfl
        · exact ih h

theorem isConnected_iff {ue : AmfUe ν} (h : imsiOf ue.supi ≠ []) :
    ue.isConnected = true ↔ ue.cmState = connectedState := by
  unfold AmfUe.isConnected
  rw [decide_eq_true_iff, and_iff_right h]

theorem imsis_activeRows (cache : Cache) (ues : List (AmfUe ν)) :
    ((activeRows now pdus cache ues).2.filter isRegistered).map Row.imsi =
      (ues.filter AmfUe.isConnected).map fun ue => imsiOf ue.supi := by
  induction ues generalizing cache with
  | nil => rfl
  | cons ue ues ih =>
      rw [activeRows]
      split
      · rename_i hnil
        rw [ih, List.filter_cons_of_neg]
        unfold AmfUe.isConnected
        simp [hnil]
      · rename_i himsi
        by_cases hconn : ue.cmState = connectedState
        · rw [List.filter_cons_of_pos ((isConnected_iff himsi).2 hconn),
            List.filter_cons_of_pos (by simp [isRegistered, hconn]),
            List.map_cons, List.map_cons, ih]
        · rw [List.filter_cons_of_neg
              (fun h => hconn ((isConnected_iff himsi).1 h)),
            List.filter_cons_of_neg (by simp [isRegistered, hconn]), ih]

theorem get?_activeRows (cache : Cache) (ues : List (AmfUe ν)) (imsi : Text) :
    (activeRows now pdus cache ues).1.get? imsi =
      if imsi ∈ (ues.filter AmfUe.isConnected).map fun ue => imsiOf ue.supi
      then some now else cache.get? imsi := by
  induction ues generalizing cache with
  | nil => rfl
  | cons ue ues ih =>
      rw [activeRows]
      split
      · rename_i hnil
        rw [ih, List.filter_cons_of_neg]
        unfold AmfUe.isConnected
        simp [hnil]
      · rename_i himsi
        by_cases hconn : ue.cmState = connectedState
        · rw [List.filter_cons_of_pos ((isConnected_iff himsi).2 hconn)]
          dsimp only
          rw [ih, if_pos (if_pos hconn), List.map_cons]
          by_cases hself : imsi = imsiOf ue.supi
          · rw [hself, Dict.get?_set_self, ite_self, if_pos List.mem_cons_self]
          · rw [Dict.get?_set_of_ne cache now hself]
            simp only [List.mem_cons, hself, false_or]
        · rw [List.filter_cons_of_neg
              (fun h => hconn ((isConnected_iff himsi).1 h))]
          have hidle : (if ue.cmState = connectedState then Status.registered
              else .idle) ≠ .registered := by
            rw [if_neg hconn]
            exact Status.noConfusion
          dsimp only
          rw [ih, if_neg hidle]

end ActiveRows

section Cached

variable {ν : Type u}

/-- The cache has the time of the last poll in which a UE was connected. -/
theorem get?_cacheAfter (past : List (Poll ν)) (imsi : Text) :
    (cacheAfter past).get? imsi =
      (past.reverse.find? fun poll => decide (imsi ∈ poll.connected)).map
        Poll.now := by
  induction past using List.reverseRecOn with
  | nil => rfl
  | append_singleton past poll ih =>
      have hstep : (cacheAfter (past ++ [poll])).get? imsi =
          if imsi ∈ poll.connected then some poll.now
          else (cacheAfter past).get? imsi := by
        unfold cacheAfter
        rw [List.foldl_append]
        exact get?_activeRows _ _ _ _ imsi
      rw [hstep, List.reverse_append, List.reverse_singleton,
        List.singleton_append]
      split
      · rename_i hmem
        have hfirst : (poll :: past.reverse).find?
            (fun poll => decide (imsi ∈ poll.connected)) = some poll :=
          List.find?_cons_of_pos (decide_eq_true hmem)
        rw [hfirst]
        rfl
      · rename_i hmem
        rw [List.find?_cons_of_neg (by simpa using hmem), ih]

end Cached

section Marked

variable {ν : Type u}

/-- With one time for all of them, the connected UEs stay in the order of the
AMF. -/
theorem byLastSeen_eq_placed {active : List (Row ν)} {now : Text}
    (hnow : ∀ u ∈ active, u.status = .registered → u.lastSeen = now) :
    byLastSeen active = placed isRegistered active := by
  have hseen : ∀ u ∈ placed isRegistered active, u.1.lastSeen = now := by
    intro u hu
    have hmem : u.1 ∈ active.filter isRegistered := by
      rw [← map_fst_placed]
      exact List.mem_map_of_mem hu
    exact hnow _ (List.mem_filter.1 hmem).1
      (of_decide_eq_true (List.mem_filter.1 hmem).2)
  refine List.mergeSort_of_pairwise (List.pairwise_of_forall_mem_list ?_)
  intro u hu v hv
  rw [hseen u hu, hseen v hv]
  exact decide_eq_true le_rfl

/-- The number of connected UEs that the gNBs do not count. -/
def excess (gnbs : List Gnb) (connected : ℕ) : ℕ :=
  (connected - gnbUeCount gnbs).toNat

/-- The rows behind the detection, up to order: the first connected UEs of the
AMF's list are stale. -/
theorem markStale_perm {gnbs : List Gnb} (hgnbs : gnbs ≠ [])
    {active : List (Row ν)} {now : Text}
    (hnow : ∀ u ∈ active, u.status = .registered → u.lastSeen = now) :
    ∃ reason, (markStale gnbs active).Perm
      (((active.filter isRegistered).take
          (excess gnbs (active.filter isRegistered).length)).map
            (Row.stale reason) ++
        ((active.filter isRegistered).drop
            (excess gnbs (active.filter isRegistered).length) ++
          active.filter fun u => !isRegistered u)) := by
  have hlength : (placed isRegistered active).length =
      (active.filter isRegistered).length := by
    rw [← map_fst_placed, List.length_map]
  unfold markStale
  dsimp only
  rw [byLastSeen_eq_placed hnow, hlength]
  split
  · exact ⟨_, changeAt_take_perm _ isRegistered _ active⟩
  · rename_i hless
    have hexcess : excess gnbs (active.filter isRegistered).length = 0 := by
      rw [not_and] at hless
      have hle := hless hgnbs
      unfold excess
      omega
    rw [hexcess]
    exact ⟨[], (List.filter_append_perm isRegistered active).symm⟩

end Marked

section Shown

variable {ν : Type u} {past : List (Poll ν)} {poll : Poll ν}

theorem setDefaultReason_attachGnbIp (gnbs : List Gnb) (u : Row ν) :
    ∃ gnbIp statusReason, setDefaultReason (attachGnbIp gnbs u) =
      { u with gnbIp, statusReason } := by
  unfold setDefaultReason attachGnbIp
  split
  · split <;> exact ⟨_, _, rfl⟩
  · exact ⟨_, _, rfl⟩

theorem imsisOf_finished (status : Status) (gnbs : List Gnb)
    (rows : List (Row ν)) :
    imsisOf status
        (rows.map fun u => setDefaultReason (attachGnbIp gnbs u)) =
      imsisOf status rows := by
  induction rows with
  | nil => rfl
  | cons u rows ih =>
      obtain ⟨gnbIp, statusReason, hu⟩ := setDefaultReason_attachGnbIp gnbs u
      unfold imsisOf at ih ⊢
      rw [List.map_cons, hu, List.filter_cons, List.filter_cons]
      split
      · rw [List.map_cons, List.map_cons, ih]
      · exact ih

theorem imsisOf_append (status : Status) (rows rest : List (Row ν)) :
    imsisOf status (rows ++ rest) =
      imsisOf status rows ++ imsisOf status rest := by
  unfold imsisOf
  rw [List.filter_append, List.map_append]

theorem imsisOf_of_forall {status : Status} {rows : List (Row ν)}
    (h : ∀ u ∈ rows, u.status = status) :
    imsisOf status rows = rows.map Row.imsi := by
  unfold imsisOf
  rw [List.filter_eq_self.2 fun u hu => decide_eq_true (h u hu)]

theorem imsisOf_eq_nil {status : Status} {rows : List (Row ν)}
    (h : ∀ u ∈ rows, u.status ≠ status) : imsisOf status rows = [] := by
  unfold imsisOf
  rw [List.filter_eq_nil_iff.2 fun u hu => by simpa using h u hu]
  rfl

end Shown

section Result

variable {ν : Type u} {past : List (Poll ν)} {poll : Poll ν}

/-- The rows before the detection. -/
def listed (past : List (Poll ν)) (poll : Poll ν) : List (Row ν) :=
  (activeRows poll.now
    (getPduByImsi (psiFilter (fetchItems [] poll.amf))
      (fetchItems [] poll.smf))
    (cacheAfter past) (fetchItems [] poll.amf)).2

theorem imsis_listed :
    ((listed past poll).filter isRegistered).map Row.imsi = poll.connected :=
  imsis_activeRows _ _ _ _

theorem length_listed :
    ((listed past poll).filter isRegistered).length =
      poll.connected.length := by
  rw [← @imsis_listed _ past poll, List.length_map]

/-- The rows that are shown, up to order. -/
theorem shown_perm (hgnbs : poll.gnbs ≠ []) :
    ∃ reason, (shown past poll).Perm
      (((((listed past poll).filter isRegistered).take
          (excess poll.gnbs poll.connected.length)).map (Row.stale reason) ++
        (((listed past poll).filter isRegistered).drop
            (excess poll.gnbs poll.connected.length) ++
          (listed past poll).filter fun u => !isRegistered u)).map fun u =>
        setDefaultReason (attachGnbIp poll.gnbs u)) := by
  obtain ⟨reason, hperm⟩ := markStale_perm hgnbs fun u
    (hu : u ∈ listed past poll) => (status_of_mem_activeRows _ _ hu).2
  rw [length_listed] at hperm
  exact ⟨reason, (List.mergeSort_perm _ _).trans (hperm.map _)⟩

theorem status_of_mem_filter {u : Row ν}
    (h : u ∈ (listed past poll).filter isRegistered) :
    u.status = .registered :=
  of_decide_eq_true (List.mem_filter.1 h).2

theorem imsisOf_perm {status : Status} {rows rows' : List (Row ν)}
    (h : rows.Perm rows') :
    (imsisOf status rows).Perm (imsisOf status rows') :=
  (h.filter _).map _

/-- The stale UEs are the first connected ones in the list of the AMF. -/
theorem imsisOf_stale_perm (hgnbs : poll.gnbs ≠ []) :
    (imsisOf .stale (shown past poll)).Perm
      (poll.connected.take (excess poll.gnbs poll.connected.length)) := by
  obtain ⟨reason, hperm⟩ := @shown_perm _ past poll hgnbs
  refine (imsisOf_perm hperm).trans (List.Perm.of_eq ?_)
  rw [imsisOf_finished, imsisOf_append, imsisOf_append,
    imsisOf_of_forall, imsisOf_eq_nil, imsisOf_eq_nil, List.append_nil,
    List.append_nil, List.map_map, ← imsis_listed, List.map_take]
  · rfl
  · intro u hu hstale
    have hlisted := status_of_mem_activeRows _ _ (List.mem_filter.1 hu).1
    rw [hstale] at hlisted
    split at hlisted <;> exact Status.noConfusion hlisted.1
  · intro u hu hstale
    rw [status_of_mem_filter (List.mem_of_mem_drop hu)] at hstale
    cases hstale
  · intro u hu
    obtain ⟨u, -, rfl⟩ := List.mem_map.1 hu
    rfl

/-- The others are shown as registered. -/
theorem imsisOf_registered_perm (hgnbs : poll.gnbs ≠ []) :
    (imsisOf .registered (shown past poll)).Perm
      (poll.connected.drop (excess poll.gnbs poll.connected.length)) := by
  obtain ⟨reason, hperm⟩ := @shown_perm _ past poll hgnbs
  refine (imsisOf_perm hperm).trans (List.Perm.of_eq ?_)
  rw [imsisOf_finished, imsisOf_append, imsisOf_append, imsisOf_eq_nil,
    List.nil_append, imsisOf_of_forall, imsisOf_eq_nil, List.append_nil,
    ← imsis_listed, List.map_drop]
  · intro u hu hregistered
    have hother := (List.mem_filter.1 hu).2
    unfold isRegistered at hother
    rw [hregistered] at hother
    exact absurd hother (by decide)
  · intro u hu
    exact status_of_mem_filter (List.mem_of_mem_drop hu)
  · intro u hu
    obtain ⟨u, -, rfl⟩ := List.mem_map.1 hu
    exact Status.noConfusion

theorem stale_of_mem_shown (hgnbs : poll.gnbs ≠ []) {u : Row ν}
    (h : u ∈ shown past poll) (hstale : u.status = .stale) :
    u.cmState = connectedState ∧ u.sessions = [] := by
  obtain ⟨reason, hperm⟩ := @shown_perm _ past poll hgnbs
  obtain ⟨v, hv, rfl⟩ := List.mem_map.1 (hperm.subset h)
  obtain ⟨gnbIp, statusReason, hfinish⟩ :=
    setDefaultReason_attachGnbIp poll.gnbs v
  rw [hfinish] at hstale ⊢
  change v.status = .stale at hstale
  have hlisted : ∀ w ∈ listed past poll,
      w.status = if w.cmState = connectedState then .registered else .idle :=
    fun w hw => (status_of_mem_activeRows _ _ hw).1
  rcases List.mem_append.1 hv with hv | hv
  · obtain ⟨w, hw, rfl⟩ := List.mem_map.1 hv
    have hregistered := List.mem_of_mem_take hw
    have hstatus := hlisted w (List.mem_filter.1 hregistered).1
    rw [status_of_mem_filter hregistered] at hstatus
    refine ⟨?_, rfl⟩
    change w.cmState = connectedState
    by_contra hidle
    rw [if_neg hidle] at hstatus
    cases hstatus
  · have hmem : v ∈ listed past poll := by
      rcases List.mem_append.1 hv with hv | hv
      · exact (List.mem_filter.1 (List.mem_of_mem_drop hv)).1
      · exact (List.mem_filter.1 hv).1
    have hstatus := hlisted v hmem
    rw [hstale] at hstatus
    split at hstatus <;> cases hstatus

end Result

section Lawfulness

variable {ν : Type u} {past : List (Poll ν)} {poll : Poll ν}

theorem connected_perm {amf : List (Page (AmfUe ν))}
    (h : (fetchItems [] amf).Perm (fetchItems [] poll.amf)) :
    Poll.connected { poll with amf } |>.Perm poll.connected :=
  (h.filter _).map _

/-- Where all are the same, the order is. -/
theorem eq_of_perm_of_same {xs ys : List Text} (h : xs.Perm ys)
    (hsame : ∀ a ∈ ys, ∀ b ∈ ys, a = b) : xs = ys := by
  have hpairwise : ∀ zs : List Text, (∀ a ∈ zs, ∀ b ∈ zs, a = b) →
      zs.Pairwise (· = ·) :=
    fun zs hzs => List.pairwise_of_forall_mem_list hzs
  refine List.Perm.eq_of_pairwise (fun _ _ _ _ hab _ => hab)
    (hpairwise xs ?_) (hpairwise ys hsame) h
  intro a ha b hb
  exact hsame a (h.subset ha) b (h.subset hb)

theorem lawful_of_decided (hgnbs : poll.gnbs ≠ []) (h : Decided poll) :
    Lawful past poll := by
  have hstale := @imsisOf_stale_perm _ past poll hgnbs
  have hregistered := @imsisOf_registered_perm _ past poll hgnbs
  have hexcess : excess poll.gnbs poll.connected.length =
      (poll.connected.length - gnbUeCount poll.gnbs).toNat := rfl
  have hcount : 0 ≤ gnbUeCount poll.gnbs := by
    rcases h with hle | hzero | ⟨hcount, -⟩
    · exact le_trans (Int.natCast_nonneg _) hle
    · exact hzero.ge
    · exact hcount
  refine ⟨?_, ?_, fun u hu => stale_of_mem_shown hgnbs hu, ?_, ?_⟩
  · rw [hregistered.length_eq, List.length_drop, hexcess]
    omega
  · rw [hstale.length_eq, List.length_take, hexcess]
    omega
  · intro s hs r hr
    have hs := hstale.subset hs
    have hr := hregistered.subset hr
    rcases h with hle | hzero | ⟨-, hsame⟩
    · rw [show excess poll.gnbs poll.connected.length = 0 by omega] at hs
      cases hs
    · rw [List.drop_eq_nil_of_le (by omega)] at hr
      cases hr
    · rw [hsame s (List.mem_of_mem_take hs) r (List.mem_of_mem_drop hr)]
  · intro amf hamf
    have hperm := connected_perm hamf
    have hlength := hperm.length_eq
    have hother := @imsisOf_stale_perm _ past { poll with amf } hgnbs
    rw [hlength] at hother
    refine hother.trans (List.Perm.trans ?_ hstale.symm)
    dsimp only
    rcases h with hle | hzero | ⟨-, hsame⟩
    · rw [show excess poll.gnbs poll.connected.length = 0 by omega]
      exact List.Perm.refl _
    · rw [List.take_of_length_le (by omega),
        List.take_of_length_le (by omega)]
      exact hperm
    · rw [eq_of_perm_of_same hperm hsame]

theorem fetchItems_single (items : List (AmfUe ν)) :
    fetchItems [] [⟨items, 0⟩] = items := by
  unfold fetchItems
  dsimp only
  rw [List.nil_append]
  exact if_pos (.inl (Int.natCast_nonneg _))

/-- Two connected UEs at the ends of the list, and some but not all too many. -/
theorem connected_ends {x y : AmfUe ν} (hx : x.isConnected = true)
    (hy : y.isConnected = true) (rest : List (AmfUe ν)) :
    Poll.connected { poll with amf := [⟨x :: (rest ++ [y]), 0⟩] } =
      imsiOf x.supi :: (((rest.filter AmfUe.isConnected).map fun ue =>
        imsiOf ue.supi) ++ [imsiOf y.supi]) := by
  unfold Poll.connected
  dsimp only
  rw [fetchItems_single, List.filter_cons_of_pos hx, List.filter_append,
    List.filter_cons_of_pos hy, List.map_cons, List.map_append]
  rfl

/-- The stale UEs are also the first ones of that list. -/
theorem stale_ends (hgnbs : poll.gnbs ≠ []) (h : Lawful past poll)
    {x y : AmfUe ν} (hx : x.isConnected = true) (hy : y.isConnected = true)
    {rest : List (AmfUe ν)} {mid : List Text}
    (hmid : (rest.filter AmfUe.isConnected).map (fun ue => imsiOf ue.supi) =
      mid)
    (hlist : (x :: (rest ++ [y])).Perm (fetchItems [] poll.amf)) :
    (imsisOf .stale (shown past poll)).Perm
        ((imsiOf x.supi :: (mid ++ [imsiOf y.supi])).take
          (excess poll.gnbs poll.connected.length)) ∧
      poll.connected.length = mid.length + 2 := by
  have hfetch : (fetchItems [] [⟨x :: (rest ++ [y]), 0⟩]).Perm
      (fetchItems [] poll.amf) := by
    rw [fetchItems_single]
    exact hlist
  have hends := @connected_ends _ poll _ _ hx hy rest
  rw [hmid] at hends
  have hlength := (connected_perm hfetch).length_eq
  have hstale := @imsisOf_stale_perm _ past
    { poll with amf := [⟨x :: (rest ++ [y]), 0⟩] } hgnbs
  rw [hlength, hends] at hstale
  rw [hends, List.length_cons, List.length_append, List.length_singleton]
    at hlength
  exact ⟨(h.orderFree _ hfetch).symm.trans hstale, hlength.symm⟩

theorem decided_of_lawful (hgnbs : poll.gnbs ≠ []) (h : Lawful past poll) :
    Decided poll := by
  have hcount : 0 ≤ gnbUeCount poll.gnbs :=
    le_trans (Int.natCast_nonneg _) h.registered_le
  by_contra hchoice
  unfold Decided at hchoice
  push Not at hchoice
  obtain ⟨hmore, hne, hdiffer⟩ := hchoice
  obtain ⟨a, ha, b, hb, hab⟩ := hdiffer hcount
  obtain ⟨x, hx, rfl⟩ := List.mem_map.1 ha
  obtain ⟨y, hy, rfl⟩ := List.mem_map.1 hb
  rw [List.mem_filter] at hx hy
  -- the same UEs with the two at the ends, either way round
  obtain ⟨rest, hrest⟩ := exists_perm_cons_append hx.1 hy.1
    (fun hxy => hab (congrArg (fun ue => imsiOf ue.supi) hxy))
  have hswap : (y :: (rest ++ [x])).Perm (x :: (rest ++ [y])) := by
    refine (List.Perm.cons y (List.perm_append_singleton x rest)).trans ?_
    refine (List.Perm.swap x y rest).trans (List.Perm.cons x ?_)
    exact (List.perm_append_singleton y rest).symm
  obtain ⟨hfirst, hlength⟩ := stale_ends hgnbs h hx.2 hy.2 rfl hrest.symm
  obtain ⟨hsecond, -⟩ :=
    stale_ends hgnbs h hy.2 hx.2 rfl (hswap.trans hrest.symm)
  refine not_take_perm hab _ ?_ ?_ (hfirst.symm.trans hsecond)
  · unfold excess
    omega
  · unfold excess
    omega

/-- In every run, the rows are right in each poll with gNBs exactly when each of
these polls leaves no choice. -/
theorem lawful_run_iff (run : List (Poll ν)) :
    (∀ past poll, past ++ [poll] <+: run → poll.gnbs ≠ [] →
      Lawful past poll) ↔
    ∀ poll ∈ run, poll.gnbs ≠ [] → Decided poll := by
  constructor
  · intro h poll hmem hgnbs
    obtain ⟨past, rest, hrun⟩ := List.append_of_mem hmem
    refine decided_of_lawful hgnbs (h past poll ⟨rest, ?_⟩ hgnbs)
    rw [hrun, List.append_assoc, List.singleton_append]
  · intro h past poll hprefix hgnbs
    have hmem : poll ∈ run :=
      hprefix.subset (List.mem_append_right past List.mem_cons_self)
    exact lawful_of_decided hgnbs (h poll hmem hgnbs)

end Lawfulness

section TwoUes

def firstUe : AmfUe Unit :=
  ⟨"imsi-001010000000001".toList, connectedState, [], none, none⟩

def secondUe : AmfUe Unit :=
  ⟨"imsi-001010000000002".toList, connectedState, [], none, none⟩

/-- A poll with a gNB that counts one UE. -/
def onePoll (now : Text) (ues : List (AmfUe Unit)) : Poll Unit :=
  ⟨now, [⟨ues, ues.length⟩], [], [⟨"[10.0.0.1]:38412".toList, some 1⟩]⟩

/-- The first UE was there before the second one; now the AMF lists both, the
second one first. -/
def twoUes : List (Poll Unit) :=
  [onePoll "2024-01-01T00:00:00+00:00".toList [firstUe],
    onePoll "2024-01-01T00:00:05+00:00".toList [secondUe]]

def bothConnected : Poll Unit :=
  onePoll "2024-01-01T00:00:10+00:00".toList [secondUe, firstUe]

/-- The UE that was active last is shown as stale, and the older one as
registered. -/
theorem not_lawful_twoUes :
    ¬ ∀ (ν : Type) (run past : List (Poll ν)) (poll : Poll ν),
      past ++ [poll] <+: run → poll.gnbs ≠ [] → Lawful past poll := by
  intro h
  have hgnbs : bothConnected.gnbs ≠ [] := List.cons_ne_nil _ _
  have hlawful := h Unit _ twoUes bothConnected (List.prefix_refl _) hgnbs
  have hstale : imsiOf secondUe.supi ∈
      imsisOf .stale (shown twoUes bothConnected) :=
    (imsisOf_stale_perm hgnbs).mem_iff.2 (by decide)
  have hregistered : imsiOf firstUe.supi ∈
      imsisOf .registered (shown twoUes bothConnected) :=
    (imsisOf_registered_perm hgnbs).mem_iff.2 (by decide)
  exact absurd (hlawful.oldest _ hstale _ hregistered) (by decide)

end TwoUes

end Active
end Ue
end Kelt
