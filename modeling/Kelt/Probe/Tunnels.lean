import Kelt.Lib.Dict
import Kelt.Lib.PyText
import Kelt.Lib.Rank
import Kelt.Lib.Runs
import Mathlib.Data.Char

/-!
# The Web UI tunnels of the 5G probe

Each interface that is isolated gets a network namespace and a tunnel to the
page of its modem, on a local port. The port is not kept with the tunnel: it is
computed from the place of the namespace in the sorted list of those that are
there (`webui_port_for_namespace`), when the tunnel is started and again for
every status. So a namespace that comes or goes moves the ports of those that
sort after it, while their tunnels listen where they did
(`eachStep_good_iff`).

`stop_webui_tunnel` has `fuser` kill whatever has the recorded port open, which
is the probe itself while a connection runs through the tunnel.
-/

namespace Kelt
namespace Probe

section Tunnels

/-- `UE_WEBUI_BASE_PORT` -/
def basePort : Nat :=
  18180

/-- A row of `_NS_TUNNEL_CFG`. -/
structure TunnelCfg where
  host : Text
  port : Int
  listenPort : Option Nat
  https : Option Bool

/-- The namespaces that are there, the ports that the tunnels listen on, and the
recorded rows. The probe is down once it has killed itself. -/
structure Site where
  live : List Text
  tunnels : Dict Text Nat
  cfg : Dict Text TunnelCfg
  down : Bool

/-- `list_netns` -/
def listNetns (live : List Text) : List Text :=
  live.insertionSort (· ≤ ·)

def ueName (i : Nat) : Text :=
  "ue".toList ++ Nat.toDigits 10 i

/-- `next_namespace_name`: the first free number, from 1. -/
def nextIndex (live : List Text) : Nat :=
  ((List.range' 1 (live.length + 1)).find?
    (fun i => !(listNetns live).contains (ueName i))).getD 0

def nextName (live : List Text) : Text :=
  ueName (nextIndex live)

/-- `webui_port_for_namespace` -/
def webuiPort (live : List Text) (ns : Text) : Nat :=
  basePort + (listNetns live).idxOf ns

/-- `record_ns_tunnel` -/
def Site.record (s : Site) (ns host : Text) (port : Int)
    (listenPort : Option Nat) (https : Option Bool) : Site :=
  let prev := s.cfg.get? ns
  let row : TunnelCfg :=
    { host := host
      port := port
      listenPort := listenPort.or (prev.bind TunnelCfg.listenPort)
      https := https.or (prev.bind TunnelCfg.https) }
  { s with cfg := s.cfg.set ns row }

/-- `clear_ns_tunnel` -/
def Site.clear (s : Site) (ns : Text) : Site :=
  { s with cfg := s.cfg.erase ns }

/-- Some tunnel listens on the port. -/
def Site.taken (s : Site) (port : Nat) : Bool :=
  s.tunnels.items.any (fun kv => decide (kv.2 = port))

/-- The probe is killed. -/
def Site.killed (s : Site) : Site :=
  { s with tunnels := Dict.empty, cfg := Dict.empty, down := true }

/-- `stop_webui_tunnel`; `fuser` is installed, and the tunnel is `busy`: a
connection through it is open. -/
def Site.stopTunnel (s : Site) (ns : Text) (fuser busy : Bool) : Site :=
  let t := { s with tunnels := s.tunnels.erase ns }
  match (s.cfg.get? ns).bind TunnelCfg.listenPort with
  | none => t
  | some lp =>
      if lp ≠ 0 ∧ fuser ∧ (busy ∨ t.taken lp) then t.killed else t

/-- `start_webui_tunnel` for a namespace whose old tunnel has no connections;
`hostOk` says that `_sanitize_mgmt_host` accepts the host. -/
def Site.startTunnel (s : Site) (ns : Text) (socat fuser hostOk : Bool) :
    Site × Option Nat :=
  if socat then
    let s := s.stopTunnel ns fuser false
    let port := webuiPort s.live ns
    if hostOk ∧ ¬ s.taken port then
      ({ s with tunnels := s.tunnels.set ns port }, some port)
    else
      (s, none)
  else
    (s, none)

/-- How an isolate goes: refused for its data, ended with an error once the
namespace was there, or gone through with this management address. -/
inductive Isolate where
  | refused
  | aborted
  | through (host : Text) (port : Int) (https socat fuser hostOk : Bool)

inductive Act where
  | isolate (how : Isolate)
  | reset (ns : Text) (fuser busy deleted : Bool)

/-- `api_isolate` -/
def Site.isolate (s : Site) : Isolate → Site
  | .refused => s
  | .aborted => { s with live := s.live ++ [nextName s.live] }
  | .through host port https socat fuser hostOk =>
      let ns := nextName s.live
      let s := { s with live := s.live ++ [ns] }
      let s := s.record ns host port none (some https)
      match s.startTunnel ns socat fuser hostOk with
      | (s, some listenPort) => s.record ns host port (some listenPort) none
      | (s, none) => s

/-- `api_reset`; `deleted` says that `ip netns delete` succeeds. -/
def Site.reset (s : Site) (ns : Text) (fuser busy deleted : Bool) : Site :=
  if ns = [] then s
  else
    let s := s.stopTunnel ns fuser busy
    if s.down then s
    else if ns ∈ s.live then
      (if deleted then { s with live := s.live.erase ns } else s).clear ns
    else
      s.clear ns

def Site.step (s : Site) (act : Act) : Option Site :=
  if s.down then none
  else
    match act with
    | .isolate how => some (s.isolate how)
    | .reset ns fuser busy deleted => some (s.reset ns fuser busy deleted)

/-- The probe starts among the namespaces of other programs. -/
def Site.start (live : List Text) : Site :=
  ⟨live, Dict.empty, Dict.empty, false⟩

/-- The namespace that a request is about. -/
def Act.target (s : Site) : Act → Text
  | .isolate _ => nextName s.live
  | .reset ns _ _ _ => ns

/-- An isolate that goes through. -/
def Act.isThrough : Act → Bool
  | .isolate (.through _ _ _ _ _ _) => true
  | _ => false

/-- After the step the tunnels listen on different ports, the status of each
namespace shows the port of its tunnel, an isolate that went through has one,
and no tunnel of another namespace has changed. -/
structure Good (s : Site) (act : Act) (s' : Site) : Prop where
  distinct : ∀ m n p, s'.tunnels.get? m = some p →
    s'.tunnels.get? n = some p → m = n
  status : ∀ m p, s'.tunnels.get? m = some p → webuiPort s'.live m = p
  tunnel : act.isThrough = true →
    (s'.tunnels.get? (nextName s.live)).isSome = true
  others : ∀ m, m ≠ act.target s → s'.tunnels.get? m = s.tunnels.get? m

/-- No other namespace with a tunnel sorts after this one. -/
def Site.Last (s : Site) (ns : Text) : Prop :=
  ∀ m, m ≠ ns → (s.tunnels.get? m).isSome = true → m < ns

/-- The namespace that comes or goes sorts after all with a tunnel, a tunnel
that is to run can run, and none is stopped while a connection through it is
open and another tunnel runs. -/
def Site.Orderly (s : Site) : Act → Prop
  | .isolate .refused => True
  | .isolate .aborted => s.Last (nextName s.live)
  | .isolate (.through _ _ _ socat _ hostOk) =>
      s.Last (nextName s.live) ∧ socat = true ∧ hostOk = true
  | .reset ns fuser busy deleted =>
      ns ≠ [] →
        if (s.tunnels.get? ns).isSome = true ∧ fuser = true ∧ busy = true then
          ∀ m, m ≠ ns → s.tunnels.get? m = none
        else
          ns ∈ s.live → deleted = true → s.Last ns

end Tunnels

section Names

theorem ueName_injective : Function.Injective ueName := by
  intro i j h
  have hdigits := List.append_cancel_left h
  rw [← Nat.ofDigitChars_ten_toDigits (n := i), hdigits,
    Nat.ofDigitChars_ten_toDigits]

theorem mem_listNetns {live : List Text} {ns : Text} :
    ns ∈ listNetns live ↔ ns ∈ live :=
  (List.perm_insertionSort (· ≤ ·) live).mem_iff

/-- One of the first names is free: there are more of them than namespaces. -/
theorem nextName_notMem (live : List Text) : nextName live ∉ live := by
  unfold nextName nextIndex
  cases hfind : (List.range' 1 (live.length + 1)).find?
      (fun i => !(listNetns live).contains (ueName i)) with
  | some i =>
      have hfree := List.find?_some hfind
      simpa [mem_listNetns] using hfree
  | none =>
      exfalso
      have hall := List.find?_eq_none.1 hfind
      have hsub : (List.range' 1 (live.length + 1)).map ueName ⊆ live := by
        intro ns hns
        obtain ⟨i, hi, rfl⟩ := List.mem_map.1 hns
        simpa [mem_listNetns] using hall i hi
      have hnodup : ((List.range' 1 (live.length + 1)).map ueName).Nodup :=
        (List.nodup_range' 1).map ueName_injective
      have hlen := (List.subperm_of_subset hnodup hsub).length_le
      simp at hlen

end Names

section Ports

theorem webuiPort_eq {live : List Text} (hnodup : live.Nodup) {ns : Text}
    (hns : ns ∈ live) : webuiPort live ns = basePort + rank live ns :=
  congrArg (basePort + ·) (idxOf_insertionSort hnodup hns)

theorem webuiPort_injOn {live : List Text} (hnodup : live.Nodup) {m n : Text}
    (hm : m ∈ live) (hn : n ∈ live) (h : webuiPort live m = webuiPort live n) :
    m = n := by
  rw [webuiPort_eq hnodup hm, webuiPort_eq hnodup hn] at h
  exact rank_injOn hm hn (Nat.add_left_cancel h)

theorem nodup_append_singleton {live : List Text} (hnodup : live.Nodup)
    {ns : Text} (hns : ns ∉ live) : (live ++ [ns]).Nodup :=
  (List.perm_append_singleton ns live).nodup_iff.2
    (List.nodup_cons.2 ⟨hns, hnodup⟩)

/-- A namespace that comes leaves the ports below it as they are. -/
theorem webuiPort_append_iff {live : List Text} (hnodup : live.Nodup)
    {ns m : Text} (hns : ns ∉ live) (hm : m ∈ live) :
    webuiPort (live ++ [ns]) m = webuiPort live m ↔ m < ns := by
  have hne : m ≠ ns := fun h => hns (h ▸ hm)
  rw [webuiPort_eq (nodup_append_singleton hnodup hns)
    (List.mem_append_left _ hm), webuiPort_eq hnodup hm,
    rank_append_singleton]
  obtain hlt | heq | hlt := lt_trichotomy m ns
  · simp [hlt, hlt.not_gt]
  · exact absurd heq hne
  · simp [hlt, hlt.not_gt]

/-- So does one that goes. -/
theorem webuiPort_erase_iff {live : List Text} (hnodup : live.Nodup)
    {ns m : Text} (hns : ns ∈ live) (hm : m ∈ live) (hne : m ≠ ns) :
    webuiPort (live.erase ns) m = webuiPort live m ↔ m < ns := by
  rw [webuiPort_eq (hnodup.erase ns) ((List.mem_erase_of_ne hne).2 hm),
    webuiPort_eq hnodup hm, rank_erase hns m]
  obtain hlt | heq | hlt := lt_trichotomy m ns
  · simp [hlt, hlt.not_gt]
  · exact absurd heq hne
  · simp [hlt, hlt.not_gt]

/-- The port of a namespace that comes is that of none below it. -/
theorem webuiPort_append_ne {live : List Text} (hnodup : live.Nodup)
    {ns m : Text} (hns : ns ∉ live) (hm : m ∈ live) (hlt : m < ns) :
    webuiPort live m ≠ webuiPort (live ++ [ns]) ns := by
  rw [webuiPort_eq hnodup hm, webuiPort_eq
    (nodup_append_singleton hnodup hns) (by simp), rank_append_singleton,
    if_neg (lt_irrefl ns)]
  have := rank_lt_rank hm hlt
  omega

end Ports

section Runs

/-- The recorded port of a namespace. -/
def Site.recorded (s : Site) (m : Text) : Option Nat :=
  (s.cfg.get? m).bind TunnelCfg.listenPort

/-- What every step keeps. -/
structure Site.Kept (s : Site) : Prop where
  nodup : s.live.Nodup
  named : ∀ m, (s.tunnels.get? m).isSome = true → m ∈ s.live
  row : ∀ m, s.recorded m = s.tunnels.get? m

/-- Every tunnel listens on the port that is computed for its namespace. -/
def Site.Truthful (s : Site) : Prop :=
  ∀ m p, s.tunnels.get? m = some p → webuiPort s.live m = p

theorem Site.Kept.distinct {s : Site} (h : s.Kept) (ht : s.Truthful)
    {m n : Text} {p : Nat} (hm : s.tunnels.get? m = some p)
    (hn : s.tunnels.get? n = some p) : m = n :=
  webuiPort_injOn h.nodup (h.named m (by simp [hm])) (h.named n (by simp [hn]))
    ((ht m p hm).trans (ht n p hn).symm)

theorem Site.taken_iff (s : Site) (port : Nat) :
    s.taken port = true ↔ ∃ m, s.tunnels.get? m = some port := by
  simp only [Site.taken, List.any_eq_true, decide_eq_true_eq,
    Dict.get?_eq_some_iff]
  constructor
  · rintro ⟨⟨m, p⟩, hmem, rfl⟩
    exact ⟨m, hmem⟩
  · rintro ⟨m, hmem⟩
    exact ⟨(m, port), hmem, rfl⟩

/-- `fuser` finds the probe alone behind the port of a tunnel, and only while a
connection through that tunnel is open. -/
theorem Site.stopTunnel_eq {s : Site} (h : s.Kept) (ht : s.Truthful)
    (ns : Text) (fuser busy : Bool) :
    s.stopTunnel ns fuser busy =
      if (s.tunnels.get? ns).isSome = true ∧ fuser = true ∧ busy = true then
        s.killed
      else { s with tunnels := s.tunnels.erase ns } := by
  have hrow := h.row ns
  unfold Site.recorded at hrow
  unfold Site.stopTunnel
  rw [hrow]
  cases hp : s.tunnels.get? ns with
  | none => simp
  | some p =>
      have hpos : p ≠ 0 := by
        rw [← ht ns p hp, webuiPort, basePort]
        omega
      have hfree : ¬ Site.taken { s with tunnels := s.tunnels.erase ns } p := by
        rw [Site.taken_iff]
        rintro ⟨m, hm⟩
        rw [Dict.get?_erase] at hm
        split at hm
        · cases hm
        · rename_i hne
          exact hne (h.distinct ht hp hm)
      simp [hpos, hfree, Site.killed]

@[simp] theorem Site.record_live (s : Site) (ns host : Text) (port : Int)
    (lp : Option Nat) (https : Option Bool) :
    (s.record ns host port lp https).live = s.live :=
  rfl

@[simp] theorem Site.record_tunnels (s : Site) (ns host : Text) (port : Int)
    (lp : Option Nat) (https : Option Bool) :
    (s.record ns host port lp https).tunnels = s.tunnels :=
  rfl

@[simp] theorem Site.record_down (s : Site) (ns host : Text) (port : Int)
    (lp : Option Nat) (https : Option Bool) :
    (s.record ns host port lp https).down = s.down :=
  rfl

theorem Site.recorded_record (s : Site) (ns host : Text) (port : Int)
    (lp : Option Nat) (https : Option Bool) (m : Text) :
    (s.record ns host port lp https).recorded m =
      if m = ns then lp.or (s.recorded ns) else s.recorded m := by
  unfold Site.recorded Site.record
  by_cases hm : m = ns
  · simp [hm]
  · simp [hm, Dict.get?_set_of_ne]

/-- A namespace without a tunnel gets one where there is `socat`, the address is
accepted and the port free. -/
theorem Site.startTunnel_spec {s : Site} {ns : Text}
    (hrow : s.recorded ns = none) (hnone : s.tunnels.get? ns = none)
    (socat fuser hostOk : Bool) :
    let r := s.startTunnel ns socat fuser hostOk
    r.1.live = s.live ∧ r.1.cfg = s.cfg ∧ r.1.down = s.down ∧
      (r.2 = if socat = true ∧ hostOk = true ∧ ¬ s.taken (webuiPort s.live ns)
        then some (webuiPort s.live ns) else none) ∧
      ∀ m, r.1.tunnels.get? m = if m = ns then r.2 else s.tunnels.get? m := by
  have herase : ∀ m, (s.tunnels.erase ns).get? m = s.tunnels.get? m := by
    intro m
    by_cases hm : m = ns
    · rw [hm, Dict.get?_erase, if_pos rfl, hnone]
    · rw [Dict.get?_erase_of_ne _ hm]
  have htaken : Site.taken { s with tunnels := s.tunnels.erase ns }
      (webuiPort s.live ns) = s.taken (webuiPort s.live ns) := by
    refine Bool.eq_iff_iff.2 ?_
    rw [taken_iff, taken_iff]
    exact exists_congr fun m => by rw [herase]
  have hkeep : ∀ m, s.tunnels.get? m =
      if m = ns then none else s.tunnels.get? m := by
    intro m
    split
    · rename_i hm
      rw [hm, hnone]
    · rfl
  unfold Site.recorded at hrow
  unfold Site.startTunnel Site.stopTunnel
  rw [hrow]
  cases socat with
  | false => exact ⟨rfl, rfl, rfl, by simp, hkeep⟩
  | true =>
      simp only [if_true, htaken, true_and]
      split
      · refine ⟨rfl, rfl, rfl, rfl, fun m => ?_⟩
        split
        · rename_i hm
          rw [hm, Dict.get?_set_self]
        · rename_i hm
          rw [Dict.get?_set_of_ne _ _ hm, herase]
      · exact ⟨rfl, rfl, rfl, rfl, fun m => (herase m).trans (hkeep m)⟩

/-- The port that the tunnel of a new namespace gets. -/
def Site.opened (s : Site) (socat hostOk : Bool) : Option Nat :=
  let port := webuiPort (s.live ++ [nextName s.live]) (nextName s.live)
  if socat = true ∧ hostOk = true ∧ ¬ s.taken port then some port else none

theorem Site.Kept.tunnels_nextName {s : Site} (h : s.Kept) :
    s.tunnels.get? (nextName s.live) = none := by
  cases hp : s.tunnels.get? (nextName s.live) with
  | none => rfl
  | some p => exact absurd (h.named _ (by simp [hp])) (nextName_notMem s.live)

theorem Site.isolate_through {s : Site} (h : s.Kept) (host : Text) (port : Int)
    (https socat fuser hostOk : Bool) :
    let s' := s.isolate (.through host port https socat fuser hostOk)
    s'.live = s.live ++ [nextName s.live] ∧ s'.down = s.down ∧
      ∀ m, (s'.tunnels.get? m = if m = nextName s.live then
          s.opened socat hostOk else s.tunnels.get? m) ∧
        s'.recorded m = s'.tunnels.get? m := by
  let ns := nextName s.live
  let s₁ := Site.record { s with live := s.live ++ [ns] } ns host port none
    (some https)
  have hnone : s.tunnels.get? ns = none := h.tunnels_nextName
  have hold : ∀ m, Site.recorded { s with live := s.live ++ [ns] } m =
      s.tunnels.get? m := h.row
  have hrow : ∀ m, s₁.recorded m = s.tunnels.get? m := by
    intro m
    rw [Site.recorded_record, hold, hold, hnone]
    split
    · rename_i hm
      rw [hm, hnone]
      rfl
    · rfl
  obtain ⟨hlive, hcfg, hdown, hport, htun⟩ := Site.startTunnel_spec
    (s := s₁) ((hrow ns).trans hnone) hnone socat fuser hostOk
  have hiso : s.isolate (.through host port https socat fuser hostOk) =
      match s₁.startTunnel ns socat fuser hostOk with
      | (s, some listenPort) => s.record ns host port (some listenPort) none
      | (s, none) => s := rfl
  have hrow₂ : ∀ m, (s₁.startTunnel ns socat fuser hostOk).1.recorded m =
      s.tunnels.get? m := by
    intro m
    rw [Site.recorded, hcfg]
    exact hrow m
  dsimp only
  rw [hiso]
  generalize s₁.startTunnel ns socat fuser hostOk = r at *
  obtain ⟨t, o⟩ := r
  have hopened : o = s.opened socat hostOk := hport
  have htun' : ∀ m, t.tunnels.get? m =
      if m = ns then s.opened socat hostOk else s.tunnels.get? m := by
    intro m
    rw [← hopened]
    exact htun m
  cases o with
  | none =>
      refine ⟨hlive, hdown, fun m => ⟨htun' m, (hrow₂ m).trans ?_⟩⟩
      rw [htun' m, ← hopened]
      split
      · rename_i hm
        rw [hm, hnone]
      · rfl
  | some p =>
      refine ⟨hlive, hdown, fun m => ⟨htun' m, ?_⟩⟩
      have hrow_m : t.recorded m = s.tunnels.get? m := hrow₂ m
      rw [Site.recorded_record, Site.record_tunnels, htun' m, ← hopened, hrow_m]
      rfl

theorem Site.start_kept {live : List Text} (hnodup : live.Nodup) :
    (Site.start live).Kept :=
  ⟨hnodup, by simp [Site.start], by simp [Site.start, Site.recorded]⟩

theorem Site.start_truthful (live : List Text) :
    (Site.start live).Truthful := by
  simp [Site.start, Site.Truthful]

theorem Site.reset_eq {s : Site} (h : s.Kept) (ht : s.Truthful)
    (hup : s.down = false) {ns : Text} (hns : ns ≠ [])
    (fuser busy deleted : Bool) :
    s.reset ns fuser busy deleted =
      if (s.tunnels.get? ns).isSome = true ∧ fuser = true ∧ busy = true then
        s.killed
      else
        { live := if ns ∈ s.live ∧ deleted = true then s.live.erase ns
            else s.live
          tunnels := s.tunnels.erase ns
          cfg := s.cfg.erase ns
          down := false } := by
  unfold Site.reset
  rw [if_neg hns, s.stopTunnel_eq h ht]
  split
  · rfl
  · by_cases hlive : ns ∈ s.live <;> cases deleted <;>
      simp [hup, hlive, Site.clear]

theorem Site.Kept.step {s s' : Site} {act : Act} (h : s.Kept)
    (ht : s.Truthful) (hs : s.step act = some s') : s'.Kept := by
  unfold Site.step at hs
  split at hs
  · cases hs
  rename_i hup
  cases act with
  | isolate how =>
      obtain rfl := Option.some.inj hs
      have hnodup := nodup_append_singleton h.nodup (nextName_notMem s.live)
      cases how with
      | refused => exact h
      | aborted =>
          exact ⟨hnodup, fun m hm => List.mem_append_left _ (h.named m hm),
            h.row⟩
      | through host port https socat fuser hostOk =>
          obtain ⟨hlive, -, hrest⟩ :=
            Site.isolate_through h host port https socat fuser hostOk
          refine ⟨hlive ▸ hnodup, fun m hm => ?_, fun m => (hrest m).2⟩
          rw [hlive]
          rw [(hrest m).1] at hm
          split at hm
          · rename_i hm'
            exact hm' ▸ List.mem_append_right _ List.mem_cons_self
          · exact List.mem_append_left _ (h.named m hm)
  | reset ns fuser busy deleted =>
      obtain rfl := Option.some.inj hs
      by_cases hns : ns = []
      · simpa [Site.reset, hns] using h
      rw [Site.reset_eq h ht (Bool.eq_false_iff.2 hup) hns]
      split
      · exact ⟨h.nodup, by simp [Site.killed],
          by simp [Site.killed, Site.recorded]⟩
      · refine ⟨?_, fun m hm => ?_, fun m => ?_⟩
        · dsimp only
          split
          · exact h.nodup.erase ns
          · exact h.nodup
        · rw [Dict.get?_erase] at hm
          split at hm
          · cases hm
          · rename_i hne
            dsimp only
            split
            · exact (List.mem_erase_of_ne (Ne.symm hne)).2 (h.named m hm)
            · exact h.named m hm
        · have hm := h.row m
          unfold Site.recorded at hm ⊢
          rw [Dict.get?_erase, Dict.get?_erase]
          split
          · rfl
          · exact hm

/-- Different ports come with truthful ones. -/
theorem good_iff {s s' : Site} {act : Act} (h : s'.Kept) :
    Good s act s' ↔ s'.Truthful ∧
      (act.isThrough = true →
        (s'.tunnels.get? (nextName s.live)).isSome = true) ∧
      ∀ m, m ≠ act.target s → s'.tunnels.get? m = s.tunnels.get? m := by
  constructor
  · exact fun hg => ⟨hg.status, hg.tunnel, hg.others⟩
  · rintro ⟨ht, htunnel, hothers⟩
    exact ⟨fun _ _ _ hm hn => h.distinct ht hm hn, ht, htunnel, hothers⟩

/-- Where a namespace comes, the other tunnels stay truthful when none sorts
after it. -/
theorem Site.Kept.truthful_append_iff {s s' : Site} (h : s.Kept)
    (ht : s.Truthful) {ns : Text} (hns : ns ∉ s.live)
    (hlive : s'.live = s.live ++ [ns])
    (htun : ∀ m, m ≠ ns → s'.tunnels.get? m = s.tunnels.get? m)
    (hself : ∀ p, s'.tunnels.get? ns = some p →
      webuiPort (s.live ++ [ns]) ns = p) :
    s'.Truthful ↔ s.Last ns := by
  constructor
  · intro ht' m hne hm
    obtain ⟨p, hp⟩ := Option.isSome_iff_exists.1 hm
    have hport := ht' m p ((htun m hne).trans hp)
    rw [hlive, ← ht m p hp] at hport
    exact (webuiPort_append_iff h.nodup hns (h.named m hm)).1 hport
  · intro hlast m p hp
    rw [hlive]
    by_cases hm : m = ns
    · subst hm
      exact hself p hp
    · rw [htun m hm] at hp
      have hsome : (s.tunnels.get? m).isSome = true := by simp [hp]
      rw [← ht m p hp]
      exact (webuiPort_append_iff h.nodup hns (h.named m hsome)).2
        (hlast m hm hsome)

theorem Site.Kept.truthful_erase_iff {s s' : Site} (h : s.Kept)
    (ht : s.Truthful) {ns : Text} (hns : ns ∈ s.live)
    (hlive : s'.live = s.live.erase ns)
    (htun : s'.tunnels = s.tunnels.erase ns) :
    s'.Truthful ↔ s.Last ns := by
  constructor
  · intro ht' m hne hm
    obtain ⟨p, hp⟩ := Option.isSome_iff_exists.1 hm
    have hport := ht' m p (by rw [htun, Dict.get?_erase_of_ne _ hne, hp])
    rw [hlive, ← ht m p hp] at hport
    exact (webuiPort_erase_iff h.nodup hns (h.named m hm) hne).1 hport
  · intro hlast m p hp
    rw [htun, Dict.get?_erase] at hp
    split at hp
    · cases hp
    · rename_i hne
      have hsome : (s.tunnels.get? m).isSome = true := by simp [hp]
      rw [hlive, ← ht m p hp]
      exact (webuiPort_erase_iff h.nodup hns (h.named m hsome)
        (Ne.symm hne)).2 (hlast m (Ne.symm hne) hsome)

/-- The port of a namespace after all others with a tunnel is free. -/
theorem Site.Kept.opened_of_last {s : Site} (h : s.Kept) (ht : s.Truthful)
    (hlast : s.Last (nextName s.live)) (socat hostOk : Bool) :
    (s.opened socat hostOk).isSome = true ↔ socat = true ∧ hostOk = true := by
  have hfree : ¬ s.taken (webuiPort (s.live ++ [nextName s.live])
      (nextName s.live)) := by
    rw [Site.taken_iff]
    rintro ⟨m, hm⟩
    have hsome : (s.tunnels.get? m).isSome = true := by simp [hm]
    have hmem := h.named m hsome
    have hne : m ≠ nextName s.live := fun hm' =>
      nextName_notMem s.live (hm' ▸ hmem)
    exact webuiPort_append_ne h.nodup (nextName_notMem s.live) hmem
      (hlast m hne hsome) (ht m _ hm)
  unfold Site.opened
  by_cases hopen : socat = true ∧ hostOk = true
  · simp [hopen, hfree]
  · simp only [hopen, iff_false]
    split
    · rename_i hif
      exact absurd ⟨hif.1, hif.2.1⟩ hopen
    · simp

theorem Site.Kept.opened_port {s : Site} {socat hostOk : Bool} {p : Nat}
    (hp : s.opened socat hostOk = some p) :
    webuiPort (s.live ++ [nextName s.live]) (nextName s.live) = p := by
  unfold Site.opened at hp
  dsimp only at hp
  split at hp
  · exact Option.some.inj hp
  · cases hp

theorem good_isolate_iff {s : Site} (h : s.Kept) (ht : s.Truthful)
    (how : Isolate) (h' : (s.isolate how).Kept) :
    Good s (.isolate how) (s.isolate how) ↔ s.Orderly (.isolate how) := by
  rw [good_iff h']
  have hns := nextName_notMem s.live
  cases how with
  | refused =>
      exact iff_of_true ⟨ht, nofun, fun _ _ => rfl⟩
        trivial
  | aborted =>
      have hself : ∀ p, (s.isolate .aborted).tunnels.get? (nextName s.live) =
          some p → webuiPort (s.live ++ [nextName s.live])
            (nextName s.live) = p := by
        intro p hp
        have hp' : s.tunnels.get? (nextName s.live) = some p := hp
        rw [h.tunnels_nextName] at hp'
        cases hp'
      have hlast : (s.isolate .aborted).Truthful ↔ s.Last (nextName s.live) :=
        h.truthful_append_iff ht hns rfl (fun _ _ => rfl) hself
      exact ⟨fun hg => hlast.1 hg.1, fun ho => ⟨hlast.2 ho,
        nofun, fun _ _ => rfl⟩⟩
  | through host port https socat fuser hostOk =>
      obtain ⟨hlive, -, hrest⟩ :=
        Site.isolate_through h host port https socat fuser hostOk
      generalize s.isolate (.through host port https socat fuser hostOk) = s'
        at *
      have hself : s'.tunnels.get? (nextName s.live) =
          s.opened socat hostOk := by
        rw [(hrest _).1, if_pos rfl]
      have hothers : ∀ m, m ≠ nextName s.live →
          s'.tunnels.get? m = s.tunnels.get? m := by
        intro m hm
        rw [(hrest m).1, if_neg hm]
      have hlast := h.truthful_append_iff ht hns hlive hothers
        (fun p hp => Site.Kept.opened_port (hself ▸ hp))
      constructor
      · rintro ⟨ht', htunnel, -⟩
        have hopen := htunnel rfl
        rw [hself, h.opened_of_last ht (hlast.1 ht')] at hopen
        exact ⟨hlast.1 ht', hopen⟩
      · rintro ⟨hl, hopen⟩
        refine ⟨hlast.2 hl, fun _ => ?_, hothers⟩
        rw [hself]
        exact (h.opened_of_last ht hl socat hostOk).2 hopen

theorem good_reset_iff {s : Site} (h : s.Kept) (ht : s.Truthful)
    (hup : s.down = false) (ns : Text) (fuser busy deleted : Bool)
    (h' : (s.reset ns fuser busy deleted).Kept) :
    Good s (.reset ns fuser busy deleted) (s.reset ns fuser busy deleted) ↔
      s.Orderly (.reset ns fuser busy deleted) := by
  rw [good_iff h']
  have hthrough {P : Prop}
      (hact : (Act.reset ns fuser busy deleted).isThrough = true) : P := by
    cases hact
  by_cases hns : ns = []
  · have hsame : s.reset ns fuser busy deleted = s := by simp [Site.reset, hns]
    rw [hsame]
    exact iff_of_true ⟨ht, hthrough, fun _ _ => rfl⟩
      (fun hne => absurd hns hne)
  rw [Site.reset_eq h ht hup hns]
  unfold Site.Orderly
  simp only [ne_eq, hns, not_false_eq_true, forall_const]
  split
  · constructor
    · rintro ⟨-, -, hothers⟩ m hm
      rw [← hothers m hm]
      simp [Site.killed]
    · intro hnone
      refine ⟨?_, hthrough, fun m hm => ?_⟩
      · simp [Site.Truthful, Site.killed]
      · rw [hnone m hm]
        simp [Site.killed]
  · have hothers : ∀ m, m ≠ ns →
        (s.tunnels.erase ns).get? m = s.tunnels.get? m :=
      fun m hm => Dict.get?_erase_of_ne _ hm
    by_cases hgone : ns ∈ s.live ∧ deleted = true
    · have hlast : Site.Truthful ⟨s.live.erase ns, s.tunnels.erase ns,
          s.cfg.erase ns, false⟩ ↔ s.Last ns :=
        h.truthful_erase_iff ht hgone.1 rfl rfl
      simp only [hgone, and_self, if_true, forall_const]
      exact ⟨fun hg => hlast.1 hg.1, fun hl => ⟨hlast.2 hl,
        hthrough, hothers⟩⟩
    · simp only [hgone, if_false]
      refine iff_of_true ⟨?_, hthrough, hothers⟩
        (fun hmem hdel => absurd ⟨hmem, hdel⟩ hgone)
      intro m p hp
      have hp' : (s.tunnels.erase ns).get? m = some p := hp
      rw [Dict.get?_erase] at hp'
      split at hp'
      · cases hp'
      · exact ht m p hp'

/-- Over every sequence of requests the tunnels and their statuses stay right
exactly as long as every step is orderly: a namespace comes or goes after those
with a tunnel, its tunnel can run, and the probe does not kill itself. -/
theorem eachStep_good_iff {live : List Text} (hnodup : live.Nodup)
    (acts : List Act) :
    EachStep Site.step Good (Site.start live) acts ↔
      EachStep Site.step (fun s act _ => s.Orderly act) (Site.start live)
        acts := by
  refine EachStep.congr_of_inv (I := fun s => s.Kept ∧ s.Truthful) ?_ ?_
    ⟨Site.start_kept hnodup, Site.start_truthful live⟩ acts
  · rintro s act s' ⟨h, ht⟩ hs
    have h' := h.step ht hs
    unfold Site.step at hs
    split at hs
    · cases hs
    rename_i hup
    cases act with
    | isolate how =>
        obtain rfl := Option.some.inj hs
        exact good_isolate_iff h ht how h'
    | reset ns fuser busy deleted =>
        obtain rfl := Option.some.inj hs
        exact good_reset_iff h ht (Bool.eq_false_iff.2 hup) ns fuser busy
          deleted h'
  · rintro s act s' ⟨h, ht⟩ hs hgood
    exact ⟨h.step ht hs, hgood.status⟩

def modemHost : Text :=
  "192.168.1.1".toList

/-- One modem comes and goes. -/
theorem eachStep_good_iff_alone :
    EachStep Site.step Good (Site.start [])
      [.isolate (.through modemHost 80 false true true true),
        .reset (ueName 1) true false true] := by
  refine (eachStep_good_iff List.nodup_nil _).2 fun s hs => ?_
  obtain rfl := Option.some.inj hs
  refine ⟨⟨fun m _ hm => ?_, rfl, rfl⟩, fun t ht => ⟨fun _ => ?_, trivial⟩⟩
  · cases hm
  · rw [if_neg (by simp)]
    intro _ _ m hne hm
    have hne' : m ≠ nextName (Site.start []).live := hne
    rw [((Site.isolate_through (Site.start_kept List.nodup_nil) modemHost 80
      false true true true).2.2 m).1, if_neg hne'] at hm
    cases hm

/-- Two modems are isolated and the first is reset: the status of the second
shows a port that nothing listens on. -/
theorem not_eachStep_good_reset :
    ¬ ∀ live : List Text, live.Nodup → ∀ acts,
      EachStep Site.step Good (Site.start live) acts := by
  intro h
  have hrun := h [] List.nodup_nil
    [.isolate (.through modemHost 80 false true true true),
      .isolate (.through modemHost 80 false true true true),
      .reset (ueName 1) true false true]
  have hgood := ((hrun _ rfl).2 _ rfl).2 _ rfl
  have hport := hgood.1.status (ueName 2) 18181 rfl
  revert hport
  decide

end Runs

end Probe
end Kelt
