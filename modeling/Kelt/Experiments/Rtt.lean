import Kelt.Experiments.Segments
import Kelt.Lib.Dict
import Kelt.Lib.PyText
import Mathlib.Data.List.Sort
import Mathlib.Tactic.Ring
import Mathlib.Algebra.Order.Ring.Unbundled.Rat

/-!
# The core of a round trip and its parts

`rtt.py` goes through the captures twice: `split` pairs each echo request on the
RAN bridge with its reply and gives the time between them as the core of the
round trip; `point_times` and `segments` take the same echo at five points and
give the parts between them. Both keep the first request and the first reply of
an echo (`getItem_reqs`, `entry_foldl_note`), so the parts of an echo that is
seen at every point add up to its core (`core_eq_sum_segments`).

Times are rational, and neither the core nor its parts are rounded. Addresses
are taken by their four bytes.
-/

namespace Kelt
namespace Experiments
namespace Rtt

open Pcap

section Echoes

inductive Kind where
  | request
  | reply
  deriving DecidableEq

/-- `(UE, ICMP id, seq)` -/
structure EchoKey where
  ue : Bytes
  ident : Nat
  seq : Nat
  deriving DecidableEq

/-- The echo with the target that a packet is the request or the reply of. -/
def echoOf (target ip : Bytes) : Option (Kind × EchoKey) :=
  let hl := headerLength ip
  if byte ip 9 = 1 ∧ hl + 8 ≤ ip.length then
    if byte ip hl = 8 ∧ dstOf ip = target then
      some (.request, ⟨srcOf ip, u16 ip (hl + 4), u16 ip (hl + 6)⟩)
    else if byte ip hl = 0 ∧ srcOf ip = target then
      some (.reply, ⟨dstOf ip, u16 ip (hl + 4), u16 ip (hl + 6)⟩)
    else none
  else none

/-- `d.setdefault(k, t)` -/
def setDefault (k : EchoKey) (t : ℚ) (d : List (EchoKey × ℚ)) :
    List (EchoKey × ℚ) :=
  match Dict.getItem k d with
  | some _ => d
  | none => Dict.setItem k t d

end Echoes

section Split

structure SplitState where
  reqs : List (EchoKey × ℚ)
  reps : List (EchoKey × ℚ)
  sources : List (Bytes × Nat)
  other : List (ℚ × Bytes)

/-- What `split` takes from a packet: the time and the inner packet. -/
def splitObserve (p : Packet ℚ) : Except Fault (Option (ℚ × Bytes)) := do
  match ← gtpuInner p.frame p.link with
  | none => return none
  | some inner =>
      if inner.length < 20 then .error .osError
      else return some (p.time, inner)

/-- One packet of the loop in `split`. -/
def splitCount (target : Bytes) (s : SplitState) (x : ℚ × Bytes) :
    SplitState :=
  match echoOf target x.2 with
  | some (.request, k) =>
      { s with
        reqs := setDefault k x.1 s.reqs
        sources := Dict.setItem k.ue
          ((Dict.getItem k.ue s.sources).getD 0 + 1) s.sources }
  | some (.reply, k) => { s with reps := setDefault k x.1 s.reps }
  | none => { s with other := s.other ++ [x] }

/-- `sources.most_common(1)[0][0]` -/
def mostCommon (sources : List (Bytes × Nat)) : Option Bytes :=
  (sources.foldl (fun best x =>
    match best with
    | none => some x
    | some b => if b.2 < x.2 then some x else some b) none).map Prod.fst

structure EchoFlow where
  first : ℚ
  coreMs : List (Nat × ℚ)
  unpaired : Nat
  requests : Nat

/-- One request in the order of their times. -/
def addRequest (ue : Bytes) (reps : List (EchoKey × ℚ))
    (flows : List (Nat × EchoFlow)) (x : EchoKey × ℚ) :
    List (Nat × EchoFlow) :=
  if x.1.ue ≠ ue then flows
  else
    let f := (Dict.getItem x.1.ident flows).getD ⟨x.2, [], 0, 0⟩
    let f := { f with requests := f.requests + 1 }
    match Dict.getItem x.1 reps with
    | none => Dict.setItem x.1.ident { f with unpaired := f.unpaired + 1 } flows
    | some r =>
        Dict.setItem x.1.ident
          { f with coreMs := Dict.setItem x.1.seq ((r - x.2) * 1000) f.coreMs }
          flows

structure SplitResult where
  ue : Option Bytes
  flows : List (Nat × EchoFlow)
  foreignPackets : Nat
  foreign : List (ℚ × Nat)

/-- What `split` makes of the loop. -/
def SplitState.result (target : Bytes) (s : SplitState) : SplitResult :=
  match mostCommon s.sources with
  | none => ⟨none, [], 0, []⟩
  | some ue =>
      let sorted := s.reqs.mergeSort fun a b => decide (a.2 ≤ b.2)
      let mine := s.other.filter fun x =>
        (decide (ue = srcOf x.2) || decide (ue = dstOf x.2)) &&
          !(decide (target = srcOf x.2) || decide (target = dstOf x.2))
      let foreign := mine.map fun x => (x.1, u16 x.2 2)
      ⟨some ue, sorted.foldl (addRequest ue s.reps) [], foreign.length,
        foreign⟩

/-- `split` -/
def split (packets : List (Packet ℚ)) (target : Bytes) :
    Except Fault SplitResult := do
  let s ← visits splitObserve (splitCount target) ⟨[], [], [], []⟩ packets
  return s.result target

end Split

section Points

/-- `POINTS` -/
inductive Point where
  | brRan
  | brN3
  | upfN3
  | upfN6m
  | server
  deriving DecidableEq

def points : List Point :=
  [.brRan, .brN3, .upfN3, .upfN6m, .server]

/-- `[request time, reply time]` -/
abbrev Entry := Option ℚ × Option ℚ

/-- `e or t` -/
def orElse (e : Option ℚ) (t : ℚ) : Option ℚ :=
  match e with
  | some x => if x = 0 then some t else some x
  | none => some t

/-- What `point_times` takes from a packet: the time and the ICMP packet. -/
def pointObserve (p : Packet ℚ) : Except Fault (Option (ℚ × Bytes)) := do
  match ← ipPacket p.frame p.link with
  | none => return none
  | some ip => do
      let proto ← byteAt ip 9
      if proto ≠ 1 then return none
      else if ip.length < headerLength ip + 8 then return none
      else if ip.length < 20 then .error .osError
      else return some (p.time, ip)

/-- One packet of the loop in `point_times`. -/
def note (target : Bytes) (out : List (EchoKey × Entry)) (x : ℚ × Bytes) :
    List (EchoKey × Entry) :=
  match echoOf target x.2 with
  | some (.request, k) =>
      let e := (Dict.getItem k out).getD (none, none)
      Dict.setItem k (orElse e.1 x.1, e.2) out
  | some (.reply, k) =>
      let e := (Dict.getItem k out).getD (none, none)
      Dict.setItem k (e.1, orElse e.2 x.1) out
  | none => out

/-- `point_times` -/
def pointTimes (packets : List (Packet ℚ)) (target : Bytes) :
    Except Fault (List (EchoKey × Entry)) :=
  visits pointObserve (note target) [] packets

/-- `SEGMENTS` -/
def segmentTable : List (Text × Point × Point) :=
  [("worker".toList, .brRan, .brN3), ("ovs_n3".toList, .brN3, .upfN3),
    ("upf".toList, .upfN3, .upfN6m), ("ovs_n6m".toList, .upfN6m, .server)]

/-- Both times of an entry. -/
def seen : Option Entry → Option (ℚ × ℚ)
  | some (some a, some b) => some (a, b)
  | _ => none

/-- `segments` -/
def segments (entries : Point → Option Entry) : Option (List (Text × ℚ)) :=
  if points.all fun p => (seen (entries p)).isSome then
    let time := fun p => (seen (entries p)).getD (0, 0)
    some (segmentTable.map (fun s =>
        (s.1, (((time s.2.2).1 - (time s.2.1).1) +
          ((time s.2.1).2 - (time s.2.2).2)) * 1000)) ++
      [("server".toList, ((time .server).2 - (time .server).1) * 1000)])
  else none

end Points

section Firsts

/-- The time of the first request, or the first reply, of an echo. -/
def firstOf (target : Bytes) (kind : Kind) (k : EchoKey) :
    List (ℚ × Bytes) → Option ℚ
  | [] => none
  | x :: xs =>
      if echoOf target x.2 = some (kind, k) then some x.1
      else firstOf target kind k xs

variable {target : Bytes} {k : EchoKey}

theorem getItem_setDefault (k k' : EchoKey) (t : ℚ) (d : List (EchoKey × ℚ)) :
    Dict.getItem k' (setDefault k t d) =
      (Dict.getItem k' d).or (if k = k' then some t else none) := by
  unfold setDefault
  cases hk : Dict.getItem k d with
  | some x =>
      by_cases heq : k = k'
      · subst heq
        rw [hk]
        rfl
      · simp [heq]
  | none =>
      dsimp only
      rw [Dict.getItem_setItem]
      by_cases heq : k = k'
      · subst heq
        rw [hk]
        rfl
      · simp [heq]

theorem or_firstOf_cons (e : Option ℚ) (kind : Kind) (x : ℚ × Bytes)
    (xs : List (ℚ × Bytes)) :
    (e.or (if echoOf target x.2 = some (kind, k) then some x.1 else none)).or
        (firstOf target kind k xs) =
      e.or (firstOf target kind k (x :: xs)) := by
  rw [Option.or_assoc, firstOf]
  by_cases h : echoOf target x.2 = some (kind, k)
  · rw [if_pos h, if_pos h]
    rfl
  · rw [if_neg h, if_neg h]
    rfl

theorem getItem_splitCount (s : SplitState) (x : ℚ × Bytes) :
    Dict.getItem k (splitCount target s x).reqs = (Dict.getItem k s.reqs).or
        (if echoOf target x.2 = some (.request, k) then some x.1 else none) ∧
      Dict.getItem k (splitCount target s x).reps = (Dict.getItem k s.reps).or
        (if echoOf target x.2 = some (.reply, k) then some x.1 else none) := by
  unfold splitCount
  cases hecho : echoOf target x.2 with
  | none => simp
  | some e =>
      obtain ⟨kind, k'⟩ := e
      cases kind with
      | request => simp [getItem_setDefault]
      | reply => simp [getItem_setDefault]

/-- Of each echo the first request is kept, and the first reply. -/
theorem getItem_foldl_splitCount (target : Bytes) (k : EchoKey)
    (xs : List (ℚ × Bytes)) (s : SplitState) :
    Dict.getItem k (xs.foldl (splitCount target) s).reqs =
        (Dict.getItem k s.reqs).or (firstOf target .request k xs) ∧
      Dict.getItem k (xs.foldl (splitCount target) s).reps =
        (Dict.getItem k s.reps).or (firstOf target .reply k xs) := by
  induction xs generalizing s with
  | nil => simp [firstOf]
  | cons x xs ih =>
      obtain ⟨hreqs, hreps⟩ := ih (splitCount target s x)
      obtain ⟨hreqs', hreps'⟩ := getItem_splitCount s x
      rw [List.foldl_cons, hreqs, hreps, hreqs', hreps', or_firstOf_cons,
        or_firstOf_cons]
      exact ⟨rfl, rfl⟩

theorem nodup_foldl_splitCount (target : Bytes) (xs : List (ℚ × Bytes))
    {s : SplitState} (h : (s.reqs.map Prod.fst).Nodup) :
    ((xs.foldl (splitCount target) s).reqs.map Prod.fst).Nodup := by
  induction xs generalizing s with
  | nil => exact h
  | cons x xs ih =>
      refine ih ?_
      unfold splitCount setDefault
      split
      · split
        · exact h
        · exact Dict.nodup_setItem _ _ h
      · exact h
      · exact h

/-- The entry of an echo, empty if there is none. -/
def entry (k : EchoKey) (out : List (EchoKey × Entry)) : Entry :=
  (Dict.getItem k out).getD (none, none)

theorem orElse_eq {e : Option ℚ} (he : e ≠ some 0) (t : ℚ) :
    orElse e t = e.or (some t) := by
  cases e with
  | none => rfl
  | some x =>
      have hx : x ≠ 0 := fun h => he (congrArg some h)
      simp [orElse, hx]

/-- A time that is kept is not taken for missing. -/
def Nonzero (out : List (EchoKey × Entry)) : Prop :=
  ∀ k, (entry k out).1 ≠ some 0 ∧ (entry k out).2 ≠ some 0

theorem entry_note {out : List (EchoKey × Entry)} (hout : Nonzero out)
    (x : ℚ × Bytes) :
    entry k (note target out x) =
      ((entry k out).1.or
          (if echoOf target x.2 = some (.request, k) then some x.1 else none),
        (entry k out).2.or
          (if echoOf target x.2 = some (.reply, k) then some x.1
            else none)) := by
  unfold note
  cases hecho : echoOf target x.2 with
  | none => simp
  | some e =>
      obtain ⟨kind, k'⟩ := e
      obtain ⟨hreq, hrep⟩ := hout k'
      have hset : ∀ v, entry k (Dict.setItem k' v out) =
          if k' = k then v else entry k out := by
        intro v
        unfold entry
        rw [Dict.getItem_setItem]
        by_cases hk : k' = k
        · rw [if_pos hk, if_pos hk]
          rfl
        · rw [if_neg hk, if_neg hk]
      change ((Dict.getItem k' out).getD (none, none)).1 ≠ some 0 at hreq
      change ((Dict.getItem k' out).getD (none, none)).2 ≠ some 0 at hrep
      cases kind with
      | request =>
          dsimp only
          rw [hset, orElse_eq hreq]
          by_cases hk : k' = k
          · subst hk
            simp [entry]
          · simp [hk]
      | reply =>
          dsimp only
          rw [hset, orElse_eq hrep]
          by_cases hk : k' = k
          · subst hk
            simp [entry]
          · simp [hk]

theorem nonzero_note {out : List (EchoKey × Entry)} (hout : Nonzero out)
    {x : ℚ × Bytes} (hx : 0 < x.1) : Nonzero (note target out x) := by
  have hor : ∀ {e : Option ℚ} {c : Prop} [Decidable c], e ≠ some 0 →
      e.or (if c then some x.1 else none) ≠ some 0 := by
    intro e c _ he
    cases e with
    | some y => exact he
    | none =>
        by_cases hc : c
        · simpa [hc] using hx.ne'
        · simp [hc]
  intro k
  rw [entry_note hout]
  exact ⟨hor (hout k).1, hor (hout k).2⟩

/-- With positive times, each point keeps the first request and the first reply
of an echo too. -/
theorem entry_foldl_note (target : Bytes) (k : EchoKey)
    {xs : List (ℚ × Bytes)} (hpos : ∀ x ∈ xs, 0 < x.1)
    {out : List (EchoKey × Entry)} (hout : Nonzero out) :
    entry k (xs.foldl (note target) out) =
      ((entry k out).1.or (firstOf target .request k xs),
        (entry k out).2.or (firstOf target .reply k xs)) := by
  induction xs generalizing out with
  | nil => simp [firstOf]
  | cons x xs ih =>
      have hx := hpos x List.mem_cons_self
      rw [List.foldl_cons, ih (fun y hy => hpos y (List.mem_cons_of_mem x hy))
        (nonzero_note hout hx), entry_note hout]
      dsimp only
      rw [or_firstOf_cons, or_firstOf_cons]

end Firsts

section Observed

variable {target : Bytes} {k : EchoKey} {kind : Kind} {p : Packet ℚ}

theorem firstOf_append (xs ys : List (ℚ × Bytes)) :
    firstOf target kind k (xs ++ ys) =
      (firstOf target kind k xs).or (firstOf target kind k ys) := by
  induction xs with
  | nil => rfl
  | cons x xs ih =>
      rw [List.cons_append, firstOf, firstOf, ih]
      split
      · rfl
      · rfl

/-- Each function keeps of a packet what its parser makes of it, unless no echo
is lost with it. -/
theorem firstOf_splitObserve {found : Option (ℚ × Bytes)}
    (h : splitObserve p = .ok found) {ip : Bytes}
    (hinner : gtpuInner p.frame p.link = .ok (some ip)) :
    firstOf target kind k found.toList =
      firstOf target kind k [(p.time, ip)] := by
  unfold splitObserve at h
  rw [hinner] at h
  simp only [bind, Except.bind] at h
  split at h
  · cases h
  · obtain rfl := Except.ok.inj h
    rfl

theorem firstOf_pointObserve {found : Option (ℚ × Bytes)}
    (h : pointObserve p = .ok found) {ip : Bytes}
    (hip : ipPacket p.frame p.link = .ok (some ip)) :
    firstOf target kind k found.toList =
      firstOf target kind k [(p.time, ip)] := by
  have hlost : echoOf target ip = none →
      firstOf target kind k [(p.time, ip)] = none := by
    intro hecho
    simp [firstOf, hecho]
  obtain ⟨r, hr, h⟩ := bind_eq_ok h
  obtain rfl := Except.ok.inj (hip.symm.trans hr)
  obtain ⟨proto, hproto, h⟩ := bind_eq_ok h
  have hbyte : proto = byte ip 9 := by
    by_cases hlen : 9 < ip.length
    · rw [byteAt_of_lt hlen] at hproto
      exact (Except.ok.inj hproto).symm
    · rw [byteAt_of_le (by omega)] at hproto
      cases hproto
  subst hbyte
  split at h
  · rename_i hne
    obtain rfl := Except.ok.inj h
    exact (hlost (by simp [echoOf, hne])).symm
  · split at h
    · rename_i hshort
      obtain rfl := Except.ok.inj h
      refine (hlost ?_).symm
      unfold echoOf
      exact if_neg (by omega)
    · split at h
      · cases h
      · obtain rfl := Except.ok.inj h
        rfl

/-- The capture carries the target's echoes inside GTP-U only. -/
def EchoesInGtpu (target : Bytes) (packets : List (Packet ℚ)) : Prop :=
  ∀ p ∈ packets, gtpuInner p.frame p.link = .ok none →
    ∀ ip, ipPacket p.frame p.link = .ok (some ip) → echoOf target ip = none

theorem firstOf_observe (honly : EchoesInGtpu target [p])
    {found found' : Option (ℚ × Bytes)} (h : splitObserve p = .ok found)
    (h' : pointObserve p = .ok found') :
    firstOf target kind k found.toList =
      firstOf target kind k found'.toList := by
  obtain ⟨r, hr, -⟩ := bind_eq_ok h
  cases r with
  | some ip =>
      have hip : ipPacket p.frame p.link = .ok (some ip) := by
        rw [ipPacket_eq_of_gtpuInner hr]
        rfl
      rw [firstOf_splitObserve h hr, firstOf_pointObserve h' hip]
  | none =>
      have hfound : found = none := by
        unfold splitObserve at h
        rw [hr] at h
        exact (Except.ok.inj h).symm
      subst hfound
      obtain ⟨r', hr', -⟩ := bind_eq_ok h'
      cases r' with
      | some ip =>
          have hecho := honly p List.mem_cons_self hr ip hr'
          rw [firstOf_pointObserve h' hr']
          simp [firstOf, hecho]
      | none =>
          unfold pointObserve at h'
          rw [hr'] at h'
          obtain rfl := Except.ok.inj h'
          rfl

/-- Both functions see the same echoes in the same order. -/
theorem firstOf_gather {packets : List (Packet ℚ)}
    (honly : EchoesInGtpu target packets) {xs ys : List (ℚ × Bytes)}
    (hxs : gather splitObserve packets = .ok xs)
    (hys : gather pointObserve packets = .ok ys) :
    firstOf target kind k xs = firstOf target kind k ys := by
  induction packets generalizing xs ys with
  | nil =>
      obtain rfl := Except.ok.inj hxs
      obtain rfl := Except.ok.inj hys
      rfl
  | cons p packets ih =>
      obtain ⟨found, hfound, hxs⟩ := bind_eq_ok hxs
      obtain ⟨rest, hrest, hxs⟩ := bind_eq_ok hxs
      obtain rfl := Except.ok.inj hxs
      obtain ⟨found', hfound', hys⟩ := bind_eq_ok hys
      obtain ⟨rest', hrest', hys⟩ := bind_eq_ok hys
      obtain rfl := Except.ok.inj hys
      have honlyp : EchoesInGtpu target [p] := by
        intro q hq
        obtain rfl := List.mem_singleton.1 hq
        exact honly q List.mem_cons_self
      have honlyrest : EchoesInGtpu target packets :=
        fun q hq => honly q (List.mem_cons_of_mem p hq)
      rw [firstOf_append, firstOf_append, firstOf_observe honlyp hfound hfound',
        ih honlyrest hrest hrest']

end Observed

section Cores

variable {k : EchoKey} {reps : List (EchoKey × ℚ)}

/-- The core of an echo in the flow of its ICMP id. -/
def coreOf (k : EchoKey) (flows : List (Nat × EchoFlow)) : Option ℚ :=
  (Dict.getItem k.ident flows).bind fun f => Dict.getItem k.seq f.coreMs

theorem coreOf_setItem (i : Nat) (f : EchoFlow)
    (flows : List (Nat × EchoFlow)) :
    coreOf k (Dict.setItem i f flows) =
      if i = k.ident then Dict.getItem k.seq f.coreMs else coreOf k flows := by
  unfold coreOf
  rw [Dict.getItem_setItem]
  by_cases hi : i = k.ident
  · rw [if_pos hi, if_pos hi]
    rfl
  · rw [if_neg hi, if_neg hi]

/-- The flow that a request is counted in has the cores that are there. -/
theorem getItem_coreMs_getD (flows : List (Nat × EchoFlow)) (t : ℚ) :
    Dict.getItem k.seq
        ((Dict.getItem k.ident flows).getD ⟨t, [], 0, 0⟩).coreMs =
      coreOf k flows := by
  unfold coreOf
  cases Dict.getItem k.ident flows with
  | none => rfl
  | some f => rfl

/-- A request of another echo leaves the core as it is. -/
theorem coreOf_addRequest_of_ne {x : EchoKey × ℚ} (hx : x.1 ≠ k)
    (flows : List (Nat × EchoFlow)) :
    coreOf k (addRequest k.ue reps flows x) = coreOf k flows := by
  unfold addRequest
  by_cases hue : x.1.ue = k.ue
  swap
  · rw [if_pos hue]
  rw [if_neg (not_not.2 hue)]
  by_cases hident : x.1.ident = k.ident
  · have hseq : x.1.seq ≠ k.seq := by
      intro hseq
      obtain ⟨⟨ue, ident, seq⟩, t⟩ := x
      obtain ⟨ue', ident', seq'⟩ := k
      dsimp only at hue hident hseq
      exact hx (by rw [hue, hident, hseq])
    rw [hident]
    cases Dict.getItem x.1 reps with
    | none =>
        dsimp only
        rw [coreOf_setItem, if_pos rfl]
        exact getItem_coreMs_getD flows x.2
    | some r =>
        dsimp only
        rw [coreOf_setItem, if_pos rfl, Dict.getItem_setItem, if_neg hseq]
        exact getItem_coreMs_getD flows x.2
  · cases Dict.getItem x.1 reps with
    | none => exact (coreOf_setItem _ _ _).trans (if_neg hident)
    | some r => exact (coreOf_setItem _ _ _).trans (if_neg hident)

theorem coreOf_addRequest_self {t r : ℚ} (hr : Dict.getItem k reps = some r)
    (flows : List (Nat × EchoFlow)) :
    coreOf k (addRequest k.ue reps flows (k, t)) = some ((r - t) * 1000) := by
  unfold addRequest
  rw [if_neg (not_not.2 rfl), hr]
  dsimp only
  rw [coreOf_setItem, if_pos rfl, Dict.getItem_setItem, if_pos rfl]

theorem coreOf_foldl_of_notMem {sorted : List (EchoKey × ℚ)}
    (h : k ∉ sorted.map Prod.fst) (flows : List (Nat × EchoFlow)) :
    coreOf k (sorted.foldl (addRequest k.ue reps) flows) = coreOf k flows := by
  induction sorted generalizing flows with
  | nil => rfl
  | cons x sorted ih =>
      rw [List.map_cons, List.mem_cons, not_or] at h
      obtain ⟨hx, hrest⟩ := h
      rw [List.foldl_cons, ih hrest, coreOf_addRequest_of_ne (Ne.symm hx)]

/-- The core of an echo is the time from its request to its reply, wherever the
request stands in the order. -/
theorem coreOf_foldl {sorted : List (EchoKey × ℚ)}
    (hnodup : (sorted.map Prod.fst).Nodup) {t r : ℚ} (ht : (k, t) ∈ sorted)
    (hr : Dict.getItem k reps = some r) (flows : List (Nat × EchoFlow)) :
    coreOf k (sorted.foldl (addRequest k.ue reps) flows) =
      some ((r - t) * 1000) := by
  induction sorted generalizing flows with
  | nil => cases ht
  | cons x sorted ih =>
      rw [List.map_cons, List.nodup_cons] at hnodup
      obtain ⟨hfresh, hnodup⟩ := hnodup
      rcases List.mem_cons.1 ht with rfl | ht
      · rw [List.foldl_cons, coreOf_foldl_of_notMem hfresh,
          coreOf_addRequest_self hr]
      · exact ih hnodup ht (addRequest k.ue reps flows x)

/-- What `split` gives as the core. -/
theorem coreOf_split {target : Bytes} {packets : List (Packet ℚ)}
    {s : SplitResult} (h : split packets target = .ok s)
    (hue : s.ue = some k.ue) {xs : List (ℚ × Bytes)}
    (hxs : gather splitObserve packets = .ok xs) {t r : ℚ}
    (ht : firstOf target .request k xs = some t)
    (hr : firstOf target .reply k xs = some r) :
    coreOf k s.flows = some ((r - t) * 1000) := by
  obtain ⟨state, hstate, hs⟩ := bind_eq_ok h
  obtain rfl := Except.ok.inj hs
  rw [visits_eq splitObserve _ hxs] at hstate
  obtain rfl := Except.ok.inj hstate
  obtain ⟨hreqs, hreps⟩ := getItem_foldl_splitCount target k xs
    ⟨[], [], [], []⟩
  have hnodup := nodup_foldl_splitCount target xs
    (s := ⟨[], [], [], []⟩) List.nodup_nil
  rw [ht] at hreqs
  rw [hr] at hreps
  generalize xs.foldl (splitCount target) ⟨[], [], [], []⟩ = state at *
  unfold SplitState.result at hue ⊢
  cases hcommon : mostCommon state.sources with
  | none =>
      rw [hcommon] at hue
      cases hue
  | some ue =>
      rw [hcommon] at hue
      obtain rfl := Option.some.inj hue
      have hperm := List.mergeSort_perm state.reqs
        fun a b => decide (a.2 ≤ b.2)
      refine coreOf_foldl ?_ ?_ hreps []
      · exact (hperm.map Prod.fst).nodup_iff.2 hnodup
      · exact hperm.mem_iff.2 (Dict.mem_of_getItem hreqs)

end Cores

section Sum

/-- An echo with a request and a reply at a point. -/
def SeenAt (target : Bytes) (k : EchoKey) (packets : List (Packet ℚ)) : Prop :=
  ∀ kind, ∃ p ∈ packets, ∃ ip,
    pointObserve p = .ok (some (p.time, ip)) ∧ echoOf target ip = some (kind, k)

variable {target : Bytes} {k : EchoKey} {packets : List (Packet ℚ)}

theorem time_of_pointObserve {p : Packet ℚ} {x : ℚ × Bytes}
    (h : pointObserve p = .ok (some x)) : x.1 = p.time := by
  obtain ⟨r, -, h⟩ := bind_eq_ok h
  cases r with
  | none => cases h
  | some ip =>
      obtain ⟨proto, -, h⟩ := bind_eq_ok h
      split at h
      · cases h
      · split at h
        · cases h
        · split at h
          · cases h
          · rw [← Option.some.inj (Except.ok.inj h)]

/-- Nothing that is found in a packet is lost, and it has the packet's time. -/
theorem mem_gather_pointObserve {xs : List (ℚ × Bytes)}
    (hxs : gather pointObserve packets = .ok xs) :
    (∀ p ∈ packets, ∀ x, pointObserve p = .ok (some x) → x ∈ xs) ∧
      ∀ x ∈ xs, ∃ p ∈ packets, x.1 = p.time := by
  induction packets generalizing xs with
  | nil =>
      obtain rfl := Except.ok.inj hxs
      exact ⟨nofun, nofun⟩
  | cons p packets ih =>
      obtain ⟨found, hfound, hxs⟩ := bind_eq_ok hxs
      obtain ⟨rest, hrest, hxs⟩ := bind_eq_ok hxs
      obtain rfl := Except.ok.inj hxs
      obtain ⟨hkept, htimes⟩ := ih hrest
      constructor
      · intro q hq x hx
        rcases List.mem_cons.1 hq with rfl | hq
        · obtain rfl := Except.ok.inj (hfound.symm.trans hx)
          exact List.mem_append_left rest List.mem_cons_self
        · exact List.mem_append_right _ (hkept q hq x hx)
      · intro x hx
        rcases List.mem_append.1 hx with hx | hx
        · obtain rfl := Option.mem_toList.1 hx
          exact ⟨p, List.mem_cons_self, time_of_pointObserve hfound⟩
        · obtain ⟨q, hq, htime⟩ := htimes x hx
          exact ⟨q, List.mem_cons_of_mem p hq, htime⟩

theorem exists_firstOf {kind : Kind} {xs : List (ℚ × Bytes)}
    {x : ℚ × Bytes} (hx : x ∈ xs) (hecho : echoOf target x.2 = some (kind, k)) :
    ∃ t, firstOf target kind k xs = some t := by
  induction xs with
  | nil => cases hx
  | cons y ys ih =>
      rw [firstOf]
      split
      · exact ⟨y.1, rfl⟩
      · rename_i hne
        rcases List.mem_cons.1 hx with rfl | hx
        · exact absurd hecho hne
        · exact ih hx

/-- What `point_times` gives for an echo that is seen. -/
theorem seen_pointTimes {times : List (EchoKey × Entry)}
    (h : pointTimes packets target = .ok times)
    (hpos : ∀ p ∈ packets, 0 < p.time) (hseen : SeenAt target k packets) :
    ∃ xs a b, gather pointObserve packets = .ok xs ∧
      firstOf target .request k xs = some a ∧
      firstOf target .reply k xs = some b ∧
      seen (Dict.getItem k times) = some (a, b) := by
  obtain ⟨xs, hxs, rfl⟩ := gather_of_visits h
  obtain ⟨hkept, htimes⟩ := mem_gather_pointObserve hxs
  have hfirst : ∀ kind, ∃ t, firstOf target kind k xs = some t := by
    intro kind
    obtain ⟨p, hp, ip, hip, hecho⟩ := hseen kind
    exact exists_firstOf (hkept p hp _ hip) hecho
  obtain ⟨a, ha⟩ := hfirst .request
  obtain ⟨b, hb⟩ := hfirst .reply
  have htime_pos : ∀ x ∈ xs, 0 < x.1 := by
    intro x hx
    obtain ⟨p, hp, htime⟩ := htimes x hx
    rw [htime]
    exact hpos p hp
  have hempty : Nonzero [] := fun k => ⟨nofun, nofun⟩
  have hentry := entry_foldl_note target k htime_pos hempty
  rw [ha, hb] at hentry
  refine ⟨xs, a, b, hxs, ha, hb, ?_⟩
  unfold entry at hentry
  cases hget : Dict.getItem k (xs.foldl (note target) []) with
  | none =>
      rw [hget] at hentry
      cases hentry
  | some e =>
      rw [hget] at hentry
      change e = (some a, some b) at hentry
      rw [hentry]
      rfl

/-- The parts telescope: the times at the points between the first and the
server cancel out. -/
theorem sum_segments {entries : Point → Option Entry} {a b : Point → ℚ}
    (h : ∀ p, seen (entries p) = some (a p, b p)) :
    ∃ parts, segments entries = some parts ∧
      (parts.map Prod.snd).sum = (b .brRan - a .brRan) * 1000 := by
  have hall : (points.all fun p => (seen (entries p)).isSome) = true := by
    rw [List.all_eq_true]
    intro p _
    rw [h p]
    rfl
  unfold segments
  rw [if_pos hall]
  refine ⟨_, rfl, ?_⟩
  simp only [segmentTable, List.map_cons, List.map_nil, List.cons_append,
    List.nil_append, List.sum_cons, List.sum_nil, h, Option.getD_some]
  ring

/-- The five parts of an echo that is seen at all points add up to its core. -/
theorem core_eq_sum_segments (captures : Point → List (Packet ℚ))
    (target : Bytes) (k : EchoKey)
    (hpos : ∀ point, ∀ p ∈ captures point, 0 < p.time)
    (honly : EchoesInGtpu target (captures .brRan))
    {s : SplitResult} (hsplit : split (captures .brRan) target = .ok s)
    {times : Point → List (EchoKey × Entry)}
    (htimes : ∀ point, pointTimes (captures point) target = .ok (times point))
    (hue : s.ue = some k.ue)
    (hseen : ∀ point, SeenAt target k (captures point)) :
    ∃ parts core, segments (fun point => Dict.getItem k (times point)) =
        some parts ∧
      coreOf k s.flows = some core ∧ (parts.map Prod.snd).sum = core := by
  choose xs a b hxs ha hb hat using fun point =>
    seen_pointTimes (htimes point) (hpos point) (hseen point)
  obtain ⟨parts, hparts, hsum⟩ := sum_segments hat
  refine ⟨parts, _, hparts, ?_, hsum⟩
  obtain ⟨state, hstate, -⟩ := bind_eq_ok hsplit
  obtain ⟨ys, hys, -⟩ := gather_of_visits hstate
  refine coreOf_split hsplit hue hys ?_ ?_
  · rw [firstOf_gather honly hys (hxs .brRan), ha]
  · rw [firstOf_gather honly hys (hxs .brRan), hb]

end Sum

section Captured

/-- An echo request, or its reply, without options and data. -/
def echoInner (target : Bytes) (k : EchoKey) (kind : Kind) : Bytes :=
  let ends := match kind with
    | .request => k.ue ++ target ++ [8, 0, 0, 0]
    | .reply => target ++ k.ue ++ [0, 0, 0, 0]
  [0x45, 0, 0, 28, 0, 0, 0, 0, 64, 1, 0, 0] ++ ends ++ be16 k.ident ++
    be16 k.seq

/-- The fields fit into the headers. -/
structure EchoKey.Sendable (k : EchoKey) : Prop where
  ue : k.ue.length = 4
  ident : k.ident < 65536
  seq : k.seq < 65536

variable {target : Bytes} {k : EchoKey}

theorem echoInner_complete (target : Bytes) (k : EchoKey) (kind : Kind) :
    Complete (echoInner target k kind) := by
  have hheader : headerLength (echoInner target k kind) = 20 := by
    have hfirst : byte (echoInner target k kind) 0 = 0x45 := rfl
    unfold headerLength
    rw [hfirst]
    decide
  refine ⟨rfl, by omega, ?_⟩
  rw [hheader]
  unfold echoInner
  cases kind <;>
    (simp only [List.length_append, List.length_cons, List.length_nil, be16]
     omega)

theorem echoOf_echoInner (htarget : target.length = 4) (hk : k.Sendable)
    (kind : Kind) :
    (echoInner target k kind).length = 28 ∧
      headerLength (echoInner target k kind) = 20 ∧
      echoOf target (echoInner target k kind) = some (kind, k) := by
  obtain ⟨ue, ident, seq⟩ := k
  obtain ⟨hue, hident, hseq⟩ := hk
  obtain ⟨a, b, c, d, rfl⟩ := exists_eq_of_length_four htarget
  obtain ⟨a', b', c', d', rfl⟩ := exists_eq_of_length_four hue
  have hheader : ∀ kind, headerLength
      (echoInner [a, b, c, d] ⟨[a', b', c', d'], ident, seq⟩ kind) = 20 := by
    intro kind
    have hfirst : byte (echoInner [a, b, c, d]
      ⟨[a', b', c', d'], ident, seq⟩ kind) 0 = 0x45 := rfl
    unfold headerLength
    rw [hfirst]
    decide
  have hfields : ∀ kind,
      u16 (echoInner [a, b, c, d] ⟨[a', b', c', d'], ident, seq⟩ kind) 24 =
        ident ∧
      u16 (echoInner [a, b, c, d] ⟨[a', b', c', d'], ident, seq⟩ kind) 26 =
        seq := by
    intro kind
    cases kind <;>
      exact ⟨u16_be16 hident, u16_be16 hseq⟩
  cases kind with
  | request =>
      refine ⟨rfl, hheader _, ?_⟩
      unfold echoOf
      simp only [hheader, (hfields .request).1, (hfields .request).2]
      rw [if_pos ⟨rfl, Nat.le_refl 28⟩, if_pos ⟨rfl, rfl⟩]
      rfl
  | reply =>
      refine ⟨rfl, hheader _, ?_⟩
      unfold echoOf
      simp only [hheader, (hfields .reply).1, (hfields .reply).2]
      have hkind : ¬ (0 : UInt8) = 8 := by decide
      rw [if_pos ⟨rfl, Nat.le_refl 28⟩, if_neg fun h => hkind h.1,
        if_pos ⟨rfl, rfl⟩]
      rfl

/-- The frame in which an echo crosses the RAN bridge. -/
def echoFrame (target : Bytes) (k : EchoKey) (kind : Kind) : Frame :=
  gpduFrame (echoInner target k kind) (echoInner_complete target k kind)

theorem observe_echoFrame (htarget : target.length = 4) (hk : k.Sendable)
    (kind : Kind) (t : ℚ) :
    splitObserve ⟨t, (echoFrame target k kind).bytes, 1⟩ =
        .ok (some (t, echoInner target k kind)) ∧
      pointObserve ⟨t, (echoFrame target k kind).bytes, 1⟩ =
        .ok (some (t, echoInner target k kind)) := by
  obtain ⟨hlen, hheader, -⟩ := echoOf_echoInner htarget hk kind
  have hinner : gtpuInner (echoFrame target k kind).bytes 1 =
      .ok (some (echoInner target k kind)) := gtpuInner_gpduFrame _
  have hproto : byteAt (echoInner target k kind) 9 = .ok 1 := rfl
  constructor
  · unfold splitObserve
    rw [hinner]
    simp only [bind, Except.bind]
    rw [if_neg (by omega)]
    rfl
  · unfold pointObserve
    rw [ipPacket_eq_of_gtpuInner hinner]
    simp only [bind, Except.bind, Option.or, hproto]
    rw [if_neg (by decide), if_neg (by omega), if_neg (by omega)]
    rfl

/-- The target of the ping and one of its echoes. -/
def server : Bytes :=
  [10, 45, 0, 1]

def echo : EchoKey :=
  ⟨[10, 45, 0, 7], 6, 1⟩

theorem echo_sendable : echo.Sendable :=
  ⟨rfl, by decide, by decide⟩

/-- When the echo is at a point on its way there, and on its way back. -/
def passing : Point → ℚ × ℚ
  | .brRan => (1, 20)
  | .brN3 => (2, 18)
  | .upfN3 => (3, 15)
  | .upfN6m => (5, 14)
  | .server => (6, 11)

/-- The request is captured twice at every point. -/
def captured (point : Point) : List (Kind × ℚ) :=
  [(.request, (passing point).1), (.request, 7),
    (.reply, (passing point).2)]

theorem captured_pos (point : Point) : ∀ x ∈ captured point, 0 < x.2 := by
  cases point <;> decide

def crossing (point : Point) : List (Packet ℚ) :=
  (captured point).map fun x => ⟨x.2, (echoFrame server echo x.1).bytes, 1⟩

def found (point : Point) : List (ℚ × Bytes) :=
  (captured point).map fun x => (x.2, echoInner server echo x.1)

theorem gather_crossing (point : Point) :
    gather splitObserve (crossing point) = .ok (found point) ∧
      gather pointObserve (crossing point) = .ok (found point) :=
  ⟨gather_map fun x _ => (observe_echoFrame rfl echo_sendable x.1 x.2).1,
    gather_map fun x _ => (observe_echoFrame rfl echo_sendable x.1 x.2).2⟩

/-- The second request is passed over at every point. -/
theorem core_eq_sum_segments_crossing :
    ∃ (s : SplitResult) (times : Point → List (EchoKey × Entry)),
      split (crossing .brRan) server = .ok s ∧
      (∀ point, pointTimes (crossing point) server = .ok (times point)) ∧
      ∃ parts core, segments (fun point => Dict.getItem echo (times point)) =
          some parts ∧
        coreOf echo s.flows = some core ∧
        (parts.map Prod.snd).sum = core := by
  have hsplit : split (crossing .brRan) server = .ok
      (((found .brRan).foldl (splitCount server) ⟨[], [], [], []⟩).result
        server) := by
    unfold split
    rw [visits_eq _ _ (gather_crossing .brRan).1]
    rfl
  have htimes : ∀ point, pointTimes (crossing point) server = .ok
      ((found point).foldl (note server) []) :=
    fun point => visits_eq _ _ (gather_crossing point).2 []
  have hpos : ∀ point, ∀ p ∈ crossing point, 0 < p.time := by
    intro point p hp
    obtain ⟨x, hx, rfl⟩ := List.mem_map.1 hp
    exact captured_pos point x hx
  have honly : EchoesInGtpu server (crossing .brRan) := by
    intro p hp hnone
    obtain ⟨x, -, rfl⟩ := List.mem_map.1 hp
    have hinner := gtpuInner_gpduFrame (echoInner_complete server echo x.1)
    rw [echoFrame, hinner] at hnone
    cases hnone
  have hseen : ∀ point, SeenAt server echo (crossing point) := by
    intro point kind
    obtain ⟨t, ht⟩ : ∃ t, (kind, t) ∈ captured point := by
      cases kind with
      | request => exact ⟨_, List.mem_cons_self⟩
      | reply =>
          exact ⟨_, List.mem_cons_of_mem _
            (List.mem_cons_of_mem _ List.mem_cons_self)⟩
    exact ⟨_, List.mem_map_of_mem ht, _,
      (observe_echoFrame rfl echo_sendable kind t).2,
      (echoOf_echoInner rfl echo_sendable kind).2.2⟩
  exact ⟨_, _, hsplit, htimes,
    core_eq_sum_segments crossing server echo hpos honly hsplit htimes
      (by decide) hseen⟩

end Captured

end Rtt
end Experiments
end Kelt
