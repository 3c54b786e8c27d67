import Kelt.Experiments.Gtpu
import Kelt.Lib.Serial
import Mathlib.Algebra.Ring.Int.Defs

/-!
# TCP segments of a capture

`br_ran` (`throughput.py`) and `sequence_ranges` (`throughput_bytes.py`) go
through the packets of a capture and take the same fields from the ones with a
TCP segment of the target. What either makes of a packet is a function of the
packet alone, so a run is a fold over the segments that are found (`visits_eq`).

Addresses are taken by their four bytes. A segment has its sequence number as it
was sent, or as it would be without the bound of 32 bits; `Segment.wrapped`
leads from the second to the first.
-/

namespace Kelt
namespace Experiments

open Pcap

section Segments

/-- A packet as `read_pcap` gives it. -/
structure Packet (τ : Type) where
  time : τ
  frame : Bytes
  link : Nat

/-- `(src, sport, dst, dport)` -/
structure Flow where
  src : Bytes
  sport : Nat
  dst : Bytes
  dport : Nat
  deriving DecidableEq

structure Segment where
  flow : Flow
  seq : Int
  payload : Int
  deriving DecidableEq

def ring : Int := 2 ^ 32

/-- The segment as it is sent. -/
def Segment.wrapped (g : Segment) : Segment :=
  { g with seq := g.seq % ring }

/-- The position behind the last byte. -/
def Segment.upto (g : Segment) : Int :=
  g.seq + g.payload

inductive Dir where
  | dl
  | ul
  deriving DecidableEq

/-- `"dl" if src == target else "ul"` -/
def Segment.dir (target : Bytes) (g : Segment) : Dir :=
  if g.flow.src = target then .dl else .ul

/-- The packet of a frame, if it is one of TCP. -/
def tcpPacket (frame : Bytes) (link : Nat) : Except Fault (Option Bytes) := do
  match ← gtpuInner frame link with
  | none => return none
  | some ip => do
      let proto ← byteAt ip 9
      return if proto = 6 then some ip else none

def srcOf (ip : Bytes) : Bytes :=
  (ip.drop 12).take 4

def dstOf (ip : Bytes) : Bytes :=
  (ip.drop 16).take 4

/-- `target in (src, dst)`; `inet_ntoa` refuses less than four bytes. -/
def addressed (target ip : Bytes) : Except Fault Bool :=
  if ip.length < 20 then .error .osError
  else .ok (decide (target = srcOf ip) || decide (target = dstOf ip))

/-- The fields of the TCP segment of a packet that has them. -/
def segment (ip : Bytes) : Segment :=
  let hl := headerLength ip
  { flow := ⟨srcOf ip, u16 ip hl, dstOf ip, u16 ip (hl + 2)⟩
    seq := u32 ip (hl + 4)
    payload := u16 ip 2 - hl - (byte ip (hl + 12) >>> 4).toNat * 4 }

end Segments

section Visits

variable {α β σ : Type}

/-- What is found in the packets, in their order. -/
def gather (observe : α → Except Fault (Option β)) :
    List α → Except Fault (List β)
  | [] => return []
  | p :: ps => do
      let found ← observe p
      let rest ← gather observe ps
      return found.toList ++ rest

/-- The loop over the packets. -/
def visits (observe : α → Except Fault (Option β)) (count : σ → β → σ) :
    σ → List α → Except Fault σ
  | s, [] => return s
  | s, p :: ps => do
      match ← observe p with
      | none => visits observe count s ps
      | some x => visits observe count (count s x) ps

theorem visits_eq (observe : α → Except Fault (Option β)) (count : σ → β → σ)
    {ps : List α} {xs : List β} (h : gather observe ps = .ok xs) (s : σ) :
    visits observe count s ps = .ok (xs.foldl count s) := by
  induction ps generalizing xs s with
  | nil =>
      obtain rfl := Except.ok.inj h
      rfl
  | cons p ps ih =>
      obtain ⟨found, hfound, h⟩ := bind_eq_ok h
      obtain ⟨rest, hrest, h⟩ := bind_eq_ok h
      obtain rfl := Except.ok.inj h
      simp only [visits, hfound, bind, Except.bind]
      cases found with
      | none => exact ih hrest s
      | some x => exact ih hrest (count s x)

theorem gather_of_visits {observe : α → Except Fault (Option β)}
    {count : σ → β → σ} {ps : List α} {s r : σ}
    (h : visits observe count s ps = .ok r) :
    ∃ xs, gather observe ps = .ok xs ∧ r = xs.foldl count s := by
  induction ps generalizing s with
  | nil => exact ⟨[], rfl, (Except.ok.inj h).symm⟩
  | cons p ps ih =>
      obtain ⟨found, hfound, h⟩ := bind_eq_ok h
      have hgather : ∀ rest, gather observe ps = .ok rest →
          gather observe (p :: ps) = .ok (found.toList ++ rest) := by
        intro rest hrest
        simp only [gather, hfound, hrest, bind, Except.bind]
        rfl
      cases found with
      | none =>
          obtain ⟨xs, hxs, hr⟩ := ih h
          exact ⟨xs, hgather xs hxs, hr⟩
      | some x =>
          obtain ⟨xs, hxs, hr⟩ := ih h
          exact ⟨x :: xs, hgather xs hxs, hr⟩

theorem exists_of_mem_gather {observe : α → Except Fault (Option β)}
    {ps : List α} {xs : List β} (h : gather observe ps = .ok xs) {x : β}
    (hx : x ∈ xs) : ∃ p, observe p = .ok (some x) := by
  induction ps generalizing xs with
  | nil =>
      obtain rfl := Except.ok.inj h
      cases hx
  | cons p ps ih =>
      obtain ⟨found, hfound, h⟩ := bind_eq_ok h
      obtain ⟨rest, hrest, h⟩ := bind_eq_ok h
      obtain rfl := Except.ok.inj h
      rcases List.mem_append.1 hx with hx | hx
      · obtain rfl := Option.mem_toList.1 hx
        exact ⟨p, hfound⟩
      · exact ih hrest hx

theorem gather_map {observe : α → Except Fault (Option β)} {f : σ → α}
    {g : σ → β} {xs : List σ}
    (h : ∀ x ∈ xs, observe (f x) = .ok (some (g x))) :
    gather observe (xs.map f) = .ok (xs.map g) := by
  induction xs with
  | nil => rfl
  | cons x xs ih =>
      have hrest := ih fun y hy => h y (List.mem_cons_of_mem x hy)
      simp only [List.map_cons, gather, h x List.mem_cons_self, hrest, bind,
        Except.bind]
      rfl

end Visits

section Captured

/-- Two bytes in network order. -/
def be16 (n : Nat) : Bytes :=
  [UInt8.ofNat (n / 256), UInt8.ofNat (n % 256)]

/-- A packet without options that is cut off behind its TCP header. -/
def tcpInner (g : Segment) : Bytes :=
  [0x45, 0] ++ be16 (40 + g.payload.toNat) ++ [0, 0, 0, 0, 64, 6, 0, 0] ++
    g.flow.src ++ g.flow.dst ++ be16 g.flow.sport ++ be16 g.flow.dport ++
    be16 (g.seq.toNat / 65536) ++ be16 (g.seq.toNat % 65536) ++
    [0, 0, 0, 0, 0x50, 0x10, 0, 0, 0, 0, 0, 0]

/-- The fields fit into the headers. -/
structure Segment.Sendable (g : Segment) : Prop where
  src : g.flow.src.length = 4
  dst : g.flow.dst.length = 4
  sport : g.flow.sport < 65536
  dport : g.flow.dport < 65536
  seq_nonneg : 0 ≤ g.seq
  seq_lt : g.seq < ring
  payload_nonneg : 0 ≤ g.payload
  payload_lt : g.payload < 65496

theorem u16_be16 {n : Nat} (h : n < 65536) : u16 (be16 n) 0 = n := by
  change (UInt8.ofNat (n / 256)).toNat * 256 +
    (UInt8.ofNat (n % 256)).toNat = n
  rw [UInt8.toNat_ofNat', UInt8.toNat_ofNat']
  omega

theorem exists_eq_of_length_four {b : Bytes} (h : b.length = 4) :
    ∃ x y z w, b = [x, y, z, w] := by
  match b, h with
  | [x, y, z, w], _ => exact ⟨x, y, z, w, rfl⟩

theorem headerLength_tcpInner (g : Segment) :
    headerLength (tcpInner g) = 20 := by
  have hfirst : byte (tcpInner g) 0 = 0x45 := rfl
  unfold headerLength
  rw [hfirst]
  decide

theorem tcpInner_complete (g : Segment) : Complete (tcpInner g) := by
  have hheader := headerLength_tcpInner g
  refine ⟨rfl, by omega, ?_⟩
  rw [hheader]
  unfold tcpInner
  simp only [List.length_append, List.length_cons, List.length_nil]
  omega

/-- The frame in which a packet crosses the RAN bridge. -/
def gpduFrame (inner : Bytes) (hinner : Complete inner) : Frame where
  macs := List.replicate 12 2
  vlan := none
  header := [0x45, 0, 0, 96, 0, 0, 0, 0, 64, 17, 0, 0,
    192, 168, 6, 101, 192, 168, 6, 160]
  udp := [0x08, 0x68, 0x08, 0x68, 0, 76, 0, 0]
  flags := 0x30
  lengthTeid := [0, 60, 0, 0, 0x12, 0x34]
  numbers := [0, 0, 0]
  exts := []
  spare := 0
  inner := inner
  macs_length := rfl
  header_complete := ⟨by decide, by decide, by decide⟩
  header_length := by decide
  header_proto := by decide
  udp_length := rfl
  udp_port := by decide
  flags_version := by decide
  lengthTeid_length := rfl
  numbers_length := rfl
  inner_complete := hinner

theorem gtpuInner_gpduFrame {inner : Bytes} (hinner : Complete inner) :
    gtpuInner (gpduFrame inner hinner).bytes 1 = .ok (some inner) :=
  Frame.gtpuInner_of_starts (Frame.starts_of_not_optional
    fun h => h (by change (0x30 : UInt8) &&& 0x07 = 0; decide))

def tcpFrame (g : Segment) : Frame :=
  gpduFrame (tcpInner g) (tcpInner_complete g)

theorem tcpPacket_tcpFrame (g : Segment) :
    tcpPacket (tcpFrame g).bytes 1 = .ok (some (tcpInner g)) := by
  unfold tcpPacket
  rw [tcpFrame, gtpuInner_gpduFrame]
  simp only [bind, Except.bind]
  rw [byteAt_of_lt (Nat.lt_of_lt_of_le (by decide : 9 < 20)
    (Nat.le_trans (tcpInner_complete g).header (tcpInner_complete g).fits))]
  rfl

/-- What is taken from a captured segment are its own fields. -/
theorem segment_tcpInner {g : Segment} (h : g.Sendable) :
    (tcpInner g).length = 40 ∧ headerLength (tcpInner g) = 20 ∧
      segment (tcpInner g) = g := by
  obtain ⟨⟨src, sport, dst, dport⟩, seq, payload⟩ := g
  obtain ⟨hsrc, hdst, hsport, hdport, hseq, hseq', hpay, hpay'⟩ := h
  simp only [ring] at hsrc hdst hsport hdport hseq hseq' hpay hpay'
  obtain ⟨a, b, c, d, rfl⟩ := exists_eq_of_length_four hsrc
  obtain ⟨a', b', c', d', rfl⟩ := exists_eq_of_length_four hdst
  obtain ⟨seq, rfl⟩ := Int.eq_ofNat_of_zero_le hseq
  obtain ⟨payload, rfl⟩ := Int.eq_ofNat_of_zero_le hpay
  have hseq'' : seq < 4294967296 := by omega
  refine ⟨rfl, headerLength_tcpInner _, ?_⟩
  unfold segment
  simp only [headerLength_tcpInner]
  simp only [Segment.mk.injEq, Flow.mk.injEq]
  refine ⟨⟨rfl, ?_, rfl, ?_⟩, ?_, ?_⟩
  · change u16 (be16 sport) 0 = sport
    exact u16_be16 hsport
  · change u16 (be16 dport) 0 = dport
    exact u16_be16 hdport
  · change ((u16 (be16 (seq / 65536)) 0 * 65536 +
      u16 (be16 (seq % 65536)) 0 : Nat) : Int) = seq
    rw [u16_be16 (by omega), u16_be16 (by omega)]
    omega
  · change (u16 (be16 (40 + payload)) 0 : Int) - (20 : Nat) -
      (((0x50 : UInt8) >>> 4).toNat : Int) * 4 = payload
    have hoffset : ((0x50 : UInt8) >>> 4).toNat = 5 := by decide
    rw [u16_be16 (by omega), hoffset]
    omega

theorem addressed_tcpInner {g : Segment} (h : g.Sendable) {target : Bytes}
    (htarget : target = g.flow.src ∨ target = g.flow.dst) :
    addressed target (tcpInner g) = .ok true := by
  obtain ⟨hlen, -, hseg⟩ := segment_tcpInner h
  have hsrc : srcOf (tcpInner g) = g.flow.src :=
    congrArg (fun s => s.flow.src) hseg
  have hdst : dstOf (tcpInner g) = g.flow.dst :=
    congrArg (fun s => s.flow.dst) hseg
  unfold addressed
  rw [if_neg (by omega), hsrc, hdst]
  rcases htarget with h | h <;> simp [h]

end Captured

end Experiments
end Kelt
