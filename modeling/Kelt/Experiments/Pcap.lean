import Kelt.Lib.Bytes

/-!
# Packets in captured frames

`pcap.py` finds the IPv4 packet that a captured frame carries: the inner one of
a GTP-U message over UDP port 2152, or the plain one. Each header gives the
offset of the next. The parser checks some of the lengths before it reads, and
fails, or returns a packet without a complete header, where a frame ends short
of one that it does not check. Which frames it gets through is `safe_iff`.

The walk over the extension headers of GTP-U is a loop with fuel; it ends on
every message (`walk_ne_outOfFuel`).
-/

namespace Kelt
namespace Experiments
namespace Pcap

section Parser

/-- `frame[off:] if etype == 0x0800 else None` -/
def payloadFrom (off etype : Nat) (frame : Bytes) : Option Bytes :=
  if etype = 0x0800 then some (frame.drop off) else none

/-- `_ip_payload` -/
def ipPayload (frame : Bytes) (link : Nat) : Except Fault (Option Bytes) :=
  if link = 1 then do
    let etype ← unpackH frame 12
    if etype = 0x8100 then do
      let etype ← unpackH frame 16
      return payloadFrom 18 etype frame
    else return payloadFrom 14 etype frame
  else if link = 113 then do
    let etype ← unpackH frame 14
    return payloadFrom 16 etype frame
  else return none

def gtpuPort : Nat := 2152

/-- `p and p[0] >> 4 == 4` -/
def isV4 : Bytes → Bool
  | [] => false
  | b :: _ => b >>> 4 == 4

/-- The GTP-U message of type G-PDU that an IPv4 packet carries. -/
def gtpMessage (ip : Bytes) : Except Fault (Option Bytes) :=
  if ip.length < 20 then return none
  else do
    let proto ← byteAt ip 9
    if proto ≠ 17 then return none
    else do
      let first ← byteAt ip 0
      let udp := ip.drop ((first &&& 0x0F).toNat * 4)
      if udp.length < 16 then return none
      else do
        let sport ← unpackH udp 0
        let dport ← unpackH udp 2
        if sport ≠ gtpuPort ∧ dport ≠ gtpuPort then return none
        else do
          let mtype ← byteAt (udp.drop 8) 1
          if mtype ≠ 0xFF then return none else return some (udp.drop 8)

/-- The loop over the extension headers: where the last one ends. A header of
length zero ends the search. -/
def walk : Nat → Bytes → UInt8 → Nat → Except Fault (Option Nat)
  | 0, _, _, _ => .error .outOfFuel
  | fuel + 1, g, nxt, off =>
      if nxt = 0 then return some off
      else do
        let ln ← byteAt g off
        if ln.toNat * 4 = 0 then return none
        else do
          let nxt ← byteAt g (off + ln.toNat * 4 - 1)
          walk fuel g nxt (off + ln.toNat * 4)

/-- Where the inner packet of a message starts. -/
def innerStart (g : Bytes) : Except Fault (Option Nat) := do
  let flags ← byteAt g 0
  if flags &&& 0x07 ≠ 0 then do
    let nxt ← byteAt g 11
    walk (g.length + 1) g nxt 12
  else return some 8

/-- `gtpu_inner` -/
def gtpuInner (frame : Bytes) (link : Nat) : Except Fault (Option Bytes) := do
  match ← ipPayload frame link with
  | none => return none
  | some ip =>
      match ← gtpMessage ip with
      | none => return none
      | some g =>
          match ← innerStart g with
          | none => return none
          | some off => return (some (g.drop off)).filter isV4

/-- `ip_packet` -/
def ipPacket (frame : Bytes) (link : Nat) : Except Fault (Option Bytes) := do
  match ← gtpuInner frame link with
  | some inner => return some inner
  | none =>
      match ← ipPayload frame link with
      | none => return none
      | some ip =>
          return (some ip).filter fun p => decide (20 ≤ p.length) && isV4 p

end Parser

section Layers

/-- The bytes of the link header that are looked at are there. -/
structure Headed (frame : Bytes) (link : Nat) : Prop where
  ethernet : link = 1 → 14 ≤ frame.length
  vlan : link = 1 → u16 frame 12 = 0x8100 → 18 ≤ frame.length
  cooked : link = 113 → 16 ≤ frame.length

/-- What follows the link header, where that is of the type of IPv4. -/
def payload (frame : Bytes) (link : Nat) : Option Bytes :=
  if link = 1 then
    if u16 frame 12 = 0x8100 then payloadFrom 18 (u16 frame 16) frame
    else payloadFrom 14 (u16 frame 12) frame
  else if link = 113 then payloadFrom 16 (u16 frame 14) frame
  else none

/-- The length of the header that a packet declares. -/
def headerLength (ip : Bytes) : Nat :=
  (byte ip 0 &&& 0x0F).toNat * 4

def udpOf (ip : Bytes) : Bytes :=
  ip.drop (headerLength ip)

/-- The packet carries a G-PDU over the port of GTP-U. -/
structure IsGpdu (ip : Bytes) : Prop where
  ip_length : 20 ≤ ip.length
  proto : byte ip 9 = 17
  udp_length : 16 ≤ (udpOf ip).length
  port : u16 (udpOf ip) 0 = gtpuPort ∨ u16 (udpOf ip) 2 = gtpuPort
  mtype : byte (udpOf ip) 9 = 0xFF

/-- The frame carries the G-PDU `g`. -/
def Gpdu (frame : Bytes) (link : Nat) (g : Bytes) : Prop :=
  ∃ ip, payload frame link = some ip ∧ IsGpdu ip ∧ g = (udpOf ip).drop 8

/-- The extension headers from `off` on, the first one of type `nxt`, end at an
offset or with a header of length zero. -/
inductive Walks (g : Bytes) : UInt8 → Nat → Option Nat → Prop where
  | stop (off : Nat) : Walks g 0 off (some off)
  | zero {nxt : UInt8} {off : Nat} (hnxt : nxt ≠ 0) (hoff : off < g.length)
      (hzero : byte g off = 0) : Walks g nxt off none
  | next {nxt : UInt8} {off : Nat} {r : Option Nat} (hnxt : nxt ≠ 0)
      (hlen : byte g off ≠ 0)
      (hoff : off + (byte g off).toNat * 4 ≤ g.length)
      (rest : Walks g (byte g (off + (byte g off).toNat * 4 - 1))
        (off + (byte g off).toNat * 4) r) : Walks g nxt off r

/-- The headers of a message end at an offset, or with a length of zero. -/
def Starts (g : Bytes) (r : Option Nat) : Prop :=
  if byte g 0 &&& 0x07 = 0 then r = some 8
  else 12 ≤ g.length ∧ Walks g (byte g 11) 12 r

/-- The packet has a complete header. -/
structure Complete (p : Bytes) : Prop where
  version : isV4 p = true
  header : 20 ≤ headerLength p
  fits : headerLength p ≤ p.length

/-- The frame carries the packet `p` in a G-PDU. -/
def Carried (frame : Bytes) (link : Nat) (p : Bytes) : Prop :=
  ∃ g off, Gpdu frame link g ∧ Starts g (some off) ∧ p = g.drop off ∧
    isV4 p = true

/-- What the parser looks at is there, and the packet that it finds has a
complete header. -/
structure Whole (frame : Bytes) (link : Nat) : Prop where
  headed : Headed frame link
  starts : ∀ g, Gpdu frame link g → ∃ r, Starts g r
  inner : ∀ p, Carried frame link p → Complete p
  plain : ∀ ip, payload frame link = some ip → (∀ p, ¬ Carried frame link p) →
    20 ≤ ip.length → isV4 ip = true → Complete ip

/-- The parser ends without an error, with no packet or one that has a complete
header. -/
structure Safe (frame : Bytes) (link : Nat) : Prop where
  gtpu_inner : ∃ r, gtpuInner frame link = .ok r ∧ ∀ p ∈ r, Complete p
  ip_packet : ∃ r, ipPacket frame link = .ok r ∧ ∀ p ∈ r, Complete p

end Layers

section Link

variable {frame : Bytes} {link : Nat}

theorem ipPayload_of_headed (h : Headed frame link) :
    ipPayload frame link = .ok (payload frame link) := by
  unfold ipPayload payload
  by_cases hlink : link = 1
  · have hlen := h.ethernet hlink
    rw [if_pos hlink, if_pos hlink, unpackH_of_lt (by omega)]
    by_cases hvlan : u16 frame 12 = 0x8100
    · have hlen' := h.vlan hlink hvlan
      simp only [bind, Except.bind, if_pos hvlan]
      rw [unpackH_of_lt (by omega)]
      rfl
    · simp only [bind, Except.bind, if_neg hvlan]
      rfl
  · rw [if_neg hlink, if_neg hlink]
    by_cases hcooked : link = 113
    · have hlen := h.cooked hcooked
      rw [if_pos hcooked, if_pos hcooked, unpackH_of_lt (by omega)]
      rfl
    · rw [if_neg hcooked, if_neg hcooked]
      rfl

theorem headed_of_ipPayload {r : Option Bytes}
    (h : ipPayload frame link = .ok r) : Headed frame link := by
  unfold ipPayload at h
  constructor
  · intro hlink
    by_contra hlen
    rw [if_pos hlink, unpackH_of_le (by omega)] at h
    cases h
  · intro hlink hvlan
    by_contra hlen
    rw [if_pos hlink] at h
    by_cases hlen' : frame.length ≤ 13
    · rw [unpackH_of_le hlen'] at h
      cases h
    · rw [unpackH_of_lt (by omega)] at h
      simp only [bind, Except.bind, if_pos hvlan] at h
      rw [unpackH_of_le (by omega)] at h
      cases h
  · intro hlink
    by_contra hlen
    subst hlink
    rw [if_neg (by decide), if_pos rfl, unpackH_of_le (by omega)] at h
    cases h

end Link

section Message

variable {ip g : Bytes}

/-- The checks of the length stand before the reads, so that none of them
fails. -/
theorem gtpMessage_eq (ip : Bytes) :
    ∃ r, gtpMessage ip = .ok r ∧
      ∀ g, r = some g ↔ IsGpdu ip ∧ g = (udpOf ip).drop 8 := by
  unfold gtpMessage
  by_cases hlen : ip.length < 20
  · refine ⟨none, if_pos hlen, fun g => iff_of_false nofun ?_⟩
    rintro ⟨h, -⟩
    exact absurd h.ip_length (by omega)
  rw [if_neg hlen, byteAt_of_lt (by omega)]
  simp only [bind, Except.bind]
  by_cases hproto : byte ip 9 = 17
  swap
  · exact ⟨none, if_pos hproto, fun g =>
      iff_of_false nofun fun h => hproto h.1.proto⟩
  rw [if_neg (not_not.2 hproto), byteAt_of_lt (by omega)]
  change ∃ r, (if (udpOf ip).length < 16 then _ else _) = _ ∧ _
  by_cases hudp : (udpOf ip).length < 16
  · refine ⟨none, if_pos hudp, fun g => iff_of_false nofun ?_⟩
    rintro ⟨h, -⟩
    exact absurd h.udp_length (by omega)
  change ∃ r, (if (udpOf ip).length < 16 then _ else
    Except.bind (unpackH (udpOf ip) 0) fun sport =>
      Except.bind (unpackH (udpOf ip) 2) fun dport =>
        if sport ≠ gtpuPort ∧ dport ≠ gtpuPort then _ else
          Except.bind (byteAt ((udpOf ip).drop 8) 1) fun mtype =>
            if mtype ≠ 0xFF then _ else .ok (some ((udpOf ip).drop 8))) = _ ∧ _
  rw [if_neg hudp, unpackH_of_lt (by omega), unpackH_of_lt (by omega)]
  simp only [Except.bind]
  by_cases hport : u16 (udpOf ip) 0 ≠ gtpuPort ∧ u16 (udpOf ip) 2 ≠ gtpuPort
  · refine ⟨none, if_pos hport, fun g => iff_of_false nofun ?_⟩
    rintro ⟨h, -⟩
    exact h.port.elim hport.1 hport.2
  rw [if_neg hport, byteAt_of_lt (by simp; omega), byte_drop]
  by_cases htype : byte (udpOf ip) (8 + 1) = 0xFF
  swap
  · exact ⟨none, if_pos htype, fun g =>
      iff_of_false nofun fun h => htype h.1.mtype⟩
  refine ⟨_, if_neg (not_not.2 htype), fun g => ?_⟩
  have hgpdu : IsGpdu ip :=
    ⟨by omega, hproto, by omega, by by_contra h; exact hport (not_or.1 h), htype⟩
  constructor
  · intro h
    exact ⟨hgpdu, (Option.some.inj h).symm⟩
  · rintro ⟨-, rfl⟩
    rfl

end Message

section Extensions

variable {g : Bytes}

/-- Each turn of the loop goes on by four bytes at least, and stays within the
message. -/
theorem walk_ne_outOfFuel {fuel : Nat} {nxt : UInt8} {off : Nat}
    (h : g.length - off < fuel) : walk fuel g nxt off ≠ .error .outOfFuel := by
  induction fuel generalizing nxt off with
  | zero => omega
  | succ fuel ih =>
      unfold walk
      by_cases hnxt : nxt = 0
      · rw [if_pos hnxt]
        nofun
      rw [if_neg hnxt]
      by_cases hoff : off < g.length
      swap
      · rw [byteAt_of_le (by omega)]
        nofun
      rw [byteAt_of_lt hoff]
      simp only [bind, Except.bind]
      by_cases hzero : (byte g off).toNat * 4 = 0
      · rw [if_pos hzero]
        nofun
      rw [if_neg hzero]
      by_cases hend : off + (byte g off).toNat * 4 - 1 < g.length
      swap
      · rw [byteAt_of_le (by omega)]
        nofun
      rw [byteAt_of_lt hend]
      exact ih (by omega)

theorem toNat_mul_eq_zero {x : UInt8} : x.toNat * 4 = 0 ↔ x = 0 := by
  rw [← UInt8.toNat_inj]
  change _ ↔ x.toNat = 0
  omega

theorem walks_of_walk {fuel : Nat} {nxt : UInt8} {off : Nat} {r : Option Nat}
    (h : walk fuel g nxt off = .ok r) : Walks g nxt off r := by
  induction fuel generalizing nxt off with
  | zero => cases h
  | succ fuel ih =>
      unfold walk at h
      by_cases hnxt : nxt = 0
      · rw [if_pos hnxt] at h
        cases h
        subst hnxt
        exact .stop off
      rw [if_neg hnxt] at h
      by_cases hoff : off < g.length
      swap
      · rw [byteAt_of_le (by omega)] at h
        cases h
      rw [byteAt_of_lt hoff] at h
      simp only [bind, Except.bind] at h
      by_cases hzero : (byte g off).toNat * 4 = 0
      · rw [if_pos hzero] at h
        cases h
        exact .zero hnxt hoff (toNat_mul_eq_zero.1 hzero)
      rw [if_neg hzero] at h
      by_cases hend : off + (byte g off).toNat * 4 - 1 < g.length
      swap
      · rw [byteAt_of_le (by omega)] at h
        cases h
      rw [byteAt_of_lt hend] at h
      exact .next hnxt (fun hz => hzero (toNat_mul_eq_zero.2 hz)) (by omega)
        (ih h)

theorem Walks.walk {nxt : UInt8} {off : Nat} {r : Option Nat}
    (h : Walks g nxt off r) {fuel : Nat} (hfuel : g.length - off < fuel) :
    Pcap.walk fuel g nxt off = .ok r := by
  induction h generalizing fuel with
  | stop off =>
      obtain ⟨fuel, rfl⟩ : ∃ n, fuel = n + 1 := ⟨fuel - 1, by omega⟩
      rfl
  | @zero nxt off hnxt hoff hzero =>
      obtain ⟨fuel, rfl⟩ : ∃ n, fuel = n + 1 := ⟨fuel - 1, by omega⟩
      rw [Pcap.walk, if_neg hnxt, byteAt_of_lt hoff]
      simp only [bind, Except.bind]
      rw [if_pos (toNat_mul_eq_zero.2 hzero)]
      rfl
  | @next nxt off r hnxt hlen hoff rest ih =>
      obtain ⟨fuel, rfl⟩ : ∃ n, fuel = n + 1 := ⟨fuel - 1, by omega⟩
      have hpos : (byte g off).toNat * 4 ≠ 0 :=
        fun hz => hlen (toNat_mul_eq_zero.1 hz)
      rw [Pcap.walk, if_neg hnxt, byteAt_of_lt (by omega)]
      simp only [bind, Except.bind]
      rw [if_neg hpos, byteAt_of_lt (by omega)]
      exact ih (by omega)

theorem innerStart_eq_ok_iff (hlen : 0 < g.length) {r : Option Nat} :
    innerStart g = .ok r ↔ Starts g r := by
  unfold innerStart Starts
  rw [byteAt_of_lt hlen]
  simp only [bind, Except.bind]
  by_cases hflags : byte g 0 &&& 0x07 = 0
  · rw [if_neg (not_not.2 hflags), if_pos hflags]
    exact ⟨fun h => (Except.ok.inj h).symm, fun h => congrArg _ h.symm⟩
  rw [if_pos hflags, if_neg hflags]
  by_cases hopt : 12 ≤ g.length
  · rw [byteAt_of_lt (by omega)]
    exact ⟨fun h => ⟨hopt, walks_of_walk h⟩, fun h => h.2.walk (by omega)⟩
  · rw [byteAt_of_le (by omega)]
    exact iff_of_false nofun fun h => hopt h.1

end Extensions

section Packets

variable {frame : Bytes} {link : Nat}

theorem Gpdu.length_pos {g : Bytes} (h : Gpdu frame link g) :
    0 < g.length := by
  obtain ⟨ip, -, hip, rfl⟩ := h
  have hlen := hip.udp_length
  rw [List.length_drop]
  omega

theorem Gpdu.unique {g g' : Bytes} (h : Gpdu frame link g)
    (h' : Gpdu frame link g') : g = g' := by
  obtain ⟨ip, hip, -, rfl⟩ := h
  obtain ⟨ip', hip', -, rfl⟩ := h'
  rw [Option.some.inj (hip.symm.trans hip')]

theorem Starts.unique {g : Bytes} (hlen : 0 < g.length) {r r' : Option Nat}
    (h : Starts g r) (h' : Starts g r') : r = r' :=
  Except.ok.inj (((innerStart_eq_ok_iff hlen).2 h).symm.trans
    ((innerStart_eq_ok_iff hlen).2 h'))

theorem isV4_of_filter {p q : Bytes}
    (h : (some p).filter isV4 = some q) : q = p ∧ isV4 q = true := by
  rw [Option.filter_eq_some_iff] at h
  exact ⟨(Option.some.inj h.1).symm, h.2⟩

/-- A run that ends has read the link header and the headers of the message,
and it gives the packet that the message carries. -/
theorem gtpuInner_eq_ok {r : Option Bytes}
    (h : gtpuInner frame link = .ok r) :
    Headed frame link ∧ (∀ g, Gpdu frame link g → ∃ s, Starts g s) ∧
      ∀ p, r = some p ↔ Carried frame link p := by
  obtain ⟨o, ho, h⟩ := bind_eq_ok h
  have hheaded := headed_of_ipPayload ho
  rw [ipPayload_of_headed hheaded] at ho
  have hpay : payload frame link = o := Except.ok.inj ho
  refine ⟨hheaded, ?_⟩
  cases o with
  | none =>
      have hno : ∀ g, ¬ Gpdu frame link g := by
        rintro g ⟨ip, hip, -⟩
        rw [hpay] at hip
        cases hip
      cases h
      refine ⟨fun g hg => absurd hg (hno g), fun p => iff_of_false nofun ?_⟩
      rintro ⟨g, -, hg, -⟩
      exact hno g hg
  | some ip =>
      obtain ⟨m, hm, h⟩ := bind_eq_ok h
      obtain ⟨m', hm', hmsg⟩ := gtpMessage_eq ip
      obtain rfl := Except.ok.inj (hm.symm.trans hm')
      have hgpdu : ∀ g, Gpdu frame link g ↔ m = some g := by
        intro g
        rw [hmsg g]
        constructor
        · rintro ⟨ip', hip', hg⟩
          obtain rfl := Option.some.inj (hpay.symm.trans hip')
          exact hg
        · exact fun hg => ⟨ip, hpay, hg⟩
      cases m with
      | none =>
          cases h
          refine ⟨fun g hg => (nomatch (hgpdu g).1 hg),
            fun p => iff_of_false nofun ?_⟩
          rintro ⟨g, -, hg, -⟩
          exact (nomatch (hgpdu g).1 hg)
      | some g =>
          obtain ⟨s, hs, h⟩ := bind_eq_ok h
          have hg : Gpdu frame link g := (hgpdu g).2 rfl
          have hstarts : Starts g s :=
            (innerStart_eq_ok_iff hg.length_pos).1 hs
          refine ⟨fun g' hg' => ⟨s, hg.unique hg' ▸ hstarts⟩, fun p => ?_⟩
          cases s with
          | none =>
              cases h
              refine iff_of_false nofun ?_
              rintro ⟨g', off, hg', hoff, -⟩
              obtain rfl := hg.unique hg'
              cases hstarts.unique hg.length_pos hoff
          | some off =>
              have hr : (some (g.drop off)).filter isV4 = r := Except.ok.inj h
              constructor
              · intro hp
                obtain ⟨rfl, hv4⟩ := isV4_of_filter (hr.trans hp)
                exact ⟨g, off, hg, hstarts, rfl, hv4⟩
              · rintro ⟨g', off', hg', hoff', rfl, hv4⟩
                obtain rfl := hg.unique hg'
                have hoff :=
                  Option.some.inj (hstarts.unique hg.length_pos hoff')
                subst hoff
                rw [← hr]
                exact Option.filter_eq_some_iff.2 ⟨rfl, hv4⟩

theorem exists_gtpuInner_eq_ok (h : Headed frame link)
    (hstarts : ∀ g, Gpdu frame link g → ∃ s, Starts g s) :
    ∃ r, gtpuInner frame link = .ok r := by
  unfold gtpuInner
  rw [ipPayload_of_headed h]
  cases hpay : payload frame link with
  | none => exact ⟨none, rfl⟩
  | some ip =>
      obtain ⟨m, hm, hmsg⟩ := gtpMessage_eq ip
      simp only [bind, Except.bind, hm]
      cases m with
      | none => exact ⟨none, rfl⟩
      | some g =>
          have hg : Gpdu frame link g := ⟨ip, hpay, (hmsg g).1 rfl⟩
          obtain ⟨s, hs⟩ := hstarts g hg
          simp only [(innerStart_eq_ok_iff hg.length_pos).2 hs]
          cases s with
          | none => exact ⟨none, rfl⟩
          | some off => exact ⟨_, rfl⟩

/-- `ip_packet` gives the packet of a G-PDU, else the one of the frame. -/
theorem ipPacket_eq_of_gtpuInner {r : Option Bytes}
    (h : gtpuInner frame link = .ok r) :
    ipPacket frame link = .ok (r.or ((payload frame link).filter fun p =>
      decide (20 ≤ p.length) && isV4 p)) := by
  unfold ipPacket
  rw [h]
  simp only [bind, Except.bind]
  cases r with
  | some inner => rfl
  | none =>
      simp only [ipPayload_of_headed (gtpuInner_eq_ok h).1]
      cases payload frame link with
      | none => rfl
      | some ip => rfl

theorem Safe.whole (h : Safe frame link) : Whole frame link := by
  obtain ⟨r, hr, hcomplete⟩ := h.gtpu_inner
  obtain ⟨hheaded, hstarts, hcarried⟩ := gtpuInner_eq_ok hr
  refine ⟨hheaded, hstarts, fun p hp => hcomplete p ((hcarried p).2 hp), ?_⟩
  intro ip hip hnone hlen hv4
  have hrnone : r = none := by
    cases r with
    | none => rfl
    | some p => exact absurd ((hcarried p).1 rfl) (hnone p)
  obtain ⟨q, hq, hcomplete'⟩ := h.ip_packet
  rw [ipPacket_eq_of_gtpuInner hr, hrnone, hip] at hq
  have hplain : (decide (20 ≤ ip.length) && isV4 ip) = true := by
    simp [hlen, hv4]
  have hfilter : (some ip).filter (fun p =>
      decide (20 ≤ p.length) && isV4 p) = some ip :=
    Option.filter_eq_some_iff.2 ⟨rfl, hplain⟩
  refine hcomplete' ip ?_
  rw [← Except.ok.inj hq]
  exact hfilter

theorem Whole.safe (h : Whole frame link) : Safe frame link := by
  obtain ⟨r, hr⟩ := exists_gtpuInner_eq_ok h.headed h.starts
  obtain ⟨-, -, hcarried⟩ := gtpuInner_eq_ok hr
  have hinner : ∀ p ∈ r, Complete p :=
    fun p hp => h.inner p ((hcarried p).1 hp)
  refine ⟨⟨r, hr, hinner⟩, ⟨_, ipPacket_eq_of_gtpuInner hr, ?_⟩⟩
  intro p hp
  cases r with
  | some q => exact hinner p hp
  | none =>
      obtain ⟨hip, hp'⟩ := Option.filter_eq_some_iff.1 hp
      simp only [Bool.and_eq_true, decide_eq_true_eq] at hp'
      exact h.plain p hip (fun q hq => (nomatch (hcarried q).2 hq)) hp'.1 hp'.2

/-- The walk ends on every message. The parser ends without an error, and what
it gives has a complete header, for exactly the frames that are whole. -/
theorem safe_iff (frame : Bytes) (link : Nat) :
    (∀ g nxt off fuel, g.length - off < fuel →
      walk fuel g nxt off ≠ .error .outOfFuel) ∧
    (Safe frame link ↔ Whole frame link) :=
  ⟨fun _ _ _ _ => walk_ne_outOfFuel, Safe.whole, Whole.safe⟩

/-- A frame that the capture holds the first ten bytes of. -/
theorem not_safe_truncated : ¬ ∀ frame link, Safe frame link := by
  intro h
  have hlen := (h (List.replicate 10 0) 1).whole.headed.ethernet rfl
  simp at hlen

end Packets

end Pcap
end Experiments
end Kelt
