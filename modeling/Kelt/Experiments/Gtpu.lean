import Kelt.Experiments.Pcap

/-!
# G-PDUs on the wire

The frames that the captures of the RAN bridge hold are laid out here header by
header, and the parser of `pcap.py` is compared with the layout. The three flags
E, S and PN announce the same four optional bytes, and E alone says that their
last byte is the type of an extension header. The parser looks at that byte
whichever of the flags is set, so a frame with S or PN and without E is read
rightly only if the byte is zero (`gtpuInner_bytes_iff`).

The fields that no offset depends on (addresses, lengths, checksums) are free.
-/

namespace Kelt
namespace Experiments
namespace Pcap

section Layout

/-- An extension header: its type stands in the header before it, and its length
is counted in units of four bytes. -/
structure ExtHeader where
  kind : UInt8
  units : UInt8
  content : Bytes
  kind_ne : kind ≠ 0
  units_ne : units ≠ 0
  content_length : content.length + 2 = units.toNat * 4

def nextKind : List ExtHeader → UInt8
  | [] => 0
  | e :: _ => e.kind

/-- Extension headers in a row, each with the type of the next in its last
byte. -/
def chain : List ExtHeader → Bytes
  | [] => []
  | e :: exts => e.units :: e.content ++ nextKind exts :: chain exts

/-- An Ethernet frame with a G-PDU. `header` is the outer IPv4 header with its
options, `udp` the UDP header; `spare` stands for the type of an extension
header where E is not set. -/
structure Frame where
  macs : Bytes
  vlan : Option (UInt8 × UInt8)
  header : Bytes
  udp : Bytes
  flags : UInt8
  lengthTeid : Bytes
  numbers : Bytes
  exts : List ExtHeader
  spare : UInt8
  inner : Bytes
  macs_length : macs.length = 12
  header_complete : Complete header
  header_length : headerLength header = header.length
  header_proto : byte header 9 = 17
  udp_length : udp.length = 8
  udp_port : u16 udp 0 = gtpuPort ∨ u16 udp 2 = gtpuPort
  flags_version : flags &&& 0xF0 = 0x30
  lengthTeid_length : lengthTeid.length = 6
  numbers_length : numbers.length = 3
  inner_complete : Complete inner

namespace Frame

/-- The flag E. -/
def E (f : Frame) : Prop :=
  f.flags &&& 0x04 ≠ 0

/-- One of the flags E, S and PN. -/
def Optional (f : Frame) : Prop :=
  f.flags &&& 0x07 ≠ 0

instance (f : Frame) : Decidable f.E :=
  inferInstanceAs (Decidable (_ ≠ _))

instance (f : Frame) : Decidable f.Optional :=
  inferInstanceAs (Decidable (_ ≠ _))

/-- The optional bytes and the extension headers. -/
def options (f : Frame) : Bytes :=
  if f.Optional then
    if f.E then f.numbers ++ nextKind f.exts :: chain f.exts
    else f.numbers ++ [f.spare]
  else []

/-- The eight bytes that every message starts with. -/
def start (f : Frame) : Bytes :=
  f.flags :: 0xFF :: f.lengthTeid

def gtp (f : Frame) : Bytes :=
  f.start ++ (f.options ++ f.inner)

def linkHeader (f : Frame) : Bytes :=
  match f.vlan with
  | none => f.macs ++ [0x08, 0x00]
  | some (a, b) => f.macs ++ [0x81, 0x00, a, b, 0x08, 0x00]

def bytes (f : Frame) : Bytes :=
  f.linkHeader ++ (f.header ++ (f.udp ++ f.gtp))

end Frame

end Layout

section Chain

theorem ExtHeader.units_pos (e : ExtHeader) : 0 < e.units.toNat := by
  have hne : e.units.toNat ≠ 0 := by
    intro h
    exact e.units_ne (UInt8.toNat_inj.1 h)
  omega

/-- The walk goes through a chain, whatever stands before and after it. -/
theorem walks_chain (exts : List ExtHeader) (pre rest : Bytes) :
    Walks (pre ++ (chain exts ++ rest)) (nextKind exts) pre.length
      (some (pre.length + (chain exts).length)) := by
  induction exts generalizing pre with
  | nil => exact .stop pre.length
  | cons e exts ih =>
      have hlen := e.content_length
      have hpos := e.units_pos
      have hunits : byte (pre ++ (chain (e :: exts) ++ rest)) pre.length =
          e.units := by
        rw [byte_append_right _ (Nat.le_refl _), Nat.sub_self]
        rfl
      have happ : pre ++ (chain (e :: exts) ++ rest) =
          (pre ++ e.units :: e.content ++ [nextKind exts]) ++
            (chain exts ++ rest) := by
        simp [chain]
      have hprelen : (pre ++ e.units :: e.content ++ [nextKind exts]).length =
          pre.length + e.units.toNat * 4 := by
        simp only [List.length_append, List.length_cons, List.length_nil]
        omega
      have hnext : byte (pre ++ (chain (e :: exts) ++ rest))
          (pre.length + e.units.toNat * 4 - 1) = nextKind exts := by
        rw [happ, byte_append_left (by omega), byte_append_right]
        · have hzero : pre.length + e.units.toNat * 4 - 1 -
              (pre ++ e.units :: e.content).length = 0 := by
            simp only [List.length_append, List.length_cons]
            omega
          rw [hzero]
          rfl
        · simp only [List.length_append, List.length_cons]
          omega
      have htotal : (chain (e :: exts)).length =
          e.units.toNat * 4 + (chain exts).length := by
        simp only [chain, List.length_append, List.length_cons]
        omega
      refine .next e.kind_ne (by rw [hunits]; exact e.units_ne) ?_ ?_
      · rw [hunits, happ, List.length_append, hprelen]
        omega
      · have hrest := ih (pre ++ e.units :: e.content ++ [nextKind exts])
        rw [← happ, hprelen] at hrest
        rw [hunits, hnext, htotal, ← Nat.add_assoc]
        exact hrest

/-- Where there is a type of an extension header, the walk goes on. -/
theorem Walks.off_lt {g : Bytes} {nxt : UInt8} {off e : Nat}
    (h : Walks g nxt off (some e)) (hnxt : nxt ≠ 0) : off < e := by
  have hle : ∀ {nxt off r}, Walks g nxt off r → ∀ e ∈ r, off ≤ e := by
    intro nxt off r h
    induction h with
    | stop off => exact fun e he => Nat.le_of_eq (Option.some.inj he)
    | zero => exact nofun
    | next _ _ _ _ ih =>
        intro e he
        have := ih e he
        omega
  cases h with
  | stop => exact absurd rfl hnxt
  | next _ hlen _ rest =>
      have hmul := mt toNat_mul_eq_zero.1 hlen
      have := hle rest e rfl
      omega

end Chain

section Layers

variable (f : Frame)

theorem u16_append_left {p : Bytes} {i : Nat} (h : i + 1 < p.length)
    (q : Bytes) : u16 (p ++ q) i = u16 p i := by
  unfold u16
  rw [byte_append_left (by omega), byte_append_left h]

theorem u16_append_right {p : Bytes} {i : Nat} (h : p.length ≤ i)
    (q : Bytes) : u16 (p ++ q) i = u16 q (i - p.length) := by
  unfold u16
  rw [byte_append_right q h, byte_append_right q (by omega),
    Nat.sub_add_comm h]

/-- The type of the link header, and the offset where it ends. -/
theorem Frame.payload_bytes :
    Headed f.bytes 1 ∧
      payload f.bytes 1 = some (f.header ++ (f.udp ++ f.gtp)) := by
  have hmacs := f.macs_length
  have hheader := f.header_complete.fits
  have hheader' := f.header_complete.header
  unfold payload payloadFrom
  unfold Frame.bytes Frame.linkHeader
  rw [if_pos rfl]
  cases f.vlan with
  | none =>
      have htype : u16 (f.macs ++ [0x08, 0x00] ++
          (f.header ++ (f.udp ++ f.gtp))) 12 = 0x0800 := by
        rw [List.append_assoc, u16_append_right (by omega), hmacs]
        simp [u16, byte]
      simp only [htype]
      refine ⟨⟨fun _ => ?_, fun _ h => absurd (htype.symm.trans h) (by decide),
        nofun⟩, ?_⟩
      · simp only [List.length_append, List.length_cons, List.length_nil]
        omega
      · rw [if_neg (by decide), if_pos trivial,
          List.drop_left' (by simp [hmacs])]
  | some tci =>
      have htype : u16 (f.macs ++ [0x81, 0x00, tci.1, tci.2, 0x08, 0x00] ++
          (f.header ++ (f.udp ++ f.gtp))) 12 = 0x8100 := by
        rw [List.append_assoc, u16_append_right (by omega), hmacs]
        simp [u16, byte]
      have htype' : u16 (f.macs ++ [0x81, 0x00, tci.1, tci.2, 0x08, 0x00] ++
          (f.header ++ (f.udp ++ f.gtp))) 16 = 0x0800 := by
        rw [List.append_assoc, u16_append_right (by omega), hmacs]
        simp [u16, byte]
      have hlen : 18 ≤ (f.macs ++ [0x81, 0x00, tci.1, tci.2, 0x08, 0x00] ++
          (f.header ++ (f.udp ++ f.gtp))).length := by
        simp only [List.length_append, List.length_cons, List.length_nil]
        omega
      simp only [htype, htype']
      refine ⟨⟨fun _ => by omega, fun _ _ => hlen, nofun⟩, ?_⟩
      rw [if_pos trivial, if_pos trivial, List.drop_left' (by simp [hmacs])]

theorem Frame.start_length : f.start.length = 8 := by
  unfold Frame.start
  simp [f.lengthTeid_length]

/-- The outer packet carries the message. -/
theorem Frame.gpdu_bytes : Gpdu f.bytes 1 f.gtp := by
  have hlen := f.header_complete.header
  have hheader := f.header_length
  have hudp := f.udp_length
  have hstart := f.start_length
  have hdeclared : headerLength (f.header ++ (f.udp ++ f.gtp)) =
      f.header.length := by
    rw [← hheader]
    unfold headerLength
    rw [byte_append_left (by omega)]
  have hudpOf : udpOf (f.header ++ (f.udp ++ f.gtp)) = f.udp ++ f.gtp := by
    unfold udpOf
    rw [hdeclared, List.drop_left]
  refine ⟨_, f.payload_bytes.2, ⟨?_, ?_, ?_, ?_, ?_⟩, ?_⟩
  · simp only [List.length_append]
    omega
  · rw [byte_append_left (by omega), f.header_proto]
  · rw [hudpOf]
    unfold Frame.gtp
    simp only [List.length_append]
    omega
  · rw [hudpOf, u16_append_left (by omega), u16_append_left (by omega)]
    exact f.udp_port
  · rw [hudpOf, byte_append_right _ (by omega), hudp]
    rfl
  · rw [hudpOf, List.drop_left' hudp]

theorem Frame.flags_gtp : byte f.gtp 0 = f.flags := by
  rfl

theorem Frame.optional_of_E {f : Frame} (h : f.E) : f.Optional := by
  intro hflags
  apply h
  calc f.flags &&& 0x04 = (f.flags &&& 0x07) &&& 0x04 := by
        rw [UInt8.and_assoc]
        rfl
    _ = 0 := by
        rw [hflags]
        rfl

/-- Where the optional bytes are, their last one is the fourth of them. -/
theorem Frame.nextByte_gtp {x : UInt8} {rest : Bytes}
    (h : f.options = f.numbers ++ x :: rest) :
    byte f.gtp 11 = x ∧ 12 ≤ f.gtp.length := by
  have hstart := f.start_length
  have hnumbers := f.numbers_length
  have hgtp : f.gtp = (f.start ++ f.numbers) ++ x :: (rest ++ f.inner) := by
    unfold Frame.gtp
    rw [h]
    simp
  have hpre : (f.start ++ f.numbers).length = 11 := by
    rw [List.length_append]
    omega
  rw [hgtp]
  refine ⟨?_, ?_⟩
  · rw [byte_append_right _ (by omega), hpre]
    rfl
  · rw [List.length_append, hpre, List.length_cons]
    omega

end Layers

section Inner

variable {f : Frame}

theorem Frame.starts_of_not_optional (h : ¬ f.Optional) :
    Starts f.gtp (some (8 + f.options.length)) := by
  unfold Starts Frame.options
  rw [f.flags_gtp, if_pos (not_not.1 h), if_neg h]
  rfl

/-- With the optional bytes the walk begins behind them. -/
theorem Frame.starts_of_walks {x : UInt8} {rest : Bytes} {r : Option Nat}
    (hopt : f.Optional) (h : f.options = f.numbers ++ x :: rest) :
    Starts f.gtp r ↔ Walks f.gtp x 12 r := by
  obtain ⟨hbyte, hlen⟩ := f.nextByte_gtp h
  unfold Starts
  rw [f.flags_gtp, if_neg hopt, hbyte]
  exact and_iff_right hlen

theorem Frame.options_of_E (h : f.E) :
    f.options = f.numbers ++ nextKind f.exts :: chain f.exts := by
  unfold Frame.options
  rw [if_pos (Frame.optional_of_E h), if_pos h]

theorem Frame.options_of_not_E (hopt : f.Optional) (h : ¬ f.E) :
    f.options = f.numbers ++ [f.spare] := by
  unfold Frame.options
  rw [if_pos hopt, if_neg h]

theorem Frame.starts_of_E (h : f.E) :
    Starts f.gtp (some (8 + f.options.length)) := by
  have hstart := f.start_length
  have hnumbers := f.numbers_length
  rw [Frame.starts_of_walks (Frame.optional_of_E h) (Frame.options_of_E h)]
  have hpre : (f.start ++ f.numbers ++ [nextKind f.exts]).length = 12 := by
    simp only [List.length_append, List.length_cons, List.length_nil]
    omega
  have hgtp : f.gtp = (f.start ++ f.numbers ++ [nextKind f.exts]) ++
      (chain f.exts ++ f.inner) := by
    unfold Frame.gtp
    rw [Frame.options_of_E h]
    simp
  have hlen : 8 + f.options.length = 12 + (chain f.exts).length := by
    rw [Frame.options_of_E h, List.length_append, List.length_cons]
    omega
  have hwalks := walks_chain f.exts
    (f.start ++ f.numbers ++ [nextKind f.exts]) f.inner
  rw [← hgtp, hpre, ← hlen] at hwalks
  exact hwalks

theorem Frame.starts_of_spare (hopt : f.Optional) (h : ¬ f.E)
    (hspare : f.spare = 0) :
    Starts f.gtp (some (8 + f.options.length)) := by
  have hnumbers := f.numbers_length
  have hoptions := Frame.options_of_not_E hopt h
  rw [Frame.starts_of_walks hopt hoptions, hspare]
  have hlen : 8 + f.options.length = 12 := by
    rw [hoptions, List.length_append, List.length_singleton]
    omega
  rw [hlen]
  exact .stop 12

theorem Frame.gtpuInner_of_starts
    (h : Starts f.gtp (some (8 + f.options.length))) :
    gtpuInner f.bytes 1 = .ok (some f.inner) := by
  have hdrop : f.gtp.drop (8 + f.options.length) = f.inner := by
    unfold Frame.gtp
    rw [← List.append_assoc, List.drop_left']
    rw [List.length_append, f.start_length]
  obtain ⟨r, hr⟩ := exists_gtpuInner_eq_ok f.payload_bytes.1 fun g hg =>
    ⟨_, hg.unique f.gpdu_bytes ▸ h⟩
  obtain ⟨-, -, hcarried⟩ := gtpuInner_eq_ok hr
  rw [hr, (hcarried f.inner).2
    ⟨f.gtp, _, f.gpdu_bytes, h, hdrop.symm, f.inner_complete.version⟩]

/-- A type that is not zero takes the walk into the inner packet. -/
theorem Frame.spare_eq_zero (h : gtpuInner f.bytes 1 = .ok (some f.inner))
    (hE : ¬ f.E) (hopt : f.Optional) : f.spare = 0 := by
  by_contra hspare
  obtain ⟨-, -, hcarried⟩ := gtpuInner_eq_ok h
  obtain ⟨g, off, hg, hoff, hinner, -⟩ := (hcarried f.inner).1 rfl
  obtain rfl := hg.unique f.gpdu_bytes
  have hoptions := Frame.options_of_not_E hopt hE
  have hlt := ((Frame.starts_of_walks hopt hoptions).1 hoff).off_lt hspare
  have hlen := congrArg List.length hinner
  have hpos : 20 ≤ f.inner.length :=
    Nat.le_trans f.inner_complete.header f.inner_complete.fits
  have hgtp : f.gtp.length = 12 + f.inner.length := by
    unfold Frame.gtp
    rw [hoptions]
    simp only [List.length_append, List.length_singleton, f.start_length,
      f.numbers_length]
    omega
  rw [List.length_drop] at hlen
  omega

/-- The inner packet of a frame is found if E is set, if none of the three flags
is, or if the byte that is then to be ignored is zero. -/
theorem gtpuInner_bytes_iff (f : Frame) :
    gtpuInner f.bytes 1 = .ok (some f.inner) ↔
      f.E ∨ ¬ f.Optional ∨ f.spare = 0 := by
  constructor
  · intro h
    by_cases hE : f.E
    · exact .inl hE
    by_cases hopt : f.Optional
    · exact .inr (.inr (Frame.spare_eq_zero h hE hopt))
    · exact .inr (.inl hopt)
  · intro h
    by_cases hE : f.E
    · exact Frame.gtpuInner_of_starts (Frame.starts_of_E hE)
    by_cases hopt : f.Optional
    · have hspare : f.spare = 0 :=
        (h.resolve_left hE).resolve_left (not_not.2 hopt)
      exact Frame.gtpuInner_of_starts (Frame.starts_of_spare hopt hE hspare)
    · exact Frame.gtpuInner_of_starts (Frame.starts_of_not_optional hopt)

/-- A message with a sequence number, and one in the byte that does not count. -/
def numbered : Frame where
  macs := List.replicate 12 0
  vlan := none
  header := [0x45, 0, 0, 60, 0, 0, 0, 0, 64, 17, 0xec, 0x5b,
    192, 168, 6, 101, 192, 168, 6, 160]
  udp := [0x08, 0x68, 0x08, 0x68, 0, 40, 0, 0]
  flags := 0x32
  lengthTeid := [0, 24, 0, 0, 0x12, 0x34]
  numbers := [0, 7, 0]
  exts := []
  spare := 1
  inner := [0x45, 0, 0, 20, 0, 0, 0, 0, 64, 59, 0x66, 0x4e,
    10, 45, 0, 7, 10, 45, 0, 1]
  macs_length := rfl
  header_complete := ⟨by decide, by decide, by decide⟩
  header_length := by decide
  header_proto := by decide
  udp_length := rfl
  udp_port := by decide
  flags_version := by decide
  lengthTeid_length := rfl
  numbers_length := rfl
  inner_complete := ⟨by decide, by decide, by decide⟩

theorem not_gtpuInner_numbered :
    ¬ ∀ f : Frame, gtpuInner f.bytes 1 = .ok (some f.inner) := by
  intro h
  have hspare : numbered.spare = 0 :=
    Frame.spare_eq_zero (h numbered) (by decide) (by decide)
  exact absurd hspare (by decide)

end Inner

end Pcap
end Experiments
end Kelt
