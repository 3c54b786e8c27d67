import Mathlib.Tactic

/-!
# IP addresses and networks as text

The textual forms that Python's `ipaddress` module reads: `ip_address` for one
address, `ip_network` (with `strict=False`) for an address with a prefix
length, a netmask or a hostmask. A text that the module refuses with
`ValueError` has no value here.

An address carries its version in its type, so an IPv4 address is never inside
an IPv6 network. `mem_network_iff` says what the masked comparison decides:
an address is in a network when its leading `prefixlen` bits are those of the
network's address. `mem_of_subnetOf` says what comparing the ends of two
networks decides: a network between the ends of another has no address outside
it.
-/

namespace Kelt
namespace Ip

section IpAddress

/-- A parsed address. -/
inductive IpAddress where
  | v4 (ip : BitVec 32)
  | v6 (ip : BitVec 128)
deriving DecidableEq

/-- A parsed network: the address as written and its prefix length. -/
inductive IpNetwork where
  | v4 (address : BitVec 32) (prefixlen : Nat)
  | v6 (address : BitVec 128) (prefixlen : Nat)
deriving DecidableEq

/-- Value of a decimal digit. -/
def decimalDigit (c : Char) : Option Nat :=
  if '0' ≤ c ∧ c ≤ '9' then some (c.toNat - '0'.toNat) else none

/-- Value of a hexadecimal digit, in either case. -/
def hexDigit (c : Char) : Option Nat :=
  if '0' ≤ c ∧ c ≤ '9' then some (c.toNat - '0'.toNat)
  else if 'a' ≤ c ∧ c ≤ 'f' then some (c.toNat - 'a'.toNat + 10)
  else if 'A' ≤ c ∧ c ≤ 'F' then some (c.toNat - 'A'.toNat + 10)
  else none

/-- The number a digit list denotes in a base; no value for an empty text. -/
def numeral (base : Nat) (digit : Char → Option Nat) :
    List Char → Option Nat
  | [] => none
  | cs => (cs.mapM digit).map (·.foldl (fun n d => n * base + d) 0)

/-- One part of a dotted quad: at most three digits, no leading zero. -/
def parseOctet (octet : List Char) : Option Nat :=
  if octet.length > 3 then none
  else if octet ≠ ['0'] ∧ octet.head? = some '0' then none
  else (numeral 10 decimalDigit octet).filter (· ≤ 255)

/-- The integer of a dotted quad. -/
def ipv4FromString (text : List Char) : Option (BitVec 32) :=
  match (text.splitOn '.').mapM parseOctet with
  | some [a, b, c, d] =>
      some (BitVec.ofNat 32 (((a * 256 + b) * 256 + c) * 256 + d))
  | _ => none

/-- One part between colons: at most four hexadecimal digits. -/
def parseHextet (hextet : List Char) : Option Nat :=
  if hextet.length > 4 then none else numeral 16 hexDigit hextet

/-- The number of a list of hextets, most significant first. -/
def hextetsToNat (hextets : List Nat) : Nat :=
  hextets.foldl (fun n h => n * 65536 + h) 0

/--
The parts between colons as hextets: a dotted quad in last place stands for
two of them.
-/
def ipv6Parts (text : List Char) : Option (List (List Char ⊕ Nat)) :=
  let parts := text.splitOn ':'
  match parts.getLast? with
  | none => none
  | some last =>
      if '.' ∈ last then
        (ipv4FromString last).map fun ip =>
          parts.dropLast.map Sum.inl ++
            [Sum.inr (ip.toNat / 65536), Sum.inr (ip.toNat % 65536)]
      else some (parts.map Sum.inl)

/-- A part is empty only when nothing stands between two colons. -/
def partIsEmpty : List Char ⊕ Nat → Bool
  | Sum.inl cs => cs.isEmpty
  | Sum.inr _ => false

/-- The value of one part. -/
def partValue : List Char ⊕ Nat → Option Nat
  | Sum.inl cs => parseHextet cs
  | Sum.inr n => some n

/-- The parts on one side of `::`; an empty outer part must stand alone. -/
def sideParts (outer : Option (List Char ⊕ Nat))
    (side : List (List Char ⊕ Nat)) : Option (List (List Char ⊕ Nat)) :=
  if outer.any partIsEmpty then
    (if side.length = 1 then some [] else none)
  else some side

/-- Positions, first and last excluded, at which a part is empty. -/
def skipIndices (parts : List (List Char ⊕ Nat)) : List Nat :=
  (List.range parts.length).filter fun i =>
    1 ≤ i ∧ i + 1 < parts.length ∧ (parts[i]?).any partIsEmpty

/-- The integer of colon-separated hextets with at most one `::`. -/
def ipv6FromString (text : List Char) : Option (BitVec 128) := do
  if (text.splitOn ':').length < 3 then none
  let parts ← ipv6Parts text
  if parts.length > 9 then none
  match skipIndices parts with
  | [] =>
      if parts.length ≠ 8 then none
      let values ← parts.mapM partValue
      some (BitVec.ofNat 128 (hextetsToNat values))
  | [skip] =>
      let hi ← sideParts parts.head? (parts.take skip)
      let lo ← sideParts parts.getLast? (parts.drop (skip + 1))
      if hi.length + lo.length ≥ 8 then none
      let hiValues ← hi.mapM partValue
      let loValues ← lo.mapM partValue
      let skipped := List.replicate (8 - (hi.length + lo.length)) 0
      some (BitVec.ofNat 128 (hextetsToNat (hiValues ++ skipped ++ loValues)))
  | _ => none

/-- The address before a `%scope`; the scope must not be empty. -/
def splitScopeId (text : List Char) : Option (List Char) :=
  match text.splitOn '%' with
  | [address] => some address
  | [address, scope] => if scope.isEmpty then none else some address
  | _ => none

/-- `IPv6Address(text)`. -/
def ipv6Address (text : List Char) : Option (BitVec 128) :=
  if '/' ∈ text then none else splitScopeId text >>= ipv6FromString

/-- `ipaddress.ip_address(text)`: IPv4 is tried first. -/
def ipAddress (text : String) : Option IpAddress :=
  match ipv4FromString text.toList with
  | some ip => some (IpAddress.v4 ip)
  | none => (ipv6Address text.toList).map IpAddress.v6

/-- A prefix length written as a number. -/
def prefixFromString (width : Nat) (text : List Char) : Option Nat :=
  (numeral 10 decimalDigit text).filter (· ≤ width)

/-- Netmask with the given number of leading ones. -/
def netmask (width prefixlen : Nat) : BitVec width :=
  BitVec.allOnes width <<< (width - prefixlen)

/-- Prefix length of a netmask or of a hostmask in dotted form. -/
def prefixFromIpString (text : List Char) : Option Nat :=
  (ipv4FromString text).bind fun ip =>
    ((List.range 33).find? (fun n => netmask 32 n == ip)).or
      ((List.range 33).find? (fun n => netmask 32 n == ~~~ip))

/-- `ipaddress.ip_network(text, strict=False)`: IPv4 is tried first. -/
def ipNetwork (text : String) : Option IpNetwork :=
  match text.toList.splitOn '/' with
  | [address] =>
      match ipv4FromString address with
      | some ip => some (IpNetwork.v4 ip 32)
      | none => (ipv6Address address).map (IpNetwork.v6 · 128)
  | [address, mask] =>
      match ipv4FromString address with
      | some ip =>
          ((prefixFromString 32 mask).or (prefixFromIpString mask)).map
            (IpNetwork.v4 ip)
      | none => do
          let ip ← ipv6Address address
          let prefixlen ← prefixFromString 128 mask
          some (IpNetwork.v6 ip prefixlen)
  | _ => none

/-- `address in network`: the address under the netmask is the network's. -/
def mem : IpAddress → IpNetwork → Bool
  | .v4 ip, .v4 address n =>
      ip &&& netmask 32 n == address &&& netmask 32 n
  | .v6 ip, .v6 address n =>
      ip &&& netmask 128 n == address &&& netmask 128 n
  | _, _ => false

/-- The leading `n` bits of two words agree. -/
def SameLeadingBits {width : Nat} (n : Nat) (a b : BitVec width) : Prop :=
  ∀ i, i < width → width ≤ i + n → a.getLsbD i = b.getLsbD i

/-- The addresses of a network: same version, same leading bits. -/
def IpNetwork.addresses : IpNetwork → Set IpAddress
  | .v4 address n => {a | ∃ ip, a = .v4 ip ∧ SameLeadingBits n ip address}
  | .v6 address n => {a | ∃ ip, a = .v6 ip ∧ SameLeadingBits n ip address}

theorem getLsbD_netmask (width prefixlen i : Nat) :
    (netmask width prefixlen).getLsbD i =
      (decide (i < width) && decide (width ≤ i + prefixlen)) := by
  unfold netmask
  rw [BitVec.getLsbD_shiftLeft, BitVec.getLsbD_allOnes]
  by_cases hi : i < width
  · by_cases hn : width ≤ i + prefixlen
    · have hge : ¬ i < width - prefixlen := by omega
      have hlt : i - (width - prefixlen) < width := by omega
      simp [hi, hn, hge, hlt]
    · have hlt : i < width - prefixlen := by omega
      simp [hn, hlt]
  · simp [hi]

/-- Comparing under the netmask compares the leading bits. -/
theorem and_netmask_eq_iff
    {width : Nat} (n : Nat) (a b : BitVec width) :
    a &&& netmask width n = b &&& netmask width n ↔
      SameLeadingBits n a b := by
  constructor
  · intro h i hi hn
    have hbit :
        (a &&& netmask width n).getLsbD i =
          (b &&& netmask width n).getLsbD i := by
      rw [h]
    rw [BitVec.getLsbD_and, BitVec.getLsbD_and, getLsbD_netmask] at hbit
    simpa only [hi, hn, decide_true, Bool.and_true] using hbit
  · intro h
    apply BitVec.eq_of_getLsbD_eq
    intro i hi
    by_cases hn : width ≤ i + n
    · simp [BitVec.getLsbD_and, h i hi hn]
    · simp [BitVec.getLsbD_and, getLsbD_netmask, hn]

/-- The masked comparison decides membership in the network's addresses. -/
theorem mem_network_iff (a : IpAddress) (network : IpNetwork) :
    mem a network = true ↔ a ∈ network.addresses := by
  cases a with
  | v4 ip =>
      cases network with
      | v4 address n =>
          simp [mem, IpNetwork.addresses, and_netmask_eq_iff]
      | v6 address n =>
          simp [mem, IpNetwork.addresses]
  | v6 ip =>
      cases network with
      | v4 address n =>
          simp [mem, IpNetwork.addresses]
      | v6 address n =>
          simp [mem, IpNetwork.addresses, and_netmask_eq_iff]

/-- The lowest address of a network. -/
def networkAddress {width : Nat} (address : BitVec width) (n : Nat) :
    BitVec width :=
  address &&& netmask width n

/-- The highest address of a network. -/
def broadcastAddress {width : Nat} (address : BitVec width) (n : Nat) :
    BitVec width :=
  networkAddress address n ||| ~~~ netmask width n

/--
`a.subnet_of(b)`: the ends of `a` are between those of `b`. Networks of two
versions cannot be compared (`TypeError`).
-/
def subnetOf : IpNetwork → IpNetwork → Option Bool
  | .v4 a n, .v4 b m =>
      some (networkAddress b m ≤ networkAddress a n &&
        broadcastAddress a n ≤ broadcastAddress b m)
  | .v6 a n, .v6 b m =>
      some (networkAddress b m ≤ networkAddress a n &&
        broadcastAddress a n ≤ broadcastAddress b m)
  | _, _ => none

theorem and_netmask_eq_shift
    {width : Nat} (a : BitVec width) (n : Nat) :
    a &&& netmask width n =
      (a >>> (width - n)) <<< (width - n) := by
  apply BitVec.eq_of_getLsbD_eq
  intro i hi
  by_cases hlow : i < width - n
  · simp [getLsbD_netmask, hlow, show ¬ width ≤ i + n by omega]
  · have hback : width - n + (i - (width - n)) = i := by omega
    simp [getLsbD_netmask, hlow, hi, hback, show width ≤ i + n by omega]

theorem toNat_networkAddress
    {width : Nat} (a : BitVec width) (n : Nat) :
    (networkAddress a n).toNat =
      a.toNat / 2 ^ (width - n) * 2 ^ (width - n) := by
  unfold networkAddress
  rw [and_netmask_eq_shift, BitVec.toNat_shiftLeft, BitVec.toNat_ushiftRight,
    Nat.shiftRight_eq_div_pow, Nat.shiftLeft_eq]
  apply Nat.mod_eq_of_lt
  exact lt_of_le_of_lt (Nat.div_mul_le_self _ _) a.isLt

theorem toNat_netmask (width n : Nat) :
    (netmask width n).toNat = 2 ^ width - 2 ^ (width - n) := by
  have hall : netmask width n = networkAddress (BitVec.allOnes width) n := by
    unfold networkAddress
    rw [BitVec.allOnes_and]
  have hsplit : 2 ^ width = 2 ^ (width - (width - n)) * 2 ^ (width - n) := by
    rw [← pow_add, Nat.sub_add_cancel (Nat.sub_le width n)]
  have hpos : 0 < 2 ^ (width - n) := Nat.two_pow_pos _
  have hdiv : (2 ^ width - 1) / 2 ^ (width - n) =
      2 ^ (width - (width - n)) - 1 := by
    apply Nat.div_eq_of_lt_le
    · rw [Nat.sub_mul, ← hsplit]
      omega
    · rw [Nat.sub_add_cancel (Nat.two_pow_pos _), ← hsplit]
      exact Nat.sub_lt (Nat.two_pow_pos _) Nat.one_pos
  rw [hall, toNat_networkAddress, BitVec.toNat_allOnes, hdiv, Nat.sub_mul,
    ← hsplit, one_mul]

theorem toNat_broadcastAddress
    {width : Nat} (a : BitVec width) (n : Nat) :
    (broadcastAddress a n).toNat =
      a.toNat / 2 ^ (width - n) * 2 ^ (width - n) +
        (2 ^ (width - n) - 1) := by
  have hdisjoint : networkAddress a n &&& ~~~ netmask width n = BitVec.ofNat width 0 := by
    unfold networkAddress
    rw [BitVec.and_assoc, BitVec.and_not_self]
    exact BitVec.and_zero
  have hhost : (~~~ netmask width n).toNat = 2 ^ (width - n) - 1 := by
    have hle : 2 ^ (width - n) ≤ 2 ^ width :=
      Nat.pow_le_pow_right (by decide) (Nat.sub_le width n)
    rw [BitVec.toNat_not, toNat_netmask]
    omega
  unfold broadcastAddress
  rw [← BitVec.add_eq_or_of_and_eq_zero _ _ hdisjoint,
    BitVec.toNat_add_of_and_eq_zero hdisjoint, toNat_networkAddress, hhost]

/-- The masked comparison asks whether an address is between the ends. -/
theorem and_netmask_eq_iff_between
    {width : Nat} (n : Nat) (a b : BitVec width) :
    a &&& netmask width n = b &&& netmask width n ↔
      networkAddress b n ≤ a ∧ a ≤ broadcastAddress b n := by
  have hpos : 0 < 2 ^ (width - n) := Nat.two_pow_pos _
  change networkAddress a n = networkAddress b n ↔ _
  rw [← BitVec.toNat_inj, BitVec.le_def, BitVec.le_def,
    toNat_networkAddress, toNat_networkAddress, toNat_broadcastAddress]
  constructor
  · intro h
    have hrem := Nat.mod_lt a.toNat hpos
    have hdecomp := Nat.div_add_mod' a.toNat (2 ^ (width - n))
    omega
  · rintro ⟨hlow, hhigh⟩
    have hdiv :
        a.toNat / 2 ^ (width - n) = b.toNat / 2 ^ (width - n) := by
      apply Nat.div_eq_of_lt_le hlow
      rw [Nat.add_mul, one_mul]
      omega
    rw [hdiv]

/-- What is between the ends of `a` is between ends that enclose them. -/
theorem and_netmask_eq_of_ends
    {width n m : Nat} {a b ip : BitVec width}
    (hlow : networkAddress b m ≤ networkAddress a n)
    (hhigh : broadcastAddress a n ≤ broadcastAddress b m)
    (hip : ip &&& netmask width n = a &&& netmask width n) :
    ip &&& netmask width m = b &&& netmask width m := by
  rw [and_netmask_eq_iff_between] at hip ⊢
  exact ⟨BitVec.le_trans hlow hip.1, BitVec.le_trans hip.2 hhigh⟩

/-- A subnet has no address outside the network. -/
theorem mem_of_subnetOf
    {a b : IpNetwork} {ip : IpAddress}
    (hsub : subnetOf a b = some true)
    (hip : mem ip a = true) :
    mem ip b = true := by
  cases a with
  | v4 a n =>
      cases b with
      | v6 b m => cases hsub
      | v4 b m =>
          cases ip with
          | v6 ip => cases hip
          | v4 ip =>
              simp only [subnetOf, Option.some.injEq, Bool.and_eq_true,
                decide_eq_true_eq] at hsub
              simp only [mem, beq_iff_eq] at hip ⊢
              exact and_netmask_eq_of_ends hsub.1 hsub.2 hip
  | v6 a n =>
      cases b with
      | v4 b m => cases hsub
      | v6 b m =>
          cases ip with
          | v4 ip => cases hip
          | v6 ip =>
              simp only [subnetOf, Option.some.injEq, Bool.and_eq_true,
                decide_eq_true_eq] at hsub
              simp only [mem, beq_iff_eq] at hip ⊢
              exact and_netmask_eq_of_ends hsub.1 hsub.2 hip

example : ipAddress "::ffff:10.0.0.1" =
    some (.v6 (BitVec.ofNat 128 0xffff0a000001)) := by decide

example : ipNetwork "10.0.0.7/255.255.255.0" =
    ipNetwork "10.0.0.7/24" := by decide

end IpAddress

end Ip
end Kelt
