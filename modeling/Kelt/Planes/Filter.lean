import Kelt.Lib.IpAddress
import Kelt.Lib.PyText

/-!
# The plane filter of the worker

`apply_plane_filter` writes one nftables chain for the bridges it finds and the
interface of the default route. A packet walks the chain from the top: a
sampling rule writes to the kernel log and lets it go on, every other rule that
matches ends the walk. Not-allowed rules jump to a chain of their own, whose
one verdict depends on the mode.

A rule carries what it was written for (`Label`); its comment and its log
prefix are texts made from that.
-/

namespace Kelt
namespace Planes

open Ip

section Filter

/-- A character of an interface name that the shell and nft take as it is. -/
def isNameChar (c : Char) : Bool :=
  !isBlank c && !"/:*?[\\\"".toList.contains c

/-- An interface name. The kernel allows no white space, slash and colon in it;
pattern characters and quotes are left out as well. -/
structure IfName where
  text : Text
  ne_nil : text ≠ []
  plain : ∀ c ∈ text, isNameChar c = true

instance : DecidableEq IfName :=
  fun a b =>
    decidable_of_iff (a.text = b.text) (by cases a; cases b; simp)

/-- `br-*` -/
def IfName.isBridge (n : IfName) : Bool :=
  "br-".toList.isPrefixOf n.text

def brRan : IfName := ⟨"br-ran".toList, by decide, by decide⟩

def brN3 : IfName := ⟨"br-n3".toList, by decide, by decide⟩

def brN6c : IfName := ⟨"br-n6c".toList, by decide, by decide⟩

inductive Mode where
  | observe
  | enforce
deriving DecidableEq

def Mode.text : Mode → Text
  | observe => "observe".toList
  | enforce => "enforce".toList

/-- The `case` on the mode; any other word ends the script. -/
def parseMode (t : Text) : Option Mode :=
  if t = "observe".toList then some .observe
  else if t = "enforce".toList then some .enforce
  else none

inductive Target where
  | accept
  | drop
deriving DecidableEq

/-- `verdict` -/
def Mode.verdict : Mode → Target
  | observe => .accept
  | enforce => .drop

/-- State of a packet's connection. -/
inductive Ct where
  | new
  | established
  | related
  | invalid
  | untracked
deriving DecidableEq

structure Packet where
  iif : IfName
  oif : IfName
  src : IpAddress
  dst : IpAddress
  ct : Ct
deriving DecidableEq

/-- The UE address pools, IPv4 networks. -/
abbrev Pools := List (BitVec 32 × Nat)

/-- The address lies in one of the pools. -/
def inPools (pools : Pools) (a : IpAddress) : Bool :=
  pools.any fun pool => mem a (.v4 pool.1 pool.2)

/-- Conditions of a rule. -/
inductive Cond where
  | daddr (pools : Pools)
  | saddr (pools : Pools)
  | iifname (n : IfName)
  | oifname (n : IfName)
  | iifPlane
  | oifPlane
  | iifOutside
  | oifOutside
  | reply
deriving DecidableEq

def Cond.holds (p : Packet) : Cond → Bool
  | daddr pools => inPools pools p.dst
  | saddr pools => inPools pools p.src
  | iifname n => decide (p.iif = n)
  | oifname n => decide (p.oif = n)
  | iifPlane => p.iif.isBridge
  | oifPlane => p.oif.isBridge
  | iifOutside => !p.iif.isBridge
  | oifOutside => !p.oif.isBridge
  | reply => decide (p.ct = .established ∨ p.ct = .related)

/-- What a rule is written for. -/
inductive Label where
  | toPools
  | fromPools
  | pair (a b : IfName)
  | egress (a e : IfName)
  | replies (e a : IfName)
  | fromPlane (a : IfName)
  | intoPlane
deriving DecidableEq

def space : Text := " ".toList

def colon : Text := ": ".toList

def planesMark : Text := "KELT-PLANES ".toList

def arrow : Text := " -> ".toList

def repliesMark : Text := " replies".toList

/-- The text of a rule after "allowed: " or "not allowed: ". -/
def Label.text : Label → Text
  | toPools => "to UE pools outside the planes".toList
  | fromPools => "from UE pools outside the planes".toList
  | pair a b => a.text ++ arrow ++ b.text
  | egress a e => a.text ++ arrow ++ e.text
  | replies e a => e.text ++ arrow ++ a.text ++ repliesMark
  | fromPlane a => "from ".toList ++ a.text
  | intoPlane => "into a plane".toList

/-- What a rule does with a packet that matches: log it at a limited rate, count
it and accept it or jump to `not_allowed`, or accept it. -/
inductive Action where
  | sample (mode : Mode) (label : Label)
  | allow (label : Label)
  | deny (label : Label)
  | accept
deriving DecidableEq

/-- `KELT-PLANES $mode ${2// /_}: ` -/
def logPrefix (mode : Mode) (label : Label) : Text :=
  planesMark ++ mode.text ++ space ++
    label.text.map (fun c => if c = ' ' then '_' else c) ++ colon

structure Rule where
  conds : List Cond
  action : Action
deriving DecidableEq

def Rule.hits (r : Rule) (p : Packet) : Bool :=
  r.conds.all (Cond.holds p)

/-- The table: the chains `not_allowed` and `forward`, whose policy is accept. -/
structure Ruleset where
  notAllowed : Target
  forward : List Rule
deriving DecidableEq

/-- `deny`: the sampling rule, then the counting rule. -/
def deny (mode : Mode) (conds : List Cond) (label : Label) : List Rule :=
  [⟨conds, .sample mode label⟩, ⟨conds, .deny label⟩]

/-- The physical RAN transport, when the RAN bridge is there. -/
def ranRules (bridges : List IfName) : List Rule :=
  if brRan ∈ bridges then
    [⟨[.iifname brRan, .oifname brN3], .allow (.pair brRan brN3)⟩,
      ⟨[.iifname brN3, .oifname brRan], .allow (.pair brN3 brRan)⟩]
  else
    []

/-- The internet breakout. -/
def breakoutRules : Option IfName → List Rule
  | none => []
  | some e =>
      [⟨[.iifname brN6c, .oifname e], .allow (.egress brN6c e)⟩,
        ⟨[.iifname e, .oifname brN6c, .reply], .allow (.replies e brN6c)⟩]

/-- One rule for each ordered pair of planes. -/
def pairRules (mode : Mode) (bridges : List IfName) : List Rule :=
  bridges.flatMap fun a =>
    bridges.flatMap fun b =>
      if a = b then [] else deny mode [.iifname a, .oifname b] (.pair a b)

/-- A plane to anything else. -/
def fromRules (mode : Mode) (bridges : List IfName) : List Rule :=
  bridges.flatMap fun a => deny mode [.iifname a] (.fromPlane a)

/-- The chain `forward`. -/
def forwardRules (mode : Mode) (pools : Pools) (egress : Option IfName)
    (bridges : List IfName) : List Rule :=
  deny mode [.daddr pools, .oifOutside] .toPools ++
    deny mode [.saddr pools, .iifOutside] .fromPools ++
    [⟨[.iifOutside, .oifOutside], .accept⟩] ++
    ranRules bridges ++
    breakoutRules egress ++
    pairRules mode bridges ++
    fromRules mode bridges ++
    deny mode [.oifPlane] .intoPlane

/-- `ls /sys/class/net | grep '^br-'` -/
def bridgesOf (netdevs : List IfName) : List IfName :=
  netdevs.filter IfName.isBridge

/-- The table that `apply_plane_filter` loads. An unknown mode ends the script,
and so does the absence of bridges, since `grep` then fails. -/
def applyPlaneFilter (mode : Text) (pools : Pools) (egress : Option IfName)
    (netdevs : List IfName) : Option Ruleset :=
  match parseMode mode with
  | none => none
  | some m =>
      let bridges := bridgesOf netdevs
      if bridges = [] then
        none
      else
        some ⟨m.verdict, forwardRules m pools egress bridges⟩

/-- What the rules do with a packet: the rules that sample it, the rules that
count it, and the verdict. -/
structure Trace where
  sampled : List Rule
  counted : List Rule
  verdict : Target
deriving DecidableEq

/-- A packet on its way down the chain. -/
def walk (notAllowed : Target) (p : Packet) : List Rule → Trace
  | [] => ⟨[], [], .accept⟩
  | r :: rest =>
      if r.hits p then
        match r.action with
        | .sample _ _ =>
            let t := walk notAllowed p rest
            { t with sampled := r :: t.sampled }
        | .allow _ => ⟨[], [r], .accept⟩
        | .deny _ => ⟨[], [r], notAllowed⟩
        | .accept => ⟨[], [], .accept⟩
      else
        walk notAllowed p rest

def Ruleset.walk (rs : Ruleset) (p : Packet) : Trace :=
  Planes.walk rs.notAllowed p rs.forward

end Filter

end Planes
end Kelt
