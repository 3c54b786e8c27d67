import Kelt.Lib.FirstMatch
import Kelt.NetHealth.NatRules

/-!
# What the NAT rules do to the packets of the pool

The reference semantics of a listing: a line is read as iptables prints it,
with quoted texts and negated matches, and the chain of all its lines is walked
from the top until one of them decides. The matches of extensions and the
chains and targets that are not built in stay parameters (`Kernel`).

`trusted_iff` says when a report of a complete bypass and a present masquerade
can be trusted.
-/

namespace Kelt
namespace NetHealth

open Ip

section Egress

def quote : Char := Char.ofNat 0x22

def backslash : Char := Char.ofNat 0x5c

/-- The words of a printed rule: blanks within quotes do not separate. -/
def ruleWords (quoted : Bool) (word : Option Text) : Text → List Text
  | [] => word.toList
  | c :: rest =>
      if c = backslash then
        match rest with
        | [] => word.toList
        | d :: rest => ruleWords quoted (some (word.getD [] ++ [d])) rest
      else if c = quote then ruleWords (!quoted) (some (word.getD [])) rest
      else if c = ' ' ∧ quoted = false then
        word.toList ++ ruleWords false none rest
      else ruleWords quoted (some (word.getD [] ++ [c])) rest

/-- A match and whether `!` stands before it. -/
structure Match where
  negated : Bool
  value : Text
deriving DecidableEq

/-- A printed rule: its matches and its target with what follows. -/
structure Spec where
  src : List Match := []
  dst : List Match := []
  outIf : List Match := []
  extra : List Text := []
  target : List Text := []
deriving DecidableEq

/-- The words after `-A` and the name of the chain. -/
def Spec.scan (s : Spec) (negated : Bool) : List Text → Spec
  | [] => s
  | [word] => { s with extra := s.extra ++ [word] }
  | word :: value :: rest =>
      if word = "!".toList then s.scan true (value :: rest)
      else if word = "-s".toList then
        Spec.scan { s with src := s.src ++ [⟨negated, value⟩] } false rest
      else if word = "-d".toList then
        Spec.scan { s with dst := s.dst ++ [⟨negated, value⟩] } false rest
      else if word = "-o".toList then
        Spec.scan { s with outIf := s.outIf ++ [⟨negated, value⟩] } false rest
      else if word = "-j".toList ∨ word = "-g".toList then
        { s with target := value :: rest }
      else if word = "--comment".toList then s.scan false rest
      else
        let words := if negated then ["!".toList, word] else [word]
        Spec.scan { s with extra := s.extra ++ words } false (value :: rest)

/-- `-A CHAIN` and then the rule. -/
def specOf (line : Text) : Spec :=
  Spec.scan {} false ((ruleWords false none line).drop 2)

variable {X : Type}

/-- A packet that leaves the node: `more` is what only extensions look at. -/
structure Packet (X : Type) where
  src : BitVec 32
  dst : BitVec 32
  outIf : Text
  more : X

/-- What a walk of the chain can end with. -/
inductive Fate where
  | leaves
  | masquerade
  | otherwise
deriving DecidableEq

/-- The parts of the packet filter that a listing only names. -/
structure Kernel (X : Type) where
  /-- The matches of extensions, protocols and inbound interfaces. -/
  holds : List Text → Packet X → Bool
  /-- Other targets and chains of the user: they decide or return. -/
  jump : List Text → Packet X → Option Fate

/-- An address match. -/
def Match.onAddress (m : Match) (ip : BitVec 32) : Bool :=
  (networkOf m.value).any (mem (.v4 ip)) != m.negated

/-- `eth+` stands for all names with that beginning. -/
def nameMatches (pattern name : Text) : Bool :=
  if pattern.getLast? = some '+' then pattern.dropLast.isPrefixOf name
  else pattern = name

def Match.onName (m : Match) (name : Text) : Bool :=
  nameMatches m.value name != m.negated

/-- All matches of the rule hold for the packet. -/
def Spec.hits (k : Kernel X) (s : Spec) (p : Packet X) : Bool :=
  s.src.all (·.onAddress p.src) && s.dst.all (·.onAddress p.dst) &&
    s.outIf.all (·.onName p.outIf) &&
    (s.extra.isEmpty || k.holds s.extra p)

/-- What a rule without a target, or with the named one, does. -/
def targetFate (k : Kernel X) (target : List Text) (p : Packet X) :
    Option Fate :=
  match target with
  | [] => none
  | name :: _ =>
      if name = "RETURN".toList ∨ name = "ACCEPT".toList then some .leaves
      else if name = "MASQUERADE".toList then some .masquerade
      else k.jump target p

/-- The effect of one line. -/
def lineEffect (k : Kernel X) (line : Text) (p : Packet X) : Option Fate :=
  if (specOf line).hits k p then targetFate k (specOf line).target p else none

/-- The rules of a listing, all of them. -/
def chainOf (listing : Text) : List Text :=
  ((splitlines listing).map strip).filter fun line =>
    "-A ".toList.isPrefixOf line

/-- What the chain of the active backend does to a packet. -/
def Outputs.fate (k : Kernel X) (o : Outputs) (p : Packet X) : Option Fate :=
  firstMatch (lineEffect k) (chainOf o.activeRules) p

def InBlocks (ip : BitVec 32) : Prop :=
  ∃ block ∈ rfc1918, mem (.v4 ip) block = true

/-- A packet whose source is an address of the pool. -/
def FromPool (pool : Text) (p : Packet X) : Prop :=
  ∃ net, networkOf pool = some net ∧ mem (.v4 p.src) net = true

/-- The packets from the pool to a private address. -/
def toPrivate (X : Type) (pool : Text) : Set (Packet X) :=
  {p | FromPool pool p ∧ InBlocks p.dst}

/-- The packets from the pool to a public address. -/
def toPublic (X : Type) (pool : Text) : Set (Packet X) :=
  {p | FromPool pool p ∧ ¬ InBlocks p.dst}

/-- The report calls the bypass complete and the masquerade present. -/
def ReportsEgress (collected : Except Text Outputs) (pool : Text) : Prop :=
  ((getN6NatDiagnostics collected pool).bind (·.checks)).any
    (fun c => c.privateBypassComplete && c.masqueradePresent) = true

/-- What such a report is taken to say about the packets. -/
def EgressHolds (k : Kernel X) (o : Outputs) (pool : Text) : Prop :=
  (∀ p ∈ toPrivate X pool, o.fate k p = some .leaves) ∧
    ∀ p ∈ toPublic X pool, o.fate k p = some .masquerade

/-- A bypass that restricts the destination to the network it is parsed for. -/
def PlainBypass (source : Backend) (line : Text) : Prop :=
  ∃ rule, parseNatRule line source = some rule ∧
    rule.type = .privateBypass ∧ (specOf line).dst = [⟨false, rule.dest⟩]

/-- What makes such a report true of the packets. -/
structure Layered (k : Kernel X) (o : Outputs) (pool : Text) : Prop where
  /-- Bypass rules together reach every private destination of the pool. -/
  bypasses_reach :
    Reaches (lineEffect k) (chainOf o.activeRules) (toPrivate X pool) .leaves
  /-- Nothing takes such a packet before a bypass does. -/
  bypasses_first :
    Precedes (lineEffect k) (fun _ => False) (chainOf o.activeRules)
      (toPrivate X pool) .leaves
  /-- Masquerades together reach every public destination of the pool. -/
  masquerades_reach :
    Reaches (lineEffect k) (chainOf o.activeRules) (toPublic X pool)
      .masquerade
  /-- Nothing but a plain bypass stands before them without need of a look. -/
  masquerades_first :
    Precedes (lineEffect k) (PlainBypass o.activeSource)
      (chainOf o.activeRules) (toPublic X pool) .masquerade

/-- Some member answers yes when the search for one does. -/
theorem exists_of_anyM
    {α : Type} {f : α → Option Bool} {l : List α}
    (h : l.anyM f = some true) :
    ∃ a ∈ l, f a = some true := by
  induction l with
  | nil => cases h
  | cons a l ih =>
      cases hf : f a with
      | none => simp [List.anyM, hf] at h
      | some b =>
          cases b with
          | true => exact ⟨a, List.mem_cons_self, hf⟩
          | false =>
              obtain ⟨b, hb, hfb⟩ := ih (by simpa [List.anyM, hf] using h)
              exact ⟨b, List.mem_cons_of_mem a hb, hfb⟩

/-- A private destination has no address outside the blocks. -/
theorem inBlocks_of_isPrivate
    {dst : Text} {ip : BitVec 32}
    (hprivate : isPrivate dst = some true)
    (hip : (networkOf dst).any (mem (.v4 ip)) = true) :
    InBlocks ip := by
  unfold isPrivate at hprivate
  cases hnet : networkOf dst with
  | none =>
      rw [hnet] at hip
      cases hip
  | some net =>
      rw [hnet] at hprivate hip
      obtain ⟨block, hblock, hsub⟩ := exists_of_anyM hprivate
      exact ⟨block, hblock, mem_of_subnetOf hsub hip⟩

theorem isPrivate_of_ruleType
    {action dst : Text}
    (h : ruleType action dst = some .privateBypass) :
    isPrivate dst = some true := by
  obtain ⟨bypass, hbypass, htype⟩ := Option.map_eq_some_iff.1 h
  cases bypass with
  | true =>
      unfold isBypass at hbypass
      split at hbypass
      · exact hbypass
      · cases hbypass
  | false =>
      rw [if_neg Bool.false_ne_true] at htype
      split at htype <;> cases htype

theorem isPrivate_of_parseNatRule
    {raw : Text} {source : Backend} {rule : NatRule}
    (hparse : parseNatRule raw source = some rule)
    (htype : rule.type = .privateBypass) :
    isPrivate rule.dest = some true := by
  unfold parseNatRule at hparse
  cases hrule :
      ruleType (Fields.scan {} (words raw)).action
        (Fields.scan {} (words raw)).dst with
  | none => simp [hrule] at hparse
  | some type =>
      simp only [hrule, Option.bind_eq_bind, Option.bind_some,
        Option.pure_def, Option.some.injEq] at hparse
      subst hparse
      subst htype
      exact isPrivate_of_ruleType hrule

/-- A plain bypass decides about no public destination. -/
theorem lineEffect_of_plainBypass
    {k : Kernel X} {source : Backend} {line : Text} {p : Packet X}
    (hplain : PlainBypass source line)
    (hdst : ¬ InBlocks p.dst) :
    lineEffect k line p = none := by
  obtain ⟨rule, hparse, htype, hspec⟩ := hplain
  have hmiss : (networkOf rule.dest).any (mem (.v4 p.dst)) = false := by
    by_contra hhit
    exact hdst (inBlocks_of_isPrivate
      (isPrivate_of_parseNatRule hparse htype) (by simpa using hhit))
  have hhits : (specOf line).hits k p = false := by
    simp [Spec.hits, hspec, Match.onAddress, hmiss]
  unfold lineEffect
  rw [hhits]
  rfl

theorem egressHolds_iff
    (k : Kernel X) (o : Outputs) (pool : Text) :
    EgressHolds k o pool ↔ Layered k o pool := by
  have hprivate :
      (∀ p ∈ toPrivate X pool, o.fate k p = some .leaves) ↔
        Reaches (lineEffect k) (chainOf o.activeRules) (toPrivate X pool)
            .leaves ∧
          Precedes (lineEffect k) (fun _ => False) (chainOf o.activeRules)
            (toPrivate X pool) .leaves :=
    forall_firstMatch_iff fun _ hfalse => hfalse.elim
  have hpublic :
      (∀ p ∈ toPublic X pool, o.fate k p = some .masquerade) ↔
        Reaches (lineEffect k) (chainOf o.activeRules) (toPublic X pool)
            .masquerade ∧
          Precedes (lineEffect k) (PlainBypass o.activeSource)
            (chainOf o.activeRules) (toPublic X pool) .masquerade :=
    forall_firstMatch_iff fun _ hplain _ hp =>
      lineEffect_of_plainBypass hplain hp.2
  constructor
  · rintro ⟨hreturn, hmasquerade⟩
    obtain ⟨hreach, hfirst⟩ := hprivate.1 hreturn
    obtain ⟨hreach', hfirst'⟩ := hpublic.1 hmasquerade
    exact ⟨hreach, hfirst, hreach', hfirst'⟩
  · intro h
    exact ⟨hprivate.2 ⟨h.bypasses_reach, h.bypasses_first⟩,
      hpublic.2 ⟨h.masquerades_reach, h.masquerades_first⟩⟩

/-- What the report says holds of every packet of the pool. -/
def Trusted (k : Kernel X) (o : Outputs) (pool : Text) : Prop :=
  ReportsEgress (.ok o) pool → EgressHolds k o pool

/-- A worker whose bypass rules leave out most of each private block. -/
def narrowBypass : Outputs where
  alternatives := "/usr/sbin/xtables-nft-multi".toList
  ipForward := "1".toList
  defaultRoute := "eth0".toList
  nftRules := unlines [
    "-P POSTROUTING ACCEPT".toList,
    "-A POSTROUTING -s 10.207.0.0/24 -d 10.0.0.0/24 -j RETURN".toList,
    "-A POSTROUTING -s 10.207.0.0/24 -d 172.16.0.0/24 -j RETURN".toList,
    "-A POSTROUTING -s 10.207.0.0/24 -d 192.168.0.0/24 -j RETURN".toList,
    "-A POSTROUTING -s 10.207.0.0/24 -o eth0 -j MASQUERADE".toList]
  legacyRules := []

def plainKernel : Kernel Unit where
  holds := fun _ _ => true
  jump := fun _ _ => none

/-- From 10.207.0.5 to 10.1.0.1. -/
def packetToPrivate : Packet Unit :=
  ⟨0x0acf0005#32, 0x0a010001#32, "eth0".toList, ()⟩

end Egress

end NetHealth
end Kelt
