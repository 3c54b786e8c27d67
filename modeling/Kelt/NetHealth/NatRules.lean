import Mathlib.Data.Finset.Insert
import Kelt.Lib.IpAddress
import Kelt.Lib.Scan

/-!
# The N6 NAT diagnostics of the dashboard

`get_n6_nat_diagnostics` reads the POSTROUTING rules of the worker as the lines
of `iptables -S`, keeps the lines of the active backend that name the N6
subnet, and takes each of them apart word by word. The report says whether the
private destinations bypass the masquerade and whether there is one.

Two networks of different IP versions cannot be compared. The `TypeError` is
not handled, so there is no report (`none`) when a destination is IPv6.
-/

namespace Kelt
namespace NetHealth

open Ip

section NatRules

/-- `_RFC1918` -/
def rfc1918 : List IpNetwork :=
  [.v4 0x0a000000#32 8, .v4 0xac100000#32 12, .v4 0xc0a80000#32 16]

/-- `ipaddress.ip_network(text, strict=False)` -/
def networkOf (text : Text) : Option IpNetwork :=
  ipNetwork (String.ofList text)

/-- `_is_private` -/
def isPrivate (dst : Text) : Option Bool :=
  match networkOf dst with
  | none => some false
  | some net => rfc1918.anyM (fun r => subnetOf net r)

inductive Backend where
  | nft
  | legacy
  | unknown
deriving DecidableEq

inductive RuleType where
  | other
  | privateBypass
  | publicMasquerade
deriving DecidableEq

/-- What the loop over the words has found so far. -/
structure Fields where
  outIf : Text := []
  dst : Text := []
  action : Text := []
deriving DecidableEq

/-- One word and the word after it. -/
def Fields.note (f : Fields) (tok next : Text) : Fields :=
  if tok = "-o".toList then { f with outIf := next }
  else if tok = "-d".toList then { f with dst := next }
  else if tok = "-j".toList then { f with action := next }
  else f

/-- The loop over the words; the last one has no word after it. -/
def Fields.scan (f : Fields) : List Text → Fields
  | tok :: next :: rest => (f.note tok next).scan (next :: rest)
  | _ => f

structure NatRule where
  raw : Text
  source : Backend
  dest : Text
  outIf : Text
  action : Text
  type : RuleType
deriving DecidableEq

/-- `action == "RETURN" and _is_private(dst)` -/
def isBypass (action dst : Text) : Option Bool :=
  if action = "RETURN".toList then isPrivate dst else some false

def ruleType (action dst : Text) : Option RuleType :=
  (isBypass action dst).map fun bypass =>
    if bypass then .privateBypass
    else if action = "MASQUERADE".toList then .publicMasquerade
    else .other

/-- `_parse_nat_rule` -/
def parseNatRule (raw : Text) (source : Backend) : Option NatRule := do
  let f := Fields.scan {} (words raw)
  let type ← ruleType f.action f.dst
  return {
    raw := raw
    source := source
    dest := f.dst
    outIf := f.outIf
    action := f.action
    type := type }

/-- What the commands on the worker print. -/
structure Outputs where
  alternatives : Text
  ipForward : Text
  defaultRoute : Text
  nftRules : Text
  legacyRules : Text

def Outputs.backend (o : Outputs) : Backend :=
  let alternative := strip o.alternatives
  if "nft".toList <:+: alternative then .nft
  else if "legacy".toList <:+: alternative then .legacy
  else .unknown

/-- The lines of a listing that add a rule and name the subnet. -/
def n6Lines (listing n6Subnet : Text) : List Text :=
  ((splitlines listing).filter fun line =>
    decide (n6Subnet <:+: line) && "-A ".toList.isPrefixOf (strip line)).map
      strip

/-- `active_source`: nft when the backend is not known. -/
def Outputs.activeSource (o : Outputs) : Backend :=
  match o.backend with
  | .legacy => .legacy
  | _ => .nft

def Outputs.activeRules (o : Outputs) : Text :=
  match o.activeSource with
  | .legacy => o.legacyRules
  | _ => o.nftRules

/-- One block against one destination. -/
def coverBlock (net : IpNetwork) (covered : Finset Nat)
    (block : IpNetwork × Nat) : Option (Finset Nat) := do
  if ← subnetOf net block.1 then return insert block.2 covered
  return covered

/-- The indices of the blocks that some bypass rule is taken to cover. -/
def covered (rules : List NatRule) : Option (Finset Nat) :=
  rules.foldlM (fun covered r =>
    if r.type = .privateBypass then
      match networkOf r.dest with
      | none => some covered
      | some net => rfc1918.zipIdx.foldlM (coverBlock net) covered
    else some covered) ∅

structure Checks where
  ipForwardEnabled : Bool
  privateBypassComplete : Bool
  masqueradePresent : Bool
  duplicatesPresent : Bool
  legacyLeftoversPresent : Bool
deriving DecidableEq

inductive Status where
  | ok
  | warn
  | error
deriving DecidableEq

/-- The answer; an error carries no checks and no subnet. -/
structure Report where
  status : Status
  backend : Backend
  ipForwardEnabled : Bool
  outboundInterface : Text
  n6Subnet : Option Text
  rules : List (NatRule × Bool)
  legacyRules : List Text
  checks : Option Checks
  warnings : List Text

/-- The warnings of a report, in the order of the source. -/
def warnings (outIf : Text) (c : Checks) : List Text :=
  (if c.ipForwardEnabled then []
    else ["IP forwarding is disabled on worker (net.ipv4.ip_forward != 1).".toList])
  ++ (if outIf = [] then ["Default outbound interface is missing.".toList]
    else [])
  ++ (if c.privateBypassComplete then []
    else ["One or more private-network bypass RETURN rules are missing.".toList])
  ++ (if c.masqueradePresent then []
    else ["MASQUERADE catch-all rule is missing for N6 egress.".toList])
  ++ (if c.duplicatesPresent then
      ["Duplicate N6 NAT rules detected in active backend.".toList]
    else [])
  ++ (if c.legacyLeftoversPresent then
      ["Legacy backend still contains N6 rules; backend state is mixed.".toList]
    else [])

/-- The lines the report is made from, and the flags it draws from them. -/
def natReport (o : Outputs) (n6Subnet : Text) : Option Report := do
  let legacyN6 := n6Lines o.legacyRules n6Subnet
  let activeRaw := n6Lines o.activeRules n6Subnet
  let rules ← activeRaw.mapM (fun r => parseNatRule r o.activeSource)
  let duplicate := fun raw : Text => decide (1 < activeRaw.count raw)
  let blocks ← covered rules
  let outIf := strip o.defaultRoute
  let checks : Checks :=
    { ipForwardEnabled := strip o.ipForward = ['1']
      privateBypassComplete := blocks = {0, 1, 2}
      masqueradePresent :=
        rules.any (fun r => r.action = "MASQUERADE".toList)
      duplicatesPresent := activeRaw.any duplicate
      legacyLeftoversPresent :=
        o.activeSource = .nft && decide (0 < legacyN6.length) }
  return {
    status := if warnings outIf checks = [] then .ok else .warn
    backend := o.backend
    ipForwardEnabled := checks.ipForwardEnabled
    outboundInterface := outIf
    n6Subnet := some n6Subnet
    rules := rules.map (fun r => (r, duplicate r.raw))
    legacyRules := legacyN6
    checks := some checks
    warnings := warnings outIf checks }

/-- `get_n6_nat_diagnostics`: a command that fails makes the report an error. -/
def getN6NatDiagnostics (collected : Except Text Outputs) (n6Subnet : Text) :
    Option Report :=
  match collected with
  | .error exc =>
      some
        { status := .error, backend := .unknown, ipForwardEnabled := false
          outboundInterface := [], n6Subnet := none, rules := []
          legacyRules := [], checks := none, warnings := [exc] }
  | .ok o => natReport o n6Subnet

end NatRules

end NetHealth
end Kelt
