import Kelt.Lib.Dict
import Kelt.Lib.IpAddress

/-!
# The NetworkPolicy evaluator

The functions of `dashboard/backend/app/services/netpol_eval.py`, under the
source's names: a flow between two endpoints is decided on the policies alone,
without sending it. Selection and matching are nested early returns over
policies, rules, peers and ports, first for egress and then for ingress; the
ingress step is not reached when egress already blocks the flow.

A policy is an object of the Kubernetes API as the client serialises it: a
field is absent or has a value. The API accepts a CIDR, and the callers give an
address, only in a form that `ipaddress` reads; both texts carry that fact.
-/

namespace Kelt
namespace NetPol

open Ip

section Evaluator

/-- Labels of a pod or of a namespace. -/
abbrev Labels := Dict String String

/-- A CIDR text of an `ipBlock`, as the API admits it. -/
structure Cidr where
  text : String
  parses : (ipNetwork text).isSome
deriving DecidableEq

/-- The text of an external address. -/
structure AddressText where
  text : String
  parses : (ipAddress text).isSome
deriving DecidableEq

structure LabelExpression where
  key : String
  operator : String
  values : Option (List String)
deriving DecidableEq

structure Selector where
  matchLabels : Option Labels
  matchExpressions : Option (List LabelExpression)
deriving DecidableEq

structure IpBlock where
  cidr : Cidr
  except : Option (List Cidr)
deriving DecidableEq

structure Peer where
  ipBlock : Option IpBlock
  namespaceSelector : Option Selector
  podSelector : Option Selector
deriving DecidableEq

/-- The `port` of a rule: a number, or the name of a container port. -/
inductive PortRef where
  | number (n : Int)
  | name (text : String)
deriving DecidableEq

structure PolicyPort where
  protocol : Option String
  port : Option PortRef
  endPort : Option Int
deriving DecidableEq

/-- A rule; `peers` is the `to` of an egress rule, the `from` of an ingress one. -/
structure Rule where
  peers : Option (List Peer)
  ports : Option (List PolicyPort)
deriving DecidableEq

structure PolicySpec where
  podSelector : Option Selector
  policyTypes : Option (List String)
  ingress : Option (List Rule)
  egress : Option (List Rule)
deriving DecidableEq

structure Policy where
  ns : String
  name : String
  spec : PolicySpec
deriving DecidableEq

/-- A pod (`ns` given) or an external address (`ns` absent). -/
structure Endpoint where
  ns : Option String
  labels : Option Labels
  ip : Option AddressText
  port : Option Int
  protocol : Option String
deriving DecidableEq

/-- The two directions a policy can restrict. -/
inductive Kind where
  | ingress
  | egress
deriving DecidableEq

/-- The name of a direction in `policyTypes`. -/
def Kind.text : Kind → String
  | .ingress => "Ingress"
  | .egress => "Egress"

/-- `kind.lower()`, also the `side` of a step. -/
def Kind.lower : Kind → String
  | .ingress => "ingress"
  | .egress => "egress"

inductive StepResult where
  | ok
  | no
  | na
deriving DecidableEq

structure Step where
  side : Kind
  result : StepResult
  text : String
  policy : Option String
deriving DecidableEq

inductive Verdict where
  | passes
  | blocked
deriving DecidableEq

structure Evaluation where
  verdict : Verdict
  steps : List Step
deriving DecidableEq

/-- `value or "TCP"`: an absent or empty protocol is TCP. -/
def orTcp (protocol : Option String) : String :=
  match protocol with
  | some text => if text = "" then "TCP" else text
  | none => "TCP"

def expression (expr : LabelExpression) (labels : Labels) : Bool :=
  let values := expr.values.getD []
  if expr.operator = "In" then
    (labels.get? expr.key).any (fun v => values.contains v)
  else if expr.operator = "NotIn" then
    (labels.get? expr.key).all (fun v => !values.contains v)
  else if expr.operator = "Exists" then (labels.get? expr.key).isSome
  else if expr.operator = "DoesNotExist" then (labels.get? expr.key).isNone
  else false -- unknown operator: select nothing rather than everything

def selects (selector : Option Selector) (labels : Labels) : Bool :=
  let selector := selector.getD ⟨none, none⟩
  let wanted := selector.matchLabels.getD Dict.empty
  wanted.items.all (fun kv => labels.get? kv.1 == some kv.2) &&
    (selector.matchExpressions.getD []).all (fun e => expression e labels)

/-- `addr in ipaddress.ip_network(cidr, strict=False)`. -/
def inCidr (addr : IpAddress) (cidr : Cidr) : Bool :=
  (ipNetwork cidr.text).any (fun network => mem addr network)

def inBlock (ip : Option AddressText) (block : IpBlock) : Bool :=
  match ip with
  | none => false
  | some ip =>
      (ipAddress ip.text).any fun addr =>
        if !inCidr addr block.cidr then false
        else !(block.except.getD []).any (fun e => inCidr addr e)

def peerMatches (peer : Peer) (other : Endpoint) (ownNs : String)
    (namespaces : Dict String Labels) : Bool :=
  match peer.ipBlock with
  | some block => other.ns.isNone && inBlock other.ip block
  | none =>
      match other.ns with
      | none => false
      | some ns =>
          let labels := other.labels.getD Dict.empty
          match peer.namespaceSelector, peer.podSelector with
          | some selector, podSelector =>
              let nsLabels := (namespaces.get? ns).getD
                (Dict.single "kubernetes.io/metadata.name" ns)
              if !selects (some selector) nsLabels then false
              else selects podSelector labels
          | none, some selector =>
              decide (ns = ownNs) && selects (some selector) labels
          | none, none => false

/-- The loop of `_port_matches` over a non-empty port list. -/
def portLoop (port : Option Int) (protocol : String) :
    List PolicyPort → Bool
  | [] => false
  | p :: rest =>
      if orTcp p.protocol ≠ protocol then portLoop port protocol rest
      else
        match p.port, port with
        -- a named port cannot be resolved here: treated as a match
        | none, _ => true
        | some (.name _), _ => true
        | some (.number _), none => true
        | some (.number wanted), some port' =>
            if wanted = port' ∨
                p.endPort.any (fun last => wanted ≤ port' ∧ port' ≤ last) then
              true
            else portLoop port protocol rest

def portMatches (ports : Option (List PolicyPort)) (port : Option Int)
    (protocol : String) : Bool :=
  match ports.getD [] with
  | [] => true
  | p :: rest => portLoop port protocol (p :: rest)

/-- `_name`: the policy's `namespace/name`. -/
def policyName (p : Policy) : String :=
  p.ns ++ "/" ++ p.name

/-- Unset `policyTypes`: Ingress always, Egress when there are egress rules. -/
def policyTypes (spec : PolicySpec) : List String :=
  match spec.policyTypes.getD [] with
  | [] =>
      ["Ingress"] ++
        (if (spec.egress.getD []).isEmpty then [] else ["Egress"])
  | t :: types => t :: types

def selecting (policies : List Policy) (ns : String) (labels : Labels)
    (kind : Kind) : List Policy :=
  policies.filter fun p =>
    decide (p.ns = ns) && (policyTypes p.spec).contains kind.text &&
      selects p.spec.podSelector labels

def denyName (selecting : List Policy) (ns : String) (kind : Kind) :
    Option String :=
  let default := "default-deny-" ++ kind.lower
  if (selecting.map Policy.name).contains default then
    some (ns ++ "/" ++ default)
  else selecting.head?.map policyName

def describe (e : Endpoint) : String :=
  match e.ns with
  | none => (e.ip.map AddressText.text).getD "an outside address"
  | some ns =>
      match (e.labels.getD Dict.empty).get? "app" with
      | some app => if app = "" then ns else ns ++ "/" ++ app
      | none => ns

/-- The rules of one direction. -/
def PolicySpec.rules (spec : PolicySpec) : Kind → Option (List Rule)
  | .ingress => spec.ingress
  | .egress => spec.egress

/-- The test inside both rule loops: some peer matches, and some port. -/
def ruleMatches (rule : Rule) (peer : Endpoint) (dst : Endpoint)
    (ownNs : String) (namespaces : Dict String Labels) : Bool :=
  ((rule.peers.getD []).isEmpty ||
    (rule.peers.getD []).any
      (fun p => peerMatches p peer ownNs namespaces)) &&
  portMatches rule.ports dst.port (orTcp dst.protocol)

/-- First selecting policy with a matching rule: the two nested loops. -/
def firstAllowing (selecting : List Policy) (kind : Kind)
    (peer dst : Endpoint) (ownNs : String)
    (namespaces : Dict String Labels) : Option Policy :=
  selecting.find? fun p =>
    ((p.spec.rules kind).getD []).any
      (fun rule => ruleMatches rule peer dst ownNs namespaces)

def egress (policies : List Policy) (namespaces : Dict String Labels)
    (src dst : Endpoint) : Step :=
  match src.ns with
  | none =>
      { side := .egress, result := .na, policy := none,
        text := "An address outside the pod network has no egress policy." }
  | some ns =>
      let chosen :=
        selecting policies ns (src.labels.getD Dict.empty) .egress
      if chosen.isEmpty then
        { side := .egress, result := .na, policy := none,
          text := "Leaving " ++ ns ++ ": no egress limit." }
      else
        match firstAllowing chosen .egress dst dst ns namespaces with
        | some p =>
            { side := .egress, result := .ok, policy := some (policyName p),
              text := "Leaving " ++ ns ++ ": " ++ describe dst ++
                " is an allowed destination." }
        | none =>
            { side := .egress, result := .no,
              policy := denyName chosen ns .egress,
              text := "Leaving " ++ ns ++ ": no policy lets it reach " ++
                describe dst ++ "." }

def ingress (policies : List Policy) (namespaces : Dict String Labels)
    (src dst : Endpoint) : Step :=
  match dst.ns with
  | none =>
      { side := .ingress, result := .na, policy := none,
        text := "An address outside the cluster: no ingress policy to check." }
  | some ns =>
      let chosen :=
        selecting policies ns (dst.labels.getD Dict.empty) .ingress
      if chosen.isEmpty then
        { side := .ingress, result := .ok, policy := none,
          text := "Entering " ++ ns ++
            ": no policy selects it, so it accepts everything." }
      else
        match firstAllowing chosen .ingress src dst ns namespaces with
        | some p =>
            { side := .ingress, result := .ok, policy := some (policyName p),
              text := "Entering " ++ ns ++ ": " ++ describe src ++
                " may reach " ++ describe dst ++ "." }
        | none =>
            { side := .ingress, result := .no,
              policy := denyName chosen ns .ingress,
              text := "Entering " ++ ns ++ ": no policy lets " ++
                describe src ++ " reach " ++ describe dst ++ "." }

/-- Verdict, and the egress and ingress steps behind it. -/
def evaluate (policies : List Policy) (namespaces : Dict String Labels)
    (src dst : Endpoint) : Evaluation :=
  let egressStep := egress policies namespaces src dst
  let ingressStep :=
    if egressStep.result = .no then
      { side := .ingress, result := .na, text := "Not reached.",
        policy := none }
    else ingress policies namespaces src dst
  let blocked := egressStep.result = .no ∨ ingressStep.result = .no
  { verdict := if blocked then .blocked else .passes,
    steps := [egressStep, ingressStep] }

end Evaluator

end NetPol
end Kelt
