import Kelt.Lib.NearestRank
import Kelt.NetPol.Evaluator
import Mathlib.Data.String.Basic
import Mathlib.Data.List.Dedup

/-!
# The flow check

`targets` (`isolation_service.py`) lists each port of a Service with its
protocol. `check` reads the Service again and takes the first port of that
number, whatever its protocol: a listed destination is judged as itself if and
only if the first port of its number has the same protocol and the same target
(`judged_iff`).
-/

namespace Kelt
namespace NetPol
namespace FlowCheck

section Cluster

structure ServicePort where
  port : Int
  protocol : Option String
  targetPort : Option PortRef
  deriving DecidableEq

structure Service where
  selector : Option Labels
  ports : Option (List ServicePort)
  deriving DecidableEq

/-- `cidr.split("/")[0]` -/
def hostPart (cidr : String) : String :=
  String.ofList (cidr.toList.takeWhile fun ch => ch ≠ '/')

/-- The pod range of a node. -/
structure PodCidr where
  text : String
  parses : (Ip.ipAddress (hostPart text)).isSome

/-- What the two calls read: the policies, the namespaces with their labels, the
Services of a namespace by name, the pod ranges of the nodes, and the address of
the management VM in the network plan. -/
structure Cluster where
  policies : List Policy
  namespaces : Dict String (Option Labels)
  services : String → Dict String Service
  podCidrs : List (Option PodCidr)
  ansible : AddressText

end Cluster

section Targets

/-- A destination of the check. -/
structure Destination where
  internet : Bool
  ns : String
  service : String
  port : Int
  protocol : Option String
  deriving DecidableEq

structure Targets where
  sources : List (String × String)
  destinations : List Destination
  deriving DecidableEq

/-- What is listed for a port. -/
def listing (ns name : String) (p : ServicePort) : Destination :=
  ⟨false, ns, name, p.port, some (orTcp p.protocol)⟩

def destinationsOf (ns name : String) (svc : Service) : List Destination :=
  if (svc.selector.getD .empty).items = [] then []
  else (svc.ports.getD []).map (listing ns name)

/-- `targets` -/
def targets (c : Cluster) : Targets where
  sources :=
    (ascending c.namespaces.keys).map (fun ns => (ns, ns)) ++
      [("mgmt", "Management network (VMs, LAN)"), ("node", "Another node")]
  destinations := (ascending (c.policies.map Policy.ns).dedup).flatMap fun ns =>
    (c.services ns).items.flatMap fun x => destinationsOf ns x.1 x.2

end Targets

section Check

inductive CheckError where
  | unknownSource (source : String)
  | notFound
  deriving DecidableEq

/-- `{n.metadata.name: (n.metadata.labels or {})}` -/
def namespaceLabels (c : Cluster) : Dict String Labels :=
  c.namespaces.mapVals fun _ labels => labels.getD .empty

/-- The pod range of the first node that has one. -/
def firstCidr (c : Cluster) : PodCidr :=
  (c.podCidrs.findSome? id).getD ⟨"10.42.0.0/24", by decide +kernel⟩

def sourceEndpoint (c : Cluster) (source : String) :
    Except CheckError Endpoint :=
  if source = "mgmt" then
    .ok ⟨none, some .empty, some c.ansible, none, none⟩
  else if source = "node" then
    .ok ⟨none, some .empty,
      some ⟨hostPart (firstCidr c).text, (firstCidr c).parses⟩, none, none⟩
  else if c.namespaces.get? source ≠ none then
    .ok ⟨some source, some .empty, none, none, none⟩
  else .error (.unknownSource source)

/-- `target if isinstance(target, int) else None` -/
def PortRef.number? : PortRef → Option Int
  | .number n => some n
  | .name _ => none

/-- A text that is there and not empty. -/
def given (text : Option String) : Option String :=
  text.filter fun t => t ≠ ""

/-- The Service port that is looked up: the first of that number. -/
def lookUp (svc : Service) (port : Int) : Option ServicePort :=
  (svc.ports.getD []).find? fun x => decide (x.port = port)

def destinationEndpoint (c : Cluster) (d : Destination) :
    Except CheckError Endpoint :=
  if d.internet then
    .ok ⟨none, some .empty, some ⟨"1.1.1.1", by decide +kernel⟩, some 443,
      some "TCP"⟩
  else
    match (c.services d.ns).get? d.service with
    | none => .error .notFound
    | some svc =>
        let sp := lookUp svc d.port
        let target := (sp.bind ServicePort.targetPort).getD (.number d.port)
        .ok
          { ns := some d.ns
            labels := some (svc.selector.getD .empty)
            port := PortRef.number? target
            protocol := some (orTcp
              ((given (sp.bind ServicePort.protocol)).or d.protocol))
            ip := none }

/-- What is given to `evaluate`. -/
structure Flow where
  policies : List Policy
  namespaces : Dict String Labels
  src : Endpoint
  dst : Endpoint
  deriving DecidableEq

def flow (c : Cluster) (source : String) (d : Destination) :
    Except CheckError Flow :=
  match sourceEndpoint c source with
  | .error e => .error e
  | .ok src =>
      match destinationEndpoint c d with
      | .error e => .error e
      | .ok dst => .ok ⟨c.policies, namespaceLabels c, src, dst⟩

/-- `check` -/
def check (c : Cluster) (source : String) (d : Destination) :
    Except CheckError Evaluation :=
  (flow c source d).map fun f => evaluate f.policies f.namespaces f.src f.dst

end Check

section Judged

/-- The port behind a Service port; unknown where it is named. -/
def ServicePort.target (p : ServicePort) : Option Int :=
  PortRef.number? (p.targetPort.getD (.number p.port))

/-- A port that is listed. -/
structure Listed (c : Cluster) (ns name : String) (svc : Service)
    (p : ServicePort) : Prop where
  listed : ns ∈ c.policies.map Policy.ns
  service : (c.services ns).get? name = some svc
  selects : (svc.selector.getD .empty).items ≠ []
  port : p ∈ svc.ports.getD []

/-- Every destination of the list is judged as itself, from every source. -/
def Judged (c : Cluster) : Prop :=
  ∀ d ∈ (targets c).destinations, ∀ ns name svc p, Listed c ns name svc p →
    d = listing ns name p → ∀ source src, sourceEndpoint c source = .ok src →
      flow c source d = .ok
        { policies := c.policies
          namespaces := namespaceLabels c
          src := src
          dst :=
            { ns := some ns
              labels := svc.selector
              port := p.target
              protocol := some (orTcp p.protocol)
              ip := none } }

/-- The port `q` gives the answer for `p`. -/
def SameFlow (q p : ServicePort) : Prop :=
  (given q.protocol = none ∨ given q.protocol = some (orTcp p.protocol)) ∧
    q.target = p.target

/-- The ports in another order. -/
def reorder (r : String → String → List ServicePort → List ServicePort)
    (c : Cluster) : Cluster :=
  { c with
    services := fun ns => (c.services ns).mapVals fun name svc =>
      { svc with ports := svc.ports.map (r ns name) } }

end Judged

section Lists

variable {c : Cluster} {ns name : String} {svc : Service} {p : ServicePort}

theorem mem_destinations {d : Destination} :
    d ∈ (targets c).destinations ↔
      ∃ ns name svc p, Listed c ns name svc p ∧ d = listing ns name p := by
  unfold targets
  dsimp only
  rw [List.mem_flatMap]
  constructor
  · rintro ⟨ns, hns, hd⟩
    obtain ⟨⟨name, svc⟩, hsvc, hd⟩ := List.mem_flatMap.1 hd
    unfold destinationsOf at hd
    split at hd
    · cases hd
    · rename_i hselects
      obtain ⟨p, hp, rfl⟩ := List.mem_map.1 hd
      refine ⟨ns, name, svc, p, ⟨?_, ?_, hselects, hp⟩, rfl⟩
      · exact List.mem_dedup.1 ((ascending_perm _).mem_iff.1 hns)
      · exact ((c.services ns).get?_eq_some_iff name svc).2 hsvc
  · rintro ⟨ns, name, svc, p, h, rfl⟩
    refine ⟨ns, (ascending_perm _).mem_iff.2 (List.mem_dedup.2 h.listed), ?_⟩
    refine List.mem_flatMap.2 ⟨(name, svc),
      ((c.services ns).get?_eq_some_iff name svc).1 h.service, ?_⟩
    unfold destinationsOf
    rw [if_neg h.selects]
    exact List.mem_map_of_mem h.port

/-- A Service has a first port of the number of each of its ports. -/
theorem exists_lookUp (hp : p ∈ svc.ports.getD []) :
    ∃ q, lookUp svc p.port = some q := by
  cases hq : lookUp svc p.port with
  | none => exact absurd (decide_eq_true rfl) (List.find?_eq_none.1 hq p hp)
  | some q => exact ⟨q, rfl⟩

theorem mem_of_lookUp {port : Int} {q : ServicePort}
    (h : lookUp svc port = some q) : q ∈ svc.ports.getD [] ∧ q.port = port := by
  unfold lookUp at h
  have hnum := List.find?_some h
  exact ⟨List.mem_of_find?_eq_some h, of_decide_eq_true hnum⟩

theorem orTcp_ne_empty (protocol : Option String) : orTcp protocol ≠ "" := by
  unfold orTcp
  split
  · split
    · decide
    · assumption
  · decide

theorem orTcp_given (protocol : Option String) {t : String} (ht : t ≠ "") :
    orTcp ((given protocol).or (some t)) = (given protocol).getD t := by
  cases hgiven : given protocol with
  | none => simp [orTcp, ht]
  | some u =>
      have hu := (Option.filter_eq_some_iff.1 hgiven).2
      simp only [decide_eq_true_eq] at hu
      simp [orTcp, hu]

/-- The selector of a listed Service is there. -/
theorem selector_eq (h : Listed c ns name svc p) :
    some (svc.selector.getD .empty) = svc.selector := by
  cases hsel : svc.selector with
  | none => exact absurd (by rw [hsel]; rfl) h.selects
  | some labels => rfl

/-- A listed port gets the answer of the first port of its number. -/
theorem destinationEndpoint_listing (h : Listed c ns name svc p)
    {q : ServicePort} (hq : lookUp svc p.port = some q) :
    destinationEndpoint c (listing ns name p) = .ok
      { ns := some ns
        labels := svc.selector
        port := q.target
        protocol := some ((given q.protocol).getD (orTcp p.protocol))
        ip := none } := by
  have hnum := (mem_of_lookUp hq).2
  unfold destinationEndpoint listing
  dsimp only
  rw [if_neg Bool.false_ne_true, h.service]
  dsimp only
  rw [hq, selector_eq h, Option.bind_some, Option.bind_some,
    orTcp_given _ (orTcp_ne_empty _), ← hnum]
  rfl

end Lists

section Result

variable {c : Cluster}

theorem judged_one_iff {ns name : String} {svc : Service} {p q : ServicePort}
    (h : Listed c ns name svc p) (hq : lookUp svc p.port = some q) :
    (∀ source src, sourceEndpoint c source = .ok src →
      flow c source (listing ns name p) = .ok
        { policies := c.policies
          namespaces := namespaceLabels c
          src := src
          dst :=
            { ns := some ns
              labels := svc.selector
              port := p.target
              protocol := some (orTcp p.protocol)
              ip := none } }) ↔ SameFlow q p := by
  have hdst := destinationEndpoint_listing h hq
  have hprotocol : (given q.protocol).getD (orTcp p.protocol) =
      orTcp p.protocol ↔
      given q.protocol = none ∨ given q.protocol = some (orTcp p.protocol) := by
    cases given q.protocol <;> simp
  unfold SameFlow
  rw [← hprotocol]
  constructor
  · intro hall
    have hmgmt := hall "mgmt" _ (if_pos rfl)
    unfold flow at hmgmt
    rw [show sourceEndpoint c "mgmt" = _ from if_pos rfl, hdst] at hmgmt
    simp only [Except.ok.injEq, Flow.mk.injEq, Endpoint.mk.injEq,
      Option.some.injEq, true_and] at hmgmt
    exact ⟨hmgmt.2, hmgmt.1⟩
  · rintro ⟨hprotocol, htarget⟩ source src hsrc
    unfold flow
    rw [hsrc, hdst, hprotocol, htarget]

theorem judged_iff_first (c : Cluster) :
    Judged c ↔ ∀ ns name svc p, Listed c ns name svc p →
      ∀ q, lookUp svc p.port = some q → SameFlow q p := by
  constructor
  · intro h ns name svc p hlisted q hq
    exact (judged_one_iff hlisted hq).1
      (h _ (mem_destinations.2 ⟨ns, name, svc, p, hlisted, rfl⟩) ns name svc p
        hlisted rfl)
  · rintro h d - ns name svc p hlisted rfl
    obtain ⟨q, hq⟩ := exists_lookUp hlisted.port
    exact (judged_one_iff hlisted hq).2 (h ns name svc p hlisted q hq)

/-- A listed port of the reordered cluster is one of the cluster. -/
theorem listed_reorder_iff
    {r : String → String → List ServicePort → List ServicePort}
    (hr : ∀ ns name l, (r ns name l).Perm l) {ns name : String}
    {svc : Service} {p : ServicePort} :
    Listed (reorder r c) ns name svc p ↔ ∃ svc₀, Listed c ns name svc₀ p ∧
      svc = { svc₀ with ports := svc₀.ports.map (r ns name) } := by
  have hports : ∀ svc₀ : Service,
      p ∈ (svc₀.ports.map (r ns name)).getD [] ↔ p ∈ svc₀.ports.getD [] := by
    intro svc₀
    cases svc₀.ports with
    | none => rfl
    | some l => exact (hr ns name l).mem_iff
  constructor
  · intro h
    have hservice := h.service
    unfold reorder at hservice
    dsimp only at hservice
    rw [Dict.get?_mapVals, Option.map_eq_some_iff] at hservice
    obtain ⟨svc₀, hget, rfl⟩ := hservice
    exact ⟨svc₀, ⟨h.listed, hget, h.selects, (hports svc₀).1 h.port⟩, rfl⟩
  · rintro ⟨svc₀, h, rfl⟩
    refine ⟨h.listed, ?_, h.selects, (hports svc₀).2 h.port⟩
    unfold reorder
    dsimp only
    rw [Dict.get?_mapVals, h.service]
    rfl

/-- The port `q` first. -/
def toFront (q : ServicePort) (l : List ServicePort) : List ServicePort :=
  if q ∈ l then q :: l.erase q else l

theorem toFront_perm (q : ServicePort) (l : List ServicePort) :
    (toFront q l).Perm l := by
  unfold toFront
  split
  · rename_i hq
    exact (List.perm_cons_erase hq).symm
  · exact List.Perm.refl l

theorem lookUp_toFront {svc : Service} {q : ServicePort}
    (hq : q ∈ svc.ports.getD []) :
    lookUp { svc with ports := svc.ports.map (toFront q) } q.port = some q := by
  cases hports : svc.ports with
  | none =>
      rw [hports] at hq
      cases hq
  | some l =>
      rw [hports, Option.getD_some] at hq
      unfold lookUp toFront
      rw [Option.map_some, Option.getD_some, if_pos hq]
      exact List.find?_cons_of_pos (decide_eq_true rfl)

/-- Every listed destination is judged as itself if and only if the first port
of its number gives the same flow; whatever the order of the ports, if and only
if all ports of one number do. -/
theorem judged_iff (c : Cluster) :
    (Judged c ↔ ∀ ns name svc p, Listed c ns name svc p →
      ∀ q, lookUp svc p.port = some q → SameFlow q p) ∧
    ((∀ r, (∀ ns name l, (r ns name l).Perm l) → Judged (reorder r c)) ↔
      ∀ ns name svc p, Listed c ns name svc p →
        ∀ q ∈ svc.ports.getD [], q.port = p.port → SameFlow q p) := by
  refine ⟨judged_iff_first c, ?_, ?_⟩
  · intro h ns name svc p hlisted q hq hnum
    have hperm : ∀ (_ _ : String) l, (toFront q l).Perm l :=
      fun _ _ l => toFront_perm q l
    have hjudged := h (fun _ _ => toFront q) hperm
    refine (judged_iff_first _).1 hjudged ns name _ p
      ((listed_reorder_iff hperm).2 ⟨svc, hlisted, rfl⟩) q ?_
    rw [← hnum]
    exact lookUp_toFront hq
  · intro h r hr
    rw [judged_iff_first]
    intro ns name svc p hlisted q hq
    obtain ⟨svc₀, hlisted₀, rfl⟩ := (listed_reorder_iff hr).1 hlisted
    obtain ⟨hmem, hnum⟩ := mem_of_lookUp hq
    refine h ns name svc₀ p hlisted₀ q ?_ hnum
    cases hports : svc₀.ports with
    | none =>
        rw [hports] at hmem
        exact hmem
    | some l =>
        rw [hports] at hmem
        exact (hr ns name l).mem_iff.1 hmem

end Result

section Dns

/-- A DNS Service: port 53 over UDP, then over TCP. -/
def dns : Cluster where
  policies := [⟨"mec", "default-deny-ingress", ⟨none, none, none, none⟩⟩]
  namespaces := .single "mec" none
  services := fun ns =>
    if ns = "mec" then
      .single "dns" ⟨some (.single "app" "dns"),
        some [⟨53, some "UDP", none⟩, ⟨53, some "TCP", some (.number 5353)⟩]⟩
    else .empty
  podCidrs := []
  ansible := ⟨"10.0.0.2", by decide +kernel⟩

/-- The port over TCP gets the answer for UDP. -/
theorem not_judged_dns : ¬ Judged dns := by
  rw [judged_iff_first]
  intro h
  have hlisted : Listed dns "mec" "dns" ⟨some (.single "app" "dns"),
      some [⟨53, some "UDP", none⟩, ⟨53, some "TCP", some (.number 5353)⟩]⟩
      ⟨53, some "TCP", some (.number 5353)⟩ :=
    ⟨by decide, by decide, by decide, by decide⟩
  have hsame := h _ _ _ _ hlisted ⟨53, some "UDP", none⟩ (by decide)
  revert hsame
  unfold SameFlow
  decide

end Dns

end FlowCheck
end NetPol
end Kelt
