import Kelt.Lib.AllowList
import Kelt.NetPol.Evaluator

/-!
# NetworkPolicy semantics and the evaluator

The reference semantics of NetworkPolicy, stated with sets and relations and
without any order of evaluation: a direction of a flow is open when no policy
of the namespace selects the endpoint for that direction, or when some rule of
some selecting policy matches (`DirectionAllowed`, an additive allow list).

Each function of the evaluator gets one equivalence with its relation. They
compose to `evaluate_passes_iff`: the evaluator lets a flow pass exactly when
the reference allows both directions.
-/

namespace Kelt
namespace NetPol

open Ip

section Semantics

/-- What an expression of a selector demands of a set of labels. -/
inductive ExpressionHolds (labels : Labels) : LabelExpression → Prop
  | isIn {e : LabelExpression} {v : String} :
      e.operator = "In" →
      labels.get? e.key = some v →
      v ∈ e.values.getD [] →
      ExpressionHolds labels e
  | notIn {e : LabelExpression} :
      e.operator = "NotIn" →
      (∀ v, labels.get? e.key = some v → v ∉ e.values.getD []) →
      ExpressionHolds labels e
  | present {e : LabelExpression} {v : String} :
      e.operator = "Exists" →
      labels.get? e.key = some v →
      ExpressionHolds labels e
  | absent {e : LabelExpression} :
      e.operator = "DoesNotExist" →
      labels.get? e.key = none →
      ExpressionHolds labels e

/-- The pairs a selector's `matchLabels` asks for. -/
def Selector.wanted (selector : Selector) : Set (String × String) :=
  {kv | ∃ labels, selector.matchLabels = some labels ∧
    labels.get? kv.1 = some kv.2}

/-- The conjunction of `matchLabels` and of all `matchExpressions`. -/
def SelectorHolds (selector : Selector) (labels : Labels) : Prop :=
  (∀ kv ∈ selector.wanted, labels.get? kv.1 = some kv.2) ∧
    ∀ e ∈ selector.matchExpressions.getD [], ExpressionHolds labels e

/-- An absent selector sets no condition. -/
def OptSelectorHolds (selector : Option Selector) (labels : Labels) : Prop :=
  ∀ s, selector = some s → SelectorHolds s labels

/-- The addresses a CIDR text denotes. -/
def Cidr.addresses (cidr : Cidr) : Set IpAddress :=
  {a | ∃ network, ipNetwork cidr.text = some network ∧
    a ∈ network.addresses}

/-- The addresses of a block: its CIDR without its exceptions. -/
def IpBlock.addresses (block : IpBlock) : Set IpAddress :=
  {a | a ∈ block.cidr.addresses ∧
    ∀ e ∈ block.except.getD [], a ∉ e.addresses}

/-- The labels of a pod; absent labels are none. -/
def Endpoint.podLabels (e : Endpoint) : Labels :=
  e.labels.getD Dict.empty

/-- The labels of a namespace; an unknown one carries only its name. -/
def namespaceLabels (namespaces : Dict String Labels) (ns : String) : Labels :=
  (namespaces.get? ns).getD (Dict.single "kubernetes.io/metadata.name" ns)

/-- A peer of a rule of a policy in `ownNs` matches an endpoint. -/
inductive PeerHolds (namespaces : Dict String Labels) (ownNs : String) :
    Peer → Endpoint → Prop
  | block {peer : Peer} {other : Endpoint} {block : IpBlock}
      {ip : AddressText} {addr : IpAddress} :
      peer.ipBlock = some block →
      other.ns = none →
      other.ip = some ip →
      ipAddress ip.text = some addr →
      addr ∈ block.addresses →
      PeerHolds namespaces ownNs peer other
  | inNamespace {peer : Peer} {other : Endpoint} {selector : Selector}
      {ns : String} :
      peer.ipBlock = none →
      peer.namespaceSelector = some selector →
      other.ns = some ns →
      SelectorHolds selector (namespaceLabels namespaces ns) →
      OptSelectorHolds peer.podSelector other.podLabels →
      PeerHolds namespaces ownNs peer other
  | inOwnNamespace {peer : Peer} {other : Endpoint} {selector : Selector} :
      peer.ipBlock = none →
      peer.namespaceSelector = none →
      peer.podSelector = some selector →
      other.ns = some ownNs →
      SelectorHolds selector other.podLabels →
      PeerHolds namespaces ownNs peer other

/--
The port of an entry admits the flow's port. A named port, and a flow whose
port is unknown, cannot be told apart from a match.
-/
inductive PortRefHolds (port : Option Int) : PolicyPort → Prop
  | anyPort {p : PolicyPort} :
      p.port = none → PortRefHolds port p
  | named {p : PolicyPort} {text : String} :
      p.port = some (.name text) → PortRefHolds port p
  | unknown {p : PolicyPort} :
      port = none → PortRefHolds port p
  | number {p : PolicyPort} {n : Int} :
      p.port = some (.number n) → port = some n → PortRefHolds port p
  | range {p : PolicyPort} {n last m : Int} :
      p.port = some (.number n) → p.endPort = some last → port = some m →
      n ≤ m → m ≤ last → PortRefHolds port p

/-- A port entry matches: same protocol, and the port is admitted. -/
def PortHolds (port : Option Int) (protocol : String) (p : PolicyPort) : Prop :=
  orTcp p.protocol = protocol ∧ PortRefHolds port p

/-- A list matches when it is absent or empty, or one of its entries does. -/
def AnyHolds {α : Type} (entries : Option (List α)) (holds : α → Prop) : Prop :=
  entries.getD [] = [] ∨ ∃ x ∈ entries.getD [], holds x

/-- A rule matches the other endpoint and the flow's port. -/
def RuleHolds (namespaces : Dict String Labels) (ownNs : String)
    (other dst : Endpoint) (rule : Rule) : Prop :=
  AnyHolds rule.peers (fun p => PeerHolds namespaces ownNs p other) ∧
    AnyHolds rule.ports (PortHolds dst.port (orTcp dst.protocol))

/-- The effective policy types: as listed, or by default. -/
def Affects (spec : PolicySpec) (kind : Kind) : Prop :=
  kind.text ∈ spec.policyTypes.getD [] ∨
    (spec.policyTypes.getD [] = [] ∧
      (kind = .ingress ∨ spec.egress.getD [] ≠ []))

/-- A policy restricts a pod of namespace `ns` in a direction. -/
def Restricts (kind : Kind) (ns : String) (labels : Labels)
    (p : Policy) : Prop :=
  p.ns = ns ∧ Affects p.spec kind ∧
    OptSelectorHolds p.spec.podSelector labels

/-- The endpoint whose policies decide a direction. -/
def Kind.own : Kind → Endpoint → Endpoint → Endpoint
  | .egress, src, _ => src
  | .ingress, _, dst => dst

/-- The endpoint the peers of a rule are matched against. -/
def Kind.other : Kind → Endpoint → Endpoint → Endpoint
  | .egress, _, dst => dst
  | .ingress, src, _ => src

/-- A policy restricts the endpoint that a direction of a flow belongs to. -/
def RestrictsFlow (kind : Kind) (src dst : Endpoint) (p : Policy) : Prop :=
  ∃ ns, (kind.own src dst).ns = some ns ∧
    Restricts kind ns (kind.own src dst).podLabels p

/-- Some rule of a policy lets a direction of a flow through. -/
def AllowsFlow (namespaces : Dict String Labels) (kind : Kind)
    (src dst : Endpoint) (p : Policy) : Prop :=
  ∃ rule ∈ (p.spec.rules kind).getD [],
    RuleHolds namespaces p.ns (kind.other src dst) dst rule

/-- The additive semantics of one direction. -/
def DirectionAllowed (policies : Set Policy)
    (namespaces : Dict String Labels) (kind : Kind)
    (src dst : Endpoint) : Prop :=
  Permits policies (RestrictsFlow kind src dst)
    (AllowsFlow namespaces kind src dst)

/-- The reference semantics of NetworkPolicy for a flow. -/
def Allowed (policies : Set Policy) (namespaces : Dict String Labels)
    (src dst : Endpoint) : Prop :=
  DirectionAllowed policies namespaces .egress src dst ∧
    DirectionAllowed policies namespaces .ingress src dst

theorem expression_iff (e : LabelExpression) (labels : Labels) :
    expression e labels = true ↔ ExpressionHolds labels e := by
  constructor
  · intro h
    unfold expression at h
    simp only at h
    split_ifs at h with hin hnot hex hdne
    · cases hv : labels.get? e.key with
      | none =>
          simp [hv] at h
      | some v =>
          exact .isIn hin hv (by simpa [hv] using h)
    · refine .notIn hnot ?_
      intro v hv
      simpa [hv] using h
    · obtain ⟨v, hv⟩ := Option.isSome_iff_exists.mp h
      exact .present hex hv
    · exact .absent hdne (Option.isNone_iff_eq_none.mp h)
  · intro h
    cases h with
    | isIn hop hv hmem =>
        simp [expression, hop, hv, hmem]
    | notIn hop hall =>
        cases hv : labels.get? e.key with
        | none =>
            simp [expression, hop, hv]
        | some v =>
            simp [expression, hop, hv, hall v hv]
    | present hop hv =>
        simp [expression, hop, hv]
    | absent hop hv =>
        simp [expression, hop, hv]

theorem wanted_all_iff (selector : Selector) (labels : Labels) :
    ((selector.matchLabels.getD Dict.empty).items.all
        (fun kv => labels.get? kv.1 == some kv.2)) = true ↔
      ∀ kv ∈ selector.wanted, labels.get? kv.1 = some kv.2 := by
  rw [List.all_eq_true]
  constructor
  · rintro h kv ⟨wanted, hwanted, hkv⟩
    have hmem : kv ∈ wanted.items :=
      (Dict.get?_eq_some_iff wanted kv.1 kv.2).1 hkv
    simpa using h kv (by simpa [hwanted] using hmem)
  · intro h kv hkv
    cases hwanted : selector.matchLabels with
    | none =>
        simp [hwanted, Dict.empty] at hkv
    | some wanted =>
        have hmem : kv ∈ wanted.items := by
          simpa [hwanted] using hkv
        have hget : wanted.get? kv.1 = some kv.2 :=
          (Dict.get?_eq_some_iff wanted kv.1 kv.2).2 hmem
        simpa using h kv ⟨wanted, hwanted, hget⟩

theorem selects_some_iff (selector : Selector) (labels : Labels) :
    selects (some selector) labels = true ↔
      SelectorHolds selector labels := by
  unfold selects SelectorHolds
  simp only [Option.getD_some, Bool.and_eq_true]
  rw [wanted_all_iff, List.all_eq_true]
  simp only [expression_iff]

theorem selects_iff (selector : Option Selector) (labels : Labels) :
    selects selector labels = true ↔
      OptSelectorHolds selector labels := by
  cases selector with
  | none =>
      simp [selects, OptSelectorHolds, Dict.empty]
  | some s =>
      rw [selects_some_iff]
      simp [OptSelectorHolds]

theorem inCidr_iff (addr : IpAddress) (cidr : Cidr) :
    inCidr addr cidr = true ↔ addr ∈ cidr.addresses := by
  unfold inCidr Cidr.addresses
  cases hnet : ipNetwork cidr.text with
  | none =>
      simp
  | some network =>
      simp [mem_network_iff]

theorem inBlock_iff (ip : Option AddressText) (block : IpBlock) :
    inBlock ip block = true ↔
      ∃ text addr, ip = some text ∧ ipAddress text.text = some addr ∧
        addr ∈ block.addresses := by
  cases ip with
  | none =>
      simp [inBlock]
  | some text =>
      cases haddr : ipAddress text.text with
      | none =>
          simp [inBlock, haddr]
      | some addr =>
          by_cases hin : inCidr addr block.cidr = true
          · simp [inBlock, haddr, hin, IpBlock.addresses, ← inCidr_iff]
          · have hmem : addr ∉ block.cidr.addresses := fun h =>
              hin ((inCidr_iff addr block.cidr).2 h)
            simp [inBlock, haddr, hin, IpBlock.addresses, hmem]

theorem peerMatches_iff (namespaces : Dict String Labels)
    (ownNs : String) (peer : Peer) (other : Endpoint) :
    peerMatches peer other ownNs namespaces = true ↔
      PeerHolds namespaces ownNs peer other := by
  constructor
  · intro h
    unfold peerMatches at h
    cases hblock : peer.ipBlock with
    | some block =>
        simp only [hblock, Bool.and_eq_true] at h
        obtain ⟨text, addr, hip, haddr, hmem⟩ :=
          (inBlock_iff other.ip block).1 h.2
        exact .block hblock (Option.isNone_iff_eq_none.1 h.1) hip haddr hmem
    | none =>
        cases hns : other.ns with
        | none =>
            simp [hblock, hns] at h
        | some ns =>
            simp only [hblock, hns] at h
            cases hnsSel : peer.namespaceSelector with
            | some selector =>
                simp only [hnsSel] at h
                split_ifs at h with hsel
                have hsel' :
                    selects (some selector)
                      (namespaceLabels namespaces ns) = true := by
                  simpa [namespaceLabels] using hsel
                exact .inNamespace hblock hnsSel hns
                  ((selects_some_iff _ _).1 hsel') ((selects_iff _ _).1 h)
            | none =>
                cases hpod : peer.podSelector with
                | none =>
                    simp [hnsSel, hpod] at h
                | some selector =>
                    simp only [hnsSel, hpod, Bool.and_eq_true,
                      decide_eq_true_eq] at h
                    exact .inOwnNamespace hblock hnsSel hpod
                      (by rw [hns, h.1]) ((selects_some_iff _ _).1 h.2)
  · intro h
    cases h with
    | block hblock hns hip haddr hmem =>
        have hin := (inBlock_iff other.ip _).2 ⟨_, _, hip, haddr, hmem⟩
        simp [peerMatches, hblock, hns, hin]
    | inNamespace hblock hnsSel hns hsel hpod =>
        have hsel' := (selects_some_iff _ _).2 hsel
        have hpod' := (selects_iff _ _).2 hpod
        unfold namespaceLabels at hsel'
        unfold Endpoint.podLabels at hpod'
        simp [peerMatches, hblock, hnsSel, hns, hsel', hpod']
    | inOwnNamespace hblock hnsSel hpod hns hsel =>
        have hsel' := (selects_some_iff _ _).2 hsel
        unfold Endpoint.podLabels at hsel'
        simp [peerMatches, hblock, hnsSel, hpod, hns, hsel']

/-- A numeric port of an entry against a known port of the flow. -/
theorem portRefHolds_number_iff
    {p : PolicyPort} {n m : Int}
    (hp : p.port = some (.number n)) :
    PortRefHolds (some m) p ↔
      n = m ∨ p.endPort.any
        (fun last => decide (n ≤ m ∧ m ≤ last)) = true := by
  constructor
  · intro h
    cases h with
    | anyPort h => simp [hp] at h
    | named h => simp [hp] at h
    | unknown h => simp at h
    | number h hm =>
        left
        simp only [hp, Option.some.injEq, PortRef.number.injEq] at h hm
        omega
    | range h hlast hm hle hle' =>
        right
        simp only [hp, Option.some.injEq, PortRef.number.injEq] at h hm
        subst h hm
        simp [hlast, hle, hle']
  · rintro (rfl | h)
    · exact .number hp rfl
    · cases hlast : p.endPort with
      | none =>
          simp [hlast] at h
      | some last =>
          simp only [hlast, Option.any_some, decide_eq_true_eq] at h
          exact .range hp hlast rfl h.1 h.2

/-- One entry of the port loop, with its early return. -/
theorem portLoop_cons_iff (port : Option Int) (protocol : String)
    (p : PolicyPort) (rest : List PolicyPort) :
    portLoop port protocol (p :: rest) = true ↔
      PortHolds port protocol p ∨ portLoop port protocol rest = true := by
  unfold PortHolds
  by_cases hproto : orTcp p.protocol = protocol
  · cases hp : p.port with
    | none =>
        have hholds : PortRefHolds port p := .anyPort hp
        simp [portLoop, hproto, hp, hholds]
    | some ref =>
        cases ref with
        | name text =>
            have hholds : PortRefHolds port p := .named hp
            simp [portLoop, hproto, hp, hholds]
        | number n =>
            cases port with
            | none =>
                have hholds : PortRefHolds none p := .unknown rfl
                simp [portLoop, hproto, hp, hholds]
            | some m =>
                rw [portRefHolds_number_iff hp]
                simp only [portLoop, hproto, hp, ne_eq, not_true,
                  if_false, true_and]
                split_ifs with hmatch
                · exact ⟨fun _ => Or.inl hmatch, fun _ => rfl⟩
                · exact ⟨Or.inr, fun h => h.resolve_left hmatch⟩
  · simp [portLoop, hproto]

theorem portLoop_iff (port : Option Int) (protocol : String)
    (ports : List PolicyPort) :
    portLoop port protocol ports = true ↔
      ∃ p ∈ ports, PortHolds port protocol p := by
  induction ports with
  | nil =>
      simp [portLoop]
  | cons p rest ih =>
      rw [portLoop_cons_iff, ih]
      simp

theorem portMatches_iff (ports : Option (List PolicyPort))
    (port : Option Int) (protocol : String) :
    portMatches ports port protocol = true ↔
      AnyHolds ports (PortHolds port protocol) := by
  unfold portMatches AnyHolds
  cases hports : ports.getD [] with
  | nil =>
      simp
  | cons p rest =>
      simp only [portLoop_iff]
      simp

theorem ruleMatches_iff (namespaces : Dict String Labels)
    (ownNs : String) (other dst : Endpoint) (rule : Rule) :
    ruleMatches rule other dst ownNs namespaces = true ↔
      RuleHolds namespaces ownNs other dst rule := by
  unfold ruleMatches RuleHolds
  rw [Bool.and_eq_true, portMatches_iff, Bool.or_eq_true,
    List.isEmpty_iff, List.any_eq_true]
  simp only [peerMatches_iff]
  rfl

theorem policyTypes_iff (spec : PolicySpec) (kind : Kind) :
    (policyTypes spec).contains kind.text = true ↔ Affects spec kind := by
  unfold policyTypes Affects
  cases htypes : spec.policyTypes.getD [] with
  | nil =>
      cases kind with
      | ingress =>
          simp [Kind.text]
      | egress =>
          cases hrules : spec.egress.getD [] <;>
            simp [Kind.text]
  | cons t types =>
      simp

theorem mem_selecting_iff (policies : List Policy) (ns : String)
    (labels : Labels) (kind : Kind) (p : Policy) :
    p ∈ selecting policies ns labels kind ↔
      p ∈ policies ∧ Restricts kind ns labels p := by
  unfold selecting Restricts
  rw [List.mem_filter, Bool.and_eq_true, Bool.and_eq_true,
    decide_eq_true_eq, policyTypes_iff, selects_iff, and_assoc]

/-- With a selecting list, the two loops find a rule exactly when there is one. -/
theorem firstAllowing_eq_none_iff (policies : List Policy) (ns : String)
    (labels : Labels) (kind : Kind) (other dst : Endpoint)
    (namespaces : Dict String Labels) :
    firstAllowing (selecting policies ns labels kind) kind other dst ns
        namespaces = none ↔
      ∀ p ∈ policies, Restricts kind ns labels p →
        ¬ ∃ rule ∈ (p.spec.rules kind).getD [],
          RuleHolds namespaces p.ns other dst rule := by
  unfold firstAllowing
  rw [List.find?_eq_none]
  constructor
  · intro h p hp hrestricts hrule
    apply h p ((mem_selecting_iff _ _ _ _ _).2 ⟨hp, hrestricts⟩)
    obtain ⟨rule, hmem, hholds⟩ := hrule
    rw [hrestricts.1] at hholds
    exact List.any_eq_true.2 ⟨rule, hmem, (ruleMatches_iff _ _ _ _ _).2 hholds⟩
  · intro h p hp hany
    obtain ⟨hmem, hrestricts⟩ := (mem_selecting_iff _ _ _ _ _).1 hp
    obtain ⟨rule, hrule, hmatch⟩ := List.any_eq_true.1 hany
    refine h p hmem hrestricts ⟨rule, hrule, ?_⟩
    rw [hrestricts.1]
    exact (ruleMatches_iff _ _ _ _ _).1 hmatch

theorem selecting_isEmpty_iff (policies : List Policy) (ns : String)
    (labels : Labels) (kind : Kind) :
    (selecting policies ns labels kind).isEmpty = true ↔
      ∀ p ∈ policies, ¬ Restricts kind ns labels p := by
  rw [List.isEmpty_iff, List.eq_nil_iff_forall_not_mem]
  simp only [mem_selecting_iff, not_and]

/-- A pod is refused in a direction: some policy restricts it, none allows. -/
theorem not_directionAllowed_iff (policies : List Policy)
    (namespaces : Dict String Labels) (kind : Kind) (src dst : Endpoint)
    {ns : String} (hns : (kind.own src dst).ns = some ns) :
    ¬ DirectionAllowed {p | p ∈ policies} namespaces kind src dst ↔
      (selecting policies ns (kind.own src dst).podLabels kind).isEmpty
          = false ∧
        firstAllowing
          (selecting policies ns (kind.own src dst).podLabels kind) kind
          (kind.other src dst) dst ns namespaces = none := by
  have hflow : ∀ p, RestrictsFlow kind src dst p ↔
      Restricts kind ns (kind.own src dst).podLabels p := by
    intro p
    simp [RestrictsFlow, hns]
  rw [firstAllowing_eq_none_iff, ← Bool.not_eq_true,
    selecting_isEmpty_iff]
  unfold DirectionAllowed Permits AllowsFlow
  simp only [hflow, Set.mem_ofPred_eq, not_or, not_exists, not_and]

/-- A direction that belongs to an external address is never refused. -/
theorem directionAllowed_of_external (policies : Set Policy)
    (namespaces : Dict String Labels) (kind : Kind) (src dst : Endpoint)
    (hns : (kind.own src dst).ns = none) :
    DirectionAllowed policies namespaces kind src dst := by
  left
  rintro p - ⟨ns, hsome, -⟩
  rw [hns] at hsome
  cases hsome

theorem egress_eq_no_iff (policies : List Policy)
    (namespaces : Dict String Labels) (src dst : Endpoint) :
    (egress policies namespaces src dst).result = .no ↔
      ¬ DirectionAllowed {p | p ∈ policies} namespaces .egress src dst := by
  cases hns : src.ns with
  | none =>
      have hallowed :=
        directionAllowed_of_external {p | p ∈ policies} namespaces .egress
          src dst hns
      simp [egress, hns, hallowed]
  | some ns =>
      rw [not_directionAllowed_iff policies namespaces .egress src dst hns]
      simp only [egress, hns, Kind.own, Kind.other, Endpoint.podLabels]
      split_ifs with hempty
      · simp [hempty]
      · cases hfirst : firstAllowing
            (selecting policies ns (src.labels.getD Dict.empty) .egress)
            .egress dst dst ns namespaces <;>
          simp [hempty]

theorem ingress_eq_no_iff (policies : List Policy)
    (namespaces : Dict String Labels) (src dst : Endpoint) :
    (ingress policies namespaces src dst).result = .no ↔
      ¬ DirectionAllowed {p | p ∈ policies} namespaces .ingress src dst := by
  cases hns : dst.ns with
  | none =>
      have hallowed :=
        directionAllowed_of_external {p | p ∈ policies} namespaces .ingress
          src dst hns
      simp [ingress, hns, hallowed]
  | some ns =>
      rw [not_directionAllowed_iff policies namespaces .ingress src dst hns]
      simp only [ingress, hns, Kind.own, Kind.other, Endpoint.podLabels]
      split_ifs with hempty
      · simp [hempty]
      · cases hfirst : firstAllowing
            (selecting policies ns (dst.labels.getD Dict.empty) .ingress)
            .ingress src dst ns namespaces <;>
          simp [hempty]

/-- The verdict blocks exactly when a direction is refused. -/
theorem verdict_eq_blocked_iff (policies : List Policy)
    (namespaces : Dict String Labels) (src dst : Endpoint) :
    (evaluate policies namespaces src dst).verdict = .blocked ↔
      ¬ Allowed {p | p ∈ policies} namespaces src dst := by
  have hegress := egress_eq_no_iff policies namespaces src dst
  have hingress := ingress_eq_no_iff policies namespaces src dst
  unfold Allowed
  rw [not_and_or, ← hegress, ← hingress]
  by_cases he : (egress policies namespaces src dst).result = .no
  · simp [evaluate, he]
  · by_cases hi : (ingress policies namespaces src dst).result = .no <;>
      simp [evaluate, he, hi]

/--
The evaluator against the reference: a flow passes exactly when both of its
directions are allowed.
-/
theorem evaluate_passes_iff (policies : List Policy)
    (namespaces : Dict String Labels) (src dst : Endpoint) :
    (evaluate policies namespaces src dst).verdict = .passes ↔
      Allowed {p | p ∈ policies} namespaces src dst := by
  have hblocked := verdict_eq_blocked_iff policies namespaces src dst
  cases hverdict : (evaluate policies namespaces src dst).verdict with
  | passes =>
      rw [hverdict] at hblocked
      simpa using hblocked
  | blocked =>
      rw [hverdict] at hblocked
      simpa using hblocked

/-- Unset policy types cover egress once there is an egress rule. -/
example :
    (evaluate
      [⟨"a", "egress-only-dns",
        ⟨some ⟨none, none⟩, none, none,
          some [⟨none, some [⟨some "UDP", some (.number 53), none⟩]⟩]⟩⟩]
      Dict.empty
      ⟨some "a", none, none, none, none⟩
      ⟨some "b", none, none, some 80, some "TCP"⟩).verdict = .blocked := by
  decide

end Semantics

end NetPol
end Kelt
