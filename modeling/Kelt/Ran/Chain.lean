import Kelt.Lib.PyInt

/-!
# The chain from the cable to the UEs

`build_chain` takes what the RAN service has read and says of each of five links
whether it holds, what to show and what fixes it. The chain it builds has the
five links in order, and one of them is bad exactly when it reads as broken: the
first one, with the links behind it blocked (`buildChain_shape`). Only a detach
that is not finished can hide a bad cable.
-/

namespace Kelt
namespace Ran

section Links

/-- The ids of `LINKS`. -/
inductive LinkId where
  | cable
  | bridge
  | core
  | userPlane
  | ues
  deriving DecidableEq

def LinkId.all : List LinkId :=
  [.cable, .bridge, .core, .userPlane, .ues]

def LinkId.name : LinkId → Text
  | .cable => "Cable and link".toList
  | .bridge => "RAN bridge".toList
  | .core => "Core connection".toList
  | .userPlane => "User plane".toList
  | .ues => "UEs".toList

def lower (t : Text) : Text :=
  t.map Char.toLower

inductive LinkState where
  | ok
  | bad
  | blocked
  | idle
  deriving DecidableEq

/-- What fixes a link. -/
inductive Fix where
  | piece (name : Text)
  | checklist (items : List Text)
  | cli (command : Text)
  | see (what : Text)
  deriving DecidableEq

structure Link where
  id : LinkId
  state : LinkState
  verdict : Text
  value : Text
  facts : List (Text × Text)
  fix : Option Fix

/-- A link that says nothing but its verdict. -/
def Link.plain (id : LinkId) (state : LinkState) (verdict : Text) : Link :=
  ⟨id, state, verdict, [], [], none⟩

/-- The worker's RAN interface. -/
inductive NicState where
  | up
  | down
  | noCarrier
  | missing
  deriving DecidableEq

/-- What the RAN service has read. -/
structure Facts where
  intentAttached : Option Bool
  bridgeExists : Option Bool
  nicState : NicState
  iface : Text
  hostNic : Option Text
  nicOnBridge : Bool
  bridgePorts : List Text
  amfAttached : Bool
  amfIp : Text
  amfIface : Option Text
  ngapPort : Option Nat
  gnbConnected : Bool
  gnbIp : Text
  upfRoute : Bool
  subnet : Text
  n3Subnet : Text
  ues : Nat
  pdu : Nat

def noCarrierChecklist : List Text :=
  ["The cable from the host adapter to the switch is in".toList,
    "The switch port and the gNB's port have their lights on".toList,
    "The gNB is powered".toList]

/-- `x or y` -/
def orElse (x y : Text) : Text :=
  if x = [] then y else x

/-- A port that is there: not `None`, and not 0. -/
def Facts.port (f : Facts) : Option Nat :=
  f.ngapPort.filter fun port => port != 0

def Facts.kelt (f : Facts) : Fix :=
  .cli ("kelt ran ".toList ++ orElse (f.hostNic.getD []) "<adapter>".toList)

/-- `_cable` -/
def cable (f : Facts) : Link :=
  let iface := orElse f.iface "(none)".toList
  match f.nicState with
  | .up =>
      ⟨.cable, .ok, "Link up, carrier on the wire".toList, iface,
        [("Host adapter".toList,
          match f.hostNic.filter fun nic => !nic.isEmpty with
          | some nic => nic ++ ", bridged into the worker".toList
          | none => "not recorded".toList),
        ("Worker interface".toList, iface ++ " · UP, LOWER_UP".toList),
        ("Another adapter".toList,
          "kelt ran <adapter>, then kelt provision on the host ".toList ++
            "(restarts the worker)".toList)], none⟩
  | .down =>
      ⟨.cable, .bad, "The link is down".toList, iface ++ " · down".toList,
        [("Worker interface".toList, iface ++ " · DOWN".toList),
          ("Port of".toList, "br-ran".toList)], some (.piece "ran_link".toList)⟩
  | .noCarrier =>
      ⟨.cable, .bad, "No carrier on the wire".toList,
        iface ++ " · no carrier".toList,
        [("Worker interface".toList, iface ++ " · UP, NO-CARRIER".toList)],
        some (.checklist noCarrierChecklist)⟩
  | .missing =>
      ⟨.cable, .bad, "The worker has no RAN interface".toList,
        iface ++ " · not present".toList, [], some f.kelt⟩

def plural (n : Nat) : Text :=
  if n = 1 then [] else "s".toList

/-- `_bridge` -/
def bridge (f : Facts) : Link :=
  let ports := [',', ' '].intercalate f.bridgePorts
  let n := f.bridgePorts.length
  if f.nicOnBridge then
    ⟨.bridge, .ok, f.iface ++ " is a port of br-ran".toList,
      "br-ran · ".toList ++ intText n ++ " port".toList ++ plural n,
      [("Bridge".toList, "br-ran (Open vSwitch, worker)".toList),
        ("Ports".toList, ports)], none⟩
  else if f.bridgeExists.getD true then
    ⟨.bridge, .bad, f.iface ++ " is not on br-ran".toList, "br-ran".toList,
      [("Ports".toList, orElse ports "none".toList)], some f.kelt⟩
  else
    ⟨.bridge, .bad, "br-ran is missing".toList, "br-ran · absent".toList,
      [("Bridge".toList, "br-ran (Open vSwitch, worker): not present".toList)],
      some (.piece "ran_attach".toList)⟩

/-- `_core` -/
def core (f : Facts) : Link :=
  let listen :=
    match f.port with
    | some port => f.amfIp ++ ':' :: intText port
    | none => f.amfIp
  if !f.amfAttached then
    ⟨.core, .bad, "The core is not attached to the RAN".toList,
      "no AMF on br-ran".toList,
      [("AMF address".toList, f.amfIp ++ " (not on br-ran)".toList)],
      some (.piece "ran_attach".toList)⟩
  else if !f.gnbConnected then
    ⟨.core, .bad, "No NG Setup from the gNB".toList, listen,
      [("AMF listens on".toList,
        if f.port.isSome then listen ++ " (SCTP)".toList
        else listen ++ " (AMF not running)".toList)],
      some (.see "setup".toList)⟩
  else
    ⟨.core, .ok, "NG Setup accepted".toList,
      f.amfIp ++ " ↔ ".toList ++ f.gnbIp,
      [("AMF on br-ran".toList, f.amfIp ++ " (".toList ++
          f.amfIface.getD "N2 RAN interface".toList ++ ")".toList),
        ("gNB".toList, f.gnbIp ++ " · setup accepted".toList),
        ("Association".toList,
          match f.port with
          | some port => "SCTP, port ".toList ++ intText port
          | none => "SCTP".toList)], none⟩

/-- `_user_plane` -/
def userPlane (f : Facts) : Link :=
  if f.upfRoute then
    ⟨.userPlane, .ok, "The UPF has its route back to the RAN".toList, f.subnet,
      [("UPF route".toList, f.subnet ++ " over N3".toList),
        ("N3 subnet".toList, f.n3Subnet)], none⟩
  else
    ⟨.userPlane, .bad, "The UPF has no route back to the RAN".toList, f.subnet,
      [("UPF route".toList, f.subnet ++ ": missing".toList)],
      some (.piece "ran_attach".toList)⟩

/-- `_ues` -/
def ues (f : Facts) : Link :=
  if 0 < f.ues then
    .plain .ues .ok (intText f.ues ++ " registered, ".toList ++
      intText f.pdu ++ " PDU session".toList ++ plural f.pdu)
  else .plain .ues .idle "No UE registered yet".toList

end Links

section Chain

inductive ChainState where
  | serving
  | broken
  | detached
  deriving DecidableEq

structure Chain where
  state : ChainState
  firstBroken : Option LinkId
  links : List Link

def blockedBy (id : LinkId) (after : LinkId) : Link :=
  .plain id .blocked ("Not checked until ".toList ++ lower after.name ++
    " works".toList)

/-- What of an attachment is left although it should be gone. -/
def Facts.left (f : Facts) : List Text :=
  (if f.bridgeExists.getD false then ["br-ran is still there".toList]
    else []) ++
  if f.amfAttached then ["the AMF is still on br-ran".toList] else []

/-- `_detached` -/
def detached (f : Facts) : Chain :=
  if f.left ≠ [] then
    ⟨.broken, some .bridge,
      cable f ::
        ⟨.bridge, .bad, "Detach not finished: ".toList ++
            [';', ' '].intercalate f.left, "br-ran".toList,
          [("Set by".toList, "PHYSICAL_RAN_ENABLED=false (Detach)".toList)],
          some (.piece "ran_detach".toList)⟩ ::
        (LinkId.all.drop 2).map fun id => blockedBy id .bridge⟩
  else if (cable f).state = .bad then
    ⟨.broken, some .cable,
      cable f :: (LinkId.all.drop 1).map fun id => blockedBy id .cable⟩
  else
    ⟨.detached, none,
      cable f ::
        ⟨.bridge, .idle,
          "Detached: the core is not connected to the RAN".toList,
          "br-ran · removed".toList,
          [("Set by".toList, "PHYSICAL_RAN_ENABLED=false (Detach)".toList)],
          some (.piece "ran_attach".toList)⟩ ::
        (LinkId.all.drop 2).map fun id =>
          .plain id .idle "Attach to check".toList⟩

/-- The links behind the first bad one are blocked. -/
def blockAfter : List Link → List Link
  | [] => []
  | l :: rest =>
      if l.state = .bad then l :: rest.map fun r => blockedBy r.id l.id
      else l :: blockAfter rest

/-- `build_chain` -/
def buildChain (f : Facts) : Chain :=
  if f.intentAttached.getD true then
    let links := [cable f, bridge f, core f, userPlane f, ues f]
    match links.find? fun l => l.state = .bad with
    | none => ⟨.serving, none, links⟩
    | some l => ⟨.broken, some l.id, blockAfter links⟩
  else detached f

end Chain

section Shape

variable {f : Facts} {id : LinkId} {l : Link} {links : List Link}

/-- What the facts say of a link. -/
def Facts.holds (f : Facts) : LinkId → Bool
  | .cable => f.nicState = .up
  | .bridge => f.nicOnBridge
  | .core => f.amfAttached && f.gnbConnected
  | .userPlane => f.upfRoute
  | .ues => true

/-- The link of an id. -/
def Facts.link (f : Facts) : LinkId → Link
  | .cable => cable f
  | .bridge => bridge f
  | .core => core f
  | .userPlane => userPlane f
  | .ues => Ran.ues f

theorem id_cable (f : Facts) : (cable f).id = .cable := by
  unfold cable
  cases f.nicState <;> rfl

theorem id_bridge (f : Facts) : (bridge f).id = .bridge := by
  unfold bridge
  dsimp only
  split
  · rfl
  · split <;> rfl

theorem id_core (f : Facts) : (core f).id = .core := by
  unfold core
  dsimp only
  split
  · rfl
  · split <;> rfl

theorem id_userPlane (f : Facts) : (userPlane f).id = .userPlane := by
  unfold userPlane
  split <;> rfl

theorem id_ues (f : Facts) : (Ran.ues f).id = .ues := by
  unfold Ran.ues
  split <;> rfl

theorem Facts.id_link (f : Facts) (id : LinkId) : (f.link id).id = id := by
  cases id with
  | cable => exact id_cable f
  | bridge => exact id_bridge f
  | core => exact id_core f
  | userPlane => exact id_userPlane f
  | ues => exact id_ues f

/-- What a link says of its facts: it is bad where they do not hold, and then
tells what fixes it. -/
def Link.Tells (l : Link) (holds : Bool) : Prop :=
  (l.state = .bad ↔ holds = false) ∧ (l.state = .bad → l.fix ≠ none) ∧
    l.state ≠ .blocked

theorem tells_cable (f : Facts) : (cable f).Tells (f.holds .cable) := by
  unfold cable Facts.holds Link.Tells
  cases f.nicState <;> simp

theorem tells_bridge (f : Facts) : (bridge f).Tells (f.holds .bridge) := by
  unfold bridge Facts.holds Link.Tells
  dsimp only
  split
  · simp_all
  · split <;> simp_all

theorem tells_core (f : Facts) : (core f).Tells (f.holds .core) := by
  unfold core Facts.holds Link.Tells
  dsimp only
  split
  · simp_all
  · split <;> simp_all

theorem tells_userPlane (f : Facts) :
    (userPlane f).Tells (f.holds .userPlane) := by
  unfold userPlane Facts.holds Link.Tells
  split <;> simp_all

theorem tells_ues (f : Facts) : (Ran.ues f).Tells (f.holds .ues) := by
  unfold Ran.ues Facts.holds Link.Tells
  split <;> simp [Link.plain]

theorem Facts.tells_link (f : Facts) (id : LinkId) :
    (f.link id).Tells (f.holds id) := by
  cases id with
  | cable => exact tells_cable f
  | bridge => exact tells_bridge f
  | core => exact tells_core f
  | userPlane => exact tells_userPlane f
  | ues => exact tells_ues f

theorem blockAfter_append (pre : List Link) (h : ∀ l ∈ pre, l.state ≠ .bad)
    (hl : l.state = .bad) :
    blockAfter (pre ++ l :: links) =
      pre ++ l :: links.map fun r => blockedBy r.id l.id := by
  induction pre with
  | nil => rw [List.nil_append, blockAfter, if_pos hl, List.nil_append]
  | cons p pre ih =>
      rw [List.forall_mem_cons] at h
      rw [List.cons_append, blockAfter, if_neg h.1, ih h.2, List.cons_append]

/-- The links before `id` are as they are, `id` is bad and can be fixed, and the
links behind it are blocked by it. -/
def Chain.BrokenAt (c : Chain) (id : LinkId) : Prop :=
  ∃ pre l post, c.links = pre ++ l :: post ∧ l.id = id ∧ l.state = .bad ∧
    l.fix ≠ none ∧ ∀ r ∈ post, r = blockedBy r.id id

theorem map_id_blockAfter (links : List Link) :
    (blockAfter links).map Link.id = links.map Link.id := by
  induction links with
  | nil => rfl
  | cons l links ih =>
      unfold blockAfter
      split
      · rw [List.map_cons, List.map_cons, List.map_map]
        rfl
      · rw [List.map_cons, List.map_cons, ih]

theorem find?_links (f : Facts) :
    (LinkId.all.map f.link).find? (fun l => l.state = .bad) =
      (LinkId.all.find? fun id => !f.holds id).map f.link := by
  rw [List.find?_map]
  congr 2
  funext id
  have htells := (f.tells_link id).1
  cases hholds : f.holds id <;> simp_all

/-- With the intent to be attached the first link whose facts do not hold is the
one that is broken. -/
theorem buildChain_attached (h : f.intentAttached.getD true = true) :
    (buildChain f).links.map Link.id = LinkId.all ∧
      (buildChain f).firstBroken =
        LinkId.all.find? (fun id => !f.holds id) ∧
      ((buildChain f).firstBroken = none → (buildChain f).state = .serving ∧
        ∀ l ∈ (buildChain f).links, l.state ≠ .bad ∧ l.state ≠ .blocked) ∧
      ∀ id, (buildChain f).firstBroken = some id →
        (buildChain f).state = .broken ∧ (buildChain f).BrokenAt id ∧
          ∀ l ∈ (buildChain f).links, l.state = .bad → l.id = id := by
  have hids : (LinkId.all.map f.link).map Link.id = LinkId.all := by
    rw [List.map_map]
    exact (List.map_congr_left fun id _ => f.id_link id).trans (List.map_id _)
  have hlinks : [cable f, bridge f, core f, userPlane f, Ran.ues f] =
      LinkId.all.map f.link := rfl
  unfold buildChain
  rw [if_pos h, hlinks]
  dsimp only
  rw [find?_links]
  cases hfind : LinkId.all.find? fun id => !f.holds id with
  | none =>
      refine ⟨hids, rfl, fun _ => ⟨rfl, ?_⟩, nofun⟩
      intro l hl
      obtain ⟨id, hid, rfl⟩ := List.mem_map.1 hl
      have hholds := List.find?_eq_none.1 hfind id hid
      obtain ⟨hbad, -, hblocked⟩ := f.tells_link id
      exact ⟨fun hstate => hholds (by simp [hbad.1 hstate]), hblocked⟩
  | some id =>
      obtain ⟨hnot, pre, post, hall, hpre⟩ :=
        List.find?_eq_some_iff_append.1 hfind
      obtain ⟨hbad, hfix, -⟩ := f.tells_link id
      have hstate : (f.link id).state = .bad := hbad.2 (by simpa using hnot)
      have hgood : ∀ l ∈ pre.map f.link, l.state ≠ .bad := by
        intro l hl
        obtain ⟨i, hi, rfl⟩ := List.mem_map.1 hl
        have hholds := hpre i hi
        intro hi'
        simp [(f.tells_link i).1.1 hi'] at hholds
      have hblock : blockAfter (LinkId.all.map f.link) =
          pre.map f.link ++ f.link id ::
            (post.map f.link).map fun r => blockedBy r.id id := by
        rw [hall, List.map_append, List.map_cons, blockAfter_append _ hgood hstate,
          f.id_link]
      simp only [Option.map_some, f.id_link]
      refine ⟨(map_id_blockAfter _).trans hids, trivial, nofun, ?_⟩
      intro id' hid'
      obtain rfl := Option.some.inj hid'
      refine ⟨trivial, ⟨pre.map f.link, f.link id, _, hblock, f.id_link id,
        hstate, hfix hstate, ?_⟩, ?_⟩
      · intro r hr
        obtain ⟨l, -, rfl⟩ := List.mem_map.1 hr
        rfl
      · intro l hl hl'
        rw [hblock, List.mem_append, List.mem_cons] at hl
        rcases hl with hl | rfl | hl
        · exact absurd hl' (hgood l hl)
        · exact f.id_link id
        · obtain ⟨r, -, rfl⟩ := List.mem_map.1 hl
          cases hl'

/-- A cable that does not hold while a detach is not finished. -/
def Facts.hidesCable (f : Facts) : Prop :=
  f.intentAttached.getD true = false ∧ f.left ≠ [] ∧ f.holds .cable = false

/-- Where the path from the cable to the UEs breaks: behind an intent to be
detached only what is left of the attachment, then the cable, can be wrong. -/
def Facts.brokenAt (f : Facts) : Option LinkId :=
  if f.intentAttached.getD true then LinkId.all.find? fun id => !f.holds id
  else if f.left ≠ [] then some .bridge
  else if f.holds .cable then none
  else some .cable

theorem detached_shape (h : f.intentAttached.getD true = false) :
    (detached f).links.map Link.id = LinkId.all ∧
      (detached f).firstBroken = f.brokenAt ∧
      (f.brokenAt = none → (detached f).state = .detached ∧
        ∀ l ∈ (detached f).links, l.state ≠ .bad ∧ l.state ≠ .blocked) ∧
      ∀ id, f.brokenAt = some id →
        (detached f).state = .broken ∧ (detached f).BrokenAt id ∧
          ∀ l ∈ (detached f).links, l.state = .bad →
            l.id = id ∨ l.id = .cable ∧ f.hidesCable := by
  obtain ⟨hbad, hfix, hblocked⟩ := tells_cable f
  have hnot : ¬ f.intentAttached.getD true = true := by rw [h]; decide
  unfold detached Facts.brokenAt
  simp only [if_neg hnot]
  by_cases hleft : f.left ≠ []
  · simp only [if_pos hleft]
    refine ⟨?_, trivial, nofun, ?_⟩
    · simp only [List.map_cons, id_cable]
      rfl
    · intro id hid
      obtain rfl := Option.some.inj hid
      refine ⟨trivial, ⟨[cable f], _, _, rfl, rfl, rfl, Option.some_ne_none _,
        ?_⟩, ?_⟩
      · intro r hr
        obtain ⟨i, -, rfl⟩ := List.mem_map.1 hr
        rfl
      · simp only [List.forall_mem_cons]
        refine ⟨fun hl => .inr ⟨id_cable f, h, hleft, hbad.1 hl⟩,
          fun _ => .inl trivial, fun l hl hl' => ?_⟩
        obtain ⟨i, -, rfl⟩ := List.mem_map.1 hl
        cases hl'
  · simp only [if_neg hleft]
    cases hcable : f.holds .cable with
    | true =>
        have hgood : (cable f).state ≠ .bad := by
          rw [Ne, hbad, hcable]
          decide
        simp only [if_neg hgood, if_true]
        refine ⟨?_, trivial, fun _ => ⟨trivial, ?_⟩, nofun⟩
        · simp only [List.map_cons, id_cable]
          rfl
        · simp only [List.forall_mem_cons]
          refine ⟨⟨hgood, hblocked⟩, ⟨nofun, nofun⟩, fun l hl => ?_⟩
          obtain ⟨i, -, rfl⟩ := List.mem_map.1 hl
          exact ⟨nofun, nofun⟩
    | false =>
        have hcut := hbad.2 hcable
        simp only [if_pos hcut, Bool.false_eq_true, if_false]
        refine ⟨?_, trivial, nofun, ?_⟩
        · simp only [List.map_cons, id_cable]
          rfl
        · intro id hid
          obtain rfl := Option.some.inj hid
          refine ⟨trivial, ⟨[], _, _, rfl, id_cable f, hcut, hfix hcut, ?_⟩, ?_⟩
          · intro r hr
            obtain ⟨i, -, rfl⟩ := List.mem_map.1 hr
            rfl
          · simp only [List.forall_mem_cons]
            refine ⟨fun _ => .inl (id_cable f), fun l hl hl' => ?_⟩
            obtain ⟨i, -, rfl⟩ := List.mem_map.1 hl
            cases hl'

/-- Every chain has the five links in order. It reads as broken at the first
link whose facts do not hold, that link is bad and says what fixes it, the links
behind it are blocked, and no other is bad but a cable hidden by a detach that is
not finished. -/
theorem buildChain_shape (f : Facts) :
    (buildChain f).links.map Link.id = LinkId.all ∧
      (buildChain f).firstBroken = f.brokenAt ∧
      (f.brokenAt = none →
        (buildChain f).state =
            (if f.intentAttached.getD true then .serving else .detached) ∧
          ∀ l ∈ (buildChain f).links, l.state ≠ .bad ∧ l.state ≠ .blocked) ∧
      ∀ id, f.brokenAt = some id →
        (buildChain f).state = .broken ∧ (buildChain f).BrokenAt id ∧
          ∀ l ∈ (buildChain f).links, l.state = .bad →
            l.id = id ∨ l.id = .cable ∧ f.hidesCable := by
  cases h : f.intentAttached.getD true with
  | true =>
      obtain ⟨hids, hfirst, hnone, hsome⟩ := buildChain_attached h
      have hat : f.brokenAt = LinkId.all.find? fun id => !f.holds id := by
        rw [Facts.brokenAt, if_pos h]
      rw [hat, ← hfirst]
      refine ⟨hids, rfl, hnone, fun id hid => ?_⟩
      obtain ⟨hstate, hbroken, honly⟩ := hsome id hid
      exact ⟨hstate, hbroken, fun l hl hl' => .inl (honly l hl hl')⟩
  | false =>
      have hchain : buildChain f = detached f := by
        rw [buildChain, if_neg (by rw [h]; decide)]
      rw [hchain]
      exact detached_shape h

end Shape

end Ran
end Kelt
