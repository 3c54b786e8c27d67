import Kelt.Ran.Page

/-!
# What is judged of an attachment

The backend reads an attachment back from the worker and from the AMF's pods
(`attach_verdict`, `detach_verdict`), and the page's chain from the worker and
the AMF's Deployment (`get_status`). Where the Deployment is rolled out the two
agree, and a run that the page shows as done has been seen in effect.
-/

namespace Kelt
namespace Ran

section World

/-- A pod of the AMF; `networks` are the names in its own annotation. -/
structure AmfPod where
  phase : Text
  containersReady : Bool
  deleting : Bool
  networks : List Text

/-- What there is to read, at one time. `template` are the networks of the AMF's
Deployment, `byAddress` the interface with an address in the RAN subnet. -/
structure World where
  intentAttached : Bool
  configuredIface : Text
  byAddress : Option Text
  brExists : Bool
  listedPorts : List Text
  nadName : Text
  nads : List Text
  template : List Text
  pods : List AmfPod
  nicState : NicState
  hostNic : Option Text
  amfIp : Text
  amfIface : Option Text
  ngapPort : Option Nat
  gnbConnected : Bool
  gnbIp : Text
  upfRoute : Bool
  subnet : Text
  n3Subnet : Text
  ues : Nat
  pdu : Nat

variable (w : World)

/-- `_br_ran_ports` -/
def World.ports : List Text :=
  if w.brExists then w.listedPorts else []

def isPatch (port : Text) : Bool :=
  "patch-".toList.isPrefixOf port

/-- `_detect_ran_interface` -/
def World.detectRanInterface : Option Text :=
  if w.subnet = [] then none
  else if w.brExists then w.ports.find? fun p => !isPatch p
  else w.byAddress

/-- `_ran_iface` -/
def World.ranIface : Text :=
  orElse w.configuredIface (w.detectRanInterface.getD [])

def World.nicOnBridge : Bool :=
  w.ranIface ≠ [] && w.ports.contains w.ranIface

/-- A port of br-ran that is not the adapter, a patch or the bridge itself. -/
def World.amfVeth : Bool :=
  w.ports.any fun p =>
    p ≠ [] && p ≠ "br-ran".toList && p ≠ w.ranIface && !isPatch p

/-- `_nad_exists` -/
def World.nadExists : Bool :=
  w.nads.contains w.nadName

/-- The entries of `_amf_pods`. -/
structure PodFacts where
  ready : Bool
  deleting : Bool
  phy : Bool

/-- `_amf_pods` -/
def World.amfPods : List PodFacts :=
  (w.pods.filter fun p =>
    p.phase ≠ "Succeeded".toList && p.phase ≠ "Failed".toList).map fun p =>
      ⟨p.phase = "Running".toList && p.containersReady, p.deleting,
        p.networks.contains w.nadName⟩

/-- `_amf_settled` -/
def amfSettled (pods : List PodFacts) : Option Text :=
  match pods with
  | [p] =>
      if p.deleting then some "the AMF is still being replaced".toList
      else if p.ready then none
      else some "the AMF is not ready yet".toList
  | _ => some "the AMF is still being replaced".toList

/-- The texts of the conditions that are met. -/
def texts (conditions : List (Bool × Text)) : List Text :=
  (conditions.filter Prod.fst).map Prod.snd

def joined (parts : List Text) : Text :=
  [';', ' '].intercalate parts

/-- `attach_verdict` -/
def World.attachVerdict : Option Bool × Text :=
  let lacking := texts [(!w.brExists, "br-ran is missing".toList),
    (!w.nicOnBridge, "the RAN adapter is not on br-ran".toList),
    (!w.nadExists, "the RAN network attachment is missing".toList)]
  if lacking ≠ [] then (some false, joined lacking)
  else
    match amfSettled w.amfPods with
    | some why => (none, why)
    | none =>
        let lacking := texts [(!w.amfVeth, "the AMF is not on br-ran".toList),
          (!w.amfPods.head?.any PodFacts.phy,
            "the AMF has no RAN interface".toList)]
        if lacking ≠ [] then (some false, joined lacking)
        else
          (some true, ("br-ran carries the RAN adapter and the AMF; " ++
            "the AMF has its RAN interface").toList)

/-- `detach_verdict` -/
def World.detachVerdict : Option Bool × Text :=
  let left := texts [(w.brExists, "br-ran is still there".toList),
    (w.nadExists, "the RAN network attachment is still there".toList)]
  if left ≠ [] then (some false, joined left)
  else
    match amfSettled w.amfPods with
    | some why => (none, why)
    | none =>
        if w.amfPods.head?.any PodFacts.phy then
          (some false, "the AMF still has its RAN interface".toList)
        else
          (some true,
            "br-ran is gone and the AMF runs without its RAN interface".toList)

/-- The facts `get_status` gives to `build_chain`. -/
def World.facts : Facts where
  intentAttached := some w.intentAttached
  bridgeExists := some w.brExists
  nicState := w.nicState
  iface := w.ranIface
  hostNic := w.hostNic
  nicOnBridge := w.nicOnBridge
  bridgePorts := w.ports
  amfAttached := w.template.contains w.nadName && w.amfVeth
  amfIp := w.amfIp
  amfIface := w.amfIface
  ngapPort := w.ngapPort
  gnbConnected := w.gnbConnected
  gnbIp := w.gnbIp
  upfRoute := w.upfRoute
  subnet := w.subnet
  n3Subnet := w.n3Subnet
  ues := w.ues
  pdu := w.pdu

end World

section Verdicts

variable {w : World}

/-- One pod of the AMF runs ready, and none is going away. -/
def World.Settled (w : World) (phy : Bool) : Prop :=
  ∃ p, w.amfPods = [p] ∧ p.ready = true ∧ p.deleting = false ∧ p.phy = phy

/-- The attachment is in effect. -/
structure World.Attached (w : World) : Prop where
  bridge : w.brExists = true
  adapter : w.nicOnBridge = true
  nad : w.nadExists = true
  veth : w.amfVeth = true
  pod : w.Settled true

/-- Nothing is left of the attachment. -/
structure World.Detached (w : World) : Prop where
  bridge : w.brExists = false
  nad : w.nadExists = false
  pod : w.Settled false

theorem texts_eq_nil_iff (conditions : List (Bool × Text)) :
    texts conditions = [] ↔ ∀ c ∈ conditions, c.1 = false := by
  rw [texts, List.map_eq_nil_iff, List.filter_eq_nil_iff]
  simp

theorem amfSettled_eq_none_iff {pods : List PodFacts} :
    amfSettled pods = none ↔
      ∃ p, pods = [p] ∧ p.ready = true ∧ p.deleting = false := by
  match pods with
  | [] => simp [amfSettled]
  | [p] =>
      simp only [amfSettled, List.cons.injEq, and_true, exists_eq_left']
      cases hdel : p.deleting <;> cases hready : p.ready <;> simp
  | _ :: _ :: _ => simp [amfSettled]

theorem joined_texts_ne_nil {conditions : List (Bool × Text)}
    (h : texts conditions ≠ []) (hne : ∀ c ∈ conditions, c.2 ≠ []) :
    joined (texts conditions) ≠ [] := by
  cases htexts : texts conditions with
  | nil => exact absurd htexts h
  | cons t rest =>
      have hmem : t ∈ texts conditions := by
        rw [htexts]
        exact List.mem_cons_self
      obtain ⟨c, hc, rfl⟩ := List.mem_map.1 hmem
      have ht := hne c (List.mem_of_mem_filter hc)
      cases rest with
      | nil => simpa [joined] using ht
      | cons u rest =>
          rw [joined, List.intercalate_cons_cons]
          exact List.append_ne_nil_of_left_ne_nil
            (List.append_ne_nil_of_left_ne_nil ht _) _

/-- The read-back of an attach holds exactly where the attachment is in effect,
and says why it does not. -/
theorem attachVerdict_iff (w : World) :
    (w.attachVerdict.1 = some true ↔ w.Attached) ∧
      (w.attachVerdict.1 = some false → w.attachVerdict.2 ≠ []) := by
  unfold World.attachVerdict
  dsimp only
  split
  · rename_i hlacking
    refine ⟨iff_of_false nofun fun h => hlacking ?_, fun _ =>
      joined_texts_ne_nil hlacking (by simp)⟩
    simp [texts_eq_nil_iff, h.bridge, h.adapter, h.nad]
  · rename_i hnone
    rw [ne_eq, not_not, texts_eq_nil_iff] at hnone
    simp only [List.forall_mem_cons, Bool.not_eq_eq_eq_not, Bool.not_false]
      at hnone
    obtain ⟨hbridge, hadapter, hnad, -⟩ := hnone
    cases hsettled : amfSettled w.amfPods with
    | some why =>
        refine ⟨iff_of_false nofun fun h => ?_, nofun⟩
        obtain ⟨p, hp, hready, hdel, -⟩ := h.pod
        rw [amfSettled_eq_none_iff.2 ⟨p, hp, hready, hdel⟩] at hsettled
        cases hsettled
    | none =>
        obtain ⟨p, hp, hready, hdel⟩ := amfSettled_eq_none_iff.1 hsettled
        dsimp only
        split
        · rename_i hlacking
          refine ⟨iff_of_false nofun fun h => hlacking ?_, fun _ =>
            joined_texts_ne_nil hlacking (by simp)⟩
          obtain ⟨q, hq, -, -, hphy⟩ := h.pod
          simp [texts_eq_nil_iff, h.veth, hq, hphy]
        · rename_i hall
          rw [ne_eq, not_not, texts_eq_nil_iff] at hall
          simp only [List.forall_mem_cons, Bool.not_eq_eq_eq_not,
            Bool.not_false, hp, List.head?_cons, Option.any_some] at hall
          exact ⟨iff_of_true rfl ⟨hbridge, hadapter, hnad, hall.1,
            p, hp, hready, hdel, hall.2.1⟩, nofun⟩

/-- The read-back of a detach holds exactly where nothing is left of the
attachment, and says what is left. -/
theorem detachVerdict_iff (w : World) :
    (w.detachVerdict.1 = some true ↔ w.Detached) ∧
      (w.detachVerdict.1 = some false → w.detachVerdict.2 ≠ []) := by
  unfold World.detachVerdict
  dsimp only
  split
  · rename_i hleft
    refine ⟨iff_of_false nofun fun h => hleft ?_, fun _ =>
      joined_texts_ne_nil hleft (by simp)⟩
    simp [texts_eq_nil_iff, h.bridge, h.nad]
  · rename_i hnone
    rw [ne_eq, not_not, texts_eq_nil_iff] at hnone
    simp only [List.forall_mem_cons] at hnone
    obtain ⟨hbridge, hnad, -⟩ := hnone
    cases hsettled : amfSettled w.amfPods with
    | some why =>
        refine ⟨iff_of_false nofun fun h => ?_, nofun⟩
        obtain ⟨p, hp, hready, hdel, -⟩ := h.pod
        rw [amfSettled_eq_none_iff.2 ⟨p, hp, hready, hdel⟩] at hsettled
        cases hsettled
    | none =>
        obtain ⟨p, hp, hready, hdel⟩ := amfSettled_eq_none_iff.1 hsettled
        dsimp only
        split
        · rename_i hphy
          refine ⟨iff_of_false nofun fun h => ?_, fun _ => by decide⟩
          obtain ⟨q, hq, -, -, hnot⟩ := h.pod
          simp [hq, hnot] at hphy
        · rename_i hphy
          exact ⟨iff_of_true rfl ⟨hbridge, hnad, p, hp, hready, hdel,
            by simpa [hp] using hphy⟩, nofun⟩

/-- The AMF's pods have the networks of its Deployment. -/
def World.RolledOut (w : World) : Prop :=
  ∀ p ∈ w.amfPods, p.phy = w.template.contains w.nadName

theorem World.Settled.template {phy : Bool} (h : w.Settled phy)
    (hrolled : w.RolledOut) : w.template.contains w.nadName = phy := by
  obtain ⟨p, hp, -, -, hphy⟩ := h
  rw [← hphy]
  exact (hrolled p (by rw [hp]; exact List.mem_singleton_self p)).symm

end Verdicts

section Agreement

variable {w : World}

theorem find?_not_holds {f : Facts} {id : LinkId}
    (h : LinkId.all.find? (fun id => !f.holds id) = some id) :
    f.holds id = false := by
  simpa using List.find?_some h

/-- The page's own check of a run, of a chain whose link is not bad. -/
theorem verifyAfter_of_state {piece : Text} {target : LinkId} {c : Chain}
    (hpiece : piece ≠ "ran_detach".toList) (hstate : c.state ≠ .detached)
    (hlink : ∀ l, c.find target = some l → l.state ≠ .bad) :
    verifyAfter piece target (some c) = .ok () := by
  rw [verifyAfter, if_neg hpiece, if_neg hstate]
  cases hfind : c.find target with
  | none => rfl
  | some l =>
      rw [Option.filter_some, if_neg]
      simpa using hlink l hfind

/-- An attachment in effect does not read as broken at the bridge, and at the core
only where the gNB has not set up; the page does not contradict it. -/
theorem World.Attached.chain (h : w.Attached) (hrolled : w.RolledOut)
    (hintent : w.intentAttached = true) :
    (buildChain w.facts).state ≠ .detached ∧
      (buildChain w.facts).firstBroken ≠ some .bridge ∧
      ((buildChain w.facts).firstBroken = some .core →
        w.gnbConnected = false) ∧
      verifyAfter "ran_attach".toList .bridge (some (buildChain w.facts)) =
        .ok () := by
  obtain ⟨-, hfirst, hnone, hsome⟩ := buildChain_shape w.facts
  have hattached : w.facts.intentAttached.getD true = true := hintent
  have hat : w.facts.brokenAt =
      LinkId.all.find? fun id => !w.facts.holds id := by
    rw [Facts.brokenAt, if_pos hattached]
  have hbridge : w.facts.brokenAt ≠ some .bridge := by
    intro hid
    rw [hat] at hid
    have hholds := find?_not_holds hid
    rw [show w.facts.holds .bridge = w.nicOnBridge from rfl, h.adapter] at hholds
    cases hholds
  have hstate : (buildChain w.facts).state ≠ .detached := by
    cases hid : w.facts.brokenAt with
    | none =>
        rw [(hnone hid).1, if_pos hattached]
        decide
    | some id =>
        rw [(hsome id hid).1]
        decide
  refine ⟨hstate, hfirst ▸ hbridge, fun hcore => ?_,
    verifyAfter_of_state (by decide) hstate fun l hl hbad => ?_⟩
  · rw [hfirst, hat] at hcore
    have hholds := find?_not_holds hcore
    have hveth : w.facts.amfAttached = true := by
      rw [World.facts, h.pod.template hrolled, h.veth]
      rfl
    rw [Facts.holds, hveth] at hholds
    simpa [World.facts] using hholds
  · have hid : l.id = .bridge := by simpa using List.find?_some hl
    have hmem := List.mem_of_find?_eq_some hl
    cases hbroken : w.facts.brokenAt with
    | none => exact ((hnone hbroken).2 l hmem).1 hbad
    | some id =>
        rcases (hsome id hbroken).2.2 l hmem hbad with heq | ⟨heq, -⟩
        · rw [hid] at heq
          rw [← heq] at hbroken
          exact hbridge hbroken
        · rw [hid] at heq
          cases heq

/-- Where nothing is left of an attachment that is not wanted the chain reads as
detached, unless the cable does not hold. -/
theorem World.Detached.chain (h : w.Detached) (hrolled : w.RolledOut)
    (hintent : w.intentAttached = false) :
    (buildChain w.facts).firstBroken =
        (if w.nicState = .up then none else some .cable) ∧
      (verifyAfter "ran_detach".toList .bridge (some (buildChain w.facts)) =
        .ok () ↔ w.nicState = .up) := by
  obtain ⟨-, hfirst, hnone, hsome⟩ := buildChain_shape w.facts
  have hdetached : ¬ w.facts.intentAttached.getD true = true := by
    rw [show w.facts.intentAttached.getD true = w.intentAttached from rfl,
      hintent]
    decide
  have hleft : w.facts.left = [] := by
    have hamf : w.facts.amfAttached = false := by
      rw [World.facts, h.pod.template hrolled]
      rfl
    rw [Facts.left, hamf, show w.facts.bridgeExists = some w.brExists from rfl,
      h.bridge]
    rfl
  have hat : w.facts.brokenAt =
      if w.nicState = .up then none else some .cable := by
    rw [Facts.brokenAt, if_neg hdetached, if_neg (by simp [hleft])]
    simp [Facts.holds, World.facts]
  refine ⟨hfirst.trans hat, ?_⟩
  rw [verifyAfter, if_pos rfl]
  by_cases hup : w.nicState = .up
  · rw [if_pos hup] at hat
    rw [(hnone hat).1, if_neg hdetached]
    simp [hup]
  · rw [if_neg hup] at hat
    rw [(hsome _ hat).1]
    simp [hup]

end Agreement

section Polls

open Piece.ReadBack (Ending checkWindow)

/-- What the page's polls find: a read that fails, a run that goes on, was
interrupted or has failed, or one that has ended well and is read back now. -/
inductive Poll where
  | lost (status : Option Nat)
  | running
  | interrupted
  | failed (error : Text) (exit : Option Int)
  | ended (e : Ending) (now : Int) (w : World)

/-- What the backend answers. -/
def Poll.read (verdict : World → Option Bool × Text) : Poll → Read
  | .lost status => .error status
  | .running => .ok ⟨.running, none, [], none⟩
  | .interrupted => .ok ⟨.interrupted, none, [], none⟩
  | .failed error exit => .ok ⟨.failed, none, error, exit⟩
  | .ended e now w =>
      let check := e.judge now (verdict w)
      .ok ⟨if check.ok = some false then .failed else .done, some check, [],
        e.exit⟩

/-- The run was read back while it was in effect. -/
def SeenInEffect (effect : World → Prop) (polls : List Poll) : Prop :=
  ∃ e now w, Poll.ended e now w ∈ polls ∧ effect w

/-- The run was first opened when it had ended long ago. -/
def OpenedLate (polls : List Poll) : Prop :=
  ∃ e now w, Poll.ended e now w ∈ polls ∧
    checkWindow < now - e.ended.getD now

variable {verdict : World → Option Bool × Text} {effect : World → Prop}
variable {piece : Text} {target : LinkId} {a : Answer} {polls : List Poll}
variable {chain : Option Chain}

theorem saysWhy_read
    (hwhy : ∀ w, (verdict w).1 = some false → (verdict w).2 ≠ []) {p : Poll}
    {r : Polled} (h : p.read verdict = .ok r) : r.SaysWhy := by
  intro c hc hok
  cases p with
  | lost status => cases h
  | running | interrupted | failed error exit =>
      cases h
      cases hc
  | ended e now w =>
      cases h
      obtain rfl := Option.some.inj hc
      unfold Piece.ReadBack.Ending.judge at hok ⊢
      split
      · rename_i hwindow
        rw [if_pos hwindow] at hok
        cases hverdict : (verdict w).1 with
        | none =>
            rw [hverdict] at hok
            cases hok
        | some ok =>
            rw [hverdict] at hok
            exact hwhy w (hverdict.trans hok)
      · rename_i hwindow
        rw [if_neg hwindow] at hok
        cases hok

/-- A run that the page shows as done has been read back in effect, or was opened
too late and the chain does not contradict it. -/
theorem seen_of_doneShown
    (heffect : ∀ w, ((verdict w).1 = some true ↔ effect w) ∧
      ((verdict w).1 = some false → (verdict w).2 ≠ []))
    (h : pageShows piece target a (polls.map (Poll.read verdict)) chain =
      some true) :
    SeenInEffect effect polls ∨
      OpenedLate polls ∧ verifyAfter piece target chain = .ok () := by
  obtain ⟨r, hr, hdone, hpending, hcheck⟩ := readBack_of_doneShown (by
    intro r hr
    obtain ⟨p, -, hp⟩ := List.mem_map.1 hr
    exact saysWhy_read (fun w => (heffect w).2) hp) h
  obtain ⟨p, hp, hread⟩ := List.mem_map.1 hr
  cases p with
  | lost status => cases hread
  | running | interrupted | failed error exit =>
      cases hread
      cases hdone
  | ended e now w =>
      cases hread
      by_cases hwindow : now - e.ended.getD now ≤ checkWindow
      · cases hverdict : (verdict w).1 with
        | none =>
            have hjudge : e.judge now (verdict w) =
                ⟨none, true, (verdict w).2⟩ := by
              rw [Piece.ReadBack.Ending.judge, if_pos hwindow, hverdict]
            simp [Polled.isPending, hjudge] at hpending
        | some ok =>
            have hjudge : e.judge now (verdict w) =
                ⟨some ok, false, (verdict w).2⟩ := by
              rw [Piece.ReadBack.Ending.judge, if_pos hwindow, hverdict]
            cases ok with
            | true => exact .inl ⟨e, now, w, hp, (heffect w).1.1 hverdict⟩
            | false => simp [hjudge] at hdone
      · refine .inr ⟨⟨e, now, w, hp, not_le.1 hwindow⟩, ?_⟩
        have hjudge : e.judge now (verdict w) =
            ⟨none, false, Piece.ReadBack.notReadBack⟩ := if_neg hwindow
        rcases hcheck with ⟨c, hc, hok⟩ | ⟨-, hverify⟩
        · rw [hjudge] at hc
          obtain rfl := Option.some.inj hc
          cases hok
        · exact hverify

/-- An AMF that runs with its RAN interface on br-ran. -/
def attachedWorld : World where
  intentAttached := true
  configuredIface := "eth2".toList
  byAddress := none
  brExists := true
  listedPorts := ["eth2".toList, "veth1a2b".toList, "patch-ran-n3".toList]
  nadName := "n2-ran".toList
  nads := ["n2-ran".toList]
  template := ["n2-ran".toList]
  pods := [⟨"Running".toList, true, false, ["n2-ran".toList]⟩]
  nicState := .up
  hostNic := none
  amfIp := "192.168.6.150".toList
  amfIface := none
  ngapPort := some 38412
  gnbConnected := false
  gnbIp := []
  upfRoute := true
  subnet := "192.168.6.0/24".toList
  n3Subnet := "10.203.0.0/24".toList
  ues := 0
  pdu := 0

/-- The AMF is still being replaced at the first read-back. -/
def attachPolls : List Poll :=
  [.running, .lost (some 502),
    .ended ⟨some 0, some 0⟩ 1000000 { attachedWorld with pods := [] },
    .ended ⟨some 0, some 0⟩ 3000000 attachedWorld]

end Polls

end Ran
end Kelt
