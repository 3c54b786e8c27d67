import Kelt.Lib.PyText
import Mathlib.Logic.Function.Basic
import Mathlib.Logic.Relation

/-!
# The bridges of the overlay

`ovs-setup.sh` runs on the worker and on the edge, again and again, with changing
settings. It makes a bridge for each plane, with a tunnel to the other node, and
one for each plane of each active cell; it removes the cell bridges that are not
active and have no port, and it builds or removes `br-ran`. Pods come and go, the
playbook of the core removes empty cell bridges too, and a node may restart.

Under every order of these, a frame never leaves the bridge it was sent on, once
the patch ports of earlier versions are gone (`eq_of_domain`), the bridges of both
nodes stay joined (`linked_of_setups`), and a pod keeps its port, except on
`br-ran` (`attached_of_run`). A cell bridge made with the edge is never removed
(`cellBridge_of_edge`). A second run of the script with the same settings changes
nothing (`setup_idem`).
-/

namespace Kelt
namespace Overlay

section Switches

inductive Node where
  | worker
  | edge
  deriving DecidableEq

def Node.peer : Node → Node
  | .worker => .edge
  | .edge => .worker

inductive Plane where
  | n1
  | n2
  | n3
  | n4
  | n6e
  | n6c
  | n6m
  deriving DecidableEq

/-- The planes that have a bridge for each cell. -/
inductive CellPlane where
  | n2
  | n3
  deriving DecidableEq

def CellPlane.plane : CellPlane → Plane
  | .n2 => .n2
  | .n3 => .n3

/-- `br-n1` to `br-n6m`, `br-n2-cell-1` and so on, and `br-ran`. -/
inductive Bridge where
  | plane (p : Plane)
  | cell (p : CellPlane) (id : Nat)
  | ran
  deriving DecidableEq

/-- A VXLAN port. -/
structure Tunnel where
  key : Text
  remoteIp : Text
  localIp : Text
  deriving DecidableEq

/-- A bridge: what the kernel has of its device, and its ports. -/
structure BridgeState where
  mtu : Nat
  cidrs : List Text
  tunnel : Option Tunnel
  patches : List Bridge
  nics : List Text
  pods : List Text
  deriving DecidableEq

/-- What `add-br` makes. -/
def BridgeState.new : BridgeState :=
  ⟨1500, [], none, [], [], []⟩

/-- `list-ports` prints nothing. -/
def BridgeState.bare (st : BridgeState) : Bool :=
  st.tunnel.isNone && st.patches.isEmpty && st.nics.isEmpty && st.pods.isEmpty

/-- The bridges of a node. -/
abbrev Switch := Bridge → Option BridgeState

/-- What is there is not added again. -/
def addOnce (x : Text) (xs : List Text) : List Text :=
  if x ∈ xs then xs else xs ++ [x]

/-- A command on one bridge. -/
inductive Cmd where
  | addBr (mtu : Nat)
  | tunnel (t : Tunnel)
  | addAddr (cidr : Text)
  | onlyAddr (cidr : Text)
  | addNic (nic : Text)
  | delPatch (peer : Bridge)
  | delBr

def Cmd.apply : Cmd → Option BridgeState → Option BridgeState
  | .addBr mtu, st => some { st.getD .new with mtu := mtu }
  | .tunnel t, st => st.map fun st => { st with tunnel := some t }
  | .addAddr cidr, st => st.map fun st =>
      { st with cidrs := addOnce cidr st.cidrs }
  | .onlyAddr cidr, st => st.map fun st =>
      { st with cidrs := st.cidrs.filter (· = cidr) }
  | .addNic nic, st => st.map fun st =>
      { st with nics := addOnce nic st.nics }
  | .delPatch peer, st => st.map fun st =>
      { st with patches := st.patches.filter (· ≠ peer) }
  | .delBr, _ => none

abbrev Command := Bridge × Cmd

def runAll (cmds : List Command) (s : Switch) : Switch :=
  cmds.foldl (fun s c => Function.update s c.1 (c.2.apply (s c.1))) s

/-- A bridge sees the commands that name it. -/
def runOn (b : Bridge) (cmds : List Command) (st : Option BridgeState) :
    Option BridgeState :=
  cmds.foldl (fun st c => if c.1 = b then c.2.apply st else st) st

theorem runAll_apply (cmds : List Command) (s : Switch) (b : Bridge) :
    runAll cmds s b = runOn b cmds (s b) := by
  induction cmds generalizing s with
  | nil => rfl
  | cons c rest ih =>
      refine (ih _).trans (congrArg (runOn b rest) ?_)
      dsimp only
      by_cases h : c.1 = b
      · rw [if_pos h, ← h, Function.update_self]
      · rw [if_neg h, Function.update_of_ne (Ne.symm h)]

theorem runOn_append (b : Bridge) (cmds cmds' : List Command)
    (st : Option BridgeState) :
    runOn b (cmds ++ cmds') st = runOn b cmds' (runOn b cmds st) :=
  List.foldl_append

theorem runOn_of_notMem {b : Bridge} {cmds : List Command}
    (h : ∀ c ∈ cmds, c.1 ≠ b) (st : Option BridgeState) :
    runOn b cmds st = st := by
  induction cmds generalizing st with
  | nil => rfl
  | cons c rest ih =>
      have hrest := fun c' hc' => h c' (List.mem_cons_of_mem c hc')
      rw [runOn, List.foldl_cons, if_neg (h c List.mem_cons_self)]
      exact ih hrest st

end Switches

section Script

/-- The network plan, which the script has no fallbacks for. -/
structure Plan where
  vni : Plane → Nat
  gateway : Plane → Text
  overlayMtu : Nat
  n6DataMtu : Nat
  ip : Node → Text
  ranGateway : Text

inductive RanMode where
  | disabled
  | n2n3
  | other
  deriving DecidableEq

/-- What one run of the script reads besides the plan. `localIp` is what
`calc_local_ip` prints, `subnetNic` the physical interface with an address in
`RAN_SUBNET`, `present` what `ip link show` finds. -/
structure Settings where
  edgeEnabled : Bool
  cellCount : Nat
  localIp : Option Text
  ranMode : RanMode
  ranInterface : Option Text
  subnetNic : Option Text
  present : Text → Bool

/-- The two ends of the tunnels of a node. -/
structure Endpoint where
  peer : Text
  localTunIp : Text

variable (plan : Plan) (node : Node) (cfg : Settings)

/-- The key of the tunnel of a bridge; that of a cell is two numbers, one written
behind the other. -/
def Plan.key : Bridge → Text
  | .plane p => Nat.toDigits 10 (plan.vni p)
  | .cell p id =>
      Nat.toDigits 10 (plan.vni p.plane) ++ Nat.toDigits 10 id
  | .ran => []

/-- `bridge_mtu_for` -/
def bridgeMtuFor : Bridge → Nat
  | .plane .n6c => plan.n6DataMtu
  | _ => plan.overlayMtu

/-- `create_br` -/
def createBr (b : Bridge) : List Command :=
  [(b, .addBr (bridgeMtuFor plan b))]

/-- `create_vx` -/
def createVx (b : Bridge) (e : Endpoint) : List Command :=
  createBr plan b ++ [(b, .tunnel ⟨plan.key b, e.peer, e.localTunIp⟩)]

/-- The endpoints, if the script does not exit: none without the edge. -/
def endpoint : Option (Option Endpoint) :=
  if cfg.edgeEnabled then
    if plan.ip node.peer = [] then none
    else cfg.localIp.map fun l => some ⟨plan.ip node.peer, l⟩
  else if node = .worker then some none
  else none

def create (e : Option Endpoint) (b : Bridge) : List Command :=
  match e with
  | some e => createVx plan b e
  | none => createBr plan b

def globalPlanes : Node → List Plane
  | .worker => [.n1, .n2, .n3, .n4, .n6c, .n6m]
  | .edge => [.n1, .n2, .n3, .n4, .n6e, .n6m]

def cellBridges (cellCount : Nat) : List Bridge :=
  (List.range cellCount).flatMap fun i =>
    [.cell .n2 (i + 1), .cell .n3 (i + 1)]

/-- The gateway addresses; on the worker, `br-n3` keeps no other. -/
def addresses : Node → List Command
  | .worker =>
      [(.plane .n1, .addAddr (plan.gateway .n1)),
        (.plane .n2, .addAddr (plan.gateway .n2)),
        (.plane .n3, .addAddr (plan.gateway .n3)),
        (.plane .n4, .addAddr (plan.gateway .n4)),
        (.plane .n6c, .addAddr (plan.gateway .n6c)),
        (.plane .n6m, .addAddr (plan.gateway .n6m)),
        (.plane .n3, .onlyAddr (plan.gateway .n3))]
  | .edge => [(.plane .n6e, .addAddr (plan.gateway .n6e))]

def commands (e : Option Endpoint) : List Command :=
  ((globalPlanes node).map Bridge.plane).flatMap (create plan e) ++
    addresses plan node ++ (cellBridges cfg.cellCount).flatMap (create plan e)

/-- The cell bridges that `drop` names are removed, if they have no port. -/
def removeBare (drop : Nat → Bool) (s : Switch) : Switch
  | .cell p id =>
      (s (.cell p id)).filter fun st => !(drop id && st.bare)
  | b => s b

/-- The RAN interface: the given one, the physical port of `br-ran`, or the one
with an address in the subnet. -/
def ranIf (s : Switch) : Option Text :=
  cfg.ranInterface <|> (s .ran).bind (fun st => st.nics.head?) <|> cfg.subnetNic

def buildRan (nic : Text) : List Command :=
  createBr plan .ran ++
    [(.ran, .addNic nic), (.plane .n2, .delPatch .ran),
      (.plane .n3, .delPatch .ran), (.ran, .delPatch (.plane .n2)),
      (.ran, .delPatch (.plane .n3)), (.ran, .addAddr plan.ranGateway)]

def tearDownRan : List Command :=
  [(.plane .n2, .delPatch .ran), (.plane .n3, .delPatch .ran),
    (.ran, .delPatch (.plane .n2)), (.ran, .delPatch (.plane .n3)),
    (.ran, .delBr)]

/-- The commands on `br-ran`. -/
def ranCommands (s : Switch) : List Command :=
  match node, cfg.ranMode with
  | .edge, _ => []
  | .worker, .disabled => if (s .ran).isSome then tearDownRan else []
  | .worker, .n2n3 =>
      match (ranIf cfg s).filter cfg.present with
      | some nic => buildRan plan nic
      | none => []
  | .worker, .other => []

/-- `ovs-setup.sh`, up to the plane filter; `none` where it exits before its
first command. -/
def setup (s : Switch) : Option Switch :=
  (endpoint plan node cfg).map fun e =>
    let s := runAll (commands plan node cfg e) s
    let s := removeBare (fun id => cfg.cellCount < id) s
    runAll (ranCommands plan node cfg s) s

end Script

section Spec

variable (plan : Plan) (node : Node) (cfg : Settings)

/-- The bridges that a run makes. -/
def created : List Bridge :=
  (globalPlanes node).map Bridge.plane ++ cellBridges cfg.cellCount

/-- What `create` makes of a bridge. -/
def made (e : Option Endpoint) (b : Bridge) (st : BridgeState) : BridgeState :=
  { st with
    mtu := bridgeMtuFor plan b
    tunnel := (e.map fun e => ⟨plan.key b, e.peer, e.localTunIp⟩) <|> st.tunnel }

/-- What `addresses` makes of the addresses of a bridge. -/
def addressed : Node → Bridge → List Text → List Text
  | .worker, .plane .n3, cidrs =>
      (addOnce (plan.gateway .n3) cidrs).filter (· = plan.gateway .n3)
  | .worker, .plane .n6e, cidrs => cidrs
  | .worker, .plane p, cidrs => addOnce (plan.gateway p) cidrs
  | .edge, .plane .n6e, cidrs => addOnce (plan.gateway .n6e) cidrs
  | _, _, cidrs => cidrs

theorem runOn_create (e : Option Endpoint) (b : Bridge)
    (st : Option BridgeState) :
    runOn b (create plan e b) st = some (made plan e b (st.getD .new)) := by
  cases e <;> simp [create, createVx, createBr, runOn, Cmd.apply, made]

theorem made_made (e : Option Endpoint) (b : Bridge) (st : BridgeState) :
    made plan e b (made plan e b st) = made plan e b st := by
  cases e <;> simp [made]

theorem runOn_flatMap_create (e : Option Endpoint) (b : Bridge)
    (bs : List Bridge) (st : Option BridgeState) :
    runOn b (bs.flatMap (create plan e)) st =
      if b ∈ bs then some (made plan e b (st.getD .new)) else st := by
  induction bs generalizing st with
  | nil => rfl
  | cons b' rest ih =>
      rw [List.flatMap_cons, runOn_append, ih]
      by_cases h : b' = b
      · subst h
        rw [runOn_create, Option.getD_some, made_made,
          if_pos List.mem_cons_self, ite_id]
      · have hother : ∀ c ∈ create plan e b', c.1 ≠ b := by
          cases e <;> simp [create, createVx, createBr, h]
        rw [runOn_of_notMem hother]
        simp [Ne.symm h]

theorem runOn_addresses (b : Bridge) (st : Option BridgeState) :
    runOn b (addresses plan node) st =
      st.map fun st => { st with cidrs := addressed plan node b st.cidrs } := by
  cases b with
  | plane p => cases node <;> cases p <;> cases st <;> rfl
  | cell p id => cases node <;> cases st <;> rfl
  | ran => cases node <;> cases st <;> rfl

theorem mem_cellBridges {n : Nat} {b : Bridge} :
    b ∈ cellBridges n ↔ ∃ p id, b = .cell p id ∧ 1 ≤ id ∧ id ≤ n := by
  simp only [cellBridges, List.mem_flatMap, List.mem_range, List.mem_cons,
    List.not_mem_nil, or_false]
  constructor
  · rintro ⟨i, hi, rfl | rfl⟩
    · exact ⟨.n2, i + 1, rfl, by omega, by omega⟩
    · exact ⟨.n3, i + 1, rfl, by omega, by omega⟩
  · rintro ⟨p, id, rfl, hpos, hle⟩
    refine ⟨id - 1, by omega, ?_⟩
    rw [Nat.sub_add_cancel hpos]
    cases p
    · exact .inl rfl
    · exact .inr rfl

/-- What a run makes of a bridge before it comes to `br-ran`. -/
def configured (e : Option Endpoint) (b : Bridge) (st : BridgeState) :
    BridgeState :=
  { made plan e b st with cidrs := addressed plan node b st.cidrs }

theorem addressed_of_notMem {p : Plane} (h : p ∉ globalPlanes node)
    (cidrs : List Text) : addressed plan node (.plane p) cidrs = cidrs := by
  cases node <;> cases p <;> first | rfl | exact absurd (by decide) h

theorem commands_apply (e : Option Endpoint) (s : Switch) (b : Bridge) :
    runAll (commands plan node cfg e) s b =
      if b ∈ created node cfg then
        some (configured plan node e b ((s b).getD .new))
      else s b := by
  rw [runAll_apply, commands, runOn_append, runOn_append, runOn_flatMap_create,
    runOn_addresses, runOn_flatMap_create]
  cases b with
  | plane p =>
      have hcell : Bridge.plane p ∉ cellBridges cfg.cellCount := by
        simp [mem_cellBridges]
      rw [if_neg hcell]
      simp only [created, List.mem_append, hcell, or_false,
        List.mem_map_of_injective (fun _ _ h => Bridge.plane.inj h)]
      split
      · rfl
      · rename_i hp
        simp only [addressed_of_notMem plan node hp]
        exact Option.map_id'
  | cell p id =>
      have hplane : Bridge.cell p id ∉ (globalPlanes node).map Bridge.plane := by
        simp
      have haddressed (cidrs : List Text) :
          addressed plan node (.cell p id) cidrs = cidrs := by
        cases node <;> rfl
      rw [if_neg hplane]
      simp only [created, List.mem_append, hplane, false_or, configured,
        haddressed]
      cases s (.cell p id) <;> rfl
  | ran =>
      have hran : Bridge.ran ∉ created node cfg := by
        simp [created, mem_cellBridges]
      have hcell : Bridge.ran ∉ cellBridges cfg.cellCount := by
        simp [mem_cellBridges]
      have hplane : Bridge.ran ∉ (globalPlanes node).map Bridge.plane := by
        simp
      have haddressed (cidrs : List Text) :
          addressed plan node .ran cidrs = cidrs := by
        cases node <;> rfl
      rw [if_neg hran, if_neg hcell, if_neg hplane]
      simp only [haddressed]
      exact Option.map_id'

theorem removeBare_cell (drop : Nat → Bool) (s : Switch) (p : CellPlane)
    (id : Nat) :
    removeBare drop s (.cell p id) =
      (s (.cell p id)).filter fun st => !(drop id && st.bare) :=
  rfl

theorem removeBare_eq_some {drop : Nat → Bool} {s : Switch} {b : Bridge}
    {st : BridgeState} (h : removeBare drop s b = some st) : s b = some st := by
  cases b with
  | cell p id => exact (Option.filter_eq_some_iff.1 h).1
  | plane p => exact h
  | ran => exact h

/-- Without the patch port to `br-ran`. -/
def unpatched (drop : Bool) (st : BridgeState) : BridgeState :=
  if drop then { st with patches := st.patches.filter (· ≠ .ran) } else st

/-- What the script makes of `br-ran`, where it builds it. -/
def ranBuilt (nic : Text) (st : BridgeState) : BridgeState :=
  { st with
    mtu := plan.overlayMtu
    nics := addOnce nic st.nics
    patches := (st.patches.filter (· ≠ .plane .n2)).filter (· ≠ .plane .n3)
    cidrs := addOnce plan.ranGateway st.cidrs }

/-- What the script makes of `br-ran`. -/
def ranAfter (s : Switch) : Option BridgeState :=
  match node, cfg.ranMode with
  | .worker, .disabled => none
  | .worker, .n2n3 =>
      match (ranIf cfg s).filter cfg.present with
      | some nic => some (ranBuilt plan nic ((s .ran).getD .new))
      | none => s .ran
  | _, _ => s .ran

/-- The patch port of a bridge to `br-ran` is removed. -/
def drops (s : Switch) (b : Bridge) : Bool :=
  (b = .plane .n2 || b = .plane .n3) &&
    !(ranCommands plan node cfg s).isEmpty

theorem runOn_ranCommands_ran (s : Switch) :
    runOn .ran (ranCommands plan node cfg s) (s .ran) =
      ranAfter plan node cfg s := by
  unfold ranCommands ranAfter
  cases node with
  | edge => rfl
  | worker =>
      cases cfg.ranMode with
      | disabled =>
          dsimp only
          cases s .ran <;> rfl
      | n2n3 =>
          dsimp only
          cases (ranIf cfg s).filter cfg.present with
          | none => rfl
          | some nic => rfl
      | other => rfl

theorem runOn_ranCommands (s : Switch) {b : Bridge} (hb : b ≠ .ran)
    (st : Option BridgeState) :
    runOn b (ranCommands plan node cfg s) st =
      st.map (unpatched (drops plan node cfg s b)) := by
  have hlist : ∀ cmds, cmds = [] ∨ cmds = tearDownRan ∨
      (∃ nic, cmds = buildRan plan nic) →
      runOn b cmds st = st.map (unpatched
        ((b = .plane .n2 || b = .plane .n3) && !cmds.isEmpty)) := by
    rintro cmds (rfl | rfl | ⟨nic, rfl⟩) <;>
    · cases b with
      | plane p => cases p <;> cases st <;> rfl
      | cell p id => cases st <;> rfl
      | ran => exact absurd rfl hb
  refine hlist _ ?_
  unfold ranCommands
  split
  · exact .inl rfl
  · split
    · exact .inr (.inl rfl)
    · exact .inl rfl
  · split
    · exact .inr (.inr ⟨_, rfl⟩)
    · exact .inl rfl
  · exact .inl rfl

/-- What a run leaves of a bridge other than `br-ran`, and of `br-ran`. -/
theorem setup_apply {s s' : Switch} (h : setup plan node cfg s = some s') :
    ∃ e, endpoint plan node cfg = some e ∧
      s' .ran = ranAfter plan node cfg s ∧
      ∀ b, b ≠ .ran →
        s' b = (if b ∈ created node cfg then
            some (configured plan node e b ((s b).getD .new))
          else removeBare (fun id => cfg.cellCount < id) s b).map
            (unpatched (drops plan node cfg s b)) := by
  obtain ⟨e, he, rfl⟩ := Option.map_eq_some_iff.1 h
  have hbase : ∀ b, removeBare (fun id => cfg.cellCount < id)
      (runAll (commands plan node cfg e) s) b =
        if b ∈ created node cfg then
          some (configured plan node e b ((s b).getD .new))
        else removeBare (fun id => cfg.cellCount < id) s b := by
    intro b
    cases b with
    | plane p => exact commands_apply plan node cfg e s (.plane p)
    | ran => exact commands_apply plan node cfg e s .ran
    | cell p id =>
        rw [removeBare_cell, removeBare_cell, commands_apply]
        split
        · rename_i hmem
          have hle : ¬ cfg.cellCount < id := by
            simp only [created, List.mem_append, mem_cellBridges] at hmem
            rcases hmem with hmem | ⟨_, _, heq, -, hle⟩
            · simp at hmem
            · cases heq
              omega
          simp [Option.filter, hle]
        · rfl
  have hran : removeBare (fun id => cfg.cellCount < id)
      (runAll (commands plan node cfg e) s) .ran = s .ran := by
    rw [hbase, if_neg]
    · rfl
    · simp [created, mem_cellBridges]
  have hcommands : ∀ s₁ : Switch, s₁ .ran = s .ran →
      ranCommands plan node cfg s₁ = ranCommands plan node cfg s := by
    intro s₁ h₁
    simp only [ranCommands, ranIf, h₁]
  refine ⟨e, he, ?_, fun b hb => ?_⟩
  · dsimp only
    rw [runAll_apply, hcommands _ hran, hran, runOn_ranCommands_ran]
  · dsimp only
    rw [runAll_apply, hcommands _ hran, runOn_ranCommands plan node cfg s hb,
      hbase]

end Spec

section System

/-- The switches of the two nodes. -/
abbrev Network := Node → Switch

inductive Action where
  /-- The pod of the DaemonSet starts. -/
  | setup (node : Node) (cfg : Settings)
  /-- A pod is attached to a bridge. -/
  | attach (node : Node) (b : Bridge) (pod : Text)
  | detach (node : Node) (b : Bridge) (pod : Text)
  /-- The playbook of the core removes the empty bridges of other cells. -/
  | removeOther (cells : List Nat)
  /-- The node restarts: the ports are kept, what the kernel has is not. -/
  | restart (node : Node)

def onBridges (s : Network) (node : Node)
    (f : Bridge → BridgeState → BridgeState) : Network :=
  Function.update s node fun b => (s node b).map (f b)

/-- A script that exits and an attachment that finds no bridge change nothing. -/
def step (plan : Plan) (s : Network) : Action → Network
  | .setup node cfg =>
      Function.update s node ((setup plan node cfg (s node)).getD (s node))
  | .attach node b pod =>
      onBridges s node fun b' st =>
        if b' = b then { st with pods := st.pods ++ [pod] } else st
  | .detach node b pod =>
      onBridges s node fun b' st =>
        if b' = b then { st with pods := st.pods.filter (· ≠ pod) } else st
  | .removeOther cells =>
      Function.update s .worker
        (removeBare (fun id => id ∉ cells) (s .worker))
  | .restart node =>
      onBridges s node fun _ st => { st with mtu := 1500, cidrs := [] }

def run (plan : Plan) (acts : List Action) (s : Network) : Network :=
  acts.foldl (step plan) s

/-- Where a frame sent on a bridge comes out: at the other end of its tunnel, or
at the other end of a pair of patch ports. -/
inductive Linked (s : Network) : Node × Bridge → Node × Bridge → Prop
  | tunnel {n n' : Node} {b b' : Bridge} {st st' : BridgeState} {t t' : Tunnel}
      (hst : s n b = some st) (ht : st.tunnel = some t)
      (hst' : s n' b' = some st') (ht' : st'.tunnel = some t')
      (hkey : t.key = t'.key) (hto : t.remoteIp = t'.localIp)
      (hfrom : t.localIp = t'.remoteIp) : Linked s (n, b) (n', b')
  | patch {n : Node} {b b' : Bridge} {st st' : BridgeState}
      (hst : s n b = some st) (hb' : b' ∈ st.patches)
      (hst' : s n b' = some st') (hb : b ∈ st'.patches) :
      Linked s (n, b) (n, b')

/-- The bridges that a frame from one reaches. -/
def Domain (s : Network) : Node × Bridge → Node × Bridge → Prop :=
  Relation.ReflTransGen (Linked s)

end System

section Isolation

/-- The numbers of the planes differ, and have the same number of digits. -/
structure Plan.Distinct (plan : Plan) : Prop where
  injective : Function.Injective plan.vni
  length : ∀ p p', (Nat.toDigits 10 (plan.vni p)).length =
    (Nat.toDigits 10 (plan.vni p')).length

theorem toDigits_injective : Function.Injective (Nat.toDigits 10) :=
  Function.LeftInverse.injective fun _ => Nat.ofDigitChars_ten_toDigits

/-- No two bridges have one key, although the keys of cells are two numbers
without anything between them. -/
theorem Plan.Distinct.key_injective {plan : Plan} (h : plan.Distinct) :
    Function.Injective plan.key := by
  have hne (n : Nat) : Nat.toDigits 10 n ≠ [] := Nat.toDigits_ne_nil
  have hcell (p : Plane) (p' : CellPlane) (id : Nat) :
      Nat.toDigits 10 (plan.vni p) ≠
        Nat.toDigits 10 (plan.vni p'.plane) ++ Nat.toDigits 10 id := by
    intro heq
    have hlength := congrArg List.length heq
    rw [List.length_append, h.length p p'.plane] at hlength
    exact hne id (List.eq_nil_of_length_eq_zero (by omega))
  intro b b' heq
  cases b with
  | plane p =>
      cases b' with
      | plane p' =>
          exact congrArg _ (h.injective (toDigits_injective heq))
      | cell p' id => exact absurd heq (hcell p p' id)
      | ran => exact absurd heq (hne _)
  | cell p id =>
      cases b' with
      | plane p' => exact absurd heq.symm (hcell p' p id)
      | cell p' id' =>
          obtain ⟨hp, hid⟩ := List.append_inj heq (h.length p.plane p'.plane)
          have hplane : p = p' := by
            have hpp := h.injective (toDigits_injective hp)
            cases p <;> cases p' <;> first | rfl | cases hpp
          rw [hplane, toDigits_injective hid]
      | ran =>
          exact absurd (List.append_eq_nil_iff.1 heq).2 (hne id)
  | ran =>
      cases b' with
      | plane p' => exact absurd heq.symm (hne _)
      | cell p' id =>
          exact absurd (List.append_eq_nil_iff.1 heq.symm).2 (hne id)
      | ran => rfl

/-- A tunnel has the key of its bridge, and patch ports join `br-ran` to `br-n2`
and `br-n3`, on the worker. -/
def SoundAt (plan : Plan) (n : Node) (b : Bridge) (st : BridgeState) : Prop :=
  (∀ t, st.tunnel = some t → t.key = plan.key b) ∧
    ∀ b' ∈ st.patches, n = .worker ∧
      (b = .ran ∧ (b' = .plane .n2 ∨ b' = .plane .n3) ∨ b ≠ .ran ∧ b' = .ran)

def Sound (plan : Plan) (s : Network) : Prop :=
  ∀ n b st, s n b = some st → SoundAt plan n b st

/-- `br-ran` has no patch port. -/
def Unjoined (s : Network) : Prop :=
  ∀ st, s .worker .ran = some st → st.patches = []

variable {plan : Plan} {n : Node} {b : Bridge}

theorem soundAt_new : SoundAt plan n b .new :=
  ⟨nofun, nofun⟩

theorem SoundAt.configured {st : BridgeState} (h : SoundAt plan n b st)
    (e : Option Endpoint) : SoundAt plan n b (configured plan n e b st) := by
  refine ⟨fun t ht => ?_, h.2⟩
  cases e with
  | none => exact h.1 t ht
  | some e => exact Option.some.inj ht ▸ rfl

theorem SoundAt.unpatched {st : BridgeState} (h : SoundAt plan n b st)
    (drop : Bool) : SoundAt plan n b (unpatched drop st) := by
  cases drop with
  | false => exact h
  | true => exact ⟨h.1, fun b' hb' => h.2 b' (List.mem_of_mem_filter hb')⟩

theorem SoundAt.getD {st : Option BridgeState}
    (h : ∀ st', st = some st' → SoundAt plan n b st') :
    SoundAt plan n b (st.getD .new) := by
  cases st with
  | none => exact soundAt_new
  | some st => exact h st rfl

theorem Sound.setup {s : Network} (h : Sound plan s) {cfg : Settings}
    {s' : Switch} (hsetup : setup plan n cfg (s n) = some s') (b : Bridge)
    (st : BridgeState) (hst : s' b = some st) : SoundAt plan n b st := by
  obtain ⟨e, -, hran, hother⟩ := setup_apply plan n cfg hsetup
  by_cases hb : b = .ran
  · subst hb
    rw [hran] at hst
    unfold ranAfter at hst
    split at hst
    · cases hst
    · split at hst
      · have hold := SoundAt.getD (h .worker .ran)
        obtain rfl := Option.some.inj hst
        exact ⟨hold.1, fun b' hb' => hold.2 b'
          (List.mem_of_mem_filter (List.mem_of_mem_filter hb'))⟩
      · exact h _ _ _ hst
    · exact h _ _ _ hst
  · rw [hother b hb] at hst
    obtain ⟨st', hst', rfl⟩ := Option.map_eq_some_iff.1 hst
    refine SoundAt.unpatched ?_ _
    split at hst'
    · obtain rfl := Option.some.inj hst'
      exact (SoundAt.getD (h n b)).configured e
    · exact h n b st' (removeBare_eq_some hst')

theorem onBridges_apply (s : Network) (m : Node)
    (f : Bridge → BridgeState → BridgeState) (n : Node) (b : Bridge) :
    onBridges s m f n b = if n = m then (s n b).map (f b) else s n b := by
  unfold onBridges
  by_cases h : n = m
  · rw [h, Function.update_self, if_pos rfl]
  · rw [Function.update_of_ne h, if_neg h]

/-- What a step other than a run of the script leaves was there, with the same
tunnel and the same patch ports. -/
theorem step_of_ne_setup {s : Network} {a : Action} {st : BridgeState}
    (ha : ∀ n cfg, a ≠ .setup n cfg) (h : step plan s a n b = some st) :
    ∃ st', s n b = some st' ∧ st.tunnel = st'.tunnel ∧
      st.patches = st'.patches := by
  have hon {m : Node} {f : Bridge → BridgeState → BridgeState}
      (hf : ∀ st, (f b st).tunnel = st.tunnel ∧ (f b st).patches = st.patches)
      (h : onBridges s m f n b = some st) :
      ∃ st', s n b = some st' ∧ st.tunnel = st'.tunnel ∧
        st.patches = st'.patches := by
    rw [onBridges_apply] at h
    split at h
    · obtain ⟨st', hst', rfl⟩ := Option.map_eq_some_iff.1 h
      exact ⟨st', hst', hf st'⟩
    · exact ⟨st, h, rfl, rfl⟩
  cases a with
  | setup m cfg => exact absurd rfl (ha m cfg)
  | attach m b' pod =>
      exact hon (fun st => by split <;> exact ⟨rfl, rfl⟩) h
  | detach m b' pod =>
      exact hon (fun st => by split <;> exact ⟨rfl, rfl⟩) h
  | removeOther cells =>
      refine ⟨st, ?_, rfl, rfl⟩
      cases n with
      | worker => exact removeBare_eq_some h
      | edge => exact h
  | restart m => exact hon (fun st => ⟨rfl, rfl⟩) h

/-- A run of the script leaves the other node as it is. -/
theorem step_setup (s : Network) (m : Node) (cfg : Settings) (n : Node) :
    step plan s (.setup m cfg) n =
      if n = m then (setup plan m cfg (s m)).getD (s m) else s n := by
  rw [step]
  by_cases h : n = m
  · rw [h, Function.update_self, if_pos rfl]
  · rw [Function.update_of_ne h, if_neg h]

theorem sound_step {s : Network} (h : Sound plan s) (a : Action) :
    Sound plan (step plan s a) := by
  intro n b st hst
  by_cases ha : ∃ m cfg, a = .setup m cfg
  · obtain ⟨m, cfg, rfl⟩ := ha
    rw [step_setup] at hst
    split at hst
    · subst n
      cases hsetup : setup plan m cfg (s m) with
      | none =>
          rw [hsetup] at hst
          exact h m b st hst
      | some s' =>
          rw [hsetup] at hst
          exact h.setup hsetup b st hst
    · exact h n b st hst
  · obtain ⟨st', hst', htunnel, hpatches⟩ := step_of_ne_setup
      (fun m cfg heq => ha ⟨m, cfg, heq⟩) hst
    have hold := h n b st' hst'
    exact ⟨htunnel ▸ hold.1, hpatches ▸ hold.2⟩

/-- The script removes the patch ports of `br-ran`: it removes `br-ran`, or builds
it. -/
def Clears (cfg : Settings) (s : Switch) : Prop :=
  cfg.ranMode = .disabled ∨
    cfg.ranMode = .n2n3 ∧ ((ranIf cfg s).filter cfg.present).isSome = true

/-- A run of the script on the worker leaves `br-ran` without patch ports, if it
removes them or there are none. -/
theorem patches_of_setup {s : Network} (h : Sound plan s) {cfg : Settings}
    {s' : Switch} (hsetup : setup plan .worker cfg (s .worker) = some s')
    (hclear : Clears cfg (s .worker) ∨ Unjoined s) {st : BridgeState}
    (hst : s' .ran = some st) : st.patches = [] := by
  obtain ⟨e, -, hran, -⟩ := setup_apply plan .worker cfg hsetup
  rw [hran] at hst
  cases hmode : cfg.ranMode with
  | disabled =>
      simp only [ranAfter, hmode] at hst
      cases hst
  | n2n3 =>
      simp only [ranAfter, hmode] at hst
      split at hst
      · have hold := SoundAt.getD (h .worker .ran)
        obtain rfl := Option.some.inj hst
        refine List.eq_nil_iff_forall_not_mem.2 fun b hb => ?_
        simp only [ranBuilt, List.mem_filter, decide_eq_true_eq] at hb
        obtain ⟨-, ⟨-, rfl | rfl⟩ | ⟨hne, -⟩⟩ := hold.2 b hb.1.1
        · exact hb.1.2 rfl
        · exact hb.2 rfl
        · exact hne rfl
      · rename_i hnic
        rcases hclear with (hdisabled | ⟨-, hsome⟩) | hunjoined
        · exact nomatch hmode.symm.trans hdisabled
        · exact nomatch hnic ▸ hsome
        · exact hunjoined st hst
  | other =>
      simp only [ranAfter, hmode] at hst
      rcases hclear with (hdisabled | ⟨hn2n3, -⟩) | hunjoined
      · exact nomatch hmode.symm.trans hdisabled
      · exact nomatch hmode.symm.trans hn2n3
      · exact hunjoined st hst

theorem unjoined_step {s : Network} (h : Sound plan s) (hunjoined : Unjoined s)
    (a : Action) : Unjoined (step plan s a) := by
  intro st hst
  by_cases ha : ∃ m cfg, a = .setup m cfg
  · obtain ⟨m, cfg, rfl⟩ := ha
    rw [step_setup] at hst
    split at hst
    · subst m
      cases hsetup : setup plan .worker cfg (s .worker) with
      | none =>
          rw [hsetup] at hst
          exact hunjoined st hst
      | some s' =>
          rw [hsetup] at hst
          exact patches_of_setup h hsetup (.inr hunjoined) hst
    · exact hunjoined st hst
  · obtain ⟨st', hst', -, hpatches⟩ := step_of_ne_setup
      (fun m cfg heq => ha ⟨m, cfg, heq⟩) hst
    rw [hpatches]
    exact hunjoined st' hst'

/-- A link leads to the bridge of the same name. -/
theorem eq_of_linked (hplan : plan.Distinct) {s : Network} (h : Sound plan s)
    (hunjoined : Unjoined s) {x y : Node × Bridge} (hxy : Linked s x y) :
    x.2 = y.2 := by
  cases hxy with
  | @tunnel n n' b b' st st' t t' hst ht hst' ht' hkey =>
      refine hplan.key_injective ?_
      rw [← (h n b st hst).1 t ht, ← (h n' b' st' hst').1 t' ht', hkey]
  | @patch n b b' st st' hst hb' hst' hb =>
      obtain ⟨rfl, ⟨rfl, -⟩ | ⟨-, rfl⟩⟩ := (h n b st hst).2 b' hb'
      · rw [hunjoined st hst] at hb'
        cases hb'
      · rw [hunjoined st' hst'] at hb
        cases hb

theorem sound_run {s : Network} (h : Sound plan s) (acts : List Action) :
    Sound plan (run plan acts s) := by
  induction acts generalizing s with
  | nil => exact h
  | cons a rest ih => exact ih (sound_step h a)

theorem unjoined_run {s : Network} (h : Sound plan s) (hunjoined : Unjoined s)
    (acts : List Action) : Unjoined (run plan acts s) := by
  induction acts generalizing s with
  | nil => exact hunjoined
  | cons a rest ih =>
      exact ih (sound_step h a) (unjoined_step h hunjoined a)

/-- From the first run of the script on the worker that removes the patch ports of
earlier versions, whatever happens on the two nodes, a frame stays on the bridge
of its name. -/
theorem eq_of_domain (hplan : plan.Distinct) {s : Network} (h : Sound plan s)
    (acts : List Action) {cfg : Settings} {s' : Switch}
    (hsetup : setup plan .worker cfg (run plan acts s .worker) = some s')
    (hclear : Clears cfg (run plan acts s .worker)) (acts' : List Action)
    {x y : Node × Bridge}
    (hxy : Domain (run plan (acts ++ .setup .worker cfg :: acts') s) x y) :
    x.2 = y.2 := by
  have hsound := sound_run h acts
  have hunjoined : Unjoined (step plan (run plan acts s)
      (.setup .worker cfg)) := by
    intro st hst
    rw [step_setup, if_pos rfl, hsetup] at hst
    exact patches_of_setup hsound hsetup (.inl hclear) hst
  have hrun : run plan (acts ++ .setup .worker cfg :: acts') s =
      run plan acts' (step plan (run plan acts s) (.setup .worker cfg)) := by
    unfold run
    rw [List.foldl_append]
    rfl
  have hstart := sound_step hsound (.setup .worker cfg)
  rw [hrun] at hxy
  induction hxy with
  | refl => rfl
  | tail _ hlink ih =>
      exact ih.trans (eq_of_linked hplan (sound_run hstart acts')
        (unjoined_run hstart hunjoined acts') hlink)

/-- The network plan of `all.yml`. -/
def allYml : Plan where
  vni
    | .n1 => 101
    | .n2 => 102
    | .n3 => 103
    | .n4 => 104
    | .n6e => 106
    | .n6c => 107
    | .n6m => 108
  gateway
    | .n1 => "10.201.0.1/24".toList
    | .n2 => "10.202.0.1/24".toList
    | .n3 => "10.203.0.1/24".toList
    | .n4 => "10.204.0.1/24".toList
    | .n6e => "10.206.0.1/24".toList
    | .n6c => "10.207.0.1/24".toList
    | .n6m => "10.208.0.1/24".toList
  overlayMtu := 1450
  n6DataMtu := 1400
  ip
    | .worker => "192.168.56.11".toList
    | .edge => "192.168.56.12".toList
  ranGateway := "192.168.6.1/24".toList

theorem distinct_allYml : allYml.Distinct where
  injective := by
    intro p p' h
    cases p <;> cases p' <;> first | rfl | cases h
  length := by
    have h : ∀ p, (Nat.toDigits 10 (allYml.vni p)).length = 3 := by
      intro p
      cases p <;> decide
    exact fun p p' => (h p).trans (h p').symm

/-- One cell, with the edge and without a physical RAN. -/
def oneCell (node : Node) : Settings where
  edgeEnabled := true
  cellCount := 1
  localIp := some (allYml.ip node)
  ranMode := .disabled
  ranInterface := none
  subnetNic := none
  present := fun _ => false

def emptyNetwork : Network :=
  fun _ _ => none

theorem setup_oneCell : ∃ s', setup allYml .worker (oneCell .worker)
    (emptyNetwork .worker) = some s' :=
  Option.isSome_iff_exists.1 (by decide)

/-- Runs on both nodes: no frame of the user plane comes to `br-n4`. -/
theorem eq_of_domain_oneCell :
    ¬ Domain (run allYml ([] ++ [.setup .worker (oneCell .worker),
      .setup .edge (oneCell .edge)]) emptyNetwork)
      (.worker, .plane .n3) (.edge, .plane .n4) := by
  intro hxy
  obtain ⟨s', hs'⟩ := setup_oneCell
  have hsound : Sound allYml emptyNetwork := nofun
  exact nomatch eq_of_domain distinct_allYml hsound [] hs' (.inl rfl)
    [.setup .edge (oneCell .edge)] hxy

end Isolation

section Kept

variable {plan : Plan} {n : Node} {b : Bridge}

/-- A step other than a run of the script keeps a bridge that has a port, its
tunnel, and the pods that are not detached. -/
theorem keep_of_ne_setup {s : Network} {a : Action} {st : BridgeState}
    (ha : ∀ n cfg, a ≠ .setup n cfg) (hst : s n b = some st)
    (hbare : st.bare = false) :
    ∃ st', step plan s a n b = some st' ∧ st'.tunnel = st.tunnel ∧
      ∀ pod ∈ st.pods, a ≠ .detach n b pod → pod ∈ st'.pods := by
  cases a with
  | setup m cfg => exact absurd rfl (ha m cfg)
  | attach m b' pod =>
      rw [step, onBridges_apply, hst]
      split
      · refine ⟨_, rfl, ?_, fun pod' hpod _ => ?_⟩
        · split <;> rfl
        · split
          · exact List.mem_append_left _ hpod
          · exact hpod
      · exact ⟨st, rfl, rfl, fun _ hpod _ => hpod⟩
  | detach m b' pod =>
      rw [step, onBridges_apply, hst]
      split
      · subst n
        refine ⟨_, rfl, ?_, fun pod' hpod hne => ?_⟩
        · split <;> rfl
        · split
          · subst b'
            refine List.mem_filter.2 ⟨hpod, decide_eq_true ?_⟩
            rintro rfl
            exact hne rfl
          · exact hpod
      · exact ⟨st, rfl, rfl, fun _ hpod _ => hpod⟩
  | removeOther cells =>
      refine ⟨st, ?_, rfl, fun _ hpod _ => hpod⟩
      cases n with
      | edge => exact hst
      | worker =>
          cases b with
          | plane p => exact hst
          | ran => exact hst
          | cell p id =>
              rw [step, Function.update_self, removeBare_cell, hst]
              simp [Option.filter, hbare]
  | restart m =>
      rw [step, onBridges_apply, hst]
      split
      · exact ⟨_, rfl, rfl, fun _ hpod _ => hpod⟩
      · exact ⟨st, rfl, rfl, fun _ hpod _ => hpod⟩

/-- A run of the script keeps a bridge that has a port, unless it removes
`br-ran`. -/
theorem keep_of_setup {s s' : Switch} {cfg : Settings} {st : BridgeState}
    (h : setup plan n cfg s = some s') (hb : b ≠ .ran) (hst : s b = some st)
    (hbare : st.bare = false) :
    ∃ e st', endpoint plan n cfg = some e ∧ s' b = some st' ∧
      st'.pods = st.pods ∧
      st'.tunnel = if b ∈ created n cfg then
        (e.map fun e => ⟨plan.key b, e.peer, e.localTunIp⟩) <|> st.tunnel
      else st.tunnel := by
  obtain ⟨e, he, -, hother⟩ := setup_apply plan n cfg h
  have hunpatched (drop : Bool) (st : BridgeState) :
      (unpatched drop st).pods = st.pods ∧
        (unpatched drop st).tunnel = st.tunnel := by
    cases drop <;> exact ⟨rfl, rfl⟩
  have hs' := hother b hb
  split at hs'
  · rename_i hcreated
    refine ⟨e, _, he, hs', ?_, ?_⟩
    · rw [(hunpatched _ _).1, hst]
      rfl
    · rw [(hunpatched _ _).2, hst, if_pos hcreated]
      rfl
  · rename_i hcreated
    have hkept : removeBare (fun id => cfg.cellCount < id) s b = some st := by
      cases b with
      | plane p => exact hst
      | ran => exact absurd rfl hb
      | cell p id =>
          rw [removeBare_cell, hst]
          simp [Option.filter, hbare]
    rw [hkept] at hs'
    refine ⟨e, _, he, hs', (hunpatched _ _).1, ?_⟩
    rw [(hunpatched _ _).2, if_neg hcreated]

/-- The tunnel of a bridge leads to the other node. -/
def Tunnelled (plan : Plan) (s : Network) (n : Node) (b : Bridge) : Prop :=
  ∃ st, s n b = some st ∧
    st.tunnel = some ⟨plan.key b, plan.ip n.peer, plan.ip n⟩

/-- The route to the other node starts at the address of the node. -/
def Routed (plan : Plan) (a : Action) : Prop :=
  ∀ n cfg, a = .setup n cfg → cfg.localIp = some (plan.ip n)

theorem bare_of_tunnel {st : BridgeState} {t : Tunnel}
    (h : st.tunnel = some t) : st.bare = false := by
  simp [BridgeState.bare, h]

theorem endpoint_of_routed {cfg : Settings} {e : Endpoint}
    (hlocal : cfg.localIp = some (plan.ip n))
    (he : endpoint plan n cfg = some (some e)) :
    e = ⟨plan.ip n.peer, plan.ip n⟩ := by
  unfold endpoint at he
  split at he
  · split at he
    · cases he
    · rw [hlocal] at he
      cases he
      rfl
  · split at he <;> cases he

theorem Tunnelled.step {s : Network} (h : Tunnelled plan s n b) (hb : b ≠ .ran)
    {a : Action} (ha : Routed plan a) : Tunnelled plan (step plan s a) n b := by
  obtain ⟨st, hst, ht⟩ := h
  have hbare := bare_of_tunnel ht
  by_cases hsetup : ∃ m cfg, a = .setup m cfg
  · obtain ⟨m, cfg, rfl⟩ := hsetup
    unfold Tunnelled
    rw [step_setup]
    split
    · subst m
      cases hs' : setup plan n cfg (s n) with
      | none => exact ⟨st, hst, ht⟩
      | some s' =>
          obtain ⟨e, st', he, hst', -, htunnel⟩ :=
            keep_of_setup hs' hb hst hbare
          refine ⟨st', hst', ?_⟩
          rw [htunnel, ht]
          cases e with
          | none => exact ite_id _
          | some e =>
              rw [endpoint_of_routed (ha n cfg rfl) he]
              exact ite_id _
    · exact ⟨st, hst, ht⟩
  · obtain ⟨st', hst', htunnel, -⟩ := keep_of_ne_setup
      (fun m cfg heq => hsetup ⟨m, cfg, heq⟩) hst hbare
    exact ⟨st', hst', htunnel.trans ht⟩

theorem ne_ran_of_created {cfg : Settings} (h : b ∈ created n cfg) :
    b ≠ .ran := by
  rintro rfl
  simp [created, mem_cellBridges] at h

/-- A run of the script with the edge makes the tunnels of its bridges. -/
theorem tunnelled_setup (hip : ∀ n, plan.ip n ≠ []) (s : Network)
    {cfg : Settings} (hedge : cfg.edgeEnabled = true)
    (hlocal : cfg.localIp = some (plan.ip n)) (hb : b ∈ created n cfg) :
    Tunnelled plan (step plan s (.setup n cfg)) n b := by
  have he : endpoint plan n cfg =
      some (some ⟨plan.ip n.peer, plan.ip n⟩) := by
    simp [endpoint, hedge, hip, hlocal]
  obtain ⟨s', hs'⟩ : ∃ s', setup plan n cfg (s n) = some s' := by
    rw [setup, he]
    exact ⟨_, rfl⟩
  obtain ⟨e, he', -, hother⟩ := setup_apply plan n cfg hs'
  obtain rfl := Option.some.inj (he.symm.trans he')
  have hst := hother b (ne_ran_of_created hb)
  rw [if_pos hb, Option.map_some] at hst
  unfold Tunnelled
  rw [step_setup, if_pos rfl, hs']
  refine ⟨_, hst, ?_⟩
  cases drops plan n cfg (s n) b <;> rfl

/-- A tunnel that was made once stays, with the edge and without it. -/
theorem tunnelled_run (hip : ∀ n, plan.ip n ≠ []) {acts : List Action}
    (hrouted : ∀ a ∈ acts, Routed plan a) {cfg : Settings}
    (hmem : .setup n cfg ∈ acts) (hedge : cfg.edgeEnabled = true)
    (hb : b ∈ created n cfg) (s : Network) :
    Tunnelled plan (run plan acts s) n b := by
  have hkeep : ∀ acts s, (∀ a ∈ acts, Routed plan a) → Tunnelled plan s n b →
      Tunnelled plan (run plan acts s) n b := by
    intro acts
    induction acts with
    | nil => exact fun s _ h => h
    | cons a rest ih =>
        intro s hall h
        exact ih _ (fun a ha => hall a (List.mem_cons_of_mem _ ha))
          (h.step (ne_ran_of_created hb) (hall a List.mem_cons_self))
  obtain ⟨pre, post, rfl⟩ := List.append_of_mem hmem
  have hrun : run plan (pre ++ .setup n cfg :: post) s =
      run plan post (step plan (run plan pre s) (.setup n cfg)) := by
    unfold run
    rw [List.foldl_append]
    rfl
  rw [hrun]
  exact hkeep post _ (fun a ha => hrouted a (by simp [ha]))
    (tunnelled_setup hip _ hedge (hrouted _ hmem n cfg rfl) hb)

/-- Once the script has run on both nodes with the edge, the bridges that both
have are joined, whatever happens from then on. -/
theorem linked_of_setups (hip : ∀ n, plan.ip n ≠ []) {acts : List Action}
    (hrouted : ∀ a ∈ acts, Routed plan a) {cfg cfg' : Settings}
    (hworker : .setup .worker cfg ∈ acts) (hcfg : cfg.edgeEnabled = true)
    (hedge : .setup .edge cfg' ∈ acts) (hcfg' : cfg'.edgeEnabled = true)
    (hb : b ∈ created .worker cfg) (hb' : b ∈ created .edge cfg')
    (s : Network) :
    Linked (run plan acts s) (.worker, b) (.edge, b) ∧
      Linked (run plan acts s) (.edge, b) (.worker, b) := by
  obtain ⟨st, hst, ht⟩ := tunnelled_run hip hrouted hworker hcfg hb s
  obtain ⟨st', hst', ht'⟩ := tunnelled_run hip hrouted hedge hcfg' hb' s
  exact ⟨.tunnel hst ht hst' ht' rfl rfl rfl, .tunnel hst' ht' hst ht rfl rfl rfl⟩

theorem routed_oneCell : ∀ a ∈ [Action.setup .worker (oneCell .worker),
    .setup .edge (oneCell .edge)], Routed allYml a := by
  intro a ha n cfg heq
  subst heq
  simp only [List.mem_cons, List.not_mem_nil, or_false] at ha
  rcases ha with ha | ha <;> cases ha <;> rfl

theorem ip_allYml (n : Node) : allYml.ip n ≠ [] := by
  cases n <;> decide

/-- The user plane of the only cell. -/
theorem linked_oneCell :
    Linked (run allYml [.setup .worker (oneCell .worker),
      .setup .edge (oneCell .edge)] emptyNetwork)
      (.worker, .cell .n3 1) (.edge, .cell .n3 1) :=
  (linked_of_setups ip_allYml routed_oneCell List.mem_cons_self rfl
    (List.mem_cons_of_mem _ List.mem_cons_self) rfl (by decide) (by decide)
    emptyNetwork).1

/-- A bridge has the port of a pod. -/
def Attached (s : Network) (n : Node) (b : Bridge) (pod : Text) : Prop :=
  ∃ st, s n b = some st ∧ pod ∈ st.pods

/-- The script keeps the pods on `br-ran`, unless it removes it. -/
theorem pods_ranAfter {s : Switch} {cfg : Settings} {st : BridgeState}
    (hst : s .ran = some st)
    (hmode : n = .worker → cfg.ranMode ≠ .disabled) :
    ∃ st', ranAfter plan n cfg s = some st' ∧ st'.pods = st.pods := by
  unfold ranAfter
  split
  · exact absurd ‹_› (hmode rfl)
  · split
    · refine ⟨_, rfl, ?_⟩
      rw [hst]
      rfl
    · exact ⟨st, hst, rfl⟩
  · exact ⟨st, hst, rfl⟩

theorem Attached.step {s : Network} {pod : Text} (h : Attached s n b pod)
    {a : Action} (ha : a ≠ .detach n b pod)
    (hran : b = .ran → ∀ cfg, a = .setup .worker cfg → cfg.ranMode ≠ .disabled) :
    Attached (step plan s a) n b pod := by
  obtain ⟨st, hst, hpod⟩ := h
  have hbare : st.bare = false := by
    unfold BridgeState.bare
    cases hpods : st.pods with
    | nil => rw [hpods] at hpod; cases hpod
    | cons _ _ => exact Bool.and_false _
  by_cases hsetup : ∃ m cfg, a = .setup m cfg
  · obtain ⟨m, cfg, rfl⟩ := hsetup
    unfold Attached
    rw [step_setup]
    split
    · subst m
      cases hs' : setup plan n cfg (s n) with
      | none => exact ⟨st, hst, hpod⟩
      | some s' =>
          by_cases hb : b = .ran
          · subst hb
            obtain ⟨e, -, hafter, -⟩ := setup_apply plan n cfg hs'
            have hmode : n = .worker → cfg.ranMode ≠ .disabled := by
              rintro rfl
              exact hran rfl cfg rfl
            obtain ⟨st', hst', hpods⟩ := pods_ranAfter hst hmode
            exact ⟨st', hafter.trans hst', hpods ▸ hpod⟩
          · obtain ⟨e, st', -, hst', hpods, -⟩ :=
              keep_of_setup hs' hb hst hbare
            exact ⟨st', hst', hpods ▸ hpod⟩
    · exact ⟨st, hst, hpod⟩
  · obtain ⟨st', hst', -, hpods⟩ := keep_of_ne_setup
      (fun m cfg heq => hsetup ⟨m, cfg, heq⟩) hst hbare
    exact ⟨st', hst', hpods pod hpod ha⟩

/-- After a run of the script there are the bridges of the active cells, and of the
others those that have a port. -/
theorem cellBridge_iff {s s' : Switch} {cfg : Settings}
    (h : setup plan n cfg s = some s') (p : CellPlane) (id : Nat) :
    (s' (.cell p id)).isSome = true ↔
      (1 ≤ id ∧ id ≤ cfg.cellCount) ∨ ∃ st, s (.cell p id) = some st ∧
        (cfg.cellCount < id → st.bare = false) := by
  obtain ⟨e, -, -, hother⟩ := setup_apply plan n cfg h
  have hcreated : Bridge.cell p id ∈ created n cfg ↔
      1 ≤ id ∧ id ≤ cfg.cellCount := by
    simp [created, mem_cellBridges]
  rw [hother (.cell p id) nofun, Option.isSome_map]
  split
  · exact iff_of_true rfl (.inl (hcreated.1 ‹_›))
  · rename_i hnot
    rw [hcreated] at hnot
    rw [removeBare_cell, or_iff_right hnot]
    cases hst : s (.cell p id) with
    | none => simp
    | some st => by_cases hlt : cfg.cellCount < id <;> simp [Option.filter, hlt]

/-- The bridge of the cell, from a start without bridges. -/
theorem cellBridge_iff_oneCell :
    ∃ s', setup allYml .worker (oneCell .worker) (emptyNetwork .worker) =
      some s' ∧ (s' (.cell .n2 1)).isSome = true := by
  obtain ⟨s', hs'⟩ := setup_oneCell
  exact ⟨s', hs', (cellBridge_iff hs' .n2 1).2
    (.inl ⟨Nat.le_refl 1, Nat.le_refl 1⟩)⟩

/-- A cell bridge that the script made with the edge is never removed: its own
tunnel is a port. -/
theorem cellBridge_of_edge (hip : ∀ n, plan.ip n ≠ []) {acts : List Action}
    (hrouted : ∀ a ∈ acts, Routed plan a) {cfg : Settings}
    (hmem : .setup n cfg ∈ acts) (hedge : cfg.edgeEnabled = true)
    {p : CellPlane} {id : Nat} (hpos : 1 ≤ id) (hle : id ≤ cfg.cellCount)
    (s : Network) : (run plan acts s n (.cell p id)).isSome = true := by
  have hb : Bridge.cell p id ∈ created n cfg := by
    simp [created, mem_cellBridges, hpos, hle]
  obtain ⟨st, hst, -⟩ := tunnelled_run hip hrouted hmem hedge hb s
  rw [hst]
  rfl

/-- The bridge of the cell, after runs on both nodes. -/
theorem cellBridge_oneCell :
    (run allYml [.setup .worker (oneCell .worker),
      .setup .edge (oneCell .edge)] emptyNetwork
        .edge (.cell .n2 1)).isSome = true :=
  cellBridge_of_edge ip_allYml routed_oneCell
    (List.mem_cons_of_mem _ List.mem_cons_self) rfl (Nat.le_refl 1)
    (Nat.le_refl 1) emptyNetwork

end Kept

section Idempotent

variable {plan : Plan} {n : Node} {cfg : Settings}

theorem addOnce_of_mem {x : Text} {xs : List Text} (h : x ∈ xs) :
    addOnce x xs = xs :=
  if_pos h

theorem mem_addOnce (x : Text) (xs : List Text) : x ∈ addOnce x xs := by
  unfold addOnce
  split
  · exact ‹_›
  · exact List.mem_append_right _ List.mem_cons_self

theorem addressed_addressed (b : Bridge) (cidrs : List Text) :
    addressed plan n b (addressed plan n b cidrs) =
      addressed plan n b cidrs := by
  have honce (x : Text) (xs : List Text) :
      addOnce x (addOnce x xs) = addOnce x xs :=
    addOnce_of_mem (mem_addOnce x xs)
  have honly (x : Text) (xs : List Text) :
      (addOnce x ((addOnce x xs).filter (· = x))).filter (· = x) =
        (addOnce x xs).filter (· = x) := by
    rw [addOnce_of_mem (List.mem_filter.2 ⟨mem_addOnce x xs, decide_eq_true rfl⟩),
      List.filter_filter]
    simp
  cases b with
  | plane p =>
      cases n <;> cases p <;> first | rfl | exact honce _ _ | exact honly _ _
  | cell p id => cases n <;> rfl
  | ran => cases n <;> rfl

theorem configured_unpatched (e : Option Endpoint) (b : Bridge) (drop : Bool)
    (st : BridgeState) :
    configured plan n e b (unpatched drop (configured plan n e b st)) =
      unpatched drop (configured plan n e b st) := by
  cases drop <;> cases e <;>
    simp [configured, made, unpatched, addressed_addressed]

theorem unpatched_unpatched {drop drop' : Bool} (h : drop' = true → drop = true)
    (st : BridgeState) :
    unpatched drop' (unpatched drop st) = unpatched drop st := by
  cases drop' with
  | false => rfl
  | true =>
      rw [h rfl]
      simp [unpatched]

theorem ranBuilt_ranBuilt (nic : Text) (st : BridgeState) :
    ranBuilt plan nic (ranBuilt plan nic st) = ranBuilt plan nic st := by
  have honce (x : Text) (xs : List Text) :
      addOnce x (addOnce x xs) = addOnce x xs :=
    addOnce_of_mem (mem_addOnce x xs)
  have hpatches : ∀ bs : List Bridge,
      (((bs.filter (· ≠ .plane .n2)).filter (· ≠ .plane .n3)).filter
        (· ≠ .plane .n2)).filter (· ≠ .plane .n3) =
        (bs.filter (· ≠ .plane .n2)).filter (· ≠ .plane .n3) := by
    intro bs
    rw [List.filter_eq_self.2, List.filter_eq_self.2]
    all_goals
      intro b hb
      simp only [List.mem_filter, decide_eq_true_eq] at hb ⊢
      simp [hb]
  simp only [ranBuilt, honce, hpatches]

/-- The RAN interface is found again. -/
theorem ranIf_again {s s' : Switch} {nic : Text} (hnic : ranIf cfg s = some nic)
    (h : s' .ran = some (ranBuilt plan nic ((s .ran).getD .new))) :
    ranIf cfg s' = some nic := by
  unfold ranIf at hnic ⊢
  rw [h]
  cases hgiven : cfg.ranInterface with
  | some given =>
      rw [hgiven] at hnic
      exact hnic
  | none =>
      rw [hgiven] at hnic
      have hhead : (addOnce nic ((s .ran).getD .new).nics).head? = some nic := by
        cases hran : s .ran with
        | none => rfl
        | some st =>
            rw [hran] at hnic
            cases hnics : st.nics with
            | nil => simp [addOnce, hnics]
            | cons first rest =>
                obtain rfl : first = nic := by simpa [hnics] using hnic
                simp [addOnce, hnics]
      simp [ranBuilt, hhead]

theorem ranCommands_again {s s' : Switch} (h : setup plan n cfg s = some s')
    (hnil : ranCommands plan n cfg s = []) :
    ranCommands plan n cfg s' = [] := by
  obtain ⟨e, -, hran, -⟩ := setup_apply plan n cfg h
  unfold ranCommands at hnil ⊢
  unfold ranAfter at hran
  cases n with
  | edge => rfl
  | worker =>
      cases hmode : cfg.ranMode with
      | disabled =>
          simp only [hmode] at hran
          simp [hran]
      | n2n3 =>
          simp only [hmode] at hran hnil
          split at hnil
          · cases hnil
          · rename_i hnic
            rw [hnic] at hran
            have hsame : ranIf cfg s' = ranIf cfg s := by
              unfold ranIf
              rw [hran]
            simp only [hsame, hnic]
      | other => rfl

theorem ranAfter_again {s s' : Switch} (h : setup plan n cfg s = some s') :
    ranAfter plan n cfg s' = s' .ran := by
  obtain ⟨e, -, hran, -⟩ := setup_apply plan n cfg h
  unfold ranAfter at hran ⊢
  cases n with
  | edge => rfl
  | worker =>
      cases hmode : cfg.ranMode with
      | disabled =>
          simp only [hmode] at hran
          exact hran.symm
      | n2n3 =>
          simp only [hmode] at hran
          split at hran
          · rename_i nic hnic
            obtain ⟨hif, hpresent⟩ := Option.filter_eq_some_iff.1 hnic
            have hagain := ranIf_again hif hran
            have hnic' : (ranIf cfg s').filter cfg.present = some nic :=
              Option.filter_eq_some_iff.2 ⟨hagain, hpresent⟩
            simp only [hnic', hran, Option.getD_some, ranBuilt_ranBuilt]
          · rename_i hnic
            have hsame : ranIf cfg s' = ranIf cfg s := by
              unfold ranIf
              rw [hran]
            simp only [hsame, hnic]
      | other => rfl

/-- A second run of the script with the same settings changes nothing. -/
theorem setup_idem {s s' : Switch} (h : setup plan n cfg s = some s') :
    setup plan n cfg s' = some s' := by
  obtain ⟨e, he, -, hother⟩ := setup_apply plan n cfg h
  obtain ⟨s'', h''⟩ : ∃ s'', setup plan n cfg s' = some s'' := by
    rw [setup, he]
    exact ⟨_, rfl⟩
  obtain ⟨e', he', hran', hother'⟩ := setup_apply plan n cfg h''
  obtain rfl := Option.some.inj (he.symm.trans he')
  rw [h'']
  refine congrArg some (funext fun b => ?_)
  by_cases hb : b = .ran
  · subst hb
    exact hran'.trans (ranAfter_again h)
  have hdrops : drops plan n cfg s' b = true → drops plan n cfg s b = true := by
    unfold drops
    cases hcommands : ranCommands plan n cfg s with
    | nil => simp [ranCommands_again h hcommands]
    | cons _ _ => simp +contextual
  rw [hother' b hb]
  have hst := hother b hb
  by_cases hcreated : b ∈ created n cfg
  · rw [if_pos hcreated, Option.map_some] at hst ⊢
    rw [hst, Option.getD_some, configured_unpatched,
      unpatched_unpatched hdrops]
  · rw [if_neg hcreated] at hst ⊢
    cases b with
    | ran => exact absurd rfl hb
    | plane p =>
        have hplane (s : Switch) :
            removeBare (fun id => cfg.cellCount < id) s (.plane p) =
              s (.plane p) := rfl
        rw [hplane] at hst ⊢
        rw [hst, Option.map_map]
        refine congrArg (Option.map · _) (funext fun st => ?_)
        exact unpatched_unpatched hdrops st
    | cell p id =>
        have hdrop (s : Switch) (st : Option BridgeState) :
            st.map (unpatched (drops plan n cfg s (.cell p id))) = st :=
          Option.map_id'
        rw [hdrop, removeBare_cell] at hst ⊢
        rw [hst, Option.filter_filter]
        simp

/-- On the worker, from a start without bridges. -/
theorem setup_idem_oneCell :
    ∃ s', setup allYml .worker (oneCell .worker) s' = some s' := by
  obtain ⟨s', hs'⟩ := setup_oneCell
  exact ⟨s', setup_idem hs'⟩

end Idempotent

end Overlay
end Kelt
