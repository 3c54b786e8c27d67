import Kelt.Lib.Dict
import Kelt.Lib.PyText
import Kelt.Lib.Runs

/-!
# The state of the UERANSIM dashboard

`UeransimService` keeps one ConfigMap: the replica counts saved when the
simulated RAN was last disabled, and the forms its instances were created from.
Each operation reads the whole state, edits it and writes the whole back.

`_get_state` answers any exception with the empty state: a read that fails
cannot be told from a ConfigMap that does not exist yet. What the operations do
to the manifests of the instances is left out.
-/

namespace Kelt
namespace Ueransim

universe u

section State

/-- The keys `gnbs` and `ues`. -/
inductive Kind where
  | gnbs
  | ues
deriving DecidableEq

/-- A dictionary for each kind, with the names of instances as its keys. -/
abbrev ByKind (ν : Type u) := Kind → Dict Text ν

/-- What the ConfigMap holds. -/
structure State (Φ : Type u) where
  replicas : ByKind Nat
  forms : ByKind Φ

/-- The state with nothing in it. -/
def State.empty {Φ : Type u} : State Φ :=
  ⟨fun _ => .empty, fun _ => .empty⟩

/-- The instances as the cluster lists them, with their replicas, and the state
in the ConfigMap, if there is one. -/
structure Cluster (Φ : Type u) where
  instances : ByKind Nat
  stored : Option (State Φ)

/-- A read of the ConfigMap answers, be it that there is none, or fails. -/
inductive Read where
  | answers
  | fails
deriving DecidableEq

/-- What `disable` and `enable` return. -/
structure Switched where
  enabled : Bool
  counts : ByKind Nat

variable {Φ : Type u}

namespace Cluster

/-- `_get_state` -/
def getState (c : Cluster Φ) : Read → State Φ
  | .answers => c.stored.getD .empty
  | .fails => .empty

/-- `_save_state`, which raises unless it saves. -/
def saveState (c : Cluster Φ) (saves : Bool) (state : State Φ) : Cluster Φ :=
  if saves then { c with stored := some state } else c

/-- `_record_form` -/
def recordForm (c : Cluster Φ) (read : Read) (saves : Bool)
    (kind : Kind) (name : Text) (payload : Φ) : Cluster Φ :=
  let state := c.getState read
  let forms := (state.forms kind).set name payload
  c.saveState saves
    { state with forms := Function.update state.forms kind forms }

/-- `_delete_form` -/
def deleteForm (c : Cluster Φ) (read : Read) (saves : Bool)
    (kind : Kind) (name : Text) : Cluster Φ :=
  let state := c.getState read
  let forms := (state.forms kind).erase name
  c.saveState saves
    { state with forms := Function.update state.forms kind forms }

/-- `disable`; it returns nothing when it raises. -/
def disable (c : Cluster Φ) (read : Read) (saves : Bool) :
    Cluster Φ × Option Switched :=
  let prev : ByKind Nat := fun kind => Dict.empty.update (c.instances kind)
  let zero : ByKind Nat := fun kind => (c.instances kind).mapVals (fun _ _ => 0)
  let state := c.getState read
  (({ c with instances := zero }).saveState saves
      { state with replicas := prev },
    if saves then some ⟨false, prev⟩ else none)

/-- The count that `enable` scales an instance to. -/
def target (prev : ByKind Nat) (kind : Kind) (name : Text) : Nat :=
  max 1 (((prev kind).get? name).getD 1)

/-- `enable` -/
def enable (c : Cluster Φ) (read : Read) : Cluster Φ × Switched :=
  let prev := (c.getState read).replicas
  let scaled : ByKind Nat := fun kind =>
    (c.instances kind).mapVals (fun name _ => target prev kind name)
  ({ c with instances := scaled },
    ⟨true, fun kind => Dict.empty.update (scaled kind)⟩)

end Cluster

/-- An operation on the stored state. -/
inductive Op (Φ : Type u) where
  | recordForm (kind : Kind) (name : Text) (payload : Φ)
  | deleteForm (kind : Kind) (name : Text)
  | enable
  | disable

/-- An operation with what becomes of its read and its write, or a change of the
instances from elsewhere: they are created, deleted and scaled. -/
inductive Act (Φ : Type u) where
  | call (op : Op Φ) (read : Read) (saves : Bool)
  | change (instances : ByKind Nat)

/-- The cluster after an operation. -/
def Cluster.call (c : Cluster Φ) (read : Read) (saves : Bool) :
    Op Φ → Cluster Φ
  | .recordForm kind name payload => c.recordForm read saves kind name payload
  | .deleteForm kind name => c.deleteForm read saves kind name
  | .enable => (c.enable read).1
  | .disable => (c.disable read saves).1

/-- The cluster after an action. -/
def Cluster.after (c : Cluster Φ) : Act Φ → Cluster Φ
  | .call op read saves => c.call read saves op
  | .change instances => { c with instances := instances }

/-- Every action can be taken; an operation may raise. -/
def Cluster.step (c : Cluster Φ) (a : Act Φ) : Option (Cluster Φ) :=
  some (c.after a)

end State

end Ueransim
end Kelt
