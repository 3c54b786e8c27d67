import Kelt.Ueransim.State

/-!
# Disabling and enabling again

`disable` saves the counts that it finds and scales all instances to zero;
`enable` scales each to its saved count, and to one at least. A second `disable`
finds zeros, and saves those over the counts of the first.
-/

namespace Kelt
namespace Ueransim

universe u

section Toggle

variable {Φ : Type u}

/-- Replica count of an instance, if there is one of this name. -/
def Cluster.count (c : Cluster Φ) (kind : Kind) (name : Text) : Option Nat :=
  (c.instances kind).get? name

/-- The replica count saved for an instance. -/
def Cluster.saved (c : Cluster Φ) (kind : Kind) (name : Text) : Option Nat :=
  c.stored.bind (fun st => (st.replicas kind).get? name)

/-- `disable` once for each read, which is what the read comes to. -/
def Cluster.disables (c : Cluster Φ) (reads : List Read) : Cluster Φ :=
  reads.foldl (fun c read => (c.disable read true).1) c

theorem count_disable
    (c : Cluster Φ) (read : Read) (kind : Kind) (name : Text) :
    (c.disable read true).1.count kind name =
      (c.count kind name).map (fun _ => 0) :=
  (c.instances kind).get?_mapVals _ name

/-- Whatever was saved before, `disable` saves what it finds. -/
theorem saved_disable
    (c : Cluster Φ) (read : Read) (kind : Kind) (name : Text) :
    (c.disable read true).1.saved kind name = c.count kind name := by
  change (Dict.empty.update (c.instances kind)).get? name = _
  rw [Dict.get?_update, Dict.get?_empty, Option.or_none]
  rfl

theorem count_enable (c : Cluster Φ) (kind : Kind) (name : Text) :
    (c.enable .answers).1.count kind name =
      (c.count kind name).map
        (fun _ => max 1 ((c.saved kind name).getD 1)) := by
  refine ((c.instances kind).get?_mapVals _ name).trans ?_
  unfold Cluster.target Cluster.getState Cluster.saved
  cases c.stored <;> rfl

/-- After the first `disable` there are zeros, and the saved counts are those
from before it only until the second. -/
theorem after_disables
    (c : Cluster Φ) (read : Read) (rest : List Read)
    (kind : Kind) (name : Text) :
    (c.disables (read :: rest)).count kind name =
        (c.count kind name).map (fun _ => 0) ∧
      (c.disables (read :: rest)).saved kind name =
        (c.count kind name).map (fun n => if rest = [] then n else 0) := by
  induction rest generalizing c read with
  | nil =>
      refine ⟨count_disable c read kind name, ?_⟩
      refine (saved_disable c read kind name).trans ?_
      cases c.count kind name <;> rfl
  | cons read' rest ih =>
      obtain ⟨hcount, hsaved⟩ := ih (c.disable read true).1 read'
      rw [count_disable] at hcount hsaved
      refine ⟨hcount.trans ?_, hsaved.trans ?_⟩
      · cases c.count kind name <;> rfl
      · cases c.count kind name with
        | none => rfl
        | some n => simp

/-- One `disable`, or any number of them over a count of at most one, and then
`enable`: the count is what it was, but one at least. -/
theorem count_enable_disables
    (c : Cluster Φ) (read : Read) (rest : List Read)
    (kind : Kind) (name : Text)
    (h : rest = [] ∨ ∀ n, c.count kind name = some n → n ≤ 1) :
    (((c.disables (read :: rest)).enable .answers).1).count kind name =
      (c.count kind name).map (fun n => max 1 n) := by
  obtain ⟨hcount, hsaved⟩ := after_disables c read rest kind name
  rw [count_enable, hcount, hsaved]
  cases hn : c.count kind name with
  | none => rfl
  | some n =>
      rcases h with hrest | hle
      · simp [hrest]
      · have hn1 : n ≤ 1 := hle n hn
        by_cases hrest : rest = []
        · simp [hrest]
        · simp [hrest, hn1]

/-- Two replicas of one instance, none of another. -/
def twoUes : Cluster Nat where
  instances := fun _ => (Dict.single "ue-1".toList 2).set "ue-2".toList 0
  stored := none

theorem count_enable_disables_ues :
    ((twoUes.disables [.answers]).enable .answers).1.count .ues "ue-1".toList =
        some 2 ∧
      ((twoUes.disables [.fails, .answers]).enable .answers).1.count .ues
        "ue-2".toList = some 1 :=
  ⟨count_enable_disables twoUes .answers [] .ues _ (Or.inl rfl),
    count_enable_disables twoUes .fails [.answers] .ues _
      (Or.inr (by rintro n ⟨⟩; decide))⟩

/-- `enable` does not leave an instance at zero. -/
theorem enable_wakes_idle :
    ¬ ∀ (c : Cluster Nat) (read : Read) (rest : List Read)
      (kind : Kind) (name : Text),
      (((c.disables (read :: rest)).enable .answers).1).count kind name =
        c.count kind name := by
  intro h
  have hidle := h twoUes .answers [] .ues "ue-2".toList
  cases hidle

end Toggle

end Ueransim
end Kelt
