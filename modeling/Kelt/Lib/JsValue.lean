import Kelt.Lib.Json
import Kelt.Lib.Outcome

/-!
# JSON values in JavaScript

What the language does with the values of a parsed document: whether a value
counts as true, members that may be undefined, and `in`, which only objects and
arrays admit. `onField` applies a function to the member under a name where it
stands, and does nothing where there is none.
-/

namespace Kelt

universe u

/-- What a script throws. -/
inductive JsError where
  | typeError

namespace Json

section Values

variable {ν : Type u} [Zero ν] [DecidableEq ν]

def isTruthy : Json ν → Bool
  | null => false
  | bool b => b
  | num n => decide (n ≠ 0)
  | str t => !t.isEmpty
  | arr _ => true
  | obj _ => true

/-- The truth of a value that may be undefined. -/
def truthy (v : Option (Json ν)) : Bool :=
  v.any isTruthy

theorem isTruthy_of_field? {v x : Json ν} {name : Text}
    (h : field? name v = some x) : v.isTruthy = true := by
  cases v with
  | obj fields => rfl
  | _ => cases h

end Values

section Members

variable {ν : Type u}

def isContainer : Json ν → Bool
  | arr _ | obj _ => true
  | _ => false

theorem isContainer_of_field? {v x : Json ν} {name : Text}
    (h : field? name v = some x) : v.isContainer = true := by
  cases v with
  | obj fields => rfl
  | _ => cases h

/-- `v?.name` -/
def prop (v : Option (Json ν)) (name : Text) : Option (Json ν) :=
  v.bind (field? name)

@[simp] theorem prop_some (v : Json ν) (name : Text) :
    prop (some v) name = field? name v :=
  rfl

@[simp] theorem prop_none (name : Text) :
    prop (none : Option (Json ν)) name = none :=
  rfl

/-- `name in v` -/
def hasIn (name : Text) : Json ν → Except JsError Bool
  | obj fields => .ok (Dict.getItem name fields).isSome
  | arr _ => .ok false
  | _ => .error .typeError

/-- `v.name = x` on an object. -/
def setField (name : Text) (x : Json ν) : Json ν → Json ν
  | obj fields => obj (Dict.setItem name x fields)
  | v => v

/-- `delete v.name` on an object. -/
def eraseField (name : Text) : Json ν → Json ν
  | obj fields => obj (Dict.eraseItem name fields)
  | v => v

theorem field?_setField_self {name : Text} {v w : Json ν} (x : Json ν)
    (h : field? name v = some w) :
    field? name (setField name x v) = some x := by
  cases v with
  | obj fields => simp [setField, field?, Dict.getItem_setItem]
  | _ => cases h

theorem field?_setField_of_ne {name other : Text} (h : other ≠ name)
    (x v : Json ν) :
    field? other (setField name x v) = field? other v := by
  cases v with
  | obj fields => simp [setField, field?, Dict.getItem_setItem, h.symm]
  | _ => rfl

theorem setField_self {name : Text} {v x : Json ν}
    (h : field? name v = some x) : setField name x v = v := by
  cases v with
  | obj fields => exact congrArg obj (Dict.setItem_self h)
  | _ => cases h

theorem field?_eraseField (name other : Text) (v : Json ν) :
    field? other (eraseField name v) =
      if name = other then none else field? other v := by
  cases v with
  | obj fields => exact Dict.getItem_eraseItem name other fields
  | _ => exact (ite_self none).symm

end Members

section OnField

variable {ν : Type u}

def onField (name : Text) (f : Json ν → Except JsError (Json ν))
    (v : Json ν) : Except JsError (Json ν) :=
  match field? name v with
  | some x => (f x).map fun y => setField name y v
  | none => .ok v

/-- The function applied to a member that may be undefined. -/
def Along (f : Json ν → Except JsError (Json ν)) (o o' : Option (Json ν)) :
    Prop :=
  (o = none ∧ o' = none) ∨ ∃ x y, o = some x ∧ o' = some y ∧ f x = .ok y

/-- The member is changed and nothing else. -/
theorem onField_spec {name : Text} {f : Json ν → Except JsError (Json ν)}
    {v v' : Json ν} (h : onField name f v = .ok v') :
    Along f (field? name v) (field? name v') ∧
      (∀ other, other ≠ name → field? other v' = field? other v) ∧
      (field? name v' = field? name v → v' = v) := by
  unfold onField at h
  cases hx : field? name v with
  | none =>
      rw [hx] at h
      obtain rfl := Except.ok.inj h
      exact ⟨Or.inl ⟨rfl, hx⟩, fun _ _ => rfl, fun _ => rfl⟩
  | some x =>
      rw [hx] at h
      obtain ⟨y, hy, rfl⟩ := except_map_eq_ok_iff.1 h
      have hself := field?_setField_self y hx
      refine ⟨Or.inr ⟨x, y, rfl, hself, hy⟩,
        fun other hne => field?_setField_of_ne hne y v, fun hsame => ?_⟩
      obtain rfl := Option.some.inj (hself.symm.trans hsame)
      exact setField_self hx

theorem exists_onField_iff (name : Text)
    (f : Json ν → Except JsError (Json ν)) (v : Json ν) :
    (∃ v', onField name f v = .ok v') ↔
      ∀ x, field? name v = some x → ∃ y, f x = .ok y := by
  unfold onField
  cases hx : field? name v with
  | none => exact iff_of_true ⟨v, rfl⟩ nofun
  | some x =>
      constructor
      · rintro ⟨v', h⟩ x' hx'
        obtain rfl := Option.some.inj hx'
        obtain ⟨y, hy, -⟩ := except_map_eq_ok_iff.1 h
        exact ⟨y, hy⟩
      · intro h
        obtain ⟨y, hy⟩ := h x rfl
        exact ⟨_, except_map_eq_ok_iff.2 ⟨y, hy, rfl⟩⟩

/-- A function that leaves a member leaves the object. -/
theorem onField_eq_self {name : Text} {f : Json ν → Except JsError (Json ν)}
    {v : Json ν} (h : ∀ x, field? name v = some x → f x = .ok x) :
    onField name f v = .ok v := by
  unfold onField
  cases hx : field? name v with
  | none => rfl
  | some x => exact except_map_eq_ok_iff.2 ⟨x, h x hx, setField_self hx⟩

theorem isContainer_onField {name : Text}
    {f : Json ν → Except JsError (Json ν)} {v v' : Json ν}
    (h : onField name f v = .ok v') (hv : v.isContainer = true) :
    v'.isContainer = true := by
  unfold onField at h
  split at h
  · obtain ⟨y, -, rfl⟩ := except_map_eq_ok_iff.1 h
    cases v with
    | obj fields => rfl
    | _ => exact hv
  · obtain rfl := Except.ok.inj h
    exact hv

theorem onField_onField_eq_self {outer inner : Text}
    {f : Json ν → Except JsError (Json ν)} {v : Json ν}
    (h : ∀ x, prop (field? outer v) inner = some x → f x = .ok x) :
    onField outer (onField inner f) v = .ok v := by
  refine onField_eq_self fun x hx => onField_eq_self fun y hy => h y ?_
  rw [hx]
  exact hy

theorem isTruthy_onField [Zero ν] [DecidableEq ν] {name : Text}
    {f : Json ν → Except JsError (Json ν)} {v v' : Json ν}
    (h : onField name f v = .ok v') (hv : v.isTruthy = true) :
    v'.isTruthy = true := by
  unfold onField at h
  split at h
  · obtain ⟨y, -, rfl⟩ := except_map_eq_ok_iff.1 h
    cases v with
    | obj fields => rfl
    | _ => exact hv
  · obtain rfl := Except.ok.inj h
    exact hv

end OnField

end Json

end Kelt
