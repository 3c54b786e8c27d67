import Kelt.Lib.Json
import Mathlib.Data.Option.Basic

/-!
# Documents up to the order of their members

Two JSON values are the same document when they differ in the order of members
only. `same_obj_iff` says it of objects by their lookups, name by name, and is
what a proof about an assembled object uses; the members of an object that was
read are listed once each (`distinct`).
-/

namespace Kelt

universe u

namespace Json

section Same

variable {ν : Type u}

inductive Same : Json ν → Json ν → Prop where
  | null : Same null null
  | bool (b : Bool) : Same (bool b) (bool b)
  | num (n : ν) : Same (num n) (num n)
  | str (t : Text) : Same (str t) (str t)
  | arr {xs ys : List (Json ν)} (hlen : xs.length = ys.length)
      (h : ∀ (i : ℕ) x y, xs[i]? = some x → ys[i]? = some y → Same x y) :
      Same (arr xs) (arr ys)
  | obj {fs gs : Members ν}
      (hnames : ∀ name, (Dict.getItem name fs).isSome =
        (Dict.getItem name gs).isSome)
      (h : ∀ name x y, Dict.getItem name fs = some x →
        Dict.getItem name gs = some y → Same x y) :
      Same (obj fs) (obj gs)

theorem sizeOf_lt_of_getItem {name : Text} {x : Json ν} {fs : Members ν}
    (h : Dict.getItem name fs = some x) : sizeOf x < sizeOf fs := by
  have hpair := List.sizeOf_lt_of_mem (Dict.mem_of_getItem h)
  simp only [Prod.mk.sizeOf_spec] at hpair
  omega

theorem Same.refl (v : Json ν) : Same v v := by
  match v with
  | .null => exact .null
  | .bool b => exact .bool b
  | .num n => exact .num n
  | .str t => exact .str t
  | .arr xs =>
      refine .arr rfl fun i x y hx hy => ?_
      obtain rfl := Option.some.inj (hx.symm.trans hy)
      have hlt := List.sizeOf_lt_of_mem (List.mem_of_getElem? hx)
      exact Same.refl x
  | .obj fs =>
      refine .obj (fun _ => rfl) fun name x y hx hy => ?_
      obtain rfl := Option.some.inj (hx.symm.trans hy)
      have hlt := sizeOf_lt_of_getItem hx
      exact Same.refl x
termination_by sizeOf v
decreasing_by
  · simp only [arr.sizeOf_spec]
    omega
  · simp only [obj.sizeOf_spec]
    omega

theorem Same.symm {v w : Json ν} (h : Same v w) : Same w v := by
  induction h with
  | null => exact .null
  | bool b => exact .bool b
  | num n => exact .num n
  | str t => exact .str t
  | arr hlen _ ih =>
      exact .arr hlen.symm fun i y x hy hx => ih i x y hx hy
  | obj hnames _ ih =>
      exact .obj (fun name => (hnames name).symm)
        fun name y x hy hx => ih name x y hx hy

theorem Same.trans {v w u : Json ν} (h : Same v w) (h' : Same w u) :
    Same v u := by
  induction h generalizing u with
  | null => exact h'
  | bool b => exact h'
  | num n => exact h'
  | str t => exact h'
  | arr hlen _ ih =>
      cases h' with
      | arr hlen' h' =>
          refine .arr (hlen.trans hlen') fun i x z hx hz => ?_
          obtain ⟨hi, -⟩ := List.getElem?_eq_some_iff.1 hx
          have hy := List.getElem?_eq_getElem (hlen ▸ hi)
          exact ih i x _ hx hy (h' i _ z hy hz)
  | obj hnames _ ih =>
      cases h' with
      | obj hnames' h' =>
          refine .obj (fun name => (hnames name).trans (hnames' name))
            fun name x z hx hz => ?_
          have hsome := hnames name
          rw [hx] at hsome
          obtain ⟨y, hy⟩ := Option.isSome_iff_exists.1 hsome.symm
          exact ih name x y hx hy (h' name y z hy hz)

/-- The same member, or none on both sides. -/
abbrev SameMember : Option (Json ν) → Option (Json ν) → Prop :=
  Option.Rel Same

theorem SameMember.refl (o : Option (Json ν)) : SameMember o o := by
  cases o with
  | none => exact .none
  | some v => exact .some (Same.refl v)

theorem SameMember.symm {o p : Option (Json ν)} (h : SameMember o p) :
    SameMember p o := by
  cases h with
  | none => exact .none
  | some h => exact .some h.symm

theorem SameMember.trans {o p q : Option (Json ν)} (h : SameMember o p)
    (h' : SameMember p q) : SameMember o q := by
  cases h with
  | none => exact h'
  | some h =>
      cases h' with
      | some h' => exact .some (h.trans h')

theorem sameMember_some_iff {v : Json ν} {o : Option (Json ν)} :
    SameMember (some v) o ↔ ∃ w, o = some w ∧ Same v w := by
  constructor
  · intro h
    cases h with
    | some h => exact ⟨_, rfl, h⟩
  · rintro ⟨w, rfl, h⟩
    exact .some h

theorem sameMember_none_iff {o : Option (Json ν)} :
    SameMember none o ↔ o = none := by
  constructor
  · intro h
    cases h
    rfl
  · rintro rfl
    exact .none

theorem same_obj_iff {fs : Members ν} {v : Json ν} :
    Same (obj fs) v ↔ ∃ gs, v = obj gs ∧
      ∀ name, SameMember (Dict.getItem name fs) (Dict.getItem name gs) := by
  constructor
  · intro h
    cases h with
    | @obj fs gs hnames h =>
        refine ⟨gs, rfl, fun name => ?_⟩
        have hsome := hnames name
        cases hx : Dict.getItem name fs with
        | none =>
            rw [hx] at hsome
            have hnone := Option.not_isSome_iff_eq_none.1
              (Bool.eq_false_iff.1 hsome.symm)
            rw [hnone]
            exact .none
        | some x =>
            rw [hx] at hsome
            obtain ⟨y, hy⟩ := Option.isSome_iff_exists.1 hsome.symm
            rw [hy]
            exact .some (h name x y hx hy)
  · rintro ⟨gs, rfl, h⟩
    refine .obj (fun name => ?_) fun name x y hx hy => ?_
    · have hname := h name
      cases hx : Dict.getItem name fs with
      | none =>
          rw [hx, sameMember_none_iff] at hname
          rw [hname]
      | some x =>
          rw [hx, sameMember_some_iff] at hname
          obtain ⟨y, hy, -⟩ := hname
          rw [hy]
          rfl
    · have hname := h name
      rw [hx, hy] at hname
      cases hname with
      | some h => exact h

theorem members_eq_nil {fs : Members ν}
    (h : ∀ name, Dict.getItem name fs = none) : fs = [] := by
  cases fs with
  | nil => rfl
  | cons p rest =>
      have hname := h p.1
      rw [Dict.getItem, if_pos rfl] at hname
      cases hname

/-- Members of which only some names are there are compared under these. -/
theorem sameMembers_iff {names : List Text} {fs gs : Members ν}
    (h : ∀ name, name ∉ names → Dict.getItem name fs = none) :
    (∀ name, SameMember (Dict.getItem name fs) (Dict.getItem name gs)) ↔
      (∀ name ∈ names,
        SameMember (Dict.getItem name fs) (Dict.getItem name gs)) ∧
      ∀ name, name ∉ names → Dict.getItem name gs = none := by
  constructor
  · intro hall
    refine ⟨fun name _ => hall name, fun name hname => ?_⟩
    have hnone := hall name
    rwa [h name hname, sameMember_none_iff] at hnone
  · rintro ⟨hnames, hothers⟩ name
    by_cases hname : name ∈ names
    · exact hnames name hname
    · rw [h name hname, hothers name hname]
      exact .none

theorem same_arr_singleton_iff {x v : Json ν} :
    Same (arr [x]) v ↔ ∃ y, v = arr [y] ∧ Same x y := by
  constructor
  · intro h
    cases h with
    | @arr xs ys hlen h =>
        obtain ⟨y, rfl⟩ := List.length_eq_one_iff.1 hlen.symm
        exact ⟨y, rfl, h 0 x y rfl rfl⟩
  · rintro ⟨y, rfl, h⟩
    refine .arr rfl fun i x' y' hx hy => ?_
    cases i with
    | zero =>
        obtain rfl := Option.some.inj hx
        obtain rfl := Option.some.inj hy
        exact h
    | succ i => cases hx

end Same

section Distinct

variable {ν : Type u}

/-- The members of an object, each name with its first value. -/
def distinct : Members ν → Members ν
  | [] => []
  | (name, v) :: rest => (name, v) :: Dict.eraseItem name (distinct rest)

theorem mem_distinct_iff {name : Text} {v : Json ν} {fs : Members ν} :
    (name, v) ∈ distinct fs ↔ Dict.getItem name fs = some v := by
  induction fs with
  | nil => simp [distinct, Dict.getItem]
  | cons p rest ih =>
      obtain ⟨k, x⟩ := p
      rw [distinct, List.mem_cons, Dict.eraseItem, List.mem_filter, ih,
        Dict.getItem]
      by_cases hk : k = name
      · subst hk
        simp [eq_comm]
      · have hk' : name ≠ k := fun h => hk h.symm
        simp [hk, hk']

theorem getItem_distinct (name : Text) (fs : Members ν) :
    Dict.getItem name (distinct fs) = Dict.getItem name fs := by
  induction fs with
  | nil => rfl
  | cons p rest ih =>
      obtain ⟨k, x⟩ := p
      rw [distinct, Dict.getItem, Dict.getItem, Dict.getItem_eraseItem, ih]
      by_cases hk : k = name
      · simp [hk]
      · simp [hk]

end Distinct

end Json

end Kelt
