import Mathlib.Data.List.Nodup
import Mathlib.Tactic

/-!
# Insertion-ordered dictionaries

A dictionary is a list of key-value pairs whose keys are pairwise distinct.
Setting a key that is present replaces its value in place; setting a new key
appends the pair. The invariant on the keys is a field, so a dictionary with
two values for one key cannot be built.

The lookup lemmas `get?_set_self` and `get?_set_of_ne` say all that a caller
needs; two dictionaries with the same lookups denote the same mapping
(`SameMap`).
-/

namespace Kelt

universe u v

section Dict

/-- A finite mapping that remembers the order in which its keys were set. -/
structure Dict (κ : Type u) (ν : Type v) where
  items : List (κ × ν)
  nodup : (items.map Prod.fst).Nodup

namespace Dict

variable {κ : Type u} {ν : Type v}

instance [DecidableEq κ] [DecidableEq ν] : DecidableEq (Dict κ ν) :=
  fun d e =>
    decidable_of_iff (d.items = e.items)
      (by cases d; cases e; simp)

/-- The dictionary without keys. -/
def empty : Dict κ ν :=
  ⟨[], List.nodup_nil⟩

/-- The dictionary with one key. -/
def single (k : κ) (v : ν) : Dict κ ν :=
  ⟨[(k, v)], by simp⟩

/-- The keys, in the order in which they were first set. -/
def keys (d : Dict κ ν) : List κ :=
  d.items.map Prod.fst

variable [DecidableEq κ]

/-- Value of the first pair with key `k`. -/
def getItem (k : κ) : List (κ × ν) → Option ν
  | [] => none
  | (k', v) :: rest =>
      if k' = k then some v else getItem k rest

/-- Replace the value of `k` where it stands, or append the pair. -/
def setItem (k : κ) (v : ν) : List (κ × ν) → List (κ × ν)
  | [] => [(k, v)]
  | (k', v') :: rest =>
      if k' = k then (k, v) :: rest else (k', v') :: setItem k v rest

/-- Value of a key, when it is present. -/
def get? (d : Dict κ ν) (k : κ) : Option ν :=
  getItem k d.items

theorem getItem_eq_none_iff
    (k : κ) (items : List (κ × ν)) :
    getItem k items = none ↔ k ∉ items.map Prod.fst := by
  induction items with
  | nil =>
      simp [getItem]
  | cons p rest ih =>
      obtain ⟨k', v⟩ := p
      by_cases hk : k' = k
      · simp [getItem, hk]
      · have hk' : k ≠ k' := fun h => hk h.symm
        simp [getItem, hk, ih, hk']

theorem mem_of_getItem
    {k : κ} {v : ν} {items : List (κ × ν)}
    (h : getItem k items = some v) :
    (k, v) ∈ items := by
  induction items with
  | nil =>
      simp [getItem] at h
  | cons p rest ih =>
      obtain ⟨k', v'⟩ := p
      by_cases hk : k' = k
      · simp only [getItem, hk, if_true, Option.some.injEq] at h
        simp [hk, h]
      · simp only [getItem, hk, if_false] at h
        exact List.mem_cons_of_mem _ (ih h)

/-- With distinct keys, a lookup finds exactly the pairs of the list. -/
theorem getItem_eq_some_iff
    {items : List (κ × ν)}
    (hnodup : (items.map Prod.fst).Nodup)
    (k : κ) (v : ν) :
    getItem k items = some v ↔ (k, v) ∈ items := by
  refine ⟨mem_of_getItem, ?_⟩
  induction items with
  | nil =>
      simp
  | cons p rest ih =>
      obtain ⟨k', v'⟩ := p
      simp only [List.map_cons, List.nodup_cons] at hnodup
      intro h
      rcases List.mem_cons.mp h with h | h
      · obtain ⟨rfl, rfl⟩ := Prod.mk.inj h
        simp [getItem]
      · have hne : k' ≠ k := by
          rintro rfl
          exact hnodup.1 (List.mem_map.mpr ⟨(k', v), h, rfl⟩)
        simp [getItem, hne, ih hnodup.2 h]

theorem map_fst_setItem
    (k : κ) (v : ν) (items : List (κ × ν)) :
    (setItem k v items).map Prod.fst =
      if k ∈ items.map Prod.fst then items.map Prod.fst
      else items.map Prod.fst ++ [k] := by
  induction items with
  | nil =>
      simp [setItem]
  | cons p rest ih =>
      obtain ⟨k', v'⟩ := p
      by_cases hk : k' = k
      · simp [setItem, hk]
      · have hk' : k ≠ k' := fun h => hk h.symm
        by_cases hmem : k ∈ rest.map Prod.fst
        · simp only [hmem, if_true] at ih
          simp only [setItem, hk, if_false, List.map_cons, ih,
            List.mem_cons, hmem, or_true, if_true]
        · simp only [hmem, if_false] at ih
          simp only [setItem, hk, if_false, List.map_cons, ih,
            List.mem_cons, hmem, hk', or_false, List.cons_append]

/-- Setting a key keeps the keys distinct. -/
theorem nodup_setItem
    (k : κ) (v : ν) {items : List (κ × ν)}
    (hnodup : (items.map Prod.fst).Nodup) :
    ((setItem k v items).map Prod.fst).Nodup := by
  rw [map_fst_setItem]
  split_ifs with hmem
  · exact hnodup
  · exact List.nodup_append'.mpr
      ⟨hnodup, List.nodup_singleton k, by simpa using hmem⟩

/-- Set a key to a value. -/
def set (d : Dict κ ν) (k : κ) (v : ν) : Dict κ ν :=
  ⟨setItem k v d.items, nodup_setItem k v d.nodup⟩

/-- `{**d, **e}`. -/
def update (d e : Dict κ ν) : Dict κ ν :=
  e.items.foldl (fun d kv => d.set kv.1 kv.2) d

@[simp] theorem get?_empty (k : κ) :
    (empty : Dict κ ν).get? k = none :=
  rfl

theorem getItem_setItem
    (k k' : κ) (v : ν) (items : List (κ × ν)) :
    getItem k' (setItem k v items) =
      if k = k' then some v else getItem k' items := by
  induction items with
  | nil =>
      simp [setItem, getItem]
  | cons p rest ih =>
      obtain ⟨k₁, v₁⟩ := p
      by_cases h₁ : k₁ = k
      · subst h₁
        by_cases hk : k₁ = k' <;> simp [setItem, getItem, hk]
      · by_cases h₂ : k₁ = k'
        · subst h₂
          have hk : k ≠ k₁ := fun h => h₁ h.symm
          simp [setItem, getItem, h₁, hk]
        · simp [setItem, getItem, h₁, h₂, ih]

/-- Setting what is there changes nothing. -/
theorem setItem_self {k : κ} {v : ν} {items : List (κ × ν)}
    (h : getItem k items = some v) : setItem k v items = items := by
  induction items with
  | nil => cases h
  | cons p rest ih =>
      obtain ⟨k₁, v₁⟩ := p
      rw [getItem] at h
      rw [setItem]
      split at h
      · rename_i hk
        rw [if_pos hk, hk, Option.some.inj h]
      · rename_i hk
        rw [if_neg hk, ih h]

theorem setItem_setItem (k : κ) (v v' : ν) (items : List (κ × ν)) :
    setItem k v' (setItem k v items) = setItem k v' items := by
  induction items with
  | nil => simp [setItem]
  | cons p rest ih =>
      obtain ⟨k', w⟩ := p
      by_cases hk : k' = k
      · simp [setItem, hk]
      · simp [setItem, hk, ih]

theorem mem_setItem
    {k k' : κ} {v v' : ν} {items : List (κ × ν)}
    (h : (k', v') ∈ setItem k v items) :
    (k', v') = (k, v) ∨ (k', v') ∈ items := by
  induction items with
  | nil => exact Or.inl (List.mem_singleton.1 h)
  | cons p rest ih =>
      obtain ⟨k₁, v₁⟩ := p
      rw [setItem] at h
      split_ifs at h with hk
      · exact (List.mem_cons.1 h).imp id (List.mem_cons_of_mem _)
      · rcases List.mem_cons.1 h with h | h
        · exact Or.inr (h ▸ List.mem_cons_self)
        · exact (ih h).imp id (List.mem_cons_of_mem _)

/-- A lookup after a set. -/
theorem get?_set (d : Dict κ ν) (k k' : κ) (v : ν) :
    (d.set k v).get? k' = if k = k' then some v else d.get? k' :=
  getItem_setItem k k' v d.items

@[simp] theorem get?_set_self (d : Dict κ ν) (k : κ) (v : ν) :
    (d.set k v).get? k = some v := by
  simp [get?_set]

theorem get?_set_of_ne (d : Dict κ ν) {k k' : κ} (v : ν) (hne : k' ≠ k) :
    (d.set k v).get? k' = d.get? k' := by
  rw [get?_set, if_neg hne.symm]

theorem get?_eq_some_iff (d : Dict κ ν) (k : κ) (v : ν) :
    d.get? k = some v ↔ (k, v) ∈ d.items :=
  getItem_eq_some_iff d.nodup k v

/-- What all pairs meet, every lookup meets. -/
theorem forall_get? {d : Dict κ ν} {q : κ → ν → Prop}
    (h : ∀ kv ∈ d.items, q kv.1 kv.2) (k : κ) (v : ν)
    (hv : d.get? k = some v) : q k v :=
  h (k, v) ((d.get?_eq_some_iff k v).1 hv)

theorem get?_eq_none_iff (d : Dict κ ν) (k : κ) :
    d.get? k = none ↔ k ∉ d.keys :=
  getItem_eq_none_iff k d.items

/-- The pairs with another key. -/
def eraseItem (k : κ) (items : List (κ × ν)) : List (κ × ν) :=
  items.filter (fun kv => !decide (kv.1 = k))

/-- `d.pop(k, None)`. -/
def erase (d : Dict κ ν) (k : κ) : Dict κ ν where
  items := eraseItem k d.items
  nodup := d.nodup.sublist (List.filter_sublist.map Prod.fst)

theorem getItem_eraseItem (k k' : κ) (items : List (κ × ν)) :
    getItem k' (eraseItem k items) =
      if k = k' then none else getItem k' items := by
  induction items with
  | nil => simp [eraseItem, getItem]
  | cons p rest ih =>
      obtain ⟨k₁, v₁⟩ := p
      unfold eraseItem at ih ⊢
      by_cases h₁ : k₁ = k
      · subst h₁
        by_cases hk : k₁ = k' <;> simp [getItem, hk] at ih ⊢ <;> exact ih
      · by_cases h₂ : k₁ = k'
        · subst h₂
          have hk : k ≠ k₁ := fun h => h₁ h.symm
          simp [getItem, h₁, hk]
        · simpa [getItem, h₁, h₂] using ih

/-- A lookup after an erase. -/
theorem get?_erase (d : Dict κ ν) (k k' : κ) :
    (d.erase k).get? k' = if k = k' then none else d.get? k' :=
  getItem_eraseItem k k' d.items

theorem get?_erase_of_ne (d : Dict κ ν) {k k' : κ} (hne : k' ≠ k) :
    (d.erase k).get? k' = d.get? k' := by
  rw [get?_erase, if_neg hne.symm]

/-- `{**items, **more}` on the pairs themselves. -/
def updateItems (items more : List (κ × ν)) : List (κ × ν) :=
  more.foldl (fun items kv => setItem kv.1 kv.2 items) items

theorem getItem_updateItems {more : List (κ × ν)}
    (hmore : (more.map Prod.fst).Nodup) (items : List (κ × ν)) (k : κ) :
    getItem k (updateItems items more) =
      (getItem k more).or (getItem k items) := by
  unfold updateItems
  induction more generalizing items with
  | nil => rfl
  | cons p rest ih =>
      obtain ⟨k', v⟩ := p
      rw [List.map_cons, List.nodup_cons] at hmore
      rw [List.foldl_cons, ih hmore.2, getItem_setItem]
      by_cases hk : k' = k
      · subst hk
        have hrest : getItem k' rest = none :=
          (getItem_eq_none_iff k' rest).2 hmore.1
        simp [getItem, hrest]
      · simp [getItem, hk]

theorem items_update (d e : Dict κ ν) :
    (d.update e).items = updateItems d.items e.items := by
  unfold update updateItems
  induction e.items generalizing d with
  | nil => rfl
  | cons p rest ih => exact ih (d.set p.1 p.2)

/-- A lookup after an update. -/
theorem get?_update (d e : Dict κ ν) (k : κ) :
    (d.update e).get? k = (e.get? k).or (d.get? k) := by
  unfold get?
  rw [items_update, getItem_updateItems e.nodup]

/-- The dictionary with every value replaced. -/
def mapVals {μ : Type*} (d : Dict κ ν) (f : κ → ν → μ) : Dict κ μ where
  items := d.items.map (fun kv => (kv.1, f kv.1 kv.2))
  nodup := by
    rw [List.map_map]
    exact d.nodup

/-- A lookup after all values are replaced. -/
theorem get?_mapVals {μ : Type*} (d : Dict κ ν) (f : κ → ν → μ) (k : κ) :
    (d.mapVals f).get? k = (d.get? k).map (f k) := by
  change
    getItem k (d.items.map (fun kv => (kv.1, f kv.1 kv.2))) =
      (getItem k d.items).map (f k)
  induction d.items with
  | nil => rfl
  | cons p rest ih =>
      obtain ⟨k', v⟩ := p
      by_cases hk : k' = k
      · subst hk
        simp [getItem]
      · simpa [getItem, hk] using ih

/-- Two dictionaries with the same value for every key. -/
def SameMap (d e : Dict κ ν) : Prop :=
  ∀ k, d.get? k = e.get? k

end Dict

end Dict

end Kelt
