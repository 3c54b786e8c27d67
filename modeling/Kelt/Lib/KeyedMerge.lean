import Mathlib.Data.List.Sort
import Mathlib.Tactic

/-!
# Patching lists by a merge key

A stored list is patched by a list of items that name what they patch by a key.
Each patch item goes into the first stored item with its key, or is appended.
Afterwards the items that the patch names stand in the order of the patch, and
the others keep their order and their place among them as far as the stored
list tells it.

`Patcher.create_eq_iff` says when a patch leaves what creating the list from it
would give.
-/

namespace Kelt

universe u v w

section KeyedMerge

variable {κ : Type u} {α : Type v} {β : Type w}

/-- How an item of a patch goes into a stored item, or makes a new one. -/
structure Patcher (κ : Type u) (α : Type v) (β : Type w) where
  key : α → κ
  patchKey : β → κ
  put : Option α → β → α
  key_put : ∀ (o : Option α) (b : β), key (put o b) = patchKey b

namespace Patcher

variable [DecidableEq κ] (P : Patcher κ α β)

/-- One item of a patch. -/
def one (b : β) : List α → List α
  | [] => [P.put none b]
  | x :: xs =>
      if P.key x = P.patchKey b then P.put (some x) b :: xs
      else x :: one b xs

/-- All items of a patch, one after the other. -/
def all (xs : List α) (bs : List β) : List α :=
  bs.foldl (fun acc b => P.one b acc) xs

/-- Place of an item in a list of keys. -/
def place (order : List κ) (x : α) : Nat :=
  order.idxOf (P.key x)

def sortBy (order : List κ) (xs : List α) : List α :=
  xs.insertionSort (fun x y => P.place order x ≤ P.place order y)

/-- The first of two items stands before the second in the order. -/
def precedes (order : List κ) (x y : α) : Bool :=
  decide (P.key x ∈ order ∧ P.key y ∈ order ∧ P.place order x < P.place order y)

/-- The patched list. -/
def apply (xs : List α) (bs : List β) : List α :=
  let patched := P.all xs bs
  let patchOrder := bs.map P.patchKey
  let others := patched.filter (fun x => decide (P.key x ∉ patchOrder))
  let named := patched.filter (fun x => decide (P.key x ∈ patchOrder))
  List.merge (P.sortBy (xs.map P.key) others) (P.sortBy patchOrder named)
    (P.precedes (xs.map P.key))

/-- The list that a patch makes where there is none. -/
def create (bs : List β) : List α :=
  bs.map (P.put none)

theorem mem_apply {xs : List α} {bs : List β} {x : α} :
    x ∈ P.apply xs bs ↔ x ∈ P.all xs bs := by
  simp only [apply, List.mem_merge, sortBy, List.mem_insertionSort,
    List.mem_filter, decide_eq_true_eq]
  tauto

section Exists

variable {U : α → Prop} {V : β → Prop}

/-- A property of items that patch items bring and nothing takes away. -/
theorem exists_one_iff {xs : List α} {b : β}
    (hnone : U (P.put none b) ↔ V b)
    (hsome : ∀ x, P.key x = P.patchKey b → (U (P.put (some x) b) ↔ U x ∨ V b)) :
    (∃ x ∈ P.one b xs, U x) ↔ (∃ x ∈ xs, U x) ∨ V b := by
  induction xs with
  | nil => simp [one, hnone]
  | cons y ys ih =>
      rw [one]
      split_ifs with hkey
      · simp only [List.exists_mem_cons_iff, hsome y hkey]
        exact or_right_comm
      · simp only [List.exists_mem_cons_iff, ih]
        exact or_assoc.symm

theorem exists_apply_iff {xs : List α} {bs : List β}
    (hnone : ∀ b ∈ bs, (U (P.put none b) ↔ V b))
    (hsome : ∀ b ∈ bs, ∀ x, P.key x = P.patchKey b →
      (U (P.put (some x) b) ↔ U x ∨ V b)) :
    (∃ x ∈ P.apply xs bs, U x) ↔ (∃ x ∈ xs, U x) ∨ ∃ b ∈ bs, V b := by
  simp only [mem_apply]
  induction bs generalizing xs with
  | nil => simp [all]
  | cons b bs ih =>
      have hstep := @ih (P.one b xs)
        (fun c hc => hnone c (List.mem_cons_of_mem b hc))
        (fun c hc => hsome c (List.mem_cons_of_mem b hc))
      have hone : (∃ x ∈ P.one b xs, U x) ↔ (∃ x ∈ xs, U x) ∨ V b :=
        P.exists_one_iff (hnone b List.mem_cons_self)
          (hsome b List.mem_cons_self)
      rw [List.exists_mem_cons_iff, ← or_assoc, ← hone]
      exact hstep

end Exists

theorem key_mem_apply_iff {xs : List α} {bs : List β} {k : κ} :
    k ∈ (P.apply xs bs).map P.key ↔
      k ∈ xs.map P.key ∨ k ∈ bs.map P.patchKey := by
  simp only [List.mem_map]
  refine P.exists_apply_iff (fun b _ => ?_) (fun b _ x hx => ?_)
  · rw [P.key_put]
  · rw [P.key_put, hx, or_self]

/-- The items with a key. -/
def withKey (k : κ) (xs : List α) : List α :=
  xs.filter (fun x => decide (P.key x = k))

/-- A patch item among the items with its key. -/
def bump (b : β) : List α → List α
  | [] => [P.put none b]
  | x :: xs => P.put (some x) b :: xs

theorem withKey_one (k : κ) (b : β) (xs : List α) :
    P.withKey k (P.one b xs) =
      if P.patchKey b = k then P.bump b (P.withKey k xs) else P.withKey k xs := by
  induction xs with
  | nil =>
      by_cases hk : P.patchKey b = k <;>
        simp [withKey, one, bump, P.key_put, hk]
  | cons x xs ih =>
      rw [one]
      by_cases hx : P.key x = P.patchKey b
      · by_cases hk : P.patchKey b = k <;>
          simp [withKey, bump, P.key_put, hx, hk]
      · rw [if_neg hx]
        simp only [withKey, List.filter_cons, decide_eq_true_eq] at ih ⊢
        by_cases hk : P.patchKey b = k
        · have hxk : P.key x ≠ k := fun h => hx (h.trans hk.symm)
          rw [if_neg hxk, if_neg hxk, ih]
        · rw [if_neg hk] at ih ⊢
          rw [ih]

theorem withKey_all (k : κ) (xs : List α) (bs : List β) :
    P.withKey k (P.all xs bs) =
      (bs.filter (fun b => decide (P.patchKey b = k))).foldl
        (fun acc b => P.bump b acc) (P.withKey k xs) := by
  induction bs generalizing xs with
  | nil => rfl
  | cons b bs ih =>
      rw [all, List.foldl_cons, ← all, ih, withKey_one]
      by_cases hk : P.patchKey b = k
      · simp [hk]
      · simp [hk]

theorem withKey_orderedInsert (k : κ) (order : List κ) (x : α) (xs : List α) :
    P.withKey k
        (xs.orderedInsert (fun y z => P.place order y ≤ P.place order z) x) =
      P.withKey k (x :: xs) := by
  induction xs with
  | nil => rfl
  | cons y ys ih =>
      by_cases hle : P.place order x ≤ P.place order y
      · rw [List.orderedInsert_cons_of_le _ ys hle]
      · have hne : P.key x ≠ P.key y := by
          intro heq
          exact hle (le_of_eq (congrArg order.idxOf heq))
        rw [List.orderedInsert_of_not_le _ ys hle]
        simp only [withKey, List.filter_cons, decide_eq_true_eq] at ih ⊢
        rw [ih]
        by_cases hy : P.key y = k
        · have hx : P.key x ≠ k := fun h => hne (h.trans hy.symm)
          simp [hx, hy]
        · simp [hy]

/-- Sorting by place keeps the order of items with one key. -/
theorem withKey_sortBy (k : κ) (order : List κ) (xs : List α) :
    P.withKey k (P.sortBy order xs) = P.withKey k xs := by
  induction xs with
  | nil => rfl
  | cons x xs ih =>
      rw [sortBy, List.insertionSort_cons, withKey_orderedInsert]
      simp only [withKey, List.filter_cons] at ih ⊢
      rw [← sortBy, ih]

omit [DecidableEq κ] in
/-- Merging with a list that has none of the wanted items. -/
theorem filter_merge {p : α → Bool} {s : α → α → Bool} {l r : List α} :
    (r.filter p = [] → (List.merge l r s).filter p = l.filter p) ∧
    (l.filter p = [] → (List.merge l r s).filter p = r.filter p) := by
  induction l generalizing r with
  | nil =>
      rw [List.nil_merge]
      exact ⟨fun h => h, fun _ => rfl⟩
  | cons x l ihl =>
      induction r with
      | nil =>
          rw [List.merge_right]
          exact ⟨fun _ => rfl, fun h => h⟩
      | cons y r ihr =>
          have hcons : ∀ (z : α) (zs : List α), (z :: zs).filter p = [] →
              ¬ p z = true ∧ zs.filter p = [] := by
            intro z zs h
            obtain ⟨hz, hzs⟩ :=
              List.forall_mem_cons.mp (List.filter_eq_nil_iff.mp h)
            exact ⟨hz, List.filter_eq_nil_iff.mpr hzs⟩
          rw [List.cons_merge_cons]
          split_ifs
          · constructor
            · intro h
              rw [List.filter_cons, ihl.1 h, ← List.filter_cons]
            · intro h
              obtain ⟨hx, hl⟩ := hcons x l h
              rw [List.filter_cons_of_neg hx, ihl.2 hl]
          · constructor
            · intro h
              obtain ⟨hy, hr⟩ := hcons y r h
              rw [List.filter_cons_of_neg hy, ihr.1 hr]
            · intro h
              rw [List.filter_cons, ihr.2 h, ← List.filter_cons]

/-- Among the items that do not have a key nothing is found with it. -/
theorem withKey_filter (k : κ) (q : κ → Bool) (xs : List α) :
    P.withKey k (xs.filter (fun x => q (P.key x))) =
      if q k then P.withKey k xs else [] := by
  rw [withKey, List.filter_filter]
  split_ifs with hq
  · refine List.filter_congr fun x _ => ?_
    by_cases hx : P.key x = k
    · simp [hx, hq]
    · simp [hx]
  · refine List.filter_eq_nil_iff.mpr fun x _ h => ?_
    rw [Bool.and_eq_true, decide_eq_true_eq] at h
    exact hq (h.1 ▸ h.2)

/-- What a patch makes of the items with a key. -/
theorem withKey_apply (k : κ) (xs : List α) (bs : List β) :
    P.withKey k (P.apply xs bs) = P.withKey k (P.all xs bs) := by
  let patchOrder := bs.map P.patchKey
  have hothers := P.withKey_filter k (fun c => decide (c ∉ patchOrder))
    (P.all xs bs)
  have hnamed := P.withKey_filter k (fun c => decide (c ∈ patchOrder))
    (P.all xs bs)
  rw [← P.withKey_sortBy k (xs.map P.key)] at hothers
  rw [← P.withKey_sortBy k patchOrder] at hnamed
  by_cases hk : k ∈ patchOrder
  · rw [if_neg (by simpa using hk)] at hothers
    rw [if_pos (by simpa using hk)] at hnamed
    exact ((filter_merge).2 hothers).trans hnamed
  · rw [if_pos (by simpa using hk)] at hothers
    rw [if_neg (by simpa using hk)] at hnamed
    exact ((filter_merge).1 hnamed).trans hothers

/-- How many items have a key after a patch. -/
theorem length_withKey_apply (k : κ) (xs : List α) (bs : List β) :
    (P.withKey k (P.apply xs bs)).length =
      if k ∈ bs.map P.patchKey then max 1 (P.withKey k xs).length
      else (P.withKey k xs).length := by
  have hbump : ∀ (l : List β) (acc : List α), l ≠ [] →
      (l.foldl (fun acc b => P.bump b acc) acc).length = max 1 acc.length := by
    intro l
    induction l with
    | nil => exact fun acc h => absurd rfl h
    | cons b l ih =>
        intro acc _
        have hone : (P.bump b acc).length = max 1 acc.length := by
          cases acc <;> simp [bump]
        rw [List.foldl_cons]
        cases l with
        | nil => exact hone
        | cons c l =>
            rw [ih _ (List.cons_ne_nil c l), hone]
            omega
  rw [withKey_apply, withKey_all]
  by_cases hk : k ∈ bs.map P.patchKey
  · rw [if_pos hk]
    apply hbump
    obtain ⟨b, hb, hbk⟩ := List.mem_map.mp hk
    refine List.ne_nil_of_mem (a := b) (List.mem_filter.mpr ⟨hb, ?_⟩)
    simpa using hbk
  · rw [if_neg hk, List.filter_eq_nil_iff.mpr]
    · rfl
    · intro b hb hbk
      exact hk (List.mem_map.mpr ⟨b, hb, of_decide_eq_true hbk⟩)

theorem nodup_keys_iff {xs : List α} :
    (xs.map P.key).Nodup ↔ ∀ k, (P.withKey k xs).length ≤ 1 := by
  rw [List.nodup_iff_count_le_one]
  refine forall_congr' fun k => ?_
  rw [List.count, List.countP_map, List.countP_eq_length_filter]
  rfl

/-- A patch leaves two items with one key exactly where there were two. -/
theorem nodup_keys_apply_iff {xs : List α} {bs : List β} :
    ((P.apply xs bs).map P.key).Nodup ↔ (xs.map P.key).Nodup := by
  rw [nodup_keys_iff, nodup_keys_iff]
  refine forall_congr' fun k => ?_
  rw [length_withKey_apply]
  split_ifs <;> omega

/-- Two lists with the same keys, and the same items for each key, are one. -/
theorem eq_of_withKey {xs ys : List α} (hkeys : xs.map P.key = ys.map P.key)
    (h : ∀ k, P.withKey k xs = P.withKey k ys) : xs = ys := by
  induction xs generalizing ys with
  | nil => exact (List.map_eq_nil_iff.mp hkeys.symm).symm
  | cons x xs ih =>
      cases ys with
      | nil => cases hkeys
      | cons y ys =>
          rw [List.map_cons, List.map_cons, List.cons.injEq] at hkeys
          have hxy : x = y := by
            have hx := h (P.key x)
            simp only [withKey, List.filter_cons, decide_true, if_true,
              hkeys.1.symm] at hx
            exact (List.cons.inj hx).1
          subst hxy
          refine congrArg (x :: ·) (ih hkeys.2 fun k => ?_)
          have hk := h k
          simp only [withKey, List.filter_cons] at hk
          split_ifs at hk
          · exact (List.cons.inj hk).2
          · exact hk

/-- Sorting by place in the patch gives the order of the patch. -/
theorem keys_sortBy {order : List κ} {xs : List α} (horder : order.Nodup)
    (hperm : (xs.map P.key).Perm order) :
    (P.sortBy order xs).map P.key = order := by
  have hsort : (P.sortBy order xs).map P.key =
      (xs.map P.key).insertionSort
        (fun k c => order.idxOf k ≤ order.idxOf c) := by
    rw [sortBy]
    exact List.map_insertionSort _ _ P.key xs (fun _ _ _ _ => Iff.rfl)
  have htotal : Std.Total (fun k c : κ => order.idxOf k ≤ order.idxOf c) :=
    ⟨fun a b => le_total _ _⟩
  have htrans : IsTrans κ (fun k c : κ => order.idxOf k ≤ order.idxOf c) :=
    ⟨fun a b c => le_trans⟩
  rw [hsort]
  refine List.Perm.eq_of_pairwise ?_
    (List.pairwise_insertionSort _ _) ?_
    ((List.perm_insertionSort _ _).trans hperm)
  · intro a b ha hb hab hba
    have hmem : a ∈ order :=
      hperm.mem_iff.mp ((List.mem_insertionSort _).mp ha)
    exact (List.idxOf_inj hmem).mp (le_antisymm hab hba)
  · rw [List.pairwise_iff_getElem]
    intro i j hi hj hij
    rw [horder.idxOf_getElem, horder.idxOf_getElem]
    omega

omit [DecidableEq κ] in
/-- The first item with a key carries the last patch item with it. -/
theorem head_foldl_bump {l : List β} (hne : l ≠ []) (acc : List α) :
    ∃ o : Option α, (l.foldl (fun acc b => P.bump b acc) acc).head? =
      some (P.put o (l.getLast hne)) := by
  induction l generalizing acc with
  | nil => exact absurd rfl hne
  | cons b l ih =>
      cases l with
      | nil =>
          cases acc with
          | nil => exact ⟨none, rfl⟩
          | cons x xs => exact ⟨some x, rfl⟩
      | cons c l => exact ih (List.cons_ne_nil c l) (P.bump b acc)

theorem withKey_create (k : κ) (bs : List β) :
    P.withKey k (P.create bs) =
      (bs.filter (fun b => decide (P.patchKey b = k))).map (P.put none) := by
  rw [withKey, create, List.filter_map]
  congr 2
  funext b
  simp [P.key_put]

theorem withKey_eq_singleton {xs : List α} (h : (xs.map P.key).Nodup) {x : α}
    (hx : x ∈ xs) : P.withKey (P.key x) xs = [x] := by
  have hle := P.nodup_keys_iff.mp h (P.key x)
  have hmem : x ∈ P.withKey (P.key x) xs :=
    List.mem_filter.mpr ⟨hx, decide_eq_true rfl⟩
  obtain ⟨y, hy⟩ := List.length_eq_one_iff.mp
    (le_antisymm hle (List.length_pos_of_mem hmem))
  rw [hy, List.mem_singleton] at hmem
  rw [hy, hmem]

/-- A patch and a list with distinct keys: what becomes of one key. -/
theorem filter_eq_singleton {bs : List β} (h : (bs.map P.patchKey).Nodup)
    {b : β} (hb : b ∈ bs) :
    bs.filter (fun c => decide (P.patchKey c = P.patchKey b)) = [b] := by
  have hcount := List.nodup_iff_count_le_one.mp h (P.patchKey b)
  rw [List.count, List.countP_map, List.countP_eq_length_filter] at hcount
  have hmem : b ∈ bs.filter (fun c => decide (P.patchKey c = P.patchKey b)) :=
    List.mem_filter.mpr ⟨hb, decide_eq_true rfl⟩
  obtain ⟨c, hc⟩ := List.length_eq_one_iff.mp
    (le_antisymm hcount (List.length_pos_of_mem hmem))
  change bs.filter (fun c => decide (P.patchKey c = P.patchKey b)) = [c] at hc
  rw [hc, List.mem_singleton] at hmem
  rw [hc, hmem]

/-- Where the patch names every key, the patched list has its order. -/
theorem keys_apply {xs : List α} {bs : List β} (hxs : (xs.map P.key).Nodup)
    (hkeys : (bs.map P.patchKey).Nodup)
    (hmem : ∀ x ∈ xs, P.key x ∈ bs.map P.patchKey) :
    (P.apply xs bs).map P.key = bs.map P.patchKey := by
  have hnamed : ∀ y ∈ P.all xs bs, P.key y ∈ bs.map P.patchKey := by
    intro y hy
    have hkey := P.key_mem_apply_iff.mp
      (List.mem_map_of_mem (P.mem_apply.mpr hy))
    rcases hkey with hkey | hkey
    · obtain ⟨x, hx, hxy⟩ := List.mem_map.mp hkey
      exact hxy ▸ hmem x hx
    · exact hkey
  have happly : P.apply xs bs =
      P.sortBy (bs.map P.patchKey) (P.all xs bs) := by
    have hothers : (P.all xs bs).filter
        (fun x => decide (P.key x ∉ bs.map P.patchKey)) = [] := by
      refine List.filter_eq_nil_iff.mpr fun y hy h => ?_
      exact of_decide_eq_true h (hnamed y hy)
    have hall : (P.all xs bs).filter
        (fun x => decide (P.key x ∈ bs.map P.patchKey)) = P.all xs bs :=
      List.filter_eq_self.mpr fun y hy => decide_eq_true (hnamed y hy)
    simp only [apply, hothers, hall]
    exact List.nil_merge _
  have hall : ((P.all xs bs).map P.key).Nodup := by
    have hnodup := P.nodup_keys_iff.mp
      (@nodup_keys_apply_iff κ α β _ P xs bs |>.mpr hxs)
    refine P.nodup_keys_iff.mpr fun k => ?_
    rw [← withKey_apply]
    exact hnodup k
  rw [happly]
  refine P.keys_sortBy hkeys
    ((List.perm_ext_iff_of_nodup hall hkeys).mpr fun k => ?_)
  constructor
  · intro hk
    obtain ⟨y, hy, rfl⟩ := List.mem_map.mp hk
    exact hnamed y hy
  · intro hk
    obtain ⟨y, hy, hyk⟩ := List.mem_map.mp
      (@key_mem_apply_iff κ α β _ P xs bs k |>.mpr (Or.inr hk))
    exact List.mem_map.mpr ⟨y, P.mem_apply.mp hy, hyk⟩

/-- Where the patch leaves what creating the list gives, its items for a key put
into what was there for it as into nothing. -/
theorem foldl_bump_of_apply_eq_create {xs : List α} {bs : List β}
    (h : P.apply xs bs = P.create bs) (k : κ) :
    (bs.filter (fun b => decide (P.patchKey b = k))).foldl
        (fun acc b => P.bump b acc) (P.withKey k xs) =
      (bs.filter (fun b => decide (P.patchKey b = k))).map (P.put none) := by
  rw [← withKey_all, ← withKey_apply, h, withKey_create]

/-- Items told apart by what they put cannot name a key twice then: the first
would be left as the last. -/
theorem nodup_patchKey_of_apply_eq_create {xs : List α} {bs : List β}
    (hnodup : bs.Nodup)
    (hput : ∀ b ∈ bs, ∀ c ∈ bs, ∀ o o' : Option α,
      P.put o b = P.put o' c → b = c)
    (h : P.apply xs bs = P.create bs) :
    (bs.map P.patchKey).Nodup := by
  rw [List.nodup_iff_count_le_one]
  intro k
  rw [List.count, List.countP_map, List.countP_eq_length_filter]
  change (bs.filter (fun b => decide (P.patchKey b = k))).length ≤ 1
  have hk := P.foldl_bump_of_apply_eq_create h k
  have hsub : ∀ b ∈ bs.filter (fun b => decide (P.patchKey b = k)),
      b ∈ bs := fun b hb => List.mem_of_mem_filter hb
  have hnd := hnodup.filter (fun b => decide (P.patchKey b = k))
  generalize bs.filter (fun b => decide (P.patchKey b = k)) = l
    at hk hsub hnd
  cases l with
  | nil => exact Nat.zero_le 1
  | cons b l =>
      obtain ⟨o, ho⟩ := P.head_foldl_bump (List.cons_ne_nil b l)
        (P.withKey k xs)
      rw [hk] at ho
      have hlast := hput _ (hsub _ List.mem_cons_self) _
        (hsub _ (List.getLast_mem (List.cons_ne_nil b l))) none o
        (Option.some.inj ho)
      cases l with
      | nil => exact le_refl 1
      | cons c l =>
          rw [List.getLast_cons (List.cons_ne_nil c l)] at hlast
          exact absurd (hlast ▸ List.getLast_mem _)
            (List.nodup_cons.mp hnd).1

omit [DecidableEq κ] in
theorem map_key_create (bs : List β) :
    (P.create bs).map P.key = bs.map P.patchKey := by
  rw [create, List.map_map]
  exact List.map_congr_left fun b _ => P.key_put none b

/-- A patch that names every key once, and puts over what is there as over
nothing, leaves what creating the list gives. -/
theorem apply_eq_create {xs : List α} {bs : List β}
    (hxs : (xs.map P.key).Nodup) (hkeys : (bs.map P.patchKey).Nodup)
    (hmem : ∀ x ∈ xs, P.key x ∈ bs.map P.patchKey)
    (hsame : ∀ b ∈ bs, ∀ x ∈ xs, P.key x = P.patchKey b →
      P.put (some x) b = P.put none b) :
    P.apply xs bs = P.create bs := by
  refine P.eq_of_withKey
    ((P.keys_apply hxs hkeys hmem).trans (P.map_key_create bs).symm)
    fun k => ?_
  rw [withKey_apply, withKey_all, withKey_create]
  by_cases hk : k ∈ bs.map P.patchKey
  · obtain ⟨b, hb, rfl⟩ := List.mem_map.mp hk
    rw [filter_eq_singleton P hkeys hb]
    cases hwith : P.withKey (P.patchKey b) xs with
    | nil => rfl
    | cons x rest =>
        obtain ⟨hx, hxb⟩ := List.mem_filter.mp
          (hwith ▸ List.mem_cons_self : x ∈ P.withKey (P.patchKey b) xs)
        have hkey : P.key x = P.patchKey b := of_decide_eq_true hxb
        rw [← hkey, withKey_eq_singleton P hxs hx] at hwith
        obtain ⟨-, hrest⟩ := List.cons.inj hwith
        rw [← hrest]
        exact congrArg (fun y => [y]) (hsame b hb x hx hkey)
  · have hbs : bs.filter (fun b => decide (P.patchKey b = k)) = [] :=
      List.filter_eq_nil_iff.mpr fun b hb hbk =>
        hk (List.mem_map.mpr ⟨b, hb, of_decide_eq_true hbk⟩)
    have hnone : P.withKey k xs = [] :=
      List.filter_eq_nil_iff.mpr fun x hx hxk =>
        hk (of_decide_eq_true hxk ▸ hmem x hx)
    rw [hbs, hnone]
    rfl

/-- A patch whose items are told apart by what they put leaves what creating
the list from it would give, exactly when no key is there twice, the patch
names every key, and no item keeps something of what was there. -/
theorem apply_eq_create_iff {xs : List α} {bs : List β} (hnodup : bs.Nodup)
    (hput : ∀ b ∈ bs, ∀ c ∈ bs, ∀ o o' : Option α,
      P.put o b = P.put o' c → b = c) :
    P.apply xs bs = P.create bs ↔
      (xs.map P.key).Nodup ∧ (bs.map P.patchKey).Nodup ∧
      (∀ x ∈ xs, P.key x ∈ bs.map P.patchKey) ∧
      ∀ b ∈ bs, ∀ x ∈ xs, P.key x = P.patchKey b →
        P.put (some x) b = P.put none b := by
  constructor
  · intro h
    have hkeys := P.nodup_patchKey_of_apply_eq_create hnodup hput h
    have happly : ((P.apply xs bs).map P.key).Nodup := by
      rw [h, map_key_create]
      exact hkeys
    have hxs : (xs.map P.key).Nodup := P.nodup_keys_apply_iff.mp happly
    refine ⟨hxs, hkeys, ?_, ?_⟩
    · intro x hx
      have hmem : P.key x ∈ (P.apply xs bs).map P.key :=
        P.key_mem_apply_iff.mpr (Or.inl (List.mem_map_of_mem hx))
      rwa [h, map_key_create] at hmem
    · intro b hb x hx hxb
      have hk := P.foldl_bump_of_apply_eq_create h (P.patchKey b)
      rw [filter_eq_singleton P hkeys hb, ← hxb,
        withKey_eq_singleton P hxs hx] at hk
      exact (List.cons.inj hk).1
  · rintro ⟨hxs, hkeys, hmem, hsame⟩
    exact P.apply_eq_create hxs hkeys hmem hsame

end Patcher

end KeyedMerge

end Kelt
