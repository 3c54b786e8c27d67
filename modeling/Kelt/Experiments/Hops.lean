import Kelt.Lib.Dict
import Kelt.Lib.Nesting
import Kelt.Lib.PyText
import Mathlib.Algebra.Order.Ring.Rat
import Mathlib.Data.List.MinMax
import Mathlib.Data.List.Sort
import Mathlib.Order.Bounds.Basic

/-!
# The hops of a trace

`_self_costs` (`hop_aggregate.py`) takes as the parent of a hop the shortest of
the other hops that contain it, the first of them where several are as short.
Hops contain one another where they have the same times and the same span, so
the parents make a forest if and only if a wider one with that span stands
before the second of any two such hops (`traced_iff`). In a trace whose
intervals are nested or apart the self times are not clipped, and over all
services they add up to the span of the root (`selfCosts_of_nested`).

The lines of the log are separate objects, so a hop is its position in the
trace. Times and spans are rational.
-/

namespace Kelt
namespace Experiments
namespace Hops

section Model

structure Hop where
  service : Option Text
  receive : ℚ
  emit : ℚ
  span : ℚ
  deriving DecidableEq

/-- `h.get("service", "?")` -/
def Hop.svc (h : Hop) : Text :=
  h.service.getD "?".toList

variable (trace : List Hop)

def positions : List (Fin trace.length) :=
  List.finRange trace.length

/-- `contains` -/
def Contains (a b : Fin trace.length) : Prop :=
  a ≠ b ∧ (trace.get a).receive ≤ (trace.get b).receive ∧
    (trace.get b).emit ≤ (trace.get a).emit ∧
    (trace.get b).span ≤ (trace.get a).span

instance (a b : Fin trace.length) : Decidable (Contains trace a b) :=
  inferInstanceAs (Decidable (_ ∧ _))

def parents (h : Fin trace.length) : List (Fin trace.length) :=
  (positions trace).filter fun p => decide (Contains trace p h)

/-- `min(parents, key=lambda p: p["span_ms"])`, if there are any. -/
def parent (h : Fin trace.length) : Option (Fin trace.length) :=
  (parents trace h).argmin fun p => (trace.get p).span

def roots : List (Fin trace.length) :=
  (positions trace).filter fun h => decide (parent trace h = none)

def children (h : Fin trace.length) : List (Fin trace.length) :=
  (positions trace).filter fun c => decide (parent trace c = some h)

/-- `max(0.0, h["span_ms"] - kids)` -/
def ownMs (h : Fin trace.length) : ℚ :=
  let kids := ((children trace h).map fun c => (trace.get c).span).sum
  max 0 ((trace.get h).span - kids)

/-- `d[svc] = d.get(svc, 0.0) + x` -/
def addMs (d : List (Text × ℚ)) (svc : Text) (x : ℚ) : List (Text × ℚ) :=
  Dict.setItem svc ((Dict.getItem svc d).getD 0 + x) d

structure Costs where
  selfMs : List (Text × ℚ)
  spanMs : List (Text × ℚ)
  e2e : ℚ

/-- `_self_costs` -/
def selfCosts : Costs :=
  { selfMs := (positions trace).foldl
      (fun d h => addMs d (trace.get h).svc (ownMs trace h)) []
    spanMs := (positions trace).foldl
      (fun d h => addMs d (trace.get h).svc (trace.get h).span) []
    e2e := ((roots trace).map fun r => (trace.get r).span).max?.getD 0 }

end Model

section Parent

variable {trace : List Hop} {h p : Fin trace.length}

theorem mem_positions (h : Fin trace.length) : h ∈ positions trace :=
  List.mem_finRange h

theorem mem_parents : p ∈ parents trace h ↔ Contains trace p h := by
  simp [parents, mem_positions]

theorem parents_sorted (h : Fin trace.length) :
    (parents trace h).Pairwise (· < ·) :=
  (List.sortedLT_finRange _).pairwise.filter _

/-- In an ascending list an element that stands first is the lesser one. -/
theorem le_of_idxOf_le {α : Type} [LinearOrder α] {l : List α}
    (hl : l.Pairwise (· < ·)) {x y : α} (hx : x ∈ l) (hy : y ∈ l)
    (hle : l.idxOf x ≤ l.idxOf y) : x ≤ y := by
  have hxi := List.idxOf_lt_length_of_mem hx
  have hyi := List.idxOf_lt_length_of_mem hy
  rcases hle.eq_or_lt with heq | hlt
  · exact ((List.idxOf_inj hx).1 heq).le
  · have hget := List.pairwise_iff_getElem.1 hl _ _ hxi hyi hlt
    rw [List.getElem_idxOf, List.getElem_idxOf] at hget
    exact hget.le

theorem parent_eq_none_iff :
    parent trace h = none ↔ ∀ q, ¬ Contains trace q h := by
  rw [parent, List.argmin_eq_none, List.eq_nil_iff_forall_not_mem]
  simp only [mem_parents]

/-- The parent is the shortest hop that contains the child, and the first of
those. -/
theorem contains_of_parent (hp : parent trace h = some p) :
    Contains trace p h ∧
      ∀ q, Contains trace q h → (trace.get p).span ≤ (trace.get q).span ∧
        ((trace.get q).span ≤ (trace.get p).span → p ≤ q) := by
  have hmem := List.argmin_mem hp
  refine ⟨mem_parents.1 hmem, fun q hq => ?_⟩
  have hq' := mem_parents.2 hq
  exact ⟨List.le_of_mem_argmin (f := fun p => (trace.get p).span) hq' hp,
    fun hle => le_of_idxOf_le (parents_sorted h) hmem hq'
      (List.index_of_argmin hp hq' hle)⟩

theorem exists_parent (hq : Contains trace p h) :
    ∃ q, parent trace h = some q := by
  cases hparent : parent trace h with
  | none => exact absurd hq (parent_eq_none_iff.1 hparent p)
  | some q => exact ⟨q, rfl⟩

theorem span_le_of_parent (hp : parent trace h = some p) :
    (trace.get h).span ≤ (trace.get p).span :=
  (contains_of_parent hp).1.2.2.2

end Parent

section Forest

open OrderDual (toDual)

variable {trace : List Hop} {h p : Fin trace.length}

/-- How far a hop reaches: of two hops the one that contains the other reaches
as far or farther. -/
def reach (trace : List Hop) (h : Fin trace.length) : ℚᵒᵈ × ℚ × ℚ :=
  (toDual (trace.get h).receive, (trace.get h).emit, (trace.get h).span)

theorem contains_iff :
    Contains trace p h ↔ p ≠ h ∧ reach trace h ≤ reach trace p :=
  Iff.rfl

/-- What the end-to-end time and the parents of a trace are taken for. -/
structure Traced (trace : List Hop) : Prop where
  ends : ∀ h, ∃ r, EndsAt (parent trace) h r
  root : ∃ r, r ∈ roots trace
  e2e_root : IsGreatest {s | ∃ r ∈ roots trace, (trace.get r).span = s}
    (selfCosts trace).e2e
  e2e_largest : ∀ h ∈ trace, h.span ≤ (selfCosts trace).e2e

/-- Before the second of two hops with the same times and the same span there is
a wider one with that span. -/
def WayOut (trace : List Hop) : Prop :=
  ∀ i j, i < j → reach trace i = reach trace j →
    ∃ k, k < j ∧ reach trace j < reach trace k ∧
      (trace.get k).span = (trace.get j).span

/-- From a hop to its parent the reach gets wider, or the position less. -/
theorem parent_above (hout : WayOut trace) (hp : parent trace h = some p) :
    toLex (toDual (reach trace p), p) < toLex (toDual (reach trace h), h) := by
  obtain ⟨hcontains, hfirst⟩ := contains_of_parent hp
  obtain ⟨hne, hle⟩ := contains_iff.1 hcontains
  rw [Prod.Lex.toLex_lt_toLex]
  rcases hle.eq_or_lt with heq | hlt
  swap
  · exact .inl hlt
  refine .inr ⟨congrArg toDual heq.symm, ?_⟩
  by_contra hnot
  have hhp : h < p := lt_of_le_of_ne (not_lt.1 hnot) (Ne.symm hne)
  obtain ⟨k, hkp, hwider, hspan⟩ := hout h p hhp heq
  have hkh : k ≠ h := by
    rintro rfl
    exact hwider.ne heq.symm
  have hk : Contains trace k h := contains_iff.2 ⟨hkh, heq.trans_le hwider.le⟩
  exact absurd hkp (not_lt_of_ge ((hfirst k hk).2 hspan.le))

theorem exists_endsAt_parent (hout : WayOut trace) (h : Fin trace.length) :
    ∃ r, EndsAt (parent trace) h r := by
  have hwf : WellFounded (InvImage (· < ·)
      fun h => toLex (toDual (reach trace h), h)) :=
    Finite.wellFounded_of_trans_of_irrefl _
  exact exists_endsAt hwf (fun _ _ => parent_above hout) h

/-- Without a way out, the hops that are alike have their parents among
themselves. -/
theorem wayOut_of_endsAt
    (hends : ∀ h, ∃ r, EndsAt (parent trace) h r) : WayOut trace := by
  intro i j hij heq
  by_contra hnone
  push Not at hnone
  obtain ⟨r, hr⟩ := hends j
  refine not_endsAt_of_closed
    (C := fun h => reach trace h = reach trace j ∧ h ≤ j) ?_ ⟨rfl, le_rfl⟩ hr
  rintro h ⟨hh, hhj⟩
  obtain ⟨q, hqh, hq, hqj⟩ :
      ∃ q, q ≠ h ∧ reach trace q = reach trace j ∧ q ≤ j := by
    by_cases hi : i = h
    · exact ⟨j, by omega, rfl, le_rfl⟩
    · exact ⟨i, hi, heq, hij.le⟩
  have hcontains : Contains trace q h :=
    contains_iff.2 ⟨hqh, (hh.trans hq.symm).le⟩
  obtain ⟨p, hp⟩ := exists_parent hcontains
  obtain ⟨hpcontains, hfirst⟩ := contains_of_parent hp
  have hspan : ∀ x, reach trace x = reach trace j →
      (trace.get x).span = (trace.get j).span :=
    fun x hx => congrArg (fun y => y.2.2) hx
  have hhp := (contains_iff.1 hpcontains).2
  rw [hh] at hhp
  have hpq := (hfirst q hcontains).1
  have hpspan : (trace.get p).span = (trace.get j).span :=
    le_antisymm (hpq.trans (hspan q hq).le) hhp.2.2
  have hple : p ≤ j :=
    ((hfirst q hcontains).2 ((hspan q hq).trans hpspan.symm).le).trans hqj
  refine ⟨p, hp, ?_, hple⟩
  rcases hhp.eq_or_lt with hpj | hwider
  · exact hpj.symm
  · have hpj : p ≠ j := by
      rintro rfl
      exact hwider.false
    exact absurd hpspan (hnone p (lt_of_le_of_ne hple hpj) hwider)

theorem mem_roots : h ∈ roots trace ↔ parent trace h = none := by
  simp [roots, mem_positions]

theorem e2e_isGreatest (hroot : ∃ r, r ∈ roots trace) :
    IsGreatest {s | ∃ r ∈ roots trace, (trace.get r).span = s}
      (selfCosts trace).e2e := by
  obtain ⟨r, hr⟩ := hroot
  unfold selfCosts
  dsimp only
  cases hmax : ((roots trace).map fun r => (trace.get r).span).max? with
  | none =>
      rw [List.max?_eq_none_iff, List.map_eq_nil_iff] at hmax
      rw [hmax] at hr
      cases hr
  | some m =>
      obtain ⟨hmem, hle⟩ := List.max?_eq_some_iff.1 hmax
      refine ⟨List.mem_map.1 hmem, ?_⟩
      rintro s ⟨r, hr, rfl⟩
      exact hle _ (List.mem_map_of_mem hr)

/-- The parents make a forest, and the end-to-end time is what it is taken for,
if and only if hops that are alike have a way out. -/
theorem traced_iff (hne : trace ≠ []) : Traced trace ↔ WayOut trace := by
  refine ⟨fun h => wayOut_of_endsAt h.ends, fun hout => ?_⟩
  have hends := exists_endsAt_parent hout
  have hroot : ∃ r, r ∈ roots trace := by
    obtain ⟨r, hr⟩ := hends ⟨0, List.length_pos_iff.2 hne⟩
    exact ⟨r, mem_roots.2 hr.parent_eq_none⟩
  have hgreatest := e2e_isGreatest hroot
  refine ⟨hends, hroot, hgreatest, fun h hh => ?_⟩
  obtain ⟨i, rfl⟩ := List.mem_iff_get.1 hh
  obtain ⟨r, hr⟩ := hends i
  exact (hr.le (f := fun i => (trace.get i).span) fun _ _ =>
    span_le_of_parent).trans
    (hgreatest.2 ⟨r, mem_roots.2 hr.parent_eq_none, rfl⟩)

/-- The gateway, the engine that it asks, and the adapter that the engine
asks. -/
def gateway : Hop :=
  ⟨some "camara-gateway".toList, 100, 140, 40⟩

def engine : Hop :=
  ⟨some "positioning-engine".toList, 101, 139, 38⟩

def adapter : Hop :=
  ⟨some "vendor-adapter".toList, 102, 133, 31⟩

theorem traced_request : Traced [gateway, engine, adapter] :=
  (traced_iff (by decide)).2 fun i j hij heq =>
    absurd heq (by revert i j; decide)

/-- The line of a hop is in the log twice. -/
theorem not_traced_repeated :
    (∀ h ∈ [gateway, gateway], 0 ≤ h.span) ∧
      (selfCosts [gateway, gateway]).e2e = 0 ∧
      ¬ Traced [gateway, gateway] := by
  have hroots : roots [gateway, gateway] = [] := by decide
  refine ⟨by decide, by decide, fun h => ?_⟩
  obtain ⟨r, hr⟩ := h.root
  rw [hroots] at hr
  cases hr

end Forest

section Nested

variable {trace : List Hop}

theorem sum_addMs (d : List (Text × ℚ)) (svc : Text) (x : ℚ) :
    ((addMs d svc x).map Prod.snd).sum = (d.map Prod.snd).sum + x := by
  unfold addMs
  induction d with
  | nil => simp [Dict.setItem, Dict.getItem]
  | cons y d ih =>
      obtain ⟨k, v⟩ := y
      by_cases hk : k = svc
      · simp only [Dict.getItem, Dict.setItem, if_pos hk, Option.getD_some,
          List.map_cons, List.sum_cons]
        ring
      · simp only [Dict.getItem, Dict.setItem, if_neg hk, List.map_cons,
          List.sum_cons]
        rw [ih, add_assoc]

/-- Several hops of a service are added up under its name. -/
theorem sum_foldl_addMs {ι : Type} (svc : ι → Text) (f : ι → ℚ) (hops : List ι)
    (d : List (Text × ℚ)) :
    ((hops.foldl (fun d h => addMs d (svc h) (f h)) d).map Prod.snd).sum =
      (d.map Prod.snd).sum + (hops.map f).sum := by
  induction hops generalizing d with
  | nil => simp
  | cons h hops ih =>
      rw [List.foldl_cons, ih, sum_addMs, List.map_cons, List.sum_cons,
        add_assoc]

theorem nonneg_addMs {d : List (Text × ℚ)} (hd : ∀ y ∈ d, 0 ≤ y.2)
    (svc : Text) {x : ℚ} (hx : 0 ≤ x) : ∀ y ∈ addMs d svc x, 0 ≤ y.2 := by
  rintro ⟨k, v⟩ hy
  rcases Dict.mem_setItem hy with heq | hy
  · obtain ⟨rfl, rfl⟩ := Prod.mk.inj heq
    refine add_nonneg ?_ hx
    cases hget : Dict.getItem k d with
    | none => exact le_rfl
    | some v => exact hd _ (Dict.mem_of_getItem hget)
  · exact hd _ hy

theorem nonneg_foldl_addMs {ι : Type} (svc : ι → Text) {f : ι → ℚ}
    (hf : ∀ i, 0 ≤ f i) (hops : List ι) {d : List (Text × ℚ)}
    (hd : ∀ y ∈ d, 0 ≤ y.2) :
    ∀ y ∈ hops.foldl (fun d h => addMs d (svc h) (f h)) d, 0 ≤ y.2 := by
  induction hops generalizing d with
  | nil => exact hd
  | cons h hops ih => exact ih (nonneg_addMs hd (svc h) (hf h))

/-- The interval of `a` is part of the one of `b`, and not all of it. -/
def Inside (trace : List Hop) (a b : Fin trace.length) : Prop :=
  (trace.get b).receive ≤ (trace.get a).receive ∧
    (trace.get a).emit ≤ (trace.get b).emit ∧
    ((trace.get b).receive < (trace.get a).receive ∨
      (trace.get a).emit < (trace.get b).emit)

/-- One of the intervals ends before the other starts. -/
def Apart (trace : List Hop) (a b : Fin trace.length) : Prop :=
  (trace.get a).emit ≤ (trace.get b).receive ∨
    (trace.get b).emit ≤ (trace.get a).receive

/-- Intervals that are nested or apart, with their lengths as the spans: `unit`
is what a span of one second is given as. -/
structure Nested (trace : List Hop) (unit : ℚ) : Prop where
  unit_pos : 0 < unit
  ordered : ∀ h ∈ trace, h.receive ≤ h.emit
  span : ∀ h ∈ trace, h.span = unit * (h.emit - h.receive)
  nested : ∀ a b, a ≠ b →
    Inside trace a b ∨ Inside trace b a ∨ Apart trace a b

namespace Nested

variable {unit : ℚ} {h p : Fin trace.length}

theorem span_nonneg (hn : Nested trace unit) (h : Fin trace.length) :
    0 ≤ (trace.get h).span := by
  rw [hn.span _ (List.get_mem trace h)]
  exact mul_nonneg hn.unit_pos.le
    (sub_nonneg.2 (hn.ordered _ (List.get_mem trace h)))

theorem span_lt (hn : Nested trace unit) {a b : Fin trace.length}
    (hab : Inside trace a b) : (trace.get a).span < (trace.get b).span := by
  obtain ⟨hreceive, hemit, hstrict⟩ := hab
  rw [hn.span _ (List.get_mem trace a), hn.span _ (List.get_mem trace b)]
  refine mul_lt_mul_of_pos_left ?_ hn.unit_pos
  rcases hstrict with h | h
  · linarith
  · linarith

/-- What contains a hop that takes time is longer. -/
theorem span_lt_of_contains (hn : Nested trace unit) {a b : Fin trace.length}
    (hab : Contains trace b a) (hpos : 0 < (trace.get a).span) :
    (trace.get a).span < (trace.get b).span := by
  obtain ⟨hne, hreceive, hemit, hspan⟩ := hab
  rcases hn.nested a b (Ne.symm hne) with h | h | h
  · exact hn.span_lt h
  · exact absurd (hn.span_lt h) (not_lt_of_ge hspan)
  · have hb := hn.ordered _ (List.get_mem trace b)
    have hle : (trace.get a).emit - (trace.get a).receive ≤ 0 := by
      rcases h with h | h
      · linarith
      · linarith
    rw [hn.span _ (List.get_mem trace a)] at hpos
    exact absurd (mul_nonpos_of_nonneg_of_nonpos hn.unit_pos.le hle)
      (not_le_of_gt hpos)

theorem not_inside_sibling (hn : Nested trace unit) {a b : Fin trace.length}
    (hne : a ≠ b) (ha : parent trace a = some p)
    (hb : parent trace b = some p) : ¬ Inside trace a b := by
  intro hab
  have hlt := hn.span_lt hab
  have hcontains : Contains trace b a :=
    ⟨Ne.symm hne, hab.1, hab.2.1, hlt.le⟩
  have hle := ((contains_of_parent ha).2 b hcontains).1
  have hlt' := hn.span_lt_of_contains (contains_of_parent hb).1
    ((hn.span_nonneg a).trans_lt hlt)
  exact absurd hle (not_le_of_gt hlt')

theorem apart_of_siblings (hn : Nested trace unit) {a b : Fin trace.length}
    (hne : a ≠ b) (ha : parent trace a = some p)
    (hb : parent trace b = some p) : Apart trace a b := by
  rcases hn.nested a b hne with h | h | h
  · exact absurd h (hn.not_inside_sibling hne ha hb)
  · exact absurd h (hn.not_inside_sibling (Ne.symm hne) hb ha)
  · exact h

end Nested

theorem sum_filter_positions (q : Fin trace.length → Prop) [DecidablePred q]
    (f : Fin trace.length → ℚ) :
    (((positions trace).filter fun i => decide (q i)).map f).sum =
      ∑ i, if q i then f i else 0 := by
  have hite := List.sum_map_ite q f (fun _ => 0) (positions trace)
  rw [Fin.sum_univ_def]
  change _ = ((positions trace).map _).sum
  rw [hite]
  simp

namespace Nested

variable {unit : ℚ} {h p : Fin trace.length}

/-- The children of a hop are apart, so that the hop takes no less time than
they do together, and nothing is clipped. -/
theorem ownMs_eq (hn : Nested trace unit) (h : Fin trace.length) :
    ownMs trace h = (trace.get h).span -
      ∑ c, if parent trace c = some h then (trace.get c).span else 0 := by
  have hspans :
      (∑ c, if parent trace c = some h then (trace.get c).span else 0) = unit *
        ∑ c with parent trace c = some h,
          ((trace.get c).emit - (trace.get c).receive) := by
    rw [← Finset.sum_filter, Finset.mul_sum]
    exact Finset.sum_congr rfl fun c _ => hn.span _ (List.get_mem trace c)
  have hpacked : ∑ c with parent trace c = some h,
      ((trace.get c).emit - (trace.get c).receive) ≤
        (trace.get h).emit - (trace.get h).receive := by
    refine sum_length_le _ (hn.ordered _ (List.get_mem trace h))
      (fun c _ => hn.ordered _ (List.get_mem trace c)) ?_ ?_
    · intro c hc
      obtain ⟨-, hreceive, hemit, -⟩ :=
        (contains_of_parent (Finset.mem_filter.1 hc).2).1
      exact ⟨hreceive, hemit⟩
    · intro c hc d hd hne
      exact hn.apart_of_siblings hne (Finset.mem_filter.1 hc).2
        (Finset.mem_filter.1 hd).2
  have hkids :
      (∑ c, if parent trace c = some h then (trace.get c).span else 0) ≤
        (trace.get h).span := by
    rw [hspans, hn.span _ (List.get_mem trace h)]
    exact mul_le_mul_of_nonneg_left hpacked hn.unit_pos.le
  unfold ownMs children
  dsimp only
  rw [sum_filter_positions]
  exact max_eq_right (sub_nonneg.2 hkids)

end Nested

theorem ownMs_nonneg (h : Fin trace.length) : 0 ≤ ownMs trace h :=
  le_max_left 0 _

/-- The self times of a trace with one root are its end-to-end time, split up
over the services. -/
theorem selfCosts_of_nested {unit : ℚ} (hn : Nested trace unit)
    {r : Fin trace.length} (hroot : roots trace = [r]) :
    (∀ y ∈ (selfCosts trace).selfMs, 0 ≤ y.2) ∧
      ((selfCosts trace).selfMs.map Prod.snd).sum = (trace.get r).span ∧
      (selfCosts trace).e2e = (trace.get r).span := by
  refine ⟨nonneg_foldl_addMs _ ownMs_nonneg _ nofun, ?_, ?_⟩
  · have hroots := sum_filter_positions (fun r => parent trace r = none)
      fun r => (trace.get r).span
    change ((roots trace).map _).sum = _ at hroots
    rw [hroot, List.map_singleton, List.sum_singleton] at hroots
    calc ((selfCosts trace).selfMs.map Prod.snd).sum
        = ((positions trace).map (ownMs trace)).sum := by
          unfold selfCosts
          dsimp only
          rw [sum_foldl_addMs, List.map_nil, List.sum_nil, zero_add]
      _ = ∑ h, ownMs trace h := (Fin.sum_univ_def _).symm
      _ = ∑ h, ((trace.get h).span -
            ∑ c, if parent trace c = some h then (trace.get c).span else 0) :=
          Finset.sum_congr rfl fun h _ => hn.ownMs_eq h
      _ = (trace.get r).span := by
          rw [sum_sub_children, hroots]
  · unfold selfCosts
    dsimp only
    rw [hroot]
    rfl

/-- The engine asks the adapter twice. -/
def request : List Hop :=
  [gateway, engine, adapter,
    { adapter with receive := 134, emit := 138, span := 4 }]

theorem nested_request : Nested request 1 := by
  refine ⟨by decide, by decide, ?_, ?_⟩
  · simp only [request, List.forall_mem_cons, gateway, engine, adapter]
    norm_num
  · unfold Inside Apart
    decide

theorem selfCosts_request :
    (∀ y ∈ (selfCosts request).selfMs, 0 ≤ y.2) ∧
      ((selfCosts request).selfMs.map Prod.snd).sum = 40 ∧
      (selfCosts request).e2e = 40 :=
  selfCosts_of_nested nested_request (r := ⟨0, by decide⟩) (by decide)

end Nested

end Hops
end Experiments
end Kelt
