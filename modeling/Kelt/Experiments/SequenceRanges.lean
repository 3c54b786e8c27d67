import Kelt.Experiments.Segments
import Kelt.Lib.Dict
import Kelt.Lib.PyText
import Mathlib.Algebra.Order.Ring.Unbundled.Rat

/-!
# Bytes of a run by its sequence numbers

`sequence_ranges` takes, for each flow of a run, the range of sequence numbers
that its segments cover on the RAN bridge; the sum over the flows of a run is
what the goodput is checked against. Positions are taken relative to the first
segment seen and folded around half the ring. For a flow without a hole the
range is the number of its bytes if every segment starts in the half of the ring
around the first one; otherwise it is larger than any flow that fits on the ring
(`sequenceRanges_iff`).
-/

namespace Kelt
namespace Experiments
namespace SequenceRanges

open Pcap

section Loop

variable {τ : Type} [LinearOrder τ]

/-- A run of the job: its name, start and end. -/
structure Window (τ : Type) where
  name : Text
  start : τ
  stop : τ

/-- The first window around the time; an empty name counts as none. -/
def runAt (windows : List (Window τ)) (t : τ) : Option Text :=
  ((windows.find? fun w => decide (w.start ≤ t) && decide (t ≤ w.stop)).map
    Window.name).filter fun run => !run.isEmpty

def dirText : Dir → Text
  | .dl => "dl".toList
  | .ul => "ul".toList

/-- `run.split("-", 1)[1].startswith(direction)` -/
def inDirection (run : Text) (d : Dir) : Except Fault Bool :=
  if '-' ∈ run then .ok ((dirText d).isPrefixOf (after '-' run))
  else .error .indexError

/-- What the loop takes from a packet: the run and the segment. -/
def observe (windows : List (Window τ)) (target : Bytes) (p : Packet τ) :
    Except Fault (Option (Text × Segment)) := do
  match ← tcpPacket p.frame p.link with
  | none => return none
  | some ip =>
      match runAt windows p.time with
      | none => return none
      | some run => do
          let mine ← addressed target ip
          if mine = false then return none
          else if ip.length < headerLength ip + 13 then .error .structError
          else if (segment ip).payload ≤ 0 then return none
          else do
            let own ← inDirection run ((segment ip).dir target)
            return if own = true then some (run, segment ip) else none

/-- `(run, sport, dport)` -/
structure Key where
  run : Text
  sport : Nat
  dport : Nat
  deriving DecidableEq

def keyOf (x : Text × Segment) : Key :=
  ⟨x.1, x.2.flow.sport, x.2.flow.dport⟩

/-- `[first, low, top]` -/
structure Range where
  first : Int
  low : Int
  top : Int
  deriving DecidableEq

/-- Widen a range to a segment, with the position folded around half the ring. -/
def Range.widen (r : Range) (g : Segment) : Range :=
  let rel := fold (2 ^ 31) (g.seq - r.first)
  ⟨r.first, min r.low rel, max r.top (rel + g.payload)⟩

/-- One segment of the loop. -/
def count (flows : List (Key × Range)) (x : Text × Segment) :
    List (Key × Range) :=
  let r := (Dict.getItem (keyOf x) flows).getD ⟨x.2.seq, 0, 0⟩
  Dict.setItem (keyOf x) (r.widen x.2) flows

/-- `out[run] = out.get(run, 0) + top - low` -/
def addRange (out : List (Text × Int)) (f : Key × Range) : List (Text × Int) :=
  Dict.setItem f.1.run
    ((Dict.getItem f.1.run out).getD 0 + f.2.top - f.2.low) out

/-- `sequence_ranges` -/
def sequenceRanges (windows : List (Window τ)) (target : Bytes)
    (packets : List (Packet τ)) : Except Fault (List (Text × Int)) := do
  let flows ← visits (observe windows target) count [] packets
  return flows.foldl addRange []

end Loop

section Flows

/-- The segments that were counted for a run. -/
def segmentsOf (run : Text) (xs : List (Text × Segment)) : List Segment :=
  (xs.filter fun x => decide (x.1 = run)).map Prod.snd

/-- The positions of a segment's bytes. -/
def piece (g : Segment) : Int × Int :=
  (g.seq, g.upto)

/-- A run of one flow, with `g₀` for its first segment, that leaves no hole and
moves less than `2 ^ 32` bytes. -/
structure OneFlow (gs : List Segment) (g₀ : Segment) : Prop where
  first : gs.head? = some g₀
  flow : ∀ g ∈ gs, g.flow = g₀.flow
  no_hole : ∃ m M, covered (gs.map piece) = stretch m M
  short : ((covered (gs.map piece)).card : Int) < 2 ^ 32

/-- Every segment starts in the half of the ring around the first one seen. -/
def NearFirst (gs : List Segment) (g₀ : Segment) : Prop :=
  ∀ g ∈ gs, -2 ^ 31 ≤ g.seq - g₀.seq ∧ g.seq - g₀.seq < 2 ^ 31

end Flows

section Ranges

/-- The range that the segments of one flow leave. -/
def rangeFrom (o : Option Range) (gs : List Segment) : Option Range :=
  gs.foldl (fun o g => some ((o.getD ⟨g.seq, 0, 0⟩).widen g)) o

theorem getItem_foldl_count (k : Key) (xs : List (Text × Segment))
    (flows : List (Key × Range)) :
    Dict.getItem k (xs.foldl count flows) =
      rangeFrom (Dict.getItem k flows)
        ((xs.filter fun x => decide (keyOf x = k)).map Prod.snd) := by
  induction xs generalizing flows with
  | nil => rfl
  | cons x xs ih =>
      rw [List.foldl_cons, ih, count, Dict.getItem_setItem]
      by_cases hk : keyOf x = k
      · subst hk
        rw [if_pos rfl, List.filter_cons_of_pos (by simp)]
        rfl
      · rw [if_neg hk, List.filter_cons_of_neg (by simpa using hk)]

theorem nodup_foldl_count (xs : List (Text × Segment))
    {flows : List (Key × Range)} (h : (flows.map Prod.fst).Nodup) :
    ((xs.foldl count flows).map Prod.fst).Nodup := by
  induction xs generalizing flows with
  | nil => exact h
  | cons x xs ih => exact ih (Dict.nodup_setItem _ _ h)

theorem mem_keys_foldl_count {k : Key} {xs : List (Text × Segment)}
    {flows : List (Key × Range)} (h : k ∈ (xs.foldl count flows).map Prod.fst) :
    k ∈ flows.map Prod.fst ∨ ∃ x ∈ xs, keyOf x = k := by
  induction xs generalizing flows with
  | nil => exact .inl h
  | cons x xs ih =>
      rcases ih h with h | ⟨y, hy, rfl⟩
      · rw [count, Dict.map_fst_setItem] at h
        by_cases hmem : keyOf x ∈ flows.map Prod.fst
        · rw [if_pos hmem] at h
          exact .inl h
        · rw [if_neg hmem] at h
          rcases List.mem_append.1 h with h | h
          · exact .inl h
          · exact .inr ⟨x, List.mem_cons_self, (List.mem_singleton.1 h).symm⟩
      · exact .inr ⟨y, List.mem_cons_of_mem x hy, rfl⟩

/-- What the ranges add up to for a run. -/
theorem getItem_foldl_addRange (run : Text) (flows : List (Key × Range))
    (out : List (Text × Int)) :
    Dict.getItem run (flows.foldl addRange out) =
      (flows.filter fun f => decide (f.1.run = run)).foldl
        (fun o f => some (o.getD 0 + f.2.top - f.2.low))
        (Dict.getItem run out) := by
  induction flows generalizing out with
  | nil => rfl
  | cons f flows ih =>
      rw [List.foldl_cons, ih, addRange, Dict.getItem_setItem]
      by_cases hrun : f.1.run = run
      · subst hrun
        rw [if_pos rfl, List.filter_cons_of_pos (by simp)]
        rfl
      · rw [if_neg hrun, List.filter_cons_of_neg (by simpa using hrun)]

theorem filter_eq_singleton {k : Key} {r : Range} {run : Text}
    {flows : List (Key × Range)} (hnodup : (flows.map Prod.fst).Nodup)
    (hget : Dict.getItem k flows = some r) (hrun : k.run = run)
    (honly : ∀ k' ∈ flows.map Prod.fst, k'.run = run → k' = k) :
    (flows.filter fun f => decide (f.1.run = run)) = [(k, r)] := by
  induction flows with
  | nil => cases hget
  | cons f flows ih =>
      obtain ⟨k', r'⟩ := f
      rw [List.map_cons, List.nodup_cons] at hnodup
      by_cases hk : k' = k
      · subst hk
        have hr : r' = r := by simpa [Dict.getItem] using hget
        have hrest : (flows.filter fun f => decide (f.1.run = run)) = [] := by
          rw [List.filter_eq_nil_iff]
          intro f hf hfrun
          have hmem : f.1 ∈ flows.map Prod.fst := List.mem_map_of_mem hf
          have heq := honly f.1 (List.mem_cons_of_mem k' hmem)
            (of_decide_eq_true hfrun)
          exact hnodup.1 (heq ▸ hmem)
        rw [List.filter_cons_of_pos (by simpa using hrun), hrest, hr]
      · have hne : ¬ k'.run = run :=
          fun h => hk (honly k' List.mem_cons_self h)
        have hget' : Dict.getItem k flows = some r := by
          simpa [Dict.getItem, hk] using hget
        rw [List.filter_cons_of_neg (by simpa using hne)]
        exact ih hnodup.2 hget'
          fun k'' h => honly k'' (List.mem_cons_of_mem k' h)

end Ranges

section Span

/-- A range is the span of the segments, folded around the first one. -/
structure Spans (g₀ : Segment) (gs : List Segment) (r : Range) : Prop where
  first : r.first = g₀.seq % ring
  low : IsLeast {x | ∃ p ∈ gs.map piece,
    x = fold (2 ^ 31) (p.1 - (piece g₀).1)} r.low
  top : IsGreatest {x | ∃ p ∈ gs.map piece,
    x = fold (2 ^ 31) (p.1 - (piece g₀).1) + (p.2 - p.1)} r.top

variable {g g₀ : Segment} {gs : List Segment} {r : Range}

theorem Spans.widen (h : Spans g₀ gs r) (g : Segment) :
    Spans g₀ (gs ++ [g]) (r.widen g.wrapped) := by
  have hrel : fold (2 ^ 31) (g.wrapped.seq - r.first) =
      fold (2 ^ 31) (g.seq - g₀.seq) := by
    rw [h.first]
    exact fold_emod_sub_emod (2 ^ 31) g.seq g₀.seq
  have hpay : g.upto - g.seq = g.payload := by
    unfold Segment.upto
    omega
  have hset : ∀ f : Int × Int → Int,
      {x | ∃ p ∈ (gs ++ [g]).map piece, x = f p} =
        insert (f (piece g)) {x | ∃ p ∈ gs.map piece, x = f p} := by
    intro f
    ext x
    simp only [List.map_append, List.map_cons, List.map_nil, List.mem_append,
      List.mem_singleton, Set.mem_ofPred_eq, Set.mem_insert_iff]
    constructor
    · rintro ⟨p, hp | rfl, hx⟩
      · exact .inr ⟨p, hp, hx⟩
      · exact .inl hx
    · rintro (hx | ⟨p, hp, hx⟩)
      · exact ⟨piece g, .inr rfl, hx⟩
      · exact ⟨p, .inl hp, hx⟩
  refine ⟨h.first, ?_, ?_⟩
  · rw [hset fun p => fold (2 ^ 31) (p.1 - (piece g₀).1)]
    have hmin := h.low.insert (fold (2 ^ 31) (g.seq - g₀.seq))
    rw [min_comm] at hmin
    unfold Range.widen
    rw [hrel]
    exact hmin
  · rw [hset fun p => fold (2 ^ 31) (p.1 - (piece g₀).1) + (p.2 - p.1)]
    have hmax := h.top.insert (fold (2 ^ 31) (g.seq - g₀.seq) + g.payload)
    rw [max_comm] at hmax
    unfold Range.widen
    rw [hrel]
    change IsGreatest (insert (fold (2 ^ 31) (g.seq - g₀.seq) +
      (g.upto - g.seq)) _) _
    rw [hpay]
    exact hmax

theorem spans_first (hpos : 0 < g₀.payload) :
    Spans g₀ [g₀] (Range.widen ⟨g₀.wrapped.seq, 0, 0⟩ g₀.wrapped) := by
  have hzero : fold 2147483648 0 = 0 := by decide
  have hself : ∀ x : Int, fold (2 ^ 31) (x - x) = 0 := by
    intro x
    rw [Int.sub_self]
    exact hzero
  unfold Range.widen
  simp only [hself]
  refine ⟨rfl, ?_, ?_⟩
  · have hset : {x | ∃ p ∈ [g₀].map piece,
        x = fold (2 ^ 31) (p.1 - (piece g₀).1)} = {0} := by
      ext x
      simp [hzero]
    rw [hset]
    exact isLeast_singleton
  · have hset : {x | ∃ p ∈ [g₀].map piece,
        x = fold (2 ^ 31) (p.1 - (piece g₀).1) + (p.2 - p.1)} =
          {g₀.payload} := by
      ext x
      simp [hzero, piece, Segment.upto]
    rw [hset, Int.zero_add, max_eq_right]
    · exact isGreatest_singleton
    · exact Int.le_of_lt hpos

theorem rangeFrom_wrapped (gs : List Segment) {seen : List Segment}
    (h : Spans g₀ seen r) :
    ∃ r', rangeFrom (some r) (gs.map Segment.wrapped) = some r' ∧
      Spans g₀ (seen ++ gs) r' := by
  induction gs generalizing seen r with
  | nil => exact ⟨r, rfl, by rwa [List.append_nil]⟩
  | cons g gs ih =>
      obtain ⟨r', hr', hspans⟩ := ih (h.widen g)
      exact ⟨r', hr', by rwa [List.append_assoc] at hspans⟩

end Span

section Value

variable {τ : Type} [LinearOrder τ]

/-- Only segments with data are counted. -/
theorem payload_pos_of_observe {windows : List (Window τ)} {target : Bytes}
    {p : Packet τ} {x : Text × Segment}
    (h : observe windows target p = .ok (some x)) : 0 < x.2.payload := by
  obtain ⟨o, -, h⟩ := bind_eq_ok h
  cases o with
  | none => cases h
  | some ip =>
      dsimp only at h
      cases hrun : runAt windows p.time with
      | none =>
          rw [hrun] at h
          cases h
      | some run =>
          rw [hrun] at h
          obtain ⟨mine, -, h⟩ := bind_eq_ok h
          cases mine with
          | false => cases h
          | true =>
              rw [if_neg (by decide)] at h
              by_cases hlen : ip.length < headerLength ip + 13
              · rw [if_pos hlen] at h
                cases h
              rw [if_neg hlen] at h
              by_cases hpay : (segment ip).payload ≤ 0
              · rw [if_pos hpay] at h
                cases h
              rw [if_neg hpay] at h
              obtain ⟨own, -, h⟩ := bind_eq_ok h
              cases own with
              | false => cases h
              | true =>
                  cases h
                  exact Int.not_le.1 hpay

variable {xs : List (Text × Segment)} {run : Text} {g₀ : Segment}

/-- Of a run of one flow all segments have the key of the first. -/
theorem filter_key_wrapped
    (hflow : ∀ g ∈ segmentsOf run xs, g.flow = g₀.flow) :
    ((xs.map fun x => (x.1, x.2.wrapped)).filter
      fun x => decide (keyOf x = keyOf (run, g₀))).map Prod.snd =
      (segmentsOf run xs).map Segment.wrapped := by
  have hkey : ∀ x ∈ xs,
      decide (keyOf (x.1, x.2.wrapped) = keyOf (run, g₀)) =
        decide (x.1 = run) := by
    intro x hx
    refine decide_eq_decide.2 ⟨fun h => congrArg Key.run h, fun hrun => ?_⟩
    have hmem : x.2 ∈ segmentsOf run xs :=
      List.mem_map.2 ⟨x, List.mem_filter.2 ⟨hx, decide_eq_true hrun⟩, rfl⟩
    have hflow' : x.2.wrapped.flow = g₀.flow := hflow x.2 hmem
    unfold keyOf
    rw [hflow', hrun]
  unfold segmentsOf
  rw [List.filter_map, List.map_map, List.map_map]
  exact congrArg (List.map fun x => x.2.wrapped) (List.filter_congr hkey)

/-- The one flow of a run leaves the span of its segments. -/
theorem exists_spans (hone : OneFlow (segmentsOf run xs) g₀)
    (hpos : ∀ g ∈ segmentsOf run xs, 0 < g.payload) :
    ∃ r, Spans g₀ (segmentsOf run xs) r ∧
      ((xs.map fun x => (x.1, x.2.wrapped)).foldl count []).filter
        (fun f => decide (f.1.run = run)) = [(keyOf (run, g₀), r)] := by
  obtain ⟨rest, hrest⟩ : ∃ rest, segmentsOf run xs = g₀ :: rest :=
    List.head?_eq_some_iff.1 hone.first
  have hpos₀ : 0 < g₀.payload := hpos g₀ (by simp [hrest])
  obtain ⟨r, hr, hspans⟩ := rangeFrom_wrapped rest (spans_first hpos₀)
  rw [List.singleton_append, ← hrest] at hspans
  have hnodup : (((xs.map fun x => (x.1, x.2.wrapped)).foldl count []).map
      Prod.fst).Nodup :=
    nodup_foldl_count _ List.nodup_nil
  have hget : Dict.getItem (keyOf (run, g₀))
      ((xs.map fun x => (x.1, x.2.wrapped)).foldl count []) = some r := by
    rw [getItem_foldl_count, filter_key_wrapped hone.flow, hrest]
    exact hr
  refine ⟨r, hspans, filter_eq_singleton hnodup hget rfl ?_⟩
  intro k hk hrun
  rcases mem_keys_foldl_count hk with hk | ⟨y, hy, rfl⟩
  · cases hk
  · obtain ⟨x, hx, rfl⟩ := List.mem_map.1 hy
    have hmem : x.2 ∈ segmentsOf run xs :=
      List.mem_map.2 ⟨x, List.mem_filter.2 ⟨hx, decide_eq_true hrun⟩, rfl⟩
    have hflow : x.2.wrapped.flow = g₀.flow := hone.flow x.2 hmem
    have hrun' : x.1 = run := hrun
    unfold keyOf
    rw [hflow, hrun']

/-- The length of the span is the number of the bytes if and only if every
segment starts in the half of the ring around the first one that is seen. -/
theorem span_eq_card_iff (hone : OneFlow (segmentsOf run xs) g₀)
    (hpos : ∀ g ∈ segmentsOf run xs, 0 < g.payload) {r : Range}
    (hspans : Spans g₀ (segmentsOf run xs) r) :
    r.top - r.low = (covered ((segmentsOf run xs).map piece)).card ↔
      NearFirst (segmentsOf run xs) g₀ := by
  obtain ⟨m, M, hcov⟩ := hone.no_hole
  have hmem₀ : g₀ ∈ segmentsOf run xs := List.mem_of_mem_head? hone.first
  have hpieces : ∀ p ∈ (segmentsOf run xs).map piece, p.1 < p.2 := by
    intro p hp
    obtain ⟨g, hg, rfl⟩ := List.mem_map.1 hp
    have hg' := hpos g hg
    change g.seq < g.seq + g.payload
    omega
  have hpiece₀ : piece g₀ ∈ (segmentsOf run xs).map piece :=
    List.mem_map_of_mem hmem₀
  obtain ⟨hm₀, hM₀⟩ := piece_bounds hcov hpiece₀ (hpieces _ hpiece₀)
  have hlt₀ := hpieces _ hpiece₀
  have hcard : ((covered ((segmentsOf run xs).map piece)).card : Int) =
      M - m := by
    rw [hcov, card_stretch]
    omega
  have hshort := hone.short
  rw [hcard] at hshort ⊢
  refine (folded_length_iff (h := 2 ^ 31) hcov hpieces (by omega) hpiece₀
    hspans.low hspans.top).trans ?_
  unfold NearFirst
  rw [List.forall_mem_map]
  rfl

/-- The value of a run of one flow is the length of its span. -/
theorem exists_value (windows : List (Window τ)) (target : Bytes)
    {packets : List (Packet τ)}
    (hxs : gather (observe windows target) packets =
      .ok (xs.map fun x => (x.1, x.2.wrapped)))
    (hone : OneFlow (segmentsOf run xs) g₀) :
    ∃ out, ∃ r : Range, sequenceRanges windows target packets = .ok out ∧
      Dict.getItem run out = some (r.top - r.low) ∧
      (r.top - r.low = (covered ((segmentsOf run xs).map piece)).card ↔
        NearFirst (segmentsOf run xs) g₀) := by
  have hpos : ∀ g ∈ segmentsOf run xs, 0 < g.payload := by
    intro g hg
    obtain ⟨x, hx, rfl⟩ := List.mem_map.1 hg
    obtain ⟨p, hp⟩ := exists_of_mem_gather hxs
      (List.mem_map_of_mem (List.mem_of_mem_filter hx))
    have hwrapped : 0 < x.2.wrapped.payload :=
      payload_pos_of_observe (x := (x.1, x.2.wrapped)) hp
    exact hwrapped
  obtain ⟨r, hspans, hfilter⟩ := exists_spans hone hpos
  have hout : sequenceRanges windows target packets =
      .ok (((xs.map fun x => (x.1, x.2.wrapped)).foldl count []).foldl
        addRange []) := by
    unfold sequenceRanges
    rw [visits_eq _ _ hxs []]
    rfl
  refine ⟨_, r, hout, ?_, span_eq_card_iff hone hpos hspans⟩
  rw [getItem_foldl_addRange, hfilter]
  simp [Dict.getItem]

/-- The value of a run of one flow without a hole is the number of its bytes if
and only if every segment starts in the half of the ring around the first one
that is seen. -/
theorem sequenceRanges_iff (windows : List (Window τ)) (target : Bytes)
    {packets : List (Packet τ)}
    (hxs : gather (observe windows target) packets =
      .ok (xs.map fun x => (x.1, x.2.wrapped)))
    (hone : OneFlow (segmentsOf run xs) g₀) :
    ∃ out, sequenceRanges windows target packets = .ok out ∧
      (Dict.getItem run out =
          some ((covered ((segmentsOf run xs).map piece)).card : Int) ↔
        NearFirst (segmentsOf run xs) g₀) := by
  obtain ⟨out, r, hout, hvalue, hiff⟩ := exists_value windows target hxs hone
  refine ⟨out, hout, ?_⟩
  rw [hvalue, Option.some.injEq]
  exact hiff

end Value

section Download

def download : Text :=
  "1-dl".toList

def server : Bytes :=
  [10, 45, 0, 1]

def windows : List (Window ℚ) :=
  [⟨download, 0, 100⟩]

/-- The `i`-th segment of a download in order, as large as a packet can be. -/
def nth (i : Nat) : Text × Segment :=
  (download, ⟨⟨server, 5201, [10, 45, 0, 7], 40000⟩, 65000 * i, 65000⟩)

/-- A download of `n` segments, and the packets of its capture. -/
def segmentsUpTo (n : Nat) : List (Text × Segment) :=
  (List.range n).map nth

def packetsUpTo (n : Nat) : List (Packet ℚ) :=
  (segmentsUpTo n).map fun x => ⟨5, (tcpFrame x.2.wrapped).bytes, 1⟩

theorem observe_nth (i : Nat) :
    observe windows server ⟨5, (tcpFrame (nth i).2.wrapped).bytes, 1⟩ =
      .ok (some ((nth i).1, (nth i).2.wrapped)) := by
  have hsend : (nth i).2.wrapped.Sendable :=
    ⟨rfl, rfl, by change 5201 < 65536; decide, by change 40000 < 65536; decide,
      Int.emod_nonneg _ (by decide), Int.emod_lt_of_pos _ (by decide),
      by change (0 : Int) ≤ 65000; decide,
      by change (65000 : Int) < 65496; decide⟩
  obtain ⟨hlen, hheader, hseg⟩ := segment_tcpInner hsend
  have hrun : runAt windows 5 = some download := by
    have hstart : (0 : ℚ) ≤ 5 := by decide
    have hstop : (5 : ℚ) ≤ 100 := by decide
    simp [runAt, windows, hstart, hstop, download]
  have hown : inDirection download ((nth i).2.wrapped.dir server) =
      .ok true := by
    change inDirection download .dl = .ok true
    rfl
  have hmine : addressed server (tcpInner (nth i).2.wrapped) = .ok true :=
    addressed_tcpInner hsend (.inl rfl)
  have hpay : ¬ (nth i).2.wrapped.payload ≤ 0 := by
    change ¬ (65000 : Int) ≤ 0
    decide
  unfold observe
  simp only [tcpPacket_tcpFrame, bind, Except.bind, hrun, hmine, hseg]
  rw [if_neg (by decide), if_neg (by omega), if_neg hpay, hown]
  rfl

theorem gather_packetsUpTo (n : Nat) :
    gather (observe windows server) (packetsUpTo n) =
      .ok ((segmentsUpTo n).map fun x => (x.1, x.2.wrapped)) := by
  refine gather_map fun x hx => ?_
  obtain ⟨i, -, rfl⟩ := List.mem_map.1 hx
  exact observe_nth i

theorem segmentsOf_segmentsUpTo (n : Nat) :
    segmentsOf download (segmentsUpTo n) =
      (List.range n).map fun i => (nth i).2 := by
  unfold segmentsOf segmentsUpTo
  rw [List.filter_eq_self.2, List.map_map]
  · rfl
  · intro x hx
    obtain ⟨i, -, rfl⟩ := List.mem_map.1 hx
    rfl

theorem covered_segmentsUpTo (n : Nat) :
    covered ((segmentsOf download (segmentsUpTo n)).map piece) =
      stretch 0 (65000 * (n : Int)) := by
  ext x
  rw [segmentsOf_segmentsUpTo, mem_covered, mem_stretch, List.map_map]
  constructor
  · rintro ⟨p, hp, hle, hlt⟩
    obtain ⟨i, hi, rfl⟩ := List.mem_map.1 hp
    have hi' := List.mem_range.1 hi
    change (65000 : Int) * i ≤ x at hle
    change x < 65000 * i + 65000 at hlt
    omega
  · rintro ⟨hle, hlt⟩
    refine ⟨piece (nth (x / 65000).toNat).2,
      List.mem_map.2 ⟨(x / 65000).toNat, List.mem_range.2 (by omega), rfl⟩, ?_⟩
    change (65000 : Int) * (x / 65000).toNat ≤ x ∧
      x < 65000 * (x / 65000).toNat + 65000
    omega

theorem oneFlow_segmentsUpTo {n : Nat} (hpos : 0 < n)
    (hlt : 65000 * (n : Int) < 2 ^ 32) :
    OneFlow (segmentsOf download (segmentsUpTo n)) (nth 0).2 where
  first := by
    obtain ⟨n, rfl⟩ : ∃ k, n = k + 1 := ⟨n - 1, by omega⟩
    rw [segmentsOf_segmentsUpTo, List.range_succ_eq_map]
    rfl
  flow := by
    intro g hg
    rw [segmentsOf_segmentsUpTo] at hg
    obtain ⟨i, -, rfl⟩ := List.mem_map.1 hg
    rfl
  no_hole := ⟨_, _, covered_segmentsUpTo n⟩
  short := by
    rw [covered_segmentsUpTo, card_stretch]
    omega

/-- The bytes of a download of two segments are counted rightly. -/
theorem sequenceRanges_two :
    ∃ out, sequenceRanges windows server (packetsUpTo 2) = .ok out ∧
      (Dict.getItem download out = some
          ((covered ((segmentsOf download (segmentsUpTo 2)).map piece)).card
            : Int) ↔
        NearFirst (segmentsOf download (segmentsUpTo 2)) (nth 0).2) :=
  sequenceRanges_iff windows server (gather_packetsUpTo 2)
    (oneFlow_segmentsUpTo (by decide) (by decide))

/-- A download of 33040 segments passes half the ring. -/
theorem not_sequenceRanges_download :
    ¬ ∀ (windows : List (Window ℚ)) (target : Bytes)
      (packets : List (Packet ℚ)) (xs : List (Text × Segment)) (run : Text)
      (g₀ : Segment),
      gather (observe windows target) packets =
        .ok (xs.map fun x => (x.1, x.2.wrapped)) →
      OneFlow (segmentsOf run xs) g₀ →
      ∃ out, sequenceRanges windows target packets = .ok out ∧
        Dict.getItem run out =
          some ((covered ((segmentsOf run xs).map piece)).card : Int) := by
  intro h
  have hgather := gather_packetsUpTo 33040
  have hone := oneFlow_segmentsUpTo (n := 33040) (by decide) (by decide)
  obtain ⟨out, hout, hvalue⟩ := h _ _ _ _ _ _ hgather hone
  obtain ⟨out', r, hout', hvalue', hiff⟩ := exists_value _ _ hgather hone
  obtain rfl := Except.ok.inj (hout.symm.trans hout')
  have hnear := hiff.1 (Option.some.inj (hvalue'.symm.trans hvalue))
  have hlast : (nth 33039).2 ∈
      segmentsOf download (segmentsUpTo 33040) := by
    rw [segmentsOf_segmentsUpTo]
    exact List.mem_map.2 ⟨33039, List.mem_range.2 (by decide), rfl⟩
  have hfar := (hnear _ hlast).2
  change (65000 : Int) * (33039 : Nat) - 65000 * (0 : Nat) < 2 ^ 31 at hfar
  omega

end Download

end SequenceRanges
end Experiments
end Kelt
