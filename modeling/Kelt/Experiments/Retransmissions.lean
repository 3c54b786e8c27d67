import Kelt.Experiments.Segments
import Mathlib.Algebra.Order.Ring.Unbundled.Rat
import Mathlib.Logic.Function.Basic

/-!
# Retransmitted segments on the RAN bridge

`br_ran` counts, for each run and direction, the TCP segments of a capture, the
bytes in them, and the segments with data that was seen before on their flow. It
keeps one position for each flow, on the ring of 32-bit sequence numbers. The
position stands for the highest one without a bound (`Tracks`), as long as no
segment ends half the ring away from it; then the counts are those of the
positions without a bound (`brRan_eq_unbounded`).
-/

namespace Kelt
namespace Experiments
namespace BrRan

open Pcap

section Loop

variable {τ : Type} [LinearOrder τ]

/-- A run of the job: `(idx, start, end)`. -/
structure Run (τ : Type) where
  idx : Int
  start : τ
  stop : τ

/-- `sorted(windows_, key=lambda w: w[1])` -/
def sortedRuns (windows : List (Run τ)) : List (Run τ) :=
  windows.mergeSort fun a b => decide (a.start ≤ b.start)

/-- The run at `bisect_right(starts, t) - 1`, if `t` is not after it. -/
def runAt (runs : List (Run τ)) (t : τ) : Option (Run τ) :=
  ((runs.takeWhile fun r => decide (r.start ≤ t)).getLast?).filter
    fun r => decide (t ≤ r.stop)

/-- What the loop takes from a packet: the run and the segment. -/
def observe (windows : List (Run τ)) (target : Bytes) (p : Packet τ) :
    Except Fault (Option (Int × Segment)) :=
  match runAt (sortedRuns windows) p.time with
  | none => return none
  | some run => do
      match ← tcpPacket p.frame p.link with
      | none => return none
      | some ip => do
          let mine ← addressed target ip
          return if mine = true ∧ headerLength ip + 13 ≤ ip.length then
            some (run.idx, segment ip) else none

structure Counts where
  segments : Nat
  payloadBytes : Int
  retransmitted : Nat
  deriving DecidableEq

/-- The counts of each run and direction. -/
abbrev Tally := Int → Dir → Counts

def Tally.zero : Tally :=
  fun _ _ => ⟨0, 0, 0⟩

/-- Count a segment; `again` says whether its data was seen before. -/
def Tally.add (out : Tally) (target : Bytes) (x : Int × Segment)
    (again : Bool) : Tally :=
  let c := out x.1 (x.2.dir target)
  Function.update out x.1 (Function.update (out x.1) (x.2.dir target)
    { segments := c.segments + 1
      payloadBytes := c.payloadBytes + max x.2.payload 0
      retransmitted :=
        if 0 < x.2.payload ∧ again = true then c.retransmitted + 1
        else c.retransmitted })

structure State where
  out : Tally
  top : Flow → Option Int

def State.init : State :=
  ⟨Tally.zero, fun _ => none⟩

/-- `ahead == 0 or ahead >= 2 ** 31` -/
def State.again (s : State) (g : Segment) : Bool :=
  let ahead :=
    match s.top g.flow with
    | some t => ((g.seq + g.payload) % ring - t) % ring
    | none => 1
  decide (ahead = 0 ∨ 2 ^ 31 ≤ ahead)

/-- One segment of the loop. -/
def State.count (target : Bytes) (s : State) (x : Int × Segment) : State where
  out := s.out.add target x (s.again x.2)
  top :=
    if 0 < x.2.payload ∧ s.again x.2 = false then
      Function.update s.top x.2.flow (some ((x.2.seq + x.2.payload) % ring))
    else s.top

/-- `br_ran` -/
def brRan (windows : List (Run τ)) (target : Bytes)
    (packets : List (Packet τ)) : Except Fault Tally := do
  let s ← visits (observe windows target) (State.count target) State.init
    packets
  return s.out

end Loop

section Unbounded

/-- The positions that the data of a flow reaches. -/
def uptos (f : Flow) (seen : List (Int × Segment)) : List Int :=
  (seen.filter fun x => decide (x.2.flow = f ∧ 0 < x.2.payload)).map
    fun x => x.2.upto

def highest (f : Flow) (seen : List (Int × Segment)) : Option Int :=
  (uptos f seen).max?

/-- The segment does not go beyond the data seen before it. -/
def again (seen : List (Int × Segment)) (g : Segment) : Bool :=
  match highest g.flow seen with
  | some m => decide (g.upto ≤ m)
  | none => false

/-- The counts by positions without a bound, behind the segments `seen`. -/
def unboundedFrom (target : Bytes) :
    List (Int × Segment) → Tally → List (Int × Segment) → Tally
  | _, out, [] => out
  | seen, out, x :: xs =>
      unboundedFrom target (seen ++ [x])
        (out.add target x (again seen x.2)) xs

def unbounded (target : Bytes) (xs : List (Int × Segment)) : Tally :=
  unboundedFrom target [] Tally.zero xs

/-- Every segment with data ends less than half the ring away from the highest
position before it. -/
def Near (xs : List (Int × Segment)) : Prop :=
  ∀ before x after, xs = before ++ x :: after → 0 < x.2.payload →
    ∀ m, highest x.2.flow before = some m →
      -2 ^ 31 < x.2.upto - m ∧ x.2.upto - m < 2 ^ 31

/-- Each position that is kept is the remainder of the highest one. -/
def Tracks (seen : List (Int × Segment)) (top : Flow → Option Int) : Prop :=
  ∀ f, top f = (highest f seen).map fun m => m % ring

end Unbounded

section Invariant

variable {seen : List (Int × Segment)} {x : Int × Segment} {f : Flow}

theorem max?_concat (l : List Int) (a : Int) :
    (l ++ [a]).max? = some (l.max?.elim a fun m => max m a) := by
  cases l with
  | nil => rfl
  | cons b l =>
      rw [List.cons_append, List.max?_cons', List.max?_cons',
        List.foldl_append]
      rfl

theorem highest_concat_of_not (h : ¬ (x.2.flow = f ∧ 0 < x.2.payload)) :
    highest f (seen ++ [x]) = highest f seen := by
  unfold highest uptos
  rw [List.filter_append, List.filter_cons_of_neg (by simpa using h)]
  simp

theorem highest_concat (hf : x.2.flow = f) (hdata : 0 < x.2.payload) :
    highest f (seen ++ [x]) =
      some ((highest f seen).elim x.2.upto fun m => max m x.2.upto) := by
  unfold highest uptos
  rw [List.filter_append, List.filter_cons_of_pos (by simp [hf, hdata]),
    List.filter_nil, List.map_append]
  exact max?_concat _ _

/-- A segment without data is never counted as sent again. -/
theorem Tally.add_of_not_data (out : Tally) (target : Bytes)
    (hdata : ¬ 0 < x.2.payload) (a b : Bool) :
    out.add target x a = out.add target x b := by
  unfold Tally.add
  simp only [hdata, false_and, if_false]

/-- The comparison on the ring is the one of the unbounded positions. -/
theorem again_wrapped {s : State} (htop : Tracks seen s.top)
    (hnear : ∀ m, highest x.2.flow seen = some m →
      -2 ^ 31 < x.2.upto - m ∧ x.2.upto - m < 2 ^ 31) :
    s.again x.2.wrapped = again seen x.2 := by
  have hflow : s.top x.2.wrapped.flow = _ := htop x.2.flow
  unfold State.again again
  rw [hflow]
  cases hm : highest x.2.flow seen with
  | none => rfl
  | some m =>
      obtain ⟨hlo, hhi⟩ := hnear m hm
      have hupto : (x.2.wrapped.seq + x.2.wrapped.payload) % ring =
          x.2.upto % ring :=
        Int.emod_add_emod _ _ _
      have hbehind := behind_iff (h := 2 ^ 31) hlo hhi
      simp only [Option.map_some, hupto]
      exact decide_eq_decide.2 hbehind

/-- A segment keeps the remainders. -/
theorem tracks_count {s : State} (target : Bytes) (htop : Tracks seen s.top)
    (hagain : 0 < x.2.payload → s.again x.2.wrapped = again seen x.2) :
    Tracks (seen ++ [x]) (s.count target (x.1, x.2.wrapped)).top := by
  have hupto : (x.2.wrapped.seq + x.2.wrapped.payload) % ring =
      x.2.upto % ring :=
    Int.emod_add_emod _ _ _
  intro f
  change (if 0 < x.2.payload ∧ s.again x.2.wrapped = false then
    Function.update s.top x.2.flow
      (some ((x.2.wrapped.seq + x.2.wrapped.payload) % ring))
    else s.top) f = _
  rw [hupto]
  by_cases hdata : 0 < x.2.payload
  swap
  · rw [if_neg fun h => hdata h.1, highest_concat_of_not fun h => hdata h.2]
    exact htop f
  rw [hagain hdata]
  by_cases hf : x.2.flow = f
  swap
  · rw [highest_concat_of_not fun h => hf h.1, ← htop f]
    by_cases hag : 0 < x.2.payload ∧ again seen x.2 = false
    · rw [if_pos hag, Function.update_of_ne fun h => hf h.symm]
    · rw [if_neg hag]
  subst hf
  rw [highest_concat rfl hdata]
  unfold again
  cases hm : highest x.2.flow seen with
  | none =>
      rw [if_pos ⟨hdata, rfl⟩, Function.update_self]
      rfl
  | some m =>
      simp only [Option.elim_some, Option.map_some]
      by_cases hle : x.2.upto ≤ m
      · rw [if_neg fun h => absurd h.2 (by simp [hle]), htop, hm,
          Int.max_eq_left hle]
        rfl
      · rw [if_pos ⟨hdata, by simp [hle]⟩, Function.update_self,
          Int.max_eq_right (by omega)]

theorem foldl_count_out (target : Bytes) {xs : List (Int × Segment)}
    {s : State} (htop : Tracks seen s.top)
    (hnear : ∀ before x after, xs = before ++ x :: after → 0 < x.2.payload →
      ∀ m, highest x.2.flow (seen ++ before) = some m →
        -2 ^ 31 < x.2.upto - m ∧ x.2.upto - m < 2 ^ 31) :
    ((xs.map fun x => (x.1, x.2.wrapped)).foldl (State.count target) s).out =
      unboundedFrom target seen s.out xs := by
  induction xs generalizing seen s with
  | nil => rfl
  | cons x xs ih =>
      have hagain : 0 < x.2.payload →
          s.again x.2.wrapped = again seen x.2 := by
        intro hdata
        refine again_wrapped htop fun m hm => ?_
        exact hnear [] x xs rfl hdata m (by rwa [List.append_nil])
      rw [List.map_cons, List.foldl_cons,
        ih (tracks_count target htop hagain)]
      · have hout : (s.count target (x.1, x.2.wrapped)).out =
            s.out.add target x (again seen x.2) := by
          by_cases hdata : 0 < x.2.payload
          · rw [← hagain hdata]
            rfl
          · exact Tally.add_of_not_data s.out target hdata _ _
        rw [hout]
        rfl
      · intro before y after hxs
        rw [List.append_assoc]
        exact hnear (x :: before) y after (by rw [hxs]; rfl)

end Invariant

section Counts

variable {τ : Type} [LinearOrder τ]

/-- The counts of a capture are those of the positions without a bound, for any
flows in one another and any number of times around the ring. -/
theorem brRan_eq_unbounded (windows : List (Run τ)) (target : Bytes)
    {packets : List (Packet τ)} {xs : List (Int × Segment)}
    (hxs : gather (observe windows target) packets =
      .ok (xs.map fun x => (x.1, x.2.wrapped)))
    (hnear : Near xs) :
    brRan windows target packets = .ok (unbounded target xs) := by
  unfold brRan
  rw [visits_eq _ _ hxs]
  have htop : Tracks [] State.init.top := fun _ => rfl
  have hout := foldl_count_out target htop hnear
  exact congrArg Except.ok hout

theorem observe_tcpFrame {windows : List (Run τ)} {target : Bytes} {t : τ}
    {run : Run τ} {g : Segment} (hrun : runAt (sortedRuns windows) t = some run)
    (hg : g.Sendable) (htarget : target = g.flow.src ∨ target = g.flow.dst) :
    observe windows target ⟨t, (tcpFrame g).bytes, 1⟩ =
      .ok (some (run.idx, g)) := by
  obtain ⟨hlen, hheader, hseg⟩ := segment_tcpInner hg
  unfold observe
  simp only [hrun, tcpPacket_tcpFrame, bind, Except.bind,
    addressed_tcpInner hg htarget]
  rw [if_pos ⟨trivial, by omega⟩, hseg]
  rfl

theorem near_nil : Near [] := by
  intro before x after h
  simp at h

theorem Near.concat {xs : List (Int × Segment)} {x : Int × Segment}
    (hxs : Near xs)
    (hx : 0 < x.2.payload → ∀ m, highest x.2.flow xs = some m →
      -2 ^ 31 < x.2.upto - m ∧ x.2.upto - m < 2 ^ 31) :
    Near (xs ++ [x]) := by
  intro before y after h
  rcases List.eq_nil_or_concat after with rfl | ⟨after, z, rfl⟩
  · obtain ⟨rfl, hy⟩ := List.append_inj' h rfl
    obtain rfl := List.head_eq_of_cons_eq hy
    exact hx
  · have happ : before ++ y :: after.concat z =
        (before ++ y :: after) ++ [z] := by
      simp
    rw [happ] at h
    exact hxs before y after (List.append_inj' h rfl).1

end Counts

section Wrap

/-- A segment from the target to the UE. -/
def down (seq : Int) : Int × Segment :=
  (1, ⟨⟨[10, 45, 0, 1], 5201, [10, 45, 0, 7], 40000⟩, seq, 100⟩)

/-- Two segments around the end of the ring, and the first of them again. -/
def acrossTheEnd : List (Int × Segment) :=
  [down 4294967246, down 4294967346, down 4294967246]

theorem near_acrossTheEnd : Near acrossTheEnd := by
  have hfirst : Near ([] ++ [down 4294967246]) :=
    near_nil.concat fun _ m hm => by cases hm
  have hsecond : Near ([down 4294967246] ++ [down 4294967346]) :=
    hfirst.concat fun _ m hm => by
      obtain rfl := Option.some.inj hm
      decide
  exact hsecond.concat (x := down 4294967246) fun _ m hm => by
    obtain rfl := Option.some.inj hm
    decide

theorem gather_acrossTheEnd :
    gather (observe [⟨1, 0, 100⟩] [10, 45, 0, 1])
      (acrossTheEnd.map fun x =>
        (⟨5, (tcpFrame x.2.wrapped).bytes, 1⟩ : Packet ℚ)) =
      .ok (acrossTheEnd.map fun x => (x.1, x.2.wrapped)) := by
  have hobserve : ∀ x ∈ acrossTheEnd, observe [(⟨1, 0, 100⟩ : Run ℚ)]
      [10, 45, 0, 1] ⟨5, (tcpFrame x.2.wrapped).bytes, 1⟩ =
        .ok (some (x.1, x.2.wrapped)) := by
    intro x hx
    simp only [acrossTheEnd, List.mem_cons, List.not_mem_nil, or_false] at hx
    have hrun : runAt (sortedRuns [(⟨1, 0, 100⟩ : Run ℚ)]) 5 =
        some ⟨1, 0, 100⟩ := by
      have hstart : (0 : ℚ) ≤ 5 := by decide
      have hstop : (5 : ℚ) ≤ 100 := by decide
      simp [runAt, sortedRuns, hstart, hstop]
    rcases hx with rfl | rfl | rfl <;>
      exact observe_tcpFrame hrun ⟨rfl, rfl, by decide, by decide, by decide,
        by decide, by decide, by decide⟩ (.inl rfl)
  exact gather_map hobserve

/-- The two segments are counted as new, and the third as sent again. -/
theorem brRan_acrossTheEnd :
    brRan [⟨1, 0, 100⟩] [10, 45, 0, 1]
      (acrossTheEnd.map fun x =>
        (⟨5, (tcpFrame x.2.wrapped).bytes, 1⟩ : Packet ℚ)) =
      .ok (unbounded [10, 45, 0, 1] acrossTheEnd) ∧
    unbounded [10, 45, 0, 1] acrossTheEnd 1 .dl = ⟨3, 300, 1⟩ :=
  ⟨brRan_eq_unbounded _ _ gather_acrossTheEnd near_acrossTheEnd, by decide⟩

end Wrap

end BrRan
end Experiments
end Kelt
