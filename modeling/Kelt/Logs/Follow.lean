import Kelt.Lib.Runs
import Kelt.Logs.Lines

/-!
# Following a pod's log

The follow loop polls the log call every two seconds, each time for a fixed
window before now, and sends the lines after the last one it has sent. Polls take
their time, fail and time out, while the log grows. Every line that appears after
the first successful poll is sent once and in order as long as no answer comes
too late for a line it has not had (`delivered_of_fits`); nothing makes up for a
line that the window has left behind.
-/

namespace Kelt
namespace Logs

section Follow

/-- Times are in nanoseconds. -/
def second : Int := 1000000000

/-- `POLL_INTERVAL_S` -/
def pollInterval : Int := 2 * second

/-- `LOG_CALL_TIMEOUT_S` -/
def logCallTimeout : Int := 8 * second

/-- `INITIAL_TAIL` -/
def initialTail : Nat := 200

/-- `MAX_TAIL` -/
def maxTail : Int := 3000

/-- `tail_lines` -/
def tailLines (param : Option Text) : Nat :=
  match param.bind int10 with
  | some n => (min (max n 1) maxTail).toNat
  | none => initialTail

/-- The lines that the call returns of a log. -/
def returned (tail : Nat) (lastTs : Option Text) (cut : Int)
    (log : List Line) : List Line :=
  match lastTs with
  | none => log.drop (log.length - tail)
  | some [] => log
  | some (_ :: _) => log.filter fun l => decide (cut ≤ l.time)

/-- Where the loop stands. An answer is the lines that the node has returned of
the first `read` lines of the log, and the time from which it has looked. -/
inductive Phase where
  | sleeping (till : Int)
  | asked (since : Int)
  | answered (since cut : Int) (read : Nat) (lines : List Line)

/-- What the successful polls have read: how long the log was at the first of
them and at the last, how much had been sent after the first, and from when the
last one looked. -/
structure Seen where
  mark : Nat
  sentBefore : Nat
  covered : Nat
  cut : Int

structure Sys where
  now : Int
  log : List Line
  stream : Stream
  phase : Phase
  seen : Option Seen

inductive Act where
  | tick (now : Int)
  | emit (l : Line)
  | ask
  | serve
  | answer
  | fail

/-- `since_seconds` before now. -/
def Sys.cutoff (s : Sys) : Int :=
  s.now - (pollInterval + 2 * second)

/-- What has been read after an answer. -/
def Sys.seenAfter (s : Sys) (st : Stream) (cut : Int) (read : Nat) : Seen :=
  match s.seen with
  | none => ⟨read, (sentLines st.out).length, read, cut⟩
  | some sn => { sn with covered := read, cut := cut }

/-- Time goes on, the pod writes a line, the loop asks, the node reads the log,
the answer comes, or the call fails or is given up. -/
def Sys.step (tail : Nat) (s : Sys) : Act → Option Sys
  | .tick now => if s.now ≤ now then some { s with now := now } else none
  | .emit l =>
      if ∀ l' ∈ s.log, l'.time < l.time ∧ l'.ts < l.ts then
        some { s with log := s.log ++ [l] }
      else none
  | .ask =>
      match s.phase with
      | .sleeping till =>
          if till ≤ s.now then some { s with phase := .asked s.now } else none
      | _ => none
  | .serve =>
      match s.phase with
      | .asked since =>
          some { s with
            phase := .answered since s.cutoff s.log.length
              (returned tail s.stream.lastTs s.cutoff s.log) }
      | _ => none
  | .answer =>
      match s.phase with
      | .answered since cut read lines =>
          if s.now ≤ since + logCallTimeout then
            some { s with
              stream := s.stream.poll (answerText lines)
              phase := .sleeping (s.now + pollInterval)
              seen := some (s.seenAfter (s.stream.poll (answerText lines)) cut
                read) }
          else none
      | _ => none
  | .fail =>
      match s.phase with
      | .sleeping _ => none
      | _ =>
          some { s with
            stream := s.stream.poll []
            phase := .sleeping (s.now + pollInterval) }

/-- The loop begins, with the last timestamp that `from_start` has left. -/
def start (now : Int) (log : List Line) (lastTs : Option Text) (count : Nat) :
    Sys where
  now := now
  log := log
  stream := ⟨lastTs, count, []⟩
  phase := .sleeping now
  seen := none

/-- Without `from_start`, after a backlog without lines, or after one. -/
def Starts (log : List Line) (lastTs : Option Text) (count : Nat) : Prop :=
  lastTs = none ∧ count = 0 ∨ lastTs = some [] ∧ count = 1 ∨
    ∃ l ∈ log, lastTs = some l.ts ∧ count = 0

end Follow

section Delivered

/-- What has been sent since the first successful poll are the lines that have
appeared since then, up to the last successful poll, each once and in order. -/
def Sys.Delivered (s : Sys) : Prop :=
  ∀ sn, s.seen = some sn →
    List.Forall₂ SentAs ((sentLines s.stream.out).drop sn.sentBefore)
      ((s.log.take sn.covered).drop sn.mark)

/-- An answer is in time for the lines it has to bring, and its last line is
not blank. -/
def Sys.Fits (s : Sys) : Act → Prop
  | .answer =>
      match s.phase with
      | .answered _ cut read lines =>
          (∀ l, lines.getLast? = some l → l.isBlankMsg = false) ∧
            ∀ sn, s.seen = some sn → s.stream.effectiveLast.isSome →
              ∀ l ∈ (s.log.take read).drop sn.covered, cut ≤ l.time
      | _ => True
  | _ => True

end Delivered

section Answer

variable {tail : Nat} {st : Stream} {cut : Int} {log : List Line}

theorem one_le_tailLines (param : Option Text) : 1 ≤ tailLines param := by
  unfold tailLines
  split
  · rename_i n _
    unfold maxTail
    omega
  · decide

theorem Ascending.le_getLast (h : Ascending log) {l l' : Line} (hl : l ∈ log)
    (hlast : log.getLast? = some l') : l.ts ≤ l'.ts := by
  obtain ⟨front, rfl⟩ := List.getLast?_eq_some_iff.1 hlast
  rcases List.mem_append.1 hl with hl | hl
  · exact ((List.pairwise_append.1 h).2.2 l hl l' List.mem_cons_self).2.le
  · rw [List.mem_singleton.1 hl]

/-- Without a last timestamp the call returns the end of the log. -/
theorem returned_of_none (htail : 1 ≤ tail) (h : st.effectiveLast = none)
    (cut : Int) (log : List Line) :
    ∃ k, returned tail st.lastTs cut log = log.drop k ∧
      (log ≠ [] → k < log.length) ∧ (st.lastTs = some [] → k = 0) := by
  cases hts : st.lastTs with
  | none =>
      refine ⟨log.length - tail, rfl, fun hne => ?_, fun h => by cases h⟩
      have hpos := List.length_pos_iff.2 hne
      omega
  | some ts =>
      cases ts with
      | nil => exact ⟨0, rfl, List.length_pos_iff.2, fun _ => rfl⟩
      | cons c ts =>
          rw [Stream.effectiveLast, hts] at h
          cases h

theorem returned_of_some (tail : Nat) {ts : Text}
    (h : st.effectiveLast = some ts) (cut : Int) (log : List Line) :
    st.lastTs = some ts ∧
      returned tail st.lastTs cut log =
        log.filter fun l => decide (cut ≤ l.time) := by
  obtain ⟨hts, hne⟩ := Option.filter_eq_some_iff.1 h
  refine ⟨hts, ?_⟩
  rw [hts]
  cases ts with
  | nil => cases hne
  | cons c ts => rfl

theorem effectiveLast_eq {ts : Text} (h : st.lastTs = some ts)
    (hne : ts ≠ []) : st.effectiveLast = some ts := by
  rw [Stream.effectiveLast, h, Option.filter_some, if_pos]
  cases ts with
  | nil => exact absurd rfl hne
  | cons c ts => rfl

/-- What the last timestamp says of the lines that have been read. -/
structure Passed (st : Stream) (log : List Line) (cut : Int) : Prop where
  polled : st.lastTs ≠ none
  empty : st.lastTs = some [] → log = []
  known : ∀ ts, st.effectiveLast = some ts → ∃ l ∈ log, l.ts = ts
  passed : ∀ ts, st.effectiveLast = some ts →
    ∀ l ∈ log, l.ts ≤ ts ∨ l.time < cut

theorem passed_of_empty (hts : st.lastTs = some []) (hlog : log = []) :
    Passed st log cut := by
  have heff : st.effectiveLast = none := by
    rw [Stream.effectiveLast, hts]
    rfl
  refine ⟨by rw [hts]; exact Option.some_ne_none _, fun _ => hlog, ?_, ?_⟩
  all_goals
    intro ts hts'
    rw [heff] at hts'
    cases hts'

theorem passed_of_known {l : Line} (hts : st.lastTs = some l.ts)
    (hl : l ∈ log) (hle : ∀ l' ∈ log, l'.ts ≤ l.ts ∨ l'.time < cut) :
    Passed st log cut := by
  have heff := effectiveLast_eq hts l.ts_ne
  refine ⟨by rw [hts]; exact Option.some_ne_none _, fun h => ?_,
    fun ts h => ?_, fun ts h => ?_⟩
  · rw [hts] at h
    exact absurd (Option.some.inj h) l.ts_ne
  · rw [heff] at h
    exact ⟨l, hl, Option.some.inj h⟩
  · rw [heff] at h
    obtain rfl := Option.some.inj h
    exact hle

/-- After an answer the last timestamp is that of the last line that can have
come with it. -/
theorem passed_poll {lines : List Line} (htail : 1 ≤ tail)
    (hasc : Ascending log) (hfresh : st.lastTs = none → st.sentCount = 0)
    (hknown : ∀ ts, st.effectiveLast = some ts → ∃ l ∈ log, l.ts = ts)
    (hlines : lines = returned tail st.lastTs cut log)
    (hblank : ∀ l, lines.getLast? = some l → l.isBlankMsg = false) :
    Passed (st.poll (answerText lines)) log cut := by
  cases heff : st.effectiveLast with
  | none =>
      obtain ⟨k, hdrop, hk, -⟩ := returned_of_none htail heff cut log
      rw [hdrop] at hlines
      cases hlast : log.getLast? with
      | none =>
          obtain rfl := List.getLast?_eq_none_iff.1 hlast
          rw [List.drop_nil] at hlines
          subst hlines
          refine passed_of_empty ?_ rfl
          rw [show answerText [] = [] from rfl, st.poll_nil.2.1]
          split
          · rfl
          · rename_i hnot
            cases hts : st.lastTs with
            | none => exact absurd ⟨hfresh hts, hts⟩ hnot
            | some ts =>
                cases ts with
                | nil => rfl
                | cons c ts =>
                    rw [effectiveLast_eq hts (List.cons_ne_nil c ts)] at heff
                    cases heff
      | some l =>
          have hne : log ≠ [] := by
            rintro rfl
            cases hlast
          have hlinesLast : lines.getLast? = some l := by
            rw [hlines, List.getLast?_drop, if_neg (Nat.not_le.2 (hk hne)),
              hlast]
          have hlinesNe : lines ≠ [] := by
            rintro rfl
            cases hlinesLast
          have hlinesAsc : Ascending lines := by
            rw [hlines]
            exact hasc.drop
          obtain ⟨sent, -, -, hts⟩ := st.poll_lines hlinesAsc hlinesNe hblank
          have hall : lines.filter (fun l => isAfter st.effectiveLast l.ts) =
              lines := by
            rw [heff]
            exact List.filter_eq_self.2 fun _ _ => rfl
          rw [hall, hlinesLast] at hts
          exact passed_of_known hts (List.mem_of_getLast? hlast)
            fun l' hl' => .inl (hasc.le_getLast hl' hlast)
  | some ts =>
      obtain ⟨hts, hfilter⟩ := returned_of_some tail heff cut log
      rw [hfilter] at hlines
      obtain ⟨l₀, hl₀, hts₀⟩ := hknown ts heff
      -- a line that is not in the answer is older than the window
      have hmem : ∀ l ∈ log, l ∈ lines ∨ l.time < cut := by
        intro l hl
        by_cases hcut : cut ≤ l.time
        · rw [hlines]
          exact .inl (List.mem_filter.2 ⟨hl, decide_eq_true hcut⟩)
        · exact .inr (not_le.1 hcut)
      by_cases hne : lines = []
      · subst hne
        have hpoll : (st.poll (answerText [])).lastTs = some l₀.ts := by
          rw [show answerText [] = [] from rfl, st.poll_nil.2.1, if_neg, hts,
            hts₀]
          rintro ⟨-, hnone⟩
          rw [hts] at hnone
          cases hnone
        refine passed_of_known hpoll hl₀ fun l hl => .inr ?_
        rcases hmem l hl with h | h
        · cases h
        · exact h
      · have hlinesAsc : Ascending lines := by
          rw [hlines]
          exact hasc.filter _
        obtain ⟨sent, -, -, hlastTs⟩ := st.poll_lines hlinesAsc hne hblank
        rw [heff, hts] at hlastTs
        have hsub : ∀ l ∈ lines, l ∈ log := fun l hl => by
          rw [hlines] at hl
          exact List.mem_of_mem_filter hl
        have hnotAfter : ∀ l ∈ lines, isAfter (some ts) l.ts = false →
            l.ts ≤ ts := fun l _ h => not_lt.1 (of_decide_eq_false h)
        cases hlast : (lines.filter fun l =>
            isAfter (some ts) l.ts).getLast? with
        | none =>
            rw [hlast, ← hts₀] at hlastTs
            refine passed_of_known hlastTs hl₀ fun l hl => ?_
            refine (hmem l hl).imp_left fun hline => ?_
            rw [hts₀]
            refine hnotAfter l hline (Bool.eq_false_iff.2 fun hafter => ?_)
            exact List.filter_eq_nil_iff.1 (List.getLast?_eq_none_iff.1 hlast) l
              hline hafter
        | some l' =>
            rw [hlast] at hlastTs
            have hl' := List.mem_filter.1 (List.mem_of_getLast? hlast)
            refine passed_of_known hlastTs (hsub l' hl'.1) fun l hl => ?_
            refine (hmem l hl).imp_left fun hline => ?_
            cases hafter : isAfter (some ts) l.ts with
            | true =>
                exact Ascending.le_getLast (hlinesAsc.filter _)
                  (List.mem_filter.2 ⟨hline, hafter⟩) hlast
            | false =>
                exact (hnotAfter l hline hafter).trans
                  (le_of_lt (of_decide_eq_true hl'.2))

end Answer

section Invariant

variable {tail : Nat} {s s' : Sys}

/-- A later poll sends what has appeared since the one before, when its answer
is in time for it. -/
theorem filter_returned {st : Stream} {log : List Line} {m : Nat} {c cut : Int}
    (htail : 1 ≤ tail) (hasc : Ascending log) (hm : m ≤ log.length)
    (hpassed : Passed st (log.take m) c) (hc : c ≤ cut)
    (htime : st.effectiveLast.isSome → ∀ l ∈ log.drop m, cut ≤ l.time) :
    (returned tail st.lastTs cut log).filter
      (fun l => isAfter st.effectiveLast l.ts) = log.drop m := by
  cases heff : st.effectiveLast with
  | none =>
      have hts : st.lastTs = some [] := by
        cases hts : st.lastTs with
        | none => exact absurd hts hpassed.polled
        | some ts =>
            cases ts with
            | nil => rfl
            | cons a ts =>
                rw [effectiveLast_eq hts (List.cons_ne_nil a ts)] at heff
                cases heff
      have hzero : m = 0 := by
        have hlen := congrArg List.length (hpassed.empty hts)
        rw [List.length_take, Nat.min_eq_left hm] at hlen
        exact hlen
      obtain ⟨k, hdrop, -, hk⟩ := returned_of_none htail heff cut log
      rw [hdrop, hk hts, hzero]
      exact List.filter_eq_self.2 fun _ _ => rfl
  | some ts =>
      obtain ⟨l₀, hl₀, rfl⟩ := hpassed.known ts heff
      rw [(returned_of_some tail heff cut log).2]
      have hsplit := List.take_append_drop m log
      have hpairs : (log.take m ++ log.drop m).Pairwise fun l l' =>
          l.time < l'.time ∧ l.ts < l'.ts := by
        rw [hsplit]
        exact hasc
      have hold : ((log.take m).filter fun l => decide (cut ≤ l.time)).filter
          (fun l => isAfter (some l₀.ts) l.ts) = [] := by
        refine List.filter_eq_nil_iff.2 fun l hl hafter => ?_
        obtain ⟨hmem, hcut⟩ := List.mem_filter.1 hl
        rcases hpassed.passed _ heff l hmem with hle | hlt
        · exact absurd (of_decide_eq_true hafter) (not_lt.2 hle)
        · exact absurd (hlt.trans_le hc) (not_lt.2 (of_decide_eq_true hcut))
      have hnew : ((log.drop m).filter fun l => decide (cut ≤ l.time)).filter
          (fun l => isAfter (some l₀.ts) l.ts) = log.drop m := by
        rw [List.filter_eq_self.2 fun l hl => decide_eq_true
          (htime (by rw [heff]; rfl) l hl)]
        refine List.filter_eq_self.2 fun l hl => decide_eq_true ?_
        exact ((List.pairwise_append.1 hpairs).2.2 l₀ hl₀ l hl).2
      conv_lhs => rw [← hsplit]
      rw [List.filter_append, List.filter_append, hold, hnew, List.nil_append]

/-- An answer on its way. -/
structure InFlight (tail : Nat) (s : Sys) (cut : Int) (read : Nat)
    (lines : List Line) : Prop where
  read_le : read ≤ s.log.length
  cut_le : cut ≤ s.cutoff
  lines_eq : lines = returned tail s.stream.lastTs cut (s.log.take read)
  known : ∀ ts, s.stream.effectiveLast = some ts →
    ∃ l ∈ s.log.take read, l.ts = ts
  seen : ∀ sn, s.seen = some sn → sn.covered ≤ read ∧ sn.cut ≤ cut

structure Follows (tail : Nat) (s : Sys) : Prop where
  asc : Ascending s.log
  fresh : s.stream.lastTs = none → s.stream.sentCount = 0
  polled : s.stream.lastTs = none → s.seen = none
  known : ∀ ts, s.stream.effectiveLast = some ts → ∃ l ∈ s.log, l.ts = ts
  seen : ∀ sn, s.seen = some sn → sn.mark ≤ sn.covered ∧
    sn.covered ≤ s.log.length ∧
    sn.sentBefore ≤ (sentLines s.stream.out).length ∧ sn.cut ≤ s.cutoff ∧
    Passed s.stream (s.log.take sn.covered) sn.cut
  flight : ∀ since cut read lines, s.phase = .answered since cut read lines →
    InFlight tail s cut read lines
  delivered : s.Delivered

theorem follows_start (now : Int) {log : List Line} {lastTs : Option Text}
    {count : Nat} (hlog : Ascending log) (h : Starts log lastTs count) :
    Follows tail (start now log lastTs count) where
  asc := hlog
  fresh := by
    intro hnone
    rcases h with ⟨-, hcount⟩ | ⟨hts, -⟩ | ⟨l, -, hts, -⟩
    · exact hcount
    · exact absurd (hts.symm.trans hnone) (Option.some_ne_none _)
    · exact absurd (hts.symm.trans hnone) (Option.some_ne_none _)
  polled := fun _ => rfl
  known := by
    intro ts hts
    obtain ⟨hlast, hne⟩ := Option.filter_eq_some_iff.1 hts
    rcases h with ⟨hnone, -⟩ | ⟨hempty, -⟩ | ⟨l, hl, hts', -⟩
    · exact absurd (hlast.symm.trans hnone) (Option.some_ne_none _)
    · obtain rfl := Option.some.inj (hempty.symm.trans hlast)
      cases hne
    · exact ⟨l, hl, Option.some.inj (hts'.symm.trans hlast)⟩
  seen := by intro sn h; cases h
  flight := by intro since cut read lines h; cases h
  delivered := by intro sn h; cases h

theorem Follows.tick (h : Follows tail s) {now : Int} (hnow : s.now ≤ now) :
    Follows tail { s with now := now } := by
  have hcut : s.cutoff ≤ Sys.cutoff { s with now := now } := by
    unfold Sys.cutoff
    exact Int.sub_le_sub_right hnow _
  refine ⟨h.asc, h.fresh, h.polled, h.known, fun sn hsn => ?_,
    fun since cut read lines hphase => ?_, h.delivered⟩
  · obtain ⟨hmark, hcov, hsent, hle, hpassed⟩ := h.seen sn hsn
    exact ⟨hmark, hcov, hsent, hle.trans hcut, hpassed⟩
  · obtain ⟨hread, hle, hlines, hknown, hseen⟩ :=
      h.flight since cut read lines hphase
    exact ⟨hread, hle.trans hcut, hlines, hknown, hseen⟩

theorem Follows.emit (h : Follows tail s) {l : Line}
    (hl : ∀ l' ∈ s.log, l'.time < l.time ∧ l'.ts < l.ts) :
    Follows tail { s with log := s.log ++ [l] } := by
  have htake : ∀ n ≤ s.log.length, (s.log ++ [l]).take n = s.log.take n :=
    fun n hn => List.take_append_of_le_length hn
  refine ⟨?_, h.fresh, h.polled, fun ts hts => ?_, fun sn hsn => ?_,
    fun since cut read lines hphase => ?_, fun sn hsn => ?_⟩
  · refine List.pairwise_append.2 ⟨h.asc, List.pairwise_singleton _ _,
      fun l' hl' l'' hl'' => ?_⟩
    rw [List.mem_singleton.1 hl'']
    exact hl l' hl'
  · obtain ⟨l', hl', hts'⟩ := h.known ts hts
    exact ⟨l', List.mem_append_left _ hl', hts'⟩
  · obtain ⟨hmark, hcov, hsent, hle, hpassed⟩ := h.seen sn hsn
    refine ⟨hmark, ?_, hsent, hle, ?_⟩
    · rw [List.length_append]
      omega
    · rw [htake _ hcov]
      exact hpassed
  · obtain ⟨hread, hle, hlines, hknown, hseen⟩ :=
      h.flight since cut read lines hphase
    refine ⟨?_, hle, ?_, ?_, hseen⟩
    · rw [List.length_append]
      omega
    · rw [htake _ hread]
      exact hlines
    · rw [htake _ hread]
      exact hknown
  · rw [htake _ (h.seen sn hsn).2.1]
    exact h.delivered sn hsn

theorem Follows.ask (h : Follows tail s) (since : Int) :
    Follows tail { s with phase := .asked since } where
  asc := h.asc
  fresh := h.fresh
  polled := h.polled
  known := h.known
  seen := h.seen
  flight := by intro since cut read lines hphase; cases hphase
  delivered := h.delivered

theorem Follows.serve (h : Follows tail s) (since : Int) :
    Follows tail { s with
      phase := .answered since s.cutoff s.log.length
        (returned tail s.stream.lastTs s.cutoff s.log) } where
  asc := h.asc
  fresh := h.fresh
  polled := h.polled
  known := h.known
  seen := h.seen
  flight := by
    intro since' cut read lines hphase
    cases hphase
    refine ⟨Nat.le_refl _, le_refl _, ?_, ?_, fun sn hsn => ?_⟩
    · rw [List.take_length]
    · rw [List.take_length]
      exact h.known
    · obtain ⟨-, hcov, -, hle, -⟩ := h.seen sn hsn
      exact ⟨hcov, hle⟩
  delivered := h.delivered

theorem Follows.fail (h : Follows tail s) (till : Int) :
    Follows tail { s with
      stream := s.stream.poll [], phase := .sleeping till } := by
  cases hts : s.stream.lastTs with
  | some ts =>
      have hpoll : s.stream.poll [] = s.stream :=
        Stream.poll_nil_of_some (by rw [hts]; exact Option.some_ne_none ts)
      rw [hpoll]
      exact ⟨h.asc, h.fresh, h.polled, h.known, h.seen,
        fun _ _ _ _ hphase => (by cases hphase), h.delivered⟩
  | none =>
      have hlast : (s.stream.poll []).lastTs = some [] := by
        rw [s.stream.poll_nil.2.1, if_pos ⟨h.fresh hts, hts⟩]
      have hpassed : Passed (s.stream.poll []) [] 0 :=
        passed_of_empty hlast rfl
      refine ⟨h.asc, fun hnone => absurd hnone hpassed.polled,
        fun hnone => absurd hnone hpassed.polled, fun ts hts => ?_,
        fun sn hsn => ?_, fun _ _ _ _ hphase => (by cases hphase),
        fun sn hsn => ?_⟩
      · obtain ⟨l, hl, -⟩ := hpassed.known ts hts
        cases hl
      · rw [h.polled hts] at hsn
        cases hsn
      · rw [h.polled hts] at hsn
        cases hsn

theorem drop_append_drop {α : Type*} (l : List α) {i j : Nat} (hij : i ≤ j) :
    (l.take j).drop i ++ l.drop j = l.drop i := by
  conv_rhs => rw [← List.take_append_drop j l]
  rw [List.drop_append]
  by_cases hj : j ≤ l.length
  · rw [List.length_take, Nat.min_eq_left hj, Nat.sub_eq_zero_of_le hij,
      List.drop_zero]
  · rw [List.drop_eq_nil_of_le (Nat.le_of_not_le hj), List.drop_nil]

theorem Follows.answer (htail : 1 ≤ tail) (h : Follows tail s)
    {since cut till : Int} {read : Nat} {lines : List Line}
    (hphase : s.phase = .answered since cut read lines)
    (hfits : s.Fits .answer) :
    Follows tail { s with
      stream := s.stream.poll (answerText lines)
      phase := .sleeping till
      seen := some (s.seenAfter (s.stream.poll (answerText lines)) cut
        read) } := by
  obtain ⟨hread, hcut, hlines, hknown, hseen⟩ :=
    h.flight since cut read lines hphase
  simp only [Sys.Fits, hphase] at hfits
  obtain ⟨hblank, htime⟩ := hfits
  have hascRead : Ascending (s.log.take read) := h.asc.take
  have hascLines : Ascending lines := by
    rw [hlines]
    unfold returned
    split
    · exact hascRead.drop
    · exact hascRead
    · exact hascRead.filter _
  have hpassed : Passed (s.stream.poll (answerText lines)) (s.log.take read)
      cut := passed_poll htail hascRead h.fresh hknown hlines hblank
  obtain ⟨sent, hsent, hout⟩ := s.stream.poll_sent hascLines hblank
  refine ⟨h.asc, fun hnone => absurd hnone hpassed.polled,
    fun hnone => absurd hnone hpassed.polled, fun ts hts => ?_,
    fun sn hsn => ?_, fun _ _ _ _ hphase => (by cases hphase),
    fun sn hsn => ?_⟩
  · obtain ⟨l, hl, hl'⟩ := hpassed.known ts hts
    exact ⟨l, List.mem_of_mem_take hl, hl'⟩
  · obtain rfl := Option.some.inj hsn
    unfold Sys.seenAfter
    cases hsn : s.seen with
    | none => exact ⟨le_refl _, hread, le_refl _, hcut, hpassed⟩
    | some sn =>
        obtain ⟨hmark, -, hbefore, -, -⟩ := h.seen sn hsn
        refine ⟨hmark.trans (hseen sn hsn).1, hread, ?_, hcut, hpassed⟩
        simp only [hout, List.length_append]
        omega
  · obtain rfl := Option.some.inj hsn
    unfold Sys.seenAfter
    cases hsn : s.seen with
    | none =>
        simp only [List.drop_length]
        rw [List.drop_eq_nil_of_le (List.length_take_le _ _)]
        exact .nil
    | some sn =>
        obtain ⟨hmark, hcov, hbefore, -, hold⟩ := h.seen sn hsn
        obtain ⟨hle, hcutle⟩ := hseen sn hsn
        have htake : (s.log.take read).take sn.covered =
            s.log.take sn.covered := by
          rw [List.take_take, Nat.min_eq_left hle]
        have hnew : (lines.filter fun l =>
            isAfter s.stream.effectiveLast l.ts) =
            (s.log.take read).drop sn.covered := by
          rw [hlines]
          refine filter_returned htail hascRead ?_ ?_ hcutle (htime sn hsn)
          · rw [List.length_take, Nat.min_eq_left hread]
            exact hle
          · rw [htake]
            exact hold
        simp only [hout]
        rw [List.drop_append_of_le_length hbefore,
          ← drop_append_drop (s.log.take read) hmark, htake, ← hnew]
        exact List.rel_append (h.delivered sn hsn) hsent

theorem Follows.step (htail : 1 ≤ tail) (h : Follows tail s) {act : Act}
    (hfits : s.Fits act) (hs : s.step tail act = some s') :
    Follows tail s' := by
  unfold Sys.step at hs
  cases act with
  | tick now =>
      simp only at hs
      split at hs
      · rename_i hnow
        obtain rfl := Option.some.inj hs
        exact h.tick hnow
      · cases hs
  | emit l =>
      simp only at hs
      split at hs
      · rename_i hl
        obtain rfl := Option.some.inj hs
        exact h.emit hl
      · cases hs
  | ask =>
      simp only at hs
      split at hs
      · split at hs
        · obtain rfl := Option.some.inj hs
          exact h.ask s.now
        · cases hs
      · cases hs
  | serve =>
      simp only at hs
      split at hs
      · obtain rfl := Option.some.inj hs
        exact h.serve _
      · cases hs
  | answer =>
      simp only at hs
      split at hs
      · rename_i hphase
        split at hs
        · obtain rfl := Option.some.inj hs
          exact h.answer htail hphase hfits
        · cases hs
      · cases hs
  | fail =>
      simp only at hs
      split at hs
      · cases hs
      · obtain rfl := Option.some.inj hs
        exact h.fail _

/-- Nothing that appears after the first successful poll is lost or sent twice,
in every run in which the answers are in time. -/
theorem delivered_of_fits (param : Option Text) (now : Int) (log : List Line)
    (lastTs : Option Text) (count : Nat) (hlog : Ascending log)
    (hstarts : Starts log lastTs count) (s : Sys)
    (h : Reach (Sys.step (tailLines param)) Sys.Fits
      (start now log lastTs count) s) :
    s.Delivered :=
  (Reach.inv (follows_start now hlog hstarts)
    (fun _ _ _ hinv hfits hs =>
      hinv.step (one_le_tailLines param) hfits hs) h).delivered

end Invariant

section Runs

/-- A line of a pod's log. -/
def podLine (time : Int) (ts msg : Text) (h : ts ≠ [] ∧
    (∀ c ∈ ts, isBlank c = false) ∧ '\n' ∉ msg) : Line :=
  ⟨time, ts, msg, h.1, h.2.1, h.2.2⟩

def firstLine : Line :=
  podLine 0 "2026-05-01T10:00:00.000000000Z".toList "up".toList (by decide)

/-- Three seconds later. -/
def laterLine : Line :=
  podLine (3 * second) "2026-05-01T10:00:03.000000000Z".toList
    "UE registered".toList (by decide)

theorem ascending_firstLine : Ascending [firstLine] :=
  List.pairwise_singleton _ _

/-- A line is written while a poll is under way that times out. -/
def slowPoll : List Act :=
  [.ask, .serve, .answer, .tick (2 * second), .ask, .tick (3 * second),
    .emit laterLine, .tick (10 * second), .fail, .tick (12 * second), .ask,
    .serve, .answer]

/-- The line has left the window when the next poll looks. -/
theorem not_delivered_slowPoll :
    ∃ s, ReachAny (Sys.step (tailLines none)) (start 0 [firstLine] none 0) s ∧
      ¬ s.Delivered := by
  refine ⟨_, Reach.exec .refl (show exec _ _ slowPoll = some _ from rfl),
    fun h => ?_⟩
  have hnone := h ⟨1, 1, 2, _⟩ rfl
  cases hnone

/-- The same line, with a poll that looks in time. -/
theorem delivered_of_fits_quickPoll :
    ∃ s : Sys, s.seen.isSome ∧ s.log = [firstLine, laterLine] ∧
      s.Delivered := by
  have h₁ : Reach (Sys.step (tailLines none)) Sys.Fits
      (start 0 [firstLine] none 0) _ := Reach.refl.step (a := Act.ask) trivial rfl
  have h₂ := h₁.step (a := Act.serve) trivial rfl
  have hfits₁ : ∀ l, [firstLine].getLast? = some l → l.isBlankMsg = false := by
    intro l hl
    obtain rfl := Option.some.inj hl
    decide
  have h₃ := h₂.step (a := Act.answer) ⟨hfits₁, fun _ hsn => (by cases hsn)⟩ rfl
  have h₄ := h₃.step (a := Act.tick (3 * second)) trivial rfl
  have h₅ := h₄.step (a := Act.emit laterLine) trivial rfl
  have h₆ := h₅.step (a := Act.ask) trivial rfl
  have h₇ := h₆.step (a := Act.serve) trivial rfl
  have hfits₂ : ∀ l, [firstLine, laterLine].getLast? = some l →
      l.isBlankMsg = false := by
    intro l hl
    obtain rfl := Option.some.inj hl
    decide
  have hwindow : ∀ l ∈ [laterLine], -second ≤ l.time := by
    intro l hl
    rw [List.mem_singleton.1 hl]
    decide
  have hstarts : Starts [firstLine] none 0 := .inl ⟨rfl, rfl⟩
  refine ⟨_, ?_, ?_, delivered_of_fits none 0 [firstLine] none 0
    ascending_firstLine hstarts _
    (h₇.step (a := Act.answer) ⟨hfits₂, fun sn hsn _ => ?_⟩ rfl)⟩
  · rfl
  · rfl
  · obtain rfl := Option.some.inj hsn
    exact hwindow

end Runs

end Logs
end Kelt
