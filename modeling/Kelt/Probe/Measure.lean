import Kelt.Lib.Outcome
import Kelt.Lib.Scan
import Kelt.Probe.Expand

/-!
# What the tools of an experiment measure

`run_iperf_phase` and `_run_ping_for_plan` start a tool, read its output line
by line and collect the intervals and replies. The exit status is waited for
and not looked at. What Python's `float` and `round` do is left open (`Arith`);
a figure that is no number raises.
-/

namespace Kelt
namespace Probe

section Measure

/-- `float` of a text, where it does not raise, `round`, a number with a fixed
number of decimals, and the message for a value of the wrong type. -/
structure Arith where
  float : Text → Option ℚ
  round : ℚ → Nat → ℚ
  fixed : ℚ → Nat → Text
  mistyped : Json ℚ → Text

/-- The message of the `ValueError`. -/
def floatError (t : Text) : Text :=
  "could not convert string to float: '".toList ++ t ++ "'".toList

def Arith.read (a : Arith) (t : Text) : Except Text ℚ :=
  match a.float t with
  | some q => .ok q
  | none => .error (floatError t)

/-- A text field with this value. -/
def isText (v : Json ℚ) (s : String) : Bool :=
  match v with
  | .str t => t = s.toList
  | _ => false

/-- A tool that was started: its lines, and then its exit status or what the
system raised. `payload` is the datagram length it was started with. -/
structure ToolRun where
  payload : Option Int
  lines : List Text
  finish : Except Text Int

/-- `BenchmarkSession`: the fields that the runners look at. -/
structure Session where
  proto : Json ℚ
  parallel : Int
  interval : ℚ

structure ServerInterval where
  mbps : ℚ
  start : ℚ
  stop : ℚ
  jitter : Option ℚ
  loss : Option (ℚ × Option Int × Option Int)
  retr : Option (Int × ℚ)

/-- One row of `client_intervals`. -/
structure ClientInterval where
  protocol : Json ℚ
  phase : Json ℚ
  timestamp : ℚ
  start : ℚ
  stop : ℚ
  lengthBytes : Option Int
  clientMbps : ℚ
  serverMbps : Option ℚ
  lossPct : Option ℚ
  jitterMs : Option ℚ
  retransmits : Option Int
  cwndKb : Option ℚ

/-- `phase_summary` and the loop's `in_server_output`; `second` is the
session's counter. -/
structure Phase where
  phase : Json ℚ
  proto : Json ℚ
  senderSide : Bool
  serverIntervals : List ServerInterval
  clientIntervals : List ClientInterval
  rawLines : List Text
  senderMbps : Option ℚ
  receiverMbps : Option ℚ
  loss : Option (ℚ × Option Int × Option Int)
  jitterMs : Option ℚ
  totalRetr : Option Int
  inServer : Bool
  second : ℚ

/-- `([\d.]+)\s*Mbits/sec` -/
def mbits? : Text → Option Text :=
  search fun t => do
    let (v, t) ← takeRun isFigure t
    let _ ← dropLiteral "Mbits/sec".toList (t.dropWhile isBlank)
    some v

/-- `([\d.]+)-([\d.]+)\s+sec` -/
def span? : Text → Option (Text × Text) :=
  search fun t => do
    let (start, t) ← takeRun isFigure t
    let t ← dropLiteral "-".toList t
    let (stop, t) ← takeRun isFigure t
    let t ← dropBlanks t
    let _ ← dropLiteral "sec".toList t
    some (start, stop)

/-- `(\d+)/(\d+)\s*\(([\d.]+)%\)` -/
def loss? : Text → Option (Text × Text × Text) :=
  search fun t => do
    let (lost, t) ← takeRun isDecimal t
    let t ← dropLiteral "/".toList t
    let (total, t) ← takeRun isDecimal t
    let t ← dropLiteral "(".toList (t.dropWhile isBlank)
    let (pct, t) ← takeRun isFigure t
    let _ ← dropLiteral "%)".toList t
    some (lost, total, pct)

/-- `([\d.]+)\s*ms` -/
def millis? : Text → Option Text :=
  search fun t => do
    let (v, t) ← takeRun isFigure t
    let _ ← dropLiteral "ms".toList (t.dropWhile isBlank)
    some v

/-- `Mbits/sec\s+(\d+)\s` -/
def retr? : Text → Option Text :=
  search fun t => do
    let t ← dropLiteral "Mbits/sec".toList t
    let t ← dropBlanks t
    let (v, t) ← takeRun isDecimal t
    let _ ← dropBlanks t
    some v

/-- The loss of a line, where it is asked for. It raises on a percentage that
is no number. -/
def readLoss (a : Arith) (asked : Bool) (line : Text) :
    Except Text (Option (ℚ × Option Int × Option Int)) :=
  match asked, loss? line with
  | true, some (lost, total, pct) => do
      let pct ← a.read pct
      return some (pct, int10 lost, int10 total)
  | _, _ => .ok none

/-- The jitter of a summary line. -/
def readJitter (a : Arith) (line : Text) : Except Text (Option ℚ) :=
  match millis? line with
  | none => .ok none
  | some v => do return some (← a.read v)

/-- The word before the first `ms`. -/
def jitterOf (a : Arith) : List Text → Option ℚ
  | before :: tok :: rest =>
      if tok = "ms".toList then a.float before else jitterOf a (tok :: rest)
  | _ => none

/-- The retransmits and the window behind the first `Mbits/sec`. -/
def cwndOf (a : Arith) : List Text → Option (Int × ℚ)
  | [] => none
  | tok :: rest =>
      if tok = "Mbits/sec".toList then
        match rest with
        | retr :: cwnd :: unit :: _ => do
            let retr ← int10 retr
            let cwnd ← a.float cwnd
            some (retr, if unit = "MBytes".toList then cwnd * 1024 else cwnd)
        | _ => none
      else cwndOf a rest

/-- With parallel streams only the lines for their sum count. -/
def Session.skips (s : Session) (line : Text) : Bool :=
  1 < s.parallel && !decide ("[SUM]".toList <:+: line)

/-- A line with `sender` or `receiver`. -/
def Phase.summaryLine (a : Arith) (s : Session) (line : Text) (p : Phase) :
    Except Text Phase :=
  if s.skips line then .ok p
  else
    match mbits? line with
    | none => .ok p
    | some v => do
        let mbps ← a.read v
        if "receiver".toList <:+: line then
          let loss ← readLoss a true line
          let jitter ← readJitter a line
          return { p with
            receiverMbps := some mbps
            loss := loss.or p.loss
            jitterMs := jitter.or p.jitterMs }
        else if p.inServer then return p
        else
          return { p with
            senderMbps := some mbps
            totalRetr := ((retr? line).bind int10).or p.totalRetr }

/-- An interval after `Server output:`. -/
def Phase.serverLine (a : Arith) (s : Session) (line : Text) (mbps : ℚ)
    (p : Phase) : Except Text Phase :=
  match span? line with
  | none => .ok p
  | some (start, stop) => do
      let start ← a.read start
      let stop ← a.read stop
      if start = stop then return p
      let isUdp := isText s.proto "udp"
      let loss ← readLoss a isUdp line
      let interval : ServerInterval :=
        { mbps, start, stop
          jitter := if isUdp then jitterOf a (words line) else none
          loss
          retr :=
            if isText s.proto "tcp" then cwndOf a (words line) else none }
      return { p with serverIntervals := p.serverIntervals ++ [interval] }

/-- The counter and the two ends of a client interval; none of no length. -/
def Phase.bounds (a : Arith) (s : Session) (line : Text) (p : Phase) :
    Except Text (Option (ℚ × ℚ × ℚ)) :=
  match span? line with
  | none =>
      let second := a.round (p.second + s.interval) 3
      .ok (some (second, a.round (second - s.interval) 3, second))
  | some (start, stop) => do
      let start ← a.read start
      let stop ← a.read stop
      if start = stop then return none
      return some (a.round stop 3, a.round start 3, a.round stop 3)

/-- An interval of the client. -/
def Phase.clientLine (a : Arith) (s : Session) (payload : Option Int)
    (line : Text) (mbps : ℚ) (p : Phase) : Except Text Phase := do
  match ← p.bounds a s line with
  | none => return p
  | some (second, start, stop) =>
      let isUdp := isText s.proto "udp"
      let received := isUdp && !p.senderSide
      let loss ← readLoss a received line
      let cwnd :=
        if isText s.proto "tcp" then cwndOf a (words line) else none
      let interval : ClientInterval :=
        { protocol := s.proto, phase := p.phase, timestamp := second
          start, stop
          lengthBytes := if isUdp then payload else none
          clientMbps := mbps
          serverMbps := none
          lossPct := loss.map (·.1)
          jitterMs := if received then jitterOf a (words line) else none
          retransmits := cwnd.map (·.1)
          cwndKb := cwnd.map (·.2) }
      return { p with
        second := second
        clientIntervals := p.clientIntervals ++ [interval] }

def isSummary (line : Text) : Bool :=
  decide ("sender".toList <:+: line) || decide ("receiver".toList <:+: line)

def startsServer (line : Text) : Bool :=
  decide ("Server output:".toList <:+: line)

/-- The body of the loop over the output. -/
def Phase.line (a : Arith) (s : Session) (payload : Option Int) (raw : Text)
    (p : Phase) : Except Text Phase :=
  let p := { p with rawLines := p.rawLines ++ [raw] }
  let line := strip raw
  if line = [] then .ok p
  else if startsServer line then .ok { p with inServer := true }
  else if isSummary line then p.summaryLine a s line
  else
    match mbits? line with
    | none => .ok p
    | some v => do
        let mbps ← a.read v
        if s.skips line then return p
        if p.inServer then p.serverLine a s line mbps
        else p.clientLine a s payload line mbps

def Phase.output (a : Arith) (s : Session) (payload : Option Int) :
    List Text → Phase → Except Text Phase
  | [], p => .ok p
  | raw :: rest, p => do
      let p ← p.line a s payload raw
      p.output a s payload rest

/-- The server's values of an interval, where it has them. -/
def ClientInterval.backfill (ci : ClientInterval) (srv : ServerInterval) :
    ClientInterval :=
  { ci with
    serverMbps := some srv.mbps
    lossPct := (srv.loss.map (·.1)).or ci.lossPct
    jitterMs := srv.jitter.or ci.jitterMs
    retransmits := (srv.retr.map (·.1)).or ci.retransmits
    cwndKb := (srv.retr.map (·.2)).or ci.cwndKb }

/-- The first intervals of both sides are paired. -/
def backfill : List ClientInterval → List ServerInterval →
    List ClientInterval
  | ci :: cis, srv :: srvs => ci.backfill srv :: backfill cis srvs
  | cis, _ => cis

def Phase.begin (s : Session) (mode : Json ℚ) (second : ℚ) : Phase where
  phase := mode
  proto := s.proto
  senderSide := isText s.proto "udp" && !isText mode "dl"
  serverIntervals := []
  clientIntervals := []
  rawLines := []
  senderMbps := none
  receiverMbps := none
  loss := none
  jitterMs := none
  totalRetr := none
  inServer := false
  second := second

/-- `client_mbps` -/
def Phase.clientMbps (p : Phase) : Option ℚ :=
  if isText p.phase "dl" then p.receiverMbps else p.senderMbps

/-- `server_mbps` -/
def Phase.serverMbps (p : Phase) : Option ℚ :=
  if isText p.phase "dl" then p.senderMbps else p.receiverMbps

/-- `run_iperf_phase`: the mode has to be a text, as it is shown in capitals. -/
def runIperfPhase (a : Arith) (s : Session) (mode : Json ℚ) (second : ℚ)
    (run : ToolRun) : Except Text Phase :=
  match mode with
  | .str _ => do
      let p ← (Phase.begin s mode second).output a s run.payload run.lines
      let _ ← run.finish
      return { p with
        clientIntervals := backfill p.clientIntervals p.serverIntervals }
  | _ => .error (a.mistyped mode)

end Measure

section Rows

/-- A line that is taken for an interval of the client, before the server's
output. -/
def isClientRow (a : Arith) (s : Session) (raw : Text) : Bool :=
  let line := strip raw
  !startsServer line && !isSummary line && (mbits? line).isSome &&
    !s.skips line &&
    match span? line with
    | none => true
    | some (start, stop) => a.float start != a.float stop

/-- The lines before the server's output. -/
def clientPart (lines : List Text) : List Text :=
  lines.takeWhile (fun raw => !startsServer (strip raw))

theorem read_eq_ok_iff {a : Arith} {t : Text} {q : ℚ} :
    a.read t = .ok q ↔ a.float t = some q := by
  unfold Arith.read
  cases a.float t with
  | none => simp
  | some q' => simp

/-- A line leaves the client's intervals and the place in the output. -/
structure Phase.SameClient (p p' : Phase) : Prop where
  mode : p'.phase = p.phase
  place : p'.inServer = p.inServer
  intervals : p'.clientIntervals = p.clientIntervals

theorem Phase.summaryLine_frame
    {a : Arith} {s : Session} {line : Text} {p p' : Phase}
    (h : p.summaryLine a s line = .ok p') :
    p.SameClient p' := by
  unfold Phase.summaryLine at h
  split at h
  · obtain rfl := Except.ok.inj h
    exact ⟨rfl, rfl, rfl⟩
  · cases hv : mbits? line with
    | none =>
        rw [hv] at h
        obtain rfl := Except.ok.inj h
        exact ⟨rfl, rfl, rfl⟩
    | some v =>
        rw [hv] at h
        obtain ⟨mbps, -, h⟩ := bind_eq_ok h
        split at h
        · obtain ⟨loss, -, h⟩ := bind_eq_ok h
          obtain ⟨jitter, -, h⟩ := bind_eq_ok h
          obtain rfl := Except.ok.inj h
          exact ⟨rfl, rfl, rfl⟩
        · split at h
          · obtain rfl := Except.ok.inj h
            exact ⟨rfl, rfl, rfl⟩
          · obtain rfl := Except.ok.inj h
            exact ⟨rfl, rfl, rfl⟩

theorem Phase.serverLine_frame
    {a : Arith} {s : Session} {line : Text} {mbps : ℚ} {p p' : Phase}
    (h : p.serverLine a s line mbps = .ok p') :
    p.SameClient p' := by
  unfold Phase.serverLine at h
  cases hspan : span? line with
  | none =>
      rw [hspan] at h
      obtain rfl := Except.ok.inj h
      exact ⟨rfl, rfl, rfl⟩
  | some bounds =>
      rw [hspan] at h
      obtain ⟨start, -, h⟩ := bind_eq_ok h
      obtain ⟨stop, -, h⟩ := bind_eq_ok h
      split at h
      · obtain rfl := Except.ok.inj h
        exact ⟨rfl, rfl, rfl⟩
      · obtain ⟨loss, -, h⟩ := bind_eq_ok h
        obtain rfl := Except.ok.inj h
        exact ⟨rfl, rfl, rfl⟩

/-- The ends of an interval are none exactly for a line of no length. -/
theorem Phase.bounds_isSome
    {a : Arith} {s : Session} {line : Text} {p : Phase}
    {ends : Option (ℚ × ℚ × ℚ)}
    (h : p.bounds a s line = .ok ends) :
    ends.isSome =
      match span? line with
      | none => true
      | some (start, stop) => a.float start != a.float stop := by
  unfold Phase.bounds at h
  cases hspan : span? line with
  | none =>
      rw [hspan] at h
      obtain rfl := Except.ok.inj h
      rfl
  | some texts =>
      obtain ⟨first, last⟩ := texts
      rw [hspan] at h
      obtain ⟨start, hstart, h⟩ := bind_eq_ok h
      obtain ⟨stop, hstop, h⟩ := bind_eq_ok h
      rw [read_eq_ok_iff] at hstart hstop
      by_cases heq : start = stop
      · rw [if_pos heq] at h
        obtain rfl := Except.ok.inj h
        simp [hstart, hstop, heq]
      · rw [if_neg heq] at h
        obtain rfl := Except.ok.inj h
        simp [hstart, hstop, heq]

/-- A line of the client adds an interval, or none for one of no length. -/
theorem Phase.clientLine_adds
    {a : Arith} {s : Session} {payload : Option Int} {line : Text} {mbps : ℚ}
    {p p' : Phase}
    (h : p.clientLine a s payload line mbps = .ok p') :
    p'.phase = p.phase ∧ p'.inServer = p.inServer ∧
      ∃ ends, p.bounds a s line = .ok ends ∧
        ∃ added, p'.clientIntervals = p.clientIntervals ++ added ∧
          (added ≠ [] ↔ ends.isSome = true) := by
  obtain ⟨ends, hends, h⟩ := bind_eq_ok h
  cases ends with
  | none =>
      obtain rfl := Except.ok.inj h
      exact ⟨rfl, rfl, none, hends, [], (List.append_nil _).symm, by simp⟩
  | some ends =>
      obtain ⟨loss, -, h⟩ := bind_eq_ok h
      obtain rfl := Except.ok.inj h
      exact ⟨rfl, rfl, some ends, hends, [_], rfl, by simp⟩

/-- What one line does to the place and to the client's intervals. -/
theorem Phase.line_adds
    {a : Arith} {s : Session} {payload : Option Int} {raw : Text}
    {p p' : Phase}
    (h : p.line a s payload raw = .ok p') :
    p'.phase = p.phase ∧
      p'.inServer = (p.inServer || startsServer (strip raw)) ∧
      ∃ added, p'.clientIntervals = p.clientIntervals ++ added ∧
        (added ≠ [] ↔ p.inServer = false ∧ isClientRow a s raw = true) := by
  have hnothing : ∀ {q : Phase}, p.SameClient q →
      startsServer (strip raw) = false →
      ¬ (p.inServer = false ∧ isClientRow a s raw = true) →
      q.phase = p.phase ∧
        q.inServer = (p.inServer || startsServer (strip raw)) ∧
        ∃ added, q.clientIntervals = p.clientIntervals ++ added ∧
          (added ≠ [] ↔ p.inServer = false ∧ isClientRow a s raw = true) := by
    intro q hsame hserver hrow
    refine ⟨hsame.mode, by rw [hsame.place, hserver, Bool.or_false], [], ?_, ?_⟩
    · rw [hsame.intervals, List.append_nil]
    · exact iff_of_false (fun hne => hne rfl) hrow
  unfold Phase.line at h
  by_cases hempty : strip raw = []
  · rw [if_pos hempty] at h
    obtain rfl := Except.ok.inj h
    refine hnothing ⟨rfl, rfl, rfl⟩ (by rw [hempty]; rfl) ?_
    simp [isClientRow, hempty, mbits?, search, takeRun]
  rw [if_neg hempty] at h
  by_cases hserver : startsServer (strip raw) = true
  · rw [if_pos hserver] at h
    obtain rfl := Except.ok.inj h
    refine ⟨rfl, by simp [hserver], [], (List.append_nil _).symm, ?_⟩
    simp [isClientRow, hserver]
  rw [if_neg hserver] at h
  rw [Bool.not_eq_true] at hserver
  by_cases hsummary : isSummary (strip raw) = true
  · rw [if_pos hsummary] at h
    have hframe := Phase.summaryLine_frame h
    refine hnothing ⟨hframe.mode, hframe.place, hframe.intervals⟩ hserver ?_
    simp [isClientRow, hsummary]
  rw [if_neg hsummary] at h
  rw [Bool.not_eq_true] at hsummary
  cases hmbits : mbits? (strip raw) with
  | none =>
      rw [hmbits] at h
      obtain rfl := Except.ok.inj h
      refine hnothing ⟨rfl, rfl, rfl⟩ hserver ?_
      simp [isClientRow, hmbits]
  | some v =>
      rw [hmbits] at h
      obtain ⟨mbps, -, h⟩ := bind_eq_ok h
      by_cases hskip : s.skips (strip raw) = true
      · rw [if_pos hskip] at h
        obtain rfl := Except.ok.inj h
        refine hnothing ⟨rfl, rfl, rfl⟩ hserver ?_
        simp [isClientRow, hskip]
      rw [if_neg hskip] at h
      rw [Bool.not_eq_true] at hskip
      by_cases hplace : p.inServer = true
      · rw [if_pos hplace] at h
        have hframe := Phase.serverLine_frame h
        refine
          hnothing ⟨hframe.mode, hframe.place, hframe.intervals⟩ hserver ?_
        simp [hplace]
      · rw [if_neg hplace] at h
        obtain ⟨hmode, hsame, ends, hends, added, hadded, hne⟩ :=
          Phase.clientLine_adds h
        refine ⟨hmode, by rw [hsame, hserver, Bool.or_false], added, hadded, ?_⟩
        rw [hne, Phase.bounds_isSome hends]
        simp [isClientRow, hserver, hsummary, hmbits, hskip,
          Bool.eq_false_iff.2 hplace]

theorem Phase.output_adds
    {a : Arith} {s : Session} {payload : Option Int} {lines : List Text}
    {p p' : Phase}
    (h : p.output a s payload lines = .ok p') :
    p'.phase = p.phase ∧
      (p'.clientIntervals ≠ [] ↔ p.clientIntervals ≠ [] ∨
        (p.inServer = false ∧
          ∃ raw ∈ clientPart lines, isClientRow a s raw = true)) := by
  induction lines generalizing p with
  | nil =>
      obtain rfl := Except.ok.inj h
      simp [clientPart]
  | cons raw rest ih =>
      obtain ⟨q, hline, hrest⟩ := bind_eq_ok h
      obtain ⟨hmode, hplace, added, hadded, hne⟩ := Phase.line_adds hline
      obtain ⟨hmode', hrows⟩ := ih hrest
      refine ⟨hmode'.trans hmode, ?_⟩
      rw [hrows, hadded, hplace]
      cases hserver : startsServer (strip raw) with
      | true =>
          have hrow : isClientRow a s raw = false := by
            simp [isClientRow, hserver]
          have hnil : added = [] := by simpa [hrow] using hne
          simp [hnil, clientPart, hserver]
      | false =>
          have hpart : clientPart (raw :: rest) = raw :: clientPart rest := by
            simp [clientPart, hserver]
          rw [hpart]
          cases hin : p.inServer with
          | true =>
              have hnil : added = [] := by simpa [hin] using hne
              simp [hnil]
          | false =>
              have hrow : added ≠ [] ↔ isClientRow a s raw = true := by
                simpa [hin] using hne
              simp only [Ne, List.append_eq_nil_iff, not_and_or,
                List.mem_cons, exists_eq_or_imp, Bool.or_false, true_and]
              rw [show ¬ added = [] ↔ isClientRow a s raw = true from hrow]
              exact or_assoc

theorem backfill_eq_nil
    (cis : List ClientInterval) (srvs : List ServerInterval) :
    backfill cis srvs = [] ↔ cis = [] := by
  cases cis with
  | nil => simp [backfill]
  | cons ci cis =>
      cases srvs with
      | nil => simp [backfill]
      | cons srv srvs => simp [backfill]

/-- A phase has data exactly when the tool printed an interval of the client. -/
theorem runIperfPhase_rows
    {a : Arith} {s : Session} {mode : Json ℚ} {second : ℚ} {run : ToolRun}
    {p : Phase}
    (h : runIperfPhase a s mode second run = .ok p) :
    p.phase = mode ∧
      (p.clientIntervals ≠ [] ↔
        ∃ raw ∈ clientPart run.lines, isClientRow a s raw = true) := by
  cases mode with
  | str mode =>
      obtain ⟨q, hout, h⟩ := bind_eq_ok h
      obtain ⟨status, -, h⟩ := bind_eq_ok h
      obtain rfl := Except.ok.inj h
      obtain ⟨hmode, hrows⟩ := Phase.output_adds hout
      refine ⟨hmode, ?_⟩
      rw [Ne, backfill_eq_nil]
      simpa [Phase.begin] using hrows
  | null => cases h
  | bool b => cases h
  | num q => cases h
  | arr items => cases h
  | obj fields => cases h

end Rows

end Probe
end Kelt
