import Kelt.Probe.Measure
import Kelt.Probe.PlanRun

/-!
# The verdict on an experiment

What the plan thread records of one experiment: it reads the fields, runs the
tools, saves the data and judges by what is there. A field that cannot be read
before the experiment begins ends the whole run.

The verdict asks whether there are phases, not whether they have rows, and no
exit status is asked for. `settle_sound_iff` says for which experiments and outputs
the record is right nevertheless.
-/

namespace Kelt
namespace Probe
namespace Verdict

open PlanRun (ExpState)

section Ping

structure PingRow where
  seq : Int
  time : ℚ
  rtt : ℚ
  owd : ℚ
  jitter : ℚ
  ttl : Option Int
  pktBytes : Int

/-- The variables of the loop over the output. -/
structure PingState where
  rows : List PingRow
  lastLines : List Text
  seq : Int
  prev : Option ℚ

/-- `time[=<]([\d.]+)\s*ms` -/
def rtt? : Text → Option Text :=
  search fun t => do
    let t ← dropLiteral "time".toList t
    let t ← (dropLiteral "=".toList t).or (dropLiteral "<".toList t)
    let (v, t) ← takeRun isFigure t
    let _ ← dropLiteral "ms".toList (t.dropWhile isBlank)
    some v

/-- A name and the digits behind it. -/
def digitsAfter (name : String) : Text → Option Text :=
  search fun t => do
    let t ← dropLiteral name.toList t
    (takeRun isDecimal t).map (·.1)

/-- The last five lines that are not blank. -/
def PingState.note (st : PingState) (line : Text) : PingState :=
  if line = [] then st
  else
    let lines := st.lastLines ++ [line]
    { st with lastLines := if 5 < lines.length then lines.drop 1 else lines }

def PingState.line (a : Arith) (interval : ℚ) (size : Int) (raw : Text)
    (st : PingState) : Except Text PingState :=
  let line := strip raw
  let st := st.note line
  match rtt? line with
  | none => .ok st
  | some v => do
      let seq := ((digitsAfter "icmp_seq=" line).bind int10).getD (st.seq + 1)
      let rtt ← a.read v
      let row : PingRow :=
        { seq
          time := a.round ((seq - 1) * interval) 3
          rtt
          owd := a.round (rtt / 2) 3
          jitter := (st.prev.map fun q => a.round |rtt - q| 3).getD 0
          ttl := (digitsAfter "ttl=" line).bind int10
          pktBytes := size }
      return { st with
        rows := st.rows ++ [row], seq := seq, prev := some rtt }

def PingState.output (a : Arith) (interval : ℚ) (size : Int) :
    List Text → PingState → Except Text PingState
  | [], st => .ok st
  | raw :: rest, st => do
      let st ← st.line a interval size raw
      st.output a interval size rest

end Ping

section Fields

/-- `exp.get(name)` -/
def member (name : String) (exp : ExpEntry) : Json ℚ :=
  (Dict.getItem name.toList exp).getD .null

/-- `exp.get(name, v)` -/
def memberD (name : String) (v : Json ℚ) (exp : ExpEntry) : Json ℚ :=
  (Dict.getItem name.toList exp).getD v

/-- `v or w` -/
def pyOr (v w : Json ℚ) : Json ℚ :=
  if v.pyTrue then v else w

def toInt (a : Arith) (v : Json ℚ) : Except Text Int :=
  match pyInt v with
  | some n => .ok n
  | none => .error (a.mistyped v)

def toFloat (a : Arith) (v : Json ℚ) : Except Text ℚ :=
  match number a.float v with
  | some q => .ok q
  | none => .error (a.mistyped v)

def toText (a : Arith) (v : Json ℚ) : Except Text Text :=
  match v with
  | .str t => .ok t
  | v => .error (a.mistyped v)

/-- The downlink bandwidth: none, a text, or a number of megabits. -/
def bandwidthDl (a : Arith) (exp : ExpEntry) : Except Text (Option Text) :=
  match member "bandwidth_dl" exp with
  | .null => .ok none
  | .str t => .ok (if t = [] then none else some t)
  | v => do return some (intText (← toInt a v) ++ ['M'])

/-- What the thread reads before the experiment begins. -/
def sessionOf (a : Arith) (exp : ExpEntry) : Except Text Session := do
  let _ ← bandwidthDl a exp
  let _ ← toInt a (pyOr (member "length_bytes" exp) (.num 1200))
  let parallel ← toInt a (pyOr (member "parallel_streams" exp) (.num 1))
  let interval ← toFloat a (pyOr (member "interval_s" exp) (.num (1 / 10)))
  let _ ← toText a (pyOr (member "udp_length_mode" exp) (.str "fixed".toList))
  let _ ← toInt a (pyOr (member "udp_mtu_clamp" exp) (.num 1200))
  return {
    proto := pyOr (member "protocol" exp) (.str "tcp".toList)
    parallel := max 1 (min parallel 64)
    interval := max (1 / 20) interval }

/-- What it reads between the save of the running state and the experiment: the
duration, when it has no other to go by, and the name. -/
def announce (a : Arith) (first : Bool) (exp : ExpEntry) :
    Except Text Unit := do
  if first then
    let _ ← toInt a (pyOr (member "duration" exp) (.num 15))
  match Dict.getItem "id".toList exp with
  | none => .error "'id'".toList
  | some _ => return ()

def isLatency (exp : ExpEntry) : Bool :=
  isText (memberD "type" (.str "throughput".toList) exp) "latency"

/-- The phases of an experiment with a throughput. -/
def modes (exp : ExpEntry) : List (Json ℚ) :=
  let direction :=
    pyOr (memberD "direction" (.str "ul".toList) exp) (.str "ul".toList)
  if isText direction "both" then [.str "dl".toList, .str "ul".toList]
  else [direction]

end Fields

section Runner

/-- What the world makes of an experiment: the runs of its tools, what goes
wrong while the data is written, and how long it takes. -/
structure Attempt where
  ping : ToolRun
  phase : Json ℚ → ToolRun
  saving : Option Text
  elapsed : ℚ

/-- The last three lines, joined. -/
def pingFailed (lines : List Text) : Text :=
  "ping failed: ".toList ++
    " | ".toList.intercalate (lines.drop (lines.length - 3))

/-- `_run_ping_for_plan` -/
def runPing (a : Arith) (exp : ExpEntry) (run : ToolRun) :
    Except Text (List PingRow) := do
  let _ ← toInt a (memberD "ping_count" (.num 60) exp)
  let interval ← toFloat a (memberD "ping_interval" (.num (1 / 2)) exp)
  let size ← toInt a (memberD "ping_packet_size" (.num 56) exp)
  let st ← PingState.output a (max interval (1 / 10)) (max 8 (min size 65507))
    run.lines ⟨[], [], 0, none⟩
  let _ ← run.finish
  if st.rows.isEmpty && !st.lastLines.isEmpty then
    .error (pingFailed st.lastLines)
  else return st.rows

def runPhases (a : Arith) (s : Session) (tool : Json ℚ → ToolRun) :
    List (Json ℚ) → ℚ → Except Text (List Phase)
  | [], _ => .ok []
  | mode :: rest, second => do
      let p ← runIperfPhase a s mode second (tool mode)
      let ps ← runPhases a s tool rest p.second
      return p :: ps

/-- What an experiment has measured. -/
structure Data where
  phases : List Phase
  pings : List PingRow

/-- `_run_single_experiment` -/
def runSingleExperiment (a : Arith) (s : Session) (exp : ExpEntry)
    (att : Attempt) : Except Text Data := do
  let _ ← toInt a (pyOr (member "duration" exp) (.num 15))
  if isLatency exp then
    let pings ← runPing a exp att.ping
    return ⟨[], pings⟩
  else
    let phases ← runPhases a s att.phase (modes exp) 0
    return ⟨phases, []⟩

/-- How long the experiment should take at least. -/
def expectedDur (a : Arith) (exp : ExpEntry) : Except Text ℚ :=
  if isText (member "type" exp) "latency" then do
    let count ← toFloat a (pyOr (member "ping_count" exp) (.num 0))
    let interval ← toFloat a (pyOr (member "ping_interval" exp) (.num (1 / 2)))
    return max (count * interval) 0
  else toFloat a (pyOr (member "duration" exp) (.num 0))

/-- The body of the `try`: the data and the expected duration. -/
def attempt (a : Arith) (s : Session) (exp : ExpEntry) (att : Attempt) :
    Except Text (Data × ℚ) := do
  let _ ← toText a (pyOr (member "bandwidth" exp) (.str []))
  let data ← runSingleExperiment a s exp att
  match att.saving with
  | some e => .error e
  | none =>
      let expected ← expectedDur a exp
      return (data, expected)

/-- `too_fast` -/
def tooFast (expected elapsed : ℚ) : Bool :=
  5 ≤ expected && elapsed < max 2 (expected * (1 / 4))

/-- `run.json` about the experiment. -/
structure Record where
  state : ExpState
  resultPath : Option Text
  error : Option Text

def noData : Text :=
  "Test produced no data (check namespace / target IP / iperf3 server)".toList

def exitedAfter (a : Arith) (elapsed expected : ℚ) : Text :=
  "Test exited after ".toList ++ a.fixed elapsed 1 ++ "s (expected ~".toList ++
    a.fixed expected 0 ++ "s)".toList

/-- The record after an attempt. -/
def verdict (a : Arith) (path : Text) (elapsed : ℚ) (before : Record) :
    Except Text (Data × ℚ) → Record
  | .error e => { before with state := .failed, error := some e }
  | .ok (data, expected) =>
      let produced := !data.phases.isEmpty || !data.pings.isEmpty
      if !produced || tooFast expected elapsed then
        { state := .failed
          resultPath := if produced then some path else none
          error := some
            (if produced then exitedAfter a elapsed expected else noData) }
      else { before with state := .completed, resultPath := some path }

/-- The record at the end, and the data that was saved for it. -/
structure Settled where
  record : Record
  data : Data

/-- One round of the loop over the experiments. -/
def settle (a : Arith) (exp : ExpEntry) (first : Bool) (path : Text)
    (before : Record) (att : Attempt) : Settled :=
  match sessionOf a exp with
  | .error _ => ⟨before, ⟨[], []⟩⟩
  | .ok s =>
      match announce a first exp with
      | .error _ => ⟨{ before with state := .running }, ⟨[], []⟩⟩
      | .ok () =>
          let result := attempt a s exp att
          { record := verdict a path att.elapsed before result
            data :=
              match result with
              | .error _ => ⟨[], []⟩
              | .ok (data, _) => data }

end Runner

section Sound

/-- The tools that the experiment runs. -/
def toolRuns (exp : ExpEntry) (att : Attempt) : List ToolRun :=
  if isLatency exp then [att.ping] else (modes exp).map att.phase

/-- No tool was cut short or failed. -/
def EndedWell (exp : ExpEntry) (att : Attempt) : Prop :=
  ∀ run ∈ toolRuns exp att, run.finish = .ok 0

/-- There is a row for every phase. -/
def Data.Full (exp : ExpEntry) (d : Data) : Prop :=
  if isLatency exp then d.pings ≠ []
  else ∀ mode ∈ modes exp, ∃ p ∈ d.phases,
    p.phase = mode ∧ p.clientIntervals ≠ []

/-- Completed only with data and tools that ended well, else failed with an
error. -/
def Settled.Sound (exp : ExpEntry) (att : Attempt) (r : Settled) : Prop :=
  (r.record.state = .completed ∧ r.data.Full exp ∧ EndedWell exp att) ∨
    (r.record.state = .failed ∧ r.record.error ≠ none)

/-- The tools print a row for every phase. -/
def Prints (a : Arith) (s : Session) (exp : ExpEntry) (att : Attempt) : Prop :=
  if isLatency exp then
    ∃ raw ∈ att.ping.lines, (rtt? (strip raw)).isSome = true
  else ∀ mode ∈ modes exp,
    ∃ raw ∈ clientPart (att.phase mode).lines, isClientRow a s raw = true

/-- A reply is a line with a round trip time. -/
theorem PingState.line_rows
    {a : Arith} {interval : ℚ} {size : Int} {raw : Text} {st st' : PingState}
    (h : st.line a interval size raw = .ok st') :
    st'.rows ≠ [] ↔ st.rows ≠ [] ∨ (rtt? (strip raw)).isSome = true := by
  have hnote : (st.note (strip raw)).rows = st.rows := by
    unfold PingState.note
    split <;> rfl
  unfold PingState.line at h
  dsimp only at h
  cases hrtt : rtt? (strip raw) with
  | none =>
      rw [hrtt] at h
      obtain rfl := Except.ok.inj h
      simp [hnote]
  | some v =>
      rw [hrtt] at h
      obtain ⟨rtt, -, h⟩ := bind_eq_ok h
      obtain rfl := Except.ok.inj h
      simp

theorem PingState.output_rows
    {a : Arith} {interval : ℚ} {size : Int} {lines : List Text}
    {st st' : PingState}
    (h : st.output a interval size lines = .ok st') :
    st'.rows ≠ [] ↔
      st.rows ≠ [] ∨ ∃ raw ∈ lines, (rtt? (strip raw)).isSome = true := by
  induction lines generalizing st with
  | nil =>
      obtain rfl := Except.ok.inj h
      simp
  | cons raw rest ih =>
      obtain ⟨next, hline, hrest⟩ := bind_eq_ok h
      rw [ih hrest, PingState.line_rows hline, List.exists_mem_cons_iff]
      exact or_assoc

theorem runPing_rows
    {a : Arith} {exp : ExpEntry} {run : ToolRun} {rows : List PingRow}
    (h : runPing a exp run = .ok rows) :
    rows ≠ [] ↔ ∃ raw ∈ run.lines, (rtt? (strip raw)).isSome = true := by
  obtain ⟨count, -, h⟩ := bind_eq_ok h
  obtain ⟨interval, -, h⟩ := bind_eq_ok h
  obtain ⟨size, -, h⟩ := bind_eq_ok h
  obtain ⟨st, hout, h⟩ := bind_eq_ok h
  obtain ⟨status, -, h⟩ := bind_eq_ok h
  have hrows := PingState.output_rows hout
  split at h
  · cases h
  · obtain rfl := Except.ok.inj h
    simpa using hrows

/-- The phases that ran are those of the list, each with its rows. -/
theorem runPhases_forall₂
    {a : Arith} {s : Session} {tool : Json ℚ → ToolRun}
    {wanted : List (Json ℚ)} {second : ℚ} {ps : List Phase}
    (h : runPhases a s tool wanted second = .ok ps) :
    List.Forall₂ (fun mode p => p.phase = mode ∧
      (p.clientIntervals ≠ [] ↔
        ∃ raw ∈ clientPart (tool mode).lines, isClientRow a s raw = true))
      wanted ps := by
  induction wanted generalizing second ps with
  | nil =>
      obtain rfl := Except.ok.inj h
      exact .nil
  | cons mode rest ih =>
      obtain ⟨p, hp, h⟩ := bind_eq_ok h
      obtain ⟨rest', hrest, h⟩ := bind_eq_ok h
      obtain rfl := Except.ok.inj h
      exact .cons (runIperfPhase_rows hp) (ih hrest)

theorem exists_left
    {α β : Type} {R : α → β → Prop} {l : List α} {l' : List β}
    (h : List.Forall₂ R l l') {b : β} (hb : b ∈ l') :
    ∃ a ∈ l, R a b := by
  induction h with
  | nil => cases hb
  | cons hab _ ih =>
      rcases List.mem_cons.1 hb with rfl | hb
      · exact ⟨_, List.mem_cons_self, hab⟩
      · obtain ⟨a, ha, hR⟩ := ih hb
        exact ⟨a, List.mem_cons_of_mem _ ha, hR⟩

theorem modes_ne_nil (exp : ExpEntry) : modes exp ≠ [] := by
  unfold modes
  dsimp only
  split <;> simp

/-- Where pairs agree in name and in a fact, it holds of all names exactly when
each name has a partner with the fact. -/
theorem forall_partner_iff
    {wanted : List (Json ℚ)} {ps : List Phase} {P : Json ℚ → Prop}
    (h : List.Forall₂ (fun mode p => p.phase = mode ∧
      (p.clientIntervals ≠ [] ↔ P mode)) wanted ps) :
    (∀ mode ∈ wanted, ∃ p ∈ ps, p.phase = mode ∧ p.clientIntervals ≠ []) ↔
      ∀ mode ∈ wanted, P mode := by
  have hback : ∀ p ∈ ps, p.clientIntervals ≠ [] → P p.phase := by
    intro p hp hrows
    obtain ⟨mode, -, hmode, hiff⟩ := exists_left h hp
    rw [hmode]
    exact hiff.1 hrows
  constructor
  · intro hall mode hmode
    obtain ⟨p, hp, rfl, hrows⟩ := hall mode hmode
    exact hback p hp hrows
  · intro hall mode hmode
    obtain ⟨p, hp, hname, hiff⟩ := exists_left h.flip hmode
    exact ⟨p, hp, hname, hiff.2 (hall mode hmode)⟩

/-- What an attempt that does not raise leaves: data that is full exactly when
the tools print rows, and phases for every experiment but a latency test. -/
theorem attempt_spec
    {a : Arith} {s : Session} {exp : ExpEntry} {att : Attempt} {d : Data}
    {expected : ℚ}
    (h : attempt a s exp att = .ok (d, expected)) :
    expectedDur a exp = .ok expected ∧
      (d.Full exp ↔ Prints a s exp att) ∧
      ((!d.phases.isEmpty || !d.pings.isEmpty) = true ↔
        (isLatency exp = true → Prints a s exp att)) := by
  obtain ⟨bandwidth, -, h⟩ := bind_eq_ok h
  obtain ⟨data, hdata, h⟩ := bind_eq_ok h
  cases hsaving : att.saving with
  | some e =>
      rw [hsaving] at h
      cases h
  | none =>
      rw [hsaving] at h
      obtain ⟨dur, hdur, h⟩ := bind_eq_ok h
      obtain ⟨rfl, rfl⟩ := Prod.mk.inj (Except.ok.inj h)
      refine ⟨hdur, ?_⟩
      obtain ⟨duration, -, hdata⟩ := bind_eq_ok hdata
      unfold Data.Full Prints
      cases htype : isLatency exp with
      | true =>
          rw [if_pos htype] at hdata
          obtain ⟨pings, hpings, hdata⟩ := bind_eq_ok hdata
          obtain rfl := Except.ok.inj hdata
          have hrows := runPing_rows hpings
          simpa using hrows
      | false =>
          rw [if_neg (by simp [htype])] at hdata
          obtain ⟨phases, hphases, hdata⟩ := bind_eq_ok hdata
          obtain rfl := Except.ok.inj hdata
          have hpairs := runPhases_forall₂ hphases
          have hne : phases ≠ [] := by
            rintro rfl
            exact modes_ne_nil exp (List.forall₂_nil_right_iff.1 hpairs)
          simpa [hne] using forall_partner_iff hpairs

/-- The test raises. -/
def Raises (a : Arith) (s : Session) (exp : ExpEntry) (att : Attempt) : Prop :=
  ∃ e, attempt a s exp att = .error e

/-- It is expected to take five seconds at least, and ends too early. -/
def EndsEarly (a : Arith) (exp : ExpEntry) (att : Attempt) : Prop :=
  ∃ expected, expectedDur a exp = .ok expected ∧
    tooFast expected att.elapsed = true

/-- The outputs on which the verdict is right once the experiment has begun. -/
inductive Told (a : Arith) (s : Session) (exp : ExpEntry) (att : Attempt) :
    Prop
  | raises : Raises a s exp att → Told a s exp att
  | early : EndsEarly a exp att → Told a s exp att
  | silent : isLatency exp = true → ¬ Prints a s exp att → Told a s exp att
  | measured : Prints a s exp att → EndedWell exp att → Told a s exp att

/-- The record of an attempt that does not raise. -/
theorem verdict_ok
    {a : Arith} {s : Session} {exp : ExpEntry} {att : Attempt} {d : Data}
    {expected : ℚ} {path : Text} {before : Record}
    (h : attempt a s exp att = .ok (d, expected)) :
    Settled.Sound exp att
        ⟨verdict a path att.elapsed before (.ok (d, expected)), d⟩ ↔
      Told a s exp att := by
  obtain ⟨hdur, hfull, hproduced⟩ := attempt_spec h
  have hraises : ¬ Raises a s exp att := by
    rintro ⟨e, he⟩
    rw [h] at he
    cases he
  have hearly : EndsEarly a exp att ↔ tooFast expected att.elapsed = true := by
    constructor
    · rintro ⟨q, hq, hfast⟩
      rw [hdur] at hq
      rwa [Except.ok.inj hq]
    · intro hfast
      exact ⟨expected, hdur, hfast⟩
  unfold verdict
  dsimp only
  cases hdata : (!d.phases.isEmpty || !d.pings.isEmpty) with
  | false =>
      rw [hdata] at hproduced
      have hsilent : isLatency exp = true ∧ ¬ Prints a s exp att := by
        simpa using hproduced
      refine iff_of_true (Or.inr ⟨rfl, ?_⟩)
        (.silent hsilent.1 hsilent.2)
      exact Option.some_ne_none _
  | true =>
      rw [hdata] at hproduced
      have hprints := hproduced.1 rfl
      cases hfast : tooFast expected att.elapsed with
      | true =>
          refine iff_of_true (Or.inr ⟨rfl, ?_⟩) (.early (hearly.2 hfast))
          exact Option.some_ne_none _
      | false =>
          constructor
          · rintro (⟨-, hdfull, hwell⟩ | ⟨hstate, -⟩)
            · exact .measured (hfull.1 hdfull) hwell
            · cases hstate
          · intro htold
            cases htold with
            | raises hr => exact absurd hr hraises
            | early he =>
                rw [hearly.1 he] at hfast
                cases hfast
            | silent hlat hno => exact absurd (hprints hlat) hno
            | measured hrows hwell =>
                exact Or.inl ⟨rfl, hfull.2 hrows, hwell⟩

/-- No data is no full data. -/
theorem not_full_nil (exp : ExpEntry) : ¬ Data.Full exp ⟨[], []⟩ := by
  unfold Data.Full
  cases isLatency exp with
  | true => simp
  | false =>
      obtain ⟨mode, hmode⟩ := List.exists_mem_of_ne_nil _ (modes_ne_nil exp)
      intro h
      obtain ⟨p, hp, -⟩ := h mode hmode
      cases hp

/-- The record is right exactly when the experiment begins and its outputs are
told apart, or does not begin and was recorded as failed already. -/
theorem settle_sound_iff
    (a : Arith) (exp : ExpEntry) (first : Bool) (path : Text)
    (before : Record) (att : Attempt) :
    (settle a exp first path before att).Sound exp att ↔
      ((∃ e, sessionOf a exp = .error e) ∧ before.state = .failed ∧
        before.error ≠ none) ∨
      ∃ s, sessionOf a exp = .ok s ∧ announce a first exp = .ok () ∧
        Told a s exp att := by
  unfold settle
  cases hsession : sessionOf a exp with
  | error e =>
      constructor
      · rintro (⟨-, hfull, -⟩ | hfailed)
        · exact absurd hfull (not_full_nil exp)
        · exact Or.inl ⟨⟨e, rfl⟩, hfailed⟩
      · rintro (⟨-, hfailed⟩ | ⟨s, hs, -⟩)
        · exact Or.inr hfailed
        · cases hs
  | ok s =>
      have hleft : ¬ ∃ e, (Except.ok s : Except Text Session) = .error e := by
        rintro ⟨e, he⟩
        cases he
      rw [or_iff_right (fun h => hleft h.1)]
      cases hannounce : announce a first exp with
      | error e =>
          constructor
          · rintro (⟨hstate, -⟩ | ⟨hstate, -⟩) <;> cases hstate
          · rintro ⟨s', -, hs', -⟩
            cases hs'
      | ok u =>
          cases u
          have hone :
              (∃ s', (Except.ok s : Except Text Session) = .ok s' ∧
                (Except.ok () : Except Text Unit) = .ok () ∧
                Told a s' exp att) ↔ Told a s exp att := by
            constructor
            · rintro ⟨s', hs', -, htold⟩
              rw [Except.ok.inj hs']
              exact htold
            · intro htold
              exact ⟨s, rfl, rfl, htold⟩
          rw [hone]
          dsimp only
          cases hattempt : attempt a s exp att with
          | error e =>
              refine iff_of_true (Or.inr ⟨rfl, ?_⟩) (.raises ⟨e, hattempt⟩)
              exact Option.some_ne_none e
          | ok result =>
              obtain ⟨d, expected⟩ := result
              exact verdict_ok hattempt

/-- `float` of a text of digits; the tool below prints no figure. -/
def plainArith : Arith where
  float := fun t => (int10 t).map fun n => (n : ℚ)
  round := fun q _ => q
  fixed := fun q _ => intText (trunc q)
  mistyped := fun _ => "wrong type".toList

/-- A throughput test of three seconds. -/
def shortTest : ExpEntry :=
  [("id".toList, .str "exp_001".toList),
    ("type".toList, .str "throughput".toList),
    ("direction".toList, .str "ul".toList),
    ("protocol".toList, .str "tcp".toList),
    ("duration".toList, .num 3)]

/-- No server listens: the tool says so and exits with 1. -/
def refused : Attempt where
  ping := ⟨none, [], .ok 0⟩
  phase := fun _ =>
    ⟨none, ["iperf3: error - unable to connect to server: ".toList ++
      "Connection refused\n".toList], .ok 1⟩
  saving := none
  elapsed := 1 / 10

theorem not_sound_refused :
    ¬ (settle plainArith shortTest true "exp_001".toList
        ⟨.pending, none, none⟩ refused).Sound shortTest refused := by
  rintro (⟨-, hfull, -⟩ | ⟨hstate, -⟩)
  · have hempty :
        (settle plainArith shortTest true "exp_001".toList
          ⟨.pending, none, none⟩ refused).data.phases.all
            (fun p => p.clientIntervals.isEmpty) = true := by
      decide +kernel
    have hmodes : modes shortTest = [.str "ul".toList] := rfl
    obtain ⟨p, hp, -, hrows⟩ :=
      hfull (.str "ul".toList) (hmodes ▸ List.mem_cons_self)
    have hnil := List.all_eq_true.1 hempty p hp
    exact hrows (List.isEmpty_iff.1 hnil)
  · revert hstate
    decide +kernel

end Sound

end Verdict
end Probe
end Kelt
