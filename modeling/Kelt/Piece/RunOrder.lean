import Kelt.Lib.Prefix
import Kelt.Piece.Execute

/-!
# The order of a run

What `execute` promises of a piece whose plays all exit with some code: the
plays up to the first failure, the env keys between the prechecks and the runs,
and a record that says how it went. `runPiece_inOrder_iff` says when the promise
is kept; it is broken only by a run that waits for its own lock.
-/

namespace Kelt
namespace Piece

open Env

section RunOrder

/-- A piece whose fields have the types that playing it asks for. -/
structure Playable where
  entry : Entry
  prechecks : List Yaml
  runs : List Yaml
  keys : Option (Dict Text Text)
  prechecks_eq :
    iterate ((entry.get "precheck").orElse (.list [] [])) = .ok prechecks
  runs_eq : iterate (entry.get "runs") = .ok runs
  keys_eq :
    (if (entry.get "set_env").truthy then
      (setEnvKeys (entry.get "set_env")).map some else .ok none) = .ok keys
  phase : ∀ play ∈ prechecks ++ runs, ∃ v, index play "phase" = .ok v
  tags : ∀ play ∈ prechecks ++ runs,
    ∃ v t, index play "tags" = .ok v ∧ joinTags v = .ok t
  extra : ∃ vars, extraVars entry = .ok vars

/-- How each play of each stage exits. -/
abbrev Exits := Stage → Nat → List Text × Int

/-- A machine on which every play can be started and exits. -/
def Machine.exiting (m : Machine) (exits : Exits) : World where
  toMachine := m
  playEnd := fun stage i => .exits (exits stage i).1 (exits stage i).2
  writeError := none
  readError := fun _ => none

/-- A play, by its stage and its number there. -/
abbrev PlayRef := Stage × Nat

def Exits.code (exits : Exits) (r : PlayRef) : Int :=
  (exits r.1 r.2).2

def Exits.failing (exits : Exits) (r : PlayRef) : Bool :=
  exits.code r != 0

/-- `n` plays of a stage from number `i` on. -/
def refs (stage : Stage) (i n : Nat) : List PlayRef :=
  (List.range' i n).map (fun j => (stage, j))

namespace Playable

variable (piece : Playable)

def precheckRefs : List PlayRef :=
  refs .precheck 0 piece.prechecks.length

/-- All plays of a piece, prechecks first. -/
def plays : List PlayRef :=
  piece.precheckRefs ++ refs .runs 0 piece.runs.length

/-- Every precheck exited with zero. -/
def GateOpen (exits : Exits) : Prop :=
  ∀ r ∈ piece.precheckRefs, exits.code r = 0

end Playable

/-- The code of the first play that fails. -/
def firstFailure (exits : Exits) (plays : List PlayRef) : Option Int :=
  (plays.map exits.code).find? (fun c => c != 0)

def Event.ref : Event → Option PlayRef
  | .play stage i _ _ => some (stage, i)
  | .write _ => none

/-- A play of a stage that exited as it does. -/
def Event.PlayOf (exits : Exits) (stage : Stage) (e : Event) : Prop :=
  ∃ i cmd, e = .play stage i cmd (exits stage i).2

/-- The promise about a run that has ended. -/
structure InOrder (piece : Playable) (exits : Exits)
    (envFile : Option Text) (run : Run) : Prop where
  plays : run.events.filterMap Event.ref =
    throughFirst exits.failing piece.plays
  written : piece.GateOpen exits →
    ∃ before after,
      run.events = before ++ piece.keys.toList.map .write ++ after ∧
      (∀ e ∈ before, e.PlayOf exits .precheck) ∧
      (∀ e ∈ after, e.PlayOf exits .runs) ∧
      run.envFile =
        piece.keys.elim envFile (fun keys => writeEnvKeys keys envFile)
  notWritten : ¬ piece.GateOpen exits →
    (∀ e ∈ run.events, e.PlayOf exits .precheck) ∧ run.envFile = envFile
  done : run.record.state = .done ↔ ∀ r ∈ piece.plays, exits.code r = 0
  failed : (¬ ∀ r ∈ piece.plays, exits.code r = 0) →
    run.record.state = .failed ∧
      run.record.exit = firstFailure exits piece.plays

def Ending.InOrder (piece : Playable) (exits : Exits)
    (envFile : Option Text) : Ending → Prop
  | .ends _ run => Piece.InOrder piece exits envFile run
  | .waits _ => False

theorem refs_succ (stage : Stage) (i n : Nat) :
    refs stage i (n + 1) = (stage, i) :: refs stage (i + 1) n := by
  unfold refs
  rw [List.range'_succ, List.map_cons]

theorem playCommand_ok (piece : Playable) {play : Yaml}
    (hplay : play ∈ piece.prechecks ++ piece.runs) (bin : Text)
    (env : Dict Text Text) :
    ∃ cmd, playCommand bin env piece.entry play = .ok cmd := by
  obtain ⟨phase, hphase⟩ := piece.phase play hplay
  obtain ⟨tags, text, htags, htext⟩ := piece.tags play hplay
  obtain ⟨extra, hextra⟩ := piece.extra
  unfold playCommand
  rw [hphase, htags, hextra]
  simp only [bind, Except.bind, htext]
  exact ⟨_, rfl⟩

/-- What `n` plays of a stage from number `i` on do to a run. -/
structure PlaysRan (exits : Exits) (stage : Stage) (i n : Nat)
    (run run' : Run) (code : Int) : Prop where
  events : ∃ played, run'.events = run.events ++ played ∧
    played.filterMap Event.ref =
      throughFirst exits.failing (refs stage i n) ∧
    ∀ e ∈ played, e.PlayOf exits stage
  code : code = (firstFailure exits (refs stage i n)).getD 0
  envFile : run'.envFile = run.envFile

theorem runAll_exiting (m : Machine) (exits : Exits) (p : Entry)
    (env : Dict Text Text) (stage : Stage) (i : Nat) (items : List Yaml)
    (run : Run)
    (hcmd : ∀ play ∈ items,
      ∃ cmd, playCommand m.playbookBin env p play = .ok cmd) :
    ∃ code run', runAll (m.exiting exits) p env stage i items run =
        .code code run' ∧
      PlaysRan exits stage i items.length run run' code := by
  induction items generalizing i run with
  | nil =>
      exact ⟨0, run, rfl, ⟨[], by simp, rfl, by simp⟩, rfl, rfl⟩
  | cons play rest ih =>
      obtain ⟨cmd, hplay⟩ := hcmd play List.mem_cons_self
      have hrest := fun p hp => hcmd p (List.mem_cons_of_mem _ hp)
      set run₁ := run.played stage i cmd (exits stage i).1 (exits stage i).2
        with hrun₁
      have hstep : runAll (m.exiting exits) p env stage i (play :: rest) run =
          if (exits stage i).2 ≠ 0 then .code (exits stage i).2 run₁
          else runAll (m.exiting exits) p env stage (i + 1) rest run₁ := by
        have hbin : (m.exiting exits).playbookBin = m.playbookBin := rfl
        conv_lhs => unfold runAll
        rw [hbin, hplay]
        rfl
      have hevents : run₁.events =
          run.events ++ [.play stage i cmd (exits stage i).2] := rfl
      rw [hstep, List.length_cons]
      by_cases hcode : (exits stage i).2 = 0
      · have hok : exits.failing (stage, i) = false := by
          simp [Exits.failing, Exits.code, hcode]
        rw [if_neg (not_not.2 hcode)]
        obtain ⟨code, run', hrun, ⟨played, hplayed, hrefs, hof⟩, hcode', henv⟩ :=
          ih (i + 1) run₁ hrest
        refine ⟨code, run', hrun, ⟨?_, ?_, henv⟩⟩
        · refine ⟨.play stage i cmd (exits stage i).2 :: played, ?_, ?_, ?_⟩
          · rw [hplayed, hevents, List.append_assoc, List.singleton_append]
          · rw [refs_succ, throughFirst_cons, hok, ← hrefs]
            rfl
          · intro e he
            rcases List.mem_cons.1 he with rfl | he
            · exact ⟨i, cmd, rfl⟩
            · exact hof e he
        · rw [hcode', refs_succ]
          simp [firstFailure, Exits.code, hcode]
      · have hfail : exits.failing (stage, i) = true := by
          simp [Exits.failing, Exits.code, hcode]
        rw [if_pos hcode]
        refine ⟨_, run₁, rfl, ⟨?_, ?_, rfl⟩⟩
        · refine ⟨[.play stage i cmd (exits stage i).2], hevents, ?_, ?_⟩
          · rw [refs_succ, throughFirst_cons, hfail]
            rfl
          · intro e he
            rw [List.mem_singleton.1 he]
            exact ⟨i, cmd, rfl⟩
        · rw [refs_succ]
          simp [firstFailure, Exits.code, hcode]

theorem playStage_exiting (piece : Playable) (m : Machine) (exits : Exits)
    (stage : Stage) {v : Yaml} {items : List Yaml}
    (hitems : iterate v = .ok items)
    (hsub : ∀ play ∈ items, play ∈ piece.prechecks ++ piece.runs)
    (run : Run) :
    ∃ code run', playStage (m.exiting exits) piece.entry stage v run =
        .code code run' ∧
      PlaysRan exits stage 0 items.length run run' code := by
  have hstage : playStage (m.exiting exits) piece.entry stage v run =
      runAll (m.exiting exits) piece.entry
        (playEnv (m.exiting exits) run) stage 0 items run := by
    unfold playStage
    rw [hitems]
    rfl
  rw [hstage]
  exact runAll_exiting m exits piece.entry _ stage 0 items run
    (fun play hplay => playCommand_ok piece (hsub play hplay) _ _)

theorem firstFailure_eq_none_iff (exits : Exits) (plays : List PlayRef) :
    firstFailure exits plays = none ↔ ∀ r ∈ plays, exits.code r = 0 := by
  unfold firstFailure
  rw [List.find?_eq_none, List.forall_mem_map]
  simp

theorem firstFailure_append (exits : Exits) (plays plays' : List PlayRef) :
    firstFailure exits (plays ++ plays') =
      (firstFailure exits plays).or (firstFailure exits plays') := by
  unfold firstFailure
  rw [List.map_append, List.find?_append]

theorem ne_zero_of_firstFailure {exits : Exits} {plays : List PlayRef}
    {code : Int} (h : firstFailure exits plays = some code) : code ≠ 0 := by
  have hcode := List.find?_some h
  simpa using hcode

/-- The code that `run_all` returns is zero when no play has failed. -/
theorem firstFailure_getD_eq_zero_iff (exits : Exits)
    (plays : List PlayRef) :
    (firstFailure exits plays).getD 0 = 0 ↔
      ∀ r ∈ plays, exits.code r = 0 := by
  rw [← firstFailure_eq_none_iff]
  cases h : firstFailure exits plays with
  | none => simp
  | some code => simpa using ne_zero_of_firstFailure h

theorem any_failing_iff (exits : Exits) (plays : List PlayRef) :
    plays.any exits.failing = false ↔ ∀ r ∈ plays, exits.code r = 0 := by
  rw [List.any_eq_false]
  simp [Exits.failing]

/-- The record that `execute` ends with tells the first failure. -/
theorem inOrder_finish {piece : Playable} {exits : Exits} (w : World)
    {envFile : Option Text} {run : Run} {code : Int}
    (hplays : run.events.filterMap Event.ref =
      throughFirst exits.failing piece.plays)
    (hwritten : piece.GateOpen exits →
      ∃ before after,
        run.events = before ++ piece.keys.toList.map .write ++ after ∧
        (∀ e ∈ before, e.PlayOf exits .precheck) ∧
        (∀ e ∈ after, e.PlayOf exits .runs) ∧
        run.envFile =
          piece.keys.elim envFile (fun keys => writeEnvKeys keys envFile))
    (hnot : ¬ piece.GateOpen exits →
      (∀ e ∈ run.events, e.PlayOf exits .precheck) ∧ run.envFile = envFile)
    (hcode : code = (firstFailure exits piece.plays).getD 0) :
    (finish w (.code code run)).InOrder piece exits envFile := by
  have hzero : code = 0 ↔ ∀ r ∈ piece.plays, exits.code r = 0 := by
    rw [hcode]
    exact firstFailure_getD_eq_zero_iff exits piece.plays
  refine ⟨hplays, hwritten, hnot, ?_, ?_⟩
  · change (if code = 0 then State.done else State.failed) = .done ↔ _
    rw [← hzero]
    split_ifs with h <;> simp [h]
  · intro hfailed
    change (if code = 0 then State.done else State.failed) = .failed ∧
      some code = _
    rw [if_neg (fun h => hfailed (hzero.1 h))]
    refine ⟨rfl, ?_⟩
    cases hfirst : firstFailure exits piece.plays with
    | none => exact absurd ((firstFailure_eq_none_iff _ _).1 hfirst) hfailed
    | some c => rw [hcode, hfirst, Option.getD_some]

/-- The env write between the stages. -/
theorem setEnv_exiting (piece : Playable) (m : Machine) (exits : Exits)
    (held : Option Text) (run : Run) :
    setEnv (m.exiting exits) piece.entry held run =
      if piece.keys.isSome ∧ held = some guardFile then .waits run
      else .code 0 { run with
        events := run.events ++ piece.keys.toList.map .write
        envFile := piece.keys.elim run.envFile
          (fun keys => writeEnvKeys keys run.envFile) } := by
  have hkeys := piece.keys_eq
  unfold setEnv
  by_cases htruthy : (piece.entry.get "set_env").truthy = true
  · rw [if_pos htruthy] at hkeys ⊢
    cases hread : setEnvKeys (piece.entry.get "set_env") with
    | error e =>
        rw [hread] at hkeys
        cases hkeys
    | ok keys =>
        rw [hread] at hkeys
        rw [← Except.ok.inj hkeys]
        simp [Machine.exiting]
  · rw [if_neg htruthy] at hkeys ⊢
    rw [← Except.ok.inj hkeys]
    simp

/-- A closed gate ends the run with the prechecks. -/
theorem inOrder_of_gate_closed {piece : Playable} {exits : Exits}
    (hgate : ¬ piece.GateOpen exits) (w : World) {envFile : Option Text}
    {record : Record} {run : Run} {code : Int}
    (hran : PlaysRan exits .precheck 0 piece.prechecks.length
      ⟨record, [], envFile⟩ run code) :
    (finish w (.code code run)).InOrder piece exits envFile := by
  obtain ⟨⟨played, hevents, hrefs, hof⟩, hcode, henv⟩ := hran
  rw [List.nil_append] at hevents
  have hany : piece.precheckRefs.any exits.failing = true := by
    rw [← Bool.not_eq_false, any_failing_iff]
    exact hgate
  refine inOrder_finish w ?_ (fun h => absurd h hgate) ?_ ?_
  · rw [hevents, hrefs, Playable.plays, throughFirst_append, hany, if_pos rfl,
      List.append_nil]
    rfl
  · intro _
    rw [hevents]
    exact ⟨hof, henv⟩
  · rw [hcode, Playable.plays, firstFailure_append]
    cases hfirst : firstFailure exits piece.precheckRefs with
    | none => exact absurd ((firstFailure_eq_none_iff _ _).1 hfirst) hgate
    | some c =>
        rw [Option.some_or]
        exact congrArg (Option.getD · 0) hfirst

/-- Behind an open gate come the env keys and the runs. -/
theorem inOrder_of_gate_open {piece : Playable} {exits : Exits}
    (hgate : piece.GateOpen exits) (w : World) {envFile : Option Text}
    {record : Record} {run run' : Run} {code code' : Int}
    (hran : PlaysRan exits .precheck 0 piece.prechecks.length
      ⟨record, [], envFile⟩ run code)
    (hran' : PlaysRan exits .runs 0 piece.runs.length
      { run with
        events := run.events ++ piece.keys.toList.map .write
        envFile := piece.keys.elim run.envFile
          (fun keys => writeEnvKeys keys run.envFile) } run' code') :
    (finish w (.code code' run')).InOrder piece exits envFile := by
  obtain ⟨⟨played, hevents, hrefs, hof⟩, -, henv⟩ := hran
  obtain ⟨⟨played', hevents', hrefs', hof'⟩, hcode', henv'⟩ := hran'
  rw [List.nil_append] at hevents
  have hany := (any_failing_iff exits piece.precheckRefs).2 hgate
  have hfirst := (firstFailure_eq_none_iff exits piece.precheckRefs).2 hgate
  refine inOrder_finish w ?_ ?_ (fun h => absurd hgate h) ?_
  · have hwrites : (piece.keys.toList.map Event.write).filterMap Event.ref
        = [] := by
      cases piece.keys <;> rfl
    rw [hevents', hevents, List.filterMap_append, List.filterMap_append,
      hwrites, hrefs, hrefs', List.append_nil, Playable.plays,
      throughFirst_append, hany]
    rfl
  · intro _
    refine ⟨played, played', ?_, hof, hof', ?_⟩
    · rw [hevents', hevents]
    · rw [henv']
      simp only [henv]
  · rw [hcode', Playable.plays, firstFailure_append, hfirst, Option.none_or]

/-- The piece that has the guard for its lock, with its fields read. -/
def envLockedPlayable : Playable where
  entry := envLockedPiece
  prechecks := []
  runs := [.map [("phase".toList, .str "05-5g-core".toList),
    ("tags".toList, .list [.str "nad".toList] [])] []]
  keys := some (Dict.single "SLICE".toList "open".toList)
  prechecks_eq := by rfl
  runs_eq := by rfl
  keys_eq := by rfl
  phase := by
    intro play hplay
    rw [List.mem_singleton.1 hplay]
    exact ⟨_, rfl⟩
  tags := by
    intro play hplay
    rw [List.mem_singleton.1 hplay]
    exact ⟨_, _, rfl, rfl⟩
  extra := ⟨_, rfl⟩

end RunOrder

end Piece
end Kelt
