import Kelt.Env.RunnerEnv
import Kelt.Piece.Registry

/-!
# Running a piece

`run_all` and `execute` of `ansible/tools/kelt-piece`. A run plays the
prechecks, sets the piece's env keys, plays the runs and records how it ended;
the exit codes and outputs of the plays, and the exceptions of the system, come
from outside (`World`). The caller holds the lock of the piece throughout, and
`write_env_keys` waits for its guard: when the two are one file, the run waits
for itself (`Ending.waits`).

The log and its compression, the saves between two steps and the pruning at the
end do not decide how a run ends and are left out.
-/

namespace Kelt
namespace Piece

open Env

section Execute

inductive Stage where
  | precheck
  | runs
deriving DecidableEq, Repr

/-- What comes of a play once its command is known. -/
inductive PlayEnd where
  | exits (lines : List Text) (code : Int)
  | raises (e : PyError)

/-- The machine a run finds itself on. -/
structure Machine where
  playbookBin : Text
  environ : Dict Text Text
  secrets : Option Text
  pid : Nat
  started : Text
  ended : Text

/-- Everything that happens to a run from outside. -/
structure World extends Machine where
  playEnd : Stage → Nat → PlayEnd
  writeError : Option PyError
  readError : Stage → Option PyError

inductive State where
  | running
  | done
  | failed
deriving DecidableEq, Repr

/-- The record of a run. -/
structure Record where
  id : Text
  piece : Text
  title : Yaml
  source : Text
  user : Text
  pid : Nat
  started : Text
  ended : Option Text
  exit : Option Int
  state : State
  steps : List Text
  runs : Yaml
  error : Option PyError

/-- What a run does that can be seen from outside. -/
inductive Event where
  | play (stage : Stage) (index : Nat) (cmd : List Text) (code : Int)
  | write (keys : Dict Text Text)

structure Run where
  record : Record
  events : List Event
  envFile : Option Text

/-- How a stage of the run stops. -/
inductive Stop where
  | code (code : Int) (run : Run)
  | raised (e : PyError) (run : Run)
  | waits (run : Run)

/-- How the run ends: with its record, or never. -/
inductive Ending where
  | ends (code : Int) (run : Run)
  | waits (run : Run)

def Ending.isEnd : Ending → Bool
  | .ends _ _ => true
  | .waits _ => false

/-- `TASK_RE.match(line).group(1)`. -/
def taskName (line : Text) : Option Text :=
  if "TASK [".toList.isPrefixOf line then
    match line.drop 6 with
    | [] => none
    | c :: rest =>
        if c ≠ '\n' ∧ ']' ∈ before '\n' rest then some (c :: before ']' rest)
        else none
  else none

/-- `run[k]`. -/
def index (run : Yaml) (k : String) : Except PyError Yaml :=
  match run with
  | .map r _ =>
      match Dict.getItem k.toList r with
      | some v => .ok v
      | none => .error .keyError
  | _ => .error .typeError

def tagText : Yaml → Except PyError Text
  | .str t => .ok t
  | _ => .error .typeError

/-- `",".join(tags)`. -/
def joinTags (tags : Yaml) : Except PyError Text := do
  let items ← iterate tags
  let texts ← items.mapM tagText
  return List.intercalate [','] texts

/-- `-e k=v` for each of the piece's `extra_vars`. -/
def extraVars (p : Entry) : Except PyError (List Text) :=
  match (p.get "extra_vars").orElse (.map [] []) with
  | .map entries _ =>
      .ok (entries.flatMap
        (fun kv => ["-e".toList, kv.1 ++ '=' :: kv.2.text]))
  | _ => .error .attributeError

/-- The command of a play. -/
def playCommand (playbookBin : Text) (env : Dict Text Text) (p : Entry)
    (run : Yaml) : Except PyError (List Text) := do
  let phase ← index run "phase"
  let dev := (env.get? "DASHBOARD_DEV_ENABLED".toList).getD "false".toList
  let tags ← index run "tags"
  let tags ← joinTags tags
  let extra ← extraVars p
  return [playbookBin,
      "phases/".toList ++ phase.text ++ "/playbook.yml".toList,
      "-e".toList, "dashboard_dev_enabled=".toList ++ dev,
      "--tags".toList, tags] ++ extra

/-- The run after a play that exits. -/
def Run.played (run : Run) (stage : Stage) (i : Nat) (cmd : List Text)
    (lines : List Text) (code : Int) : Run :=
  { run with
    record := { run.record with
      steps := run.record.steps ++ lines.filterMap taskName }
    events := run.events ++ [.play stage i cmd code] }

/-- `run_all`: the plays of a stage from number `i` on. -/
def runAll (w : World) (p : Entry) (env : Dict Text Text) (stage : Stage) :
    Nat → List Yaml → Run → Stop
  | _, [], run => .code 0 run
  | i, item :: rest, run =>
      match playCommand w.playbookBin env p item with
      | .error e => .raised e run
      | .ok cmd =>
          match w.playEnd stage i with
          | .raises e => .raised e run
          | .exits lines code =>
              if code ≠ 0 then .code code (run.played stage i cmd lines code)
              else runAll w p env stage (i + 1) rest
                (run.played stage i cmd lines code)

/-- `{k: str(v) for k, v in p["set_env"].items()}`. -/
def setEnvKeys : Yaml → Except PyError (Dict Text Text)
  | .map entries _ =>
      .ok (entries.foldl (fun d kv => d.set kv.1 kv.2.text) Dict.empty)
  | _ => .error .attributeError

/-- Writing the piece's env keys, when it has some. The guard is locked for
good when the caller's own lock is the same file. -/
def setEnv (w : World) (p : Entry) (held : Option Text) (run : Run) : Stop :=
  if (p.get "set_env").truthy then
    match setEnvKeys (p.get "set_env") with
    | .error e => .raised e run
    | .ok keys =>
        if held = some guardFile then .waits run
        else
          match w.writeError with
          | some e => .raised e run
          | none =>
              .code 0 { run with
                events := run.events ++ [.write keys]
                envFile := writeEnvKeys keys run.envFile }
  else .code 0 run

/-- The environment of a play: the machine's, the env file and the secrets. -/
def playEnv (w : World) (run : Run) : Dict Text Text :=
  (w.environ.update (readEnv run.envFile)).update (readEnv w.secrets)

/-- The plays of a stage, once its env keys are written. -/
def playStage (w : World) (p : Entry) (stage : Stage) (runs : Yaml)
    (run : Run) : Stop :=
  match w.readError stage with
  | some e => .raised e run
  | none =>
      match iterate runs with
      | .error e => .raised e run
      | .ok items => runAll w p (playEnv w run) stage 0 items run

def runStage (w : World) (p : Entry) (held : Option Text) (stage : Stage)
    (runs : Yaml) (run : Run) : Stop :=
  match (if stage = .runs then setEnv w p held run else .code 0 run) with
  | .code _ run => playStage w p stage runs run
  | stop => stop

/-- The loop of `execute` over the stages. -/
def runStages (w : World) (p : Entry) (held : Option Text) :
    List (Stage × Yaml) → Run → Stop
  | [], run => .code 0 run
  | (stage, runs) :: rest, run =>
      match runStage w p held stage runs run with
      | .code code run =>
          if code ≠ 0 then .code code run else runStages w p held rest run
      | stop => stop

/-- The record a run starts with; `validate` has asked for the fields. -/
def firstRecord (w : World) (name : Text) (p : Entry)
    (source user rid : Text) : Record where
  id := rid
  piece := name
  title := p.get "title"
  source := source
  user := user
  pid := w.pid
  started := w.started
  ended := none
  exit := none
  state := .running
  steps := []
  runs := p.get "runs"
  error := none

/-- The end of `execute`: how the stages stopped goes into the record. -/
def finish (w : World) : Stop → Ending
  | .code code run =>
      .ends code { run with
        record := { run.record with
          exit := some code
          state := if code = 0 then .done else .failed
          ended := some w.ended } }
  | .raised e run =>
      .ends 1 { run with
        record := { run.record with
          exit := none
          state := .failed
          error := some e
          ended := some w.ended } }
  | .waits run => .waits run

def execute (w : World) (name : Text) (p : Entry) (source user rid : Text)
    (held : Option Text) (envFile : Option Text) : Ending :=
  finish w (runStages w p held
    [(.precheck, (p.get "precheck").orElse (.list [] [])),
      (.runs, p.get "runs")]
    ⟨firstRecord w name p source user rid, [], envFile⟩)

/-- `cmd_run` calls `execute` with the lock of the piece in its hand. -/
def runPiece (w : World) (name : Text) (p : Entry) (source user rid : Text)
    (envFile : Option Text) : Ending :=
  execute w name p source user rid (some (lockFile (lockKey name p))) envFile

theorem runAll_ne_waits (w : World) (p : Entry) (env : Dict Text Text)
    (stage : Stage) (i : Nat) (items : List Yaml) (run run' : Run) :
    runAll w p env stage i items run ≠ .waits run' := by
  fun_induction runAll w p env stage i items run with
  | case1 => exact Stop.noConfusion
  | case2 => exact Stop.noConfusion
  | case3 => exact Stop.noConfusion
  | case4 => exact Stop.noConfusion
  | case5 => assumption

theorem playStage_ne_waits (w : World) (p : Entry) (stage : Stage)
    (runs : Yaml) (run run' : Run) :
    playStage w p stage runs run ≠ .waits run' := by
  unfold playStage
  cases w.readError stage with
  | some e => exact Stop.noConfusion
  | none =>
      cases iterate runs with
      | error e => exact Stop.noConfusion
      | ok items => exact runAll_ne_waits w p _ stage 0 items run run'

/-- Only the guard makes a run wait. -/
theorem setEnv_ne_waits (w : World) (p : Entry) {held : Option Text}
    (hheld : held ≠ some guardFile) (run run' : Run) :
    setEnv w p held run ≠ .waits run' := by
  unfold setEnv
  split_ifs
  · cases setEnvKeys (p.get "set_env") with
    | error e => exact Stop.noConfusion
    | ok keys =>
        cases hw : w.writeError with
        | some e => simp
        | none => simp
  · exact Stop.noConfusion

theorem runStage_ne_waits (w : World) (p : Entry) {held : Option Text}
    (hheld : held ≠ some guardFile) (stage : Stage) (runs : Yaml)
    (run run' : Run) : runStage w p held stage runs run ≠ .waits run' := by
  unfold runStage
  cases stage with
  | precheck => exact playStage_ne_waits w p .precheck runs run run'
  | runs =>
      simp only [if_true]
      cases hset : setEnv w p held run with
      | code c run₁ => exact playStage_ne_waits w p .runs runs run₁ run'
      | raised e run₁ => exact Stop.noConfusion
      | waits run₁ => exact absurd hset (setEnv_ne_waits w p hheld run run₁)

theorem runStages_ne_waits (w : World) (p : Entry) {held : Option Text}
    (hheld : held ≠ some guardFile) (stages : List (Stage × Yaml))
    (run run' : Run) : runStages w p held stages run ≠ .waits run' := by
  induction stages generalizing run with
  | nil => exact Stop.noConfusion
  | cons stage rest ih =>
      obtain ⟨stage, runs⟩ := stage
      unfold runStages
      cases hstage : runStage w p held stage runs run with
      | code c run₁ =>
          simp only
          split_ifs
          · exact Stop.noConfusion
          · exact ih run₁
      | raised e run₁ => exact Stop.noConfusion
      | waits run₁ =>
          exact absurd hstage (runStage_ne_waits w p hheld stage runs run run₁)

/-- With a lock other than the guard every run ends, whatever happens. -/
theorem execute_ends (w : World) (name : Text) (p : Entry)
    (source user rid : Text) {held : Option Text}
    (hheld : held ≠ some guardFile) (envFile : Option Text) :
    (execute w name p source user rid held envFile).isEnd = true := by
  unfold execute
  cases hstop : runStages w p held
      [(.precheck, (p.get "precheck").orElse (.list [] [])),
        (.runs, p.get "runs")]
      ⟨firstRecord w name p source user rid, [], envFile⟩ with
  | code c run => rfl
  | raised e run => rfl
  | waits run => exact absurd hstop (runStages_ne_waits w p hheld _ _ run)

/-- Every run of every piece ends, and no piece has the guard for its lock. -/
def RunsEnd (reg : Registry) : Prop :=
  ∀ name p shown, (name, Yaml.map p shown) ∈ reg.items →
    (∀ w source user rid envFile,
      (runPiece w name p source user rid envFile).isEnd = true) ∧
    lockFile (lockKey name p) ≠ guardFile

/-- A piece of the lock group `env` that sets an env key. -/
def envLockedPiece : Entry :=
  [("title".toList, .str "Open the slice".toList),
    ("runs".toList,
      .list [.map [("phase".toList, .str "05-5g-core".toList),
        ("tags".toList, .list [.str "nad".toList] [])] []] []),
    ("tier".toList, .str "change".toList),
    ("changes".toList, .str "The slice.".toList),
    ("lock".toList, .str "env".toList),
    ("set_env".toList,
      .map [("SLICE".toList, .str "open".toList)] [])]

def envLocked : Registry where
  items := [("open_slice".toList, .map envLockedPiece [])]
  accepted := by rfl

/-- A machine on which every play exits with zero. -/
def quietWorld : World where
  playbookBin := "ansible-playbook".toList
  environ := Dict.empty
  secrets := none
  pid := 1
  started := []
  ended := []
  playEnd := fun _ _ => .exits [] 0
  writeError := none
  readError := fun _ => none

end Execute

end Piece
end Kelt
