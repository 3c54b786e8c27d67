import Kelt.Lib.FileLock
import Kelt.Lib.Runs
import Kelt.Piece.OpsDir

/-!
# The processes of the piece runner

`run`, `start`, `list` and `show` of `ansible/tools/kelt-piece` as processes
that make one system call at a time, in any order among each other, over the
records directory and its locks. A run starts the playbooks as children that
inherit the descriptor of its lock, and prunes the records at its end. Any
process can die before any of its calls.

`Proc.move` is the program text: for each place the next call, and where the
process is when the call returns. `Sys.exec` is the system's part.

Clocks, exit codes, listings and the order of deletions come from outside
(`Choice`). Logs, and what a playbook does, are left out, and so are the
commands that take no lock.
-/

namespace Kelt
namespace Piece

section Processes

/-- The fields of a record that the others read. -/
structure Rec where
  id : Option Text
  piece : Text
  state : Text
deriving DecidableEq

/-- The entry of a piece. -/
def Registry.piece? (reg : Registry) (name : Text) : Option Entry :=
  match Dict.getItem name reg.items with
  | some (.map p _) => some p
  | _ => none

/-- `lock_key_of`. -/
def Registry.lockKeyOf (reg : Registry) (name : Text) : Text :=
  lockKey name ((reg.piece? name).getD [])

/-- What a run does after its id is known: its plays, and once the env keys. -/
inductive Job where
  | play
  | setEnv
deriving DecidableEq

def plays (runs : Yaml) : List Job :=
  match iterate runs with
  | .ok items => items.map (fun _ => .play)
  | .error _ => []

def jobsOf (p : Entry) : List Job :=
  plays ((p.get "precheck").orElse (.list [] [])) ++
    (if (p.get "set_env").truthy then [.setEnv] else []) ++
    plays (p.get "runs")

/-- A process that only looks whether a lock is free: it opens the lock file,
tries the lock, and closes the file in either case. When the lock was taken it
reads the id that is in the file; `seen` is the description it met. -/
inductive LookPc where
  | opening
  | opened (d : Nat)
  | got (d : Nat)
  | lost (d seen : Nat)
  | reading (seen : Nat)

structure Look where
  key : Text
  pc : LookPc

/-- A run that the checks of `cmd_run` let through. -/
structure RunArgs where
  name : Text
  entry : Entry
  rid : Text
  accepted : idRe rid = true

def RunArgs.key (a : RunArgs) : Text :=
  lockKey a.name a.entry

def RunArgs.record (a : RunArgs) (state : String) : Rec :=
  ⟨some a.rid, a.name, state.toList⟩

/-- A name that does not start with a dot. -/
abbrev RecordName := { n : Text // n.head? ≠ some '.' }

def recordName? (n : Text) : Option RecordName :=
  if h : n.head? ≠ some '.' then some ⟨n, h⟩ else none

def RecordName.rid (n : RecordName) : Text :=
  before '.' n.1

/-- Where a run is in `prune`. -/
inductive PrunePc where
  | listing
  | checking (todo : List Text) (files : List RecordName) (doomed : List Text)
  | looking (rid : Text) (look : Look) (todo : List Text)
      (files : List RecordName) (doomed : List Text)
  | deleting (files : List RecordName)
  | unlinking (n : RecordName) (files : List RecordName)

/-- Where a run is once it has its lock. -/
inductive Body where
  | locked
  | cleared
  | saving (todo : List Job)
  | saved (todo : List Job)
  | jobs (todo : List Job)
  | playing (child : Nat) (todo : List Job)
  | noting (child : Nat) (todo : List Job)
  | noted (child : Nat) (todo : List Job)
  | waiting (child : Nat) (todo : List Job)
  | guardOpening (todo : List Job)
  | guardOpened (g : Nat) (todo : List Job)
  | guarded (g : Nat) (todo : List Job)
  | guardFailed (g : Nat)
  | ending (state : String)
  | ended (state : String)
  | pruning (pc : PrunePc)
  | closing

inductive RunPc where
  | opening
  | opened (d : Nat)
  | lost (d seen : Nat)
  | refused (seen : Nat)
  | body (d : Nat) (b : Body)

inductive StartPc where
  | asking (look : Look)
  | launching
  | launched (rid : Text)
  | polling (rid : Text)
  | checking (rid : Text)
  | probing (rid : Text) (look : Look)

inductive ListPc where
  | globbing
  | reading (todo : List Text)
  | looking (rec : Rec) (look : Look) (todo : List Text)

/-- What `start` prints about a lock that is taken. -/
inductive Busy where
  | running (id : Option Text)
  | shares (holder other : Text)

/-- `busy_answer`. -/
def busyAnswer (name : Text) : Option Text → Busy
  | none => .running none
  | some other =>
      if pieceOf (some other) = [] ∨ pieceOf (some other) = name then
        .running (some other)
      else .shares (pieceOf (some other)) other

/-- The id it gives as running. -/
def Busy.id : Busy → Option Text
  | running id => id
  | shares _ other => some other

/-- What a process tells. `seen` is the description that had the lock. -/
inductive Answer where
  | refused (key : Text) (other : Option Text) (seen : Nat)
  | busy (key : Text) (reply : Busy) (seen : Nat)
  | running (key : Text) (id : Option Text) (seen : Nat)
  | started (rid : Text)
  | failed (rid : Text)

/-- A process; `play` is a playbook with the descriptor of its run's lock, and
one that has ended waits for its runner. -/
inductive Proc where
  | run (a : RunArgs) (pc : RunPc)
  | play (a : RunArgs) (d : Nat)
  | ended (code : Int)
  | start (name : Text) (p : Entry) (pc : StartPc)
  | list (pc : ListPc) (out : List Answer)
  | say (answers : List Answer)

/-- What is decided outside. -/
inductive Choice where
  | go
  | task
  | late
  | stop
  | pick (i : Nat)
  | stamp (t : Text)
  | pid (q : Nat)
  | code (n : Int)
  | names (ns : List Text)
  | text (t : Text)

/-- A system call and where the process is when it returns. -/
inductive Move where
  | openLock (key : Text) (rid : Option Text) (k : Nat → Proc)
  | openGuard (k : Nat → Proc)
  | flock (d : Nat) (k : Option Nat → Proc)
  | flockWait (d : Nat) (k : Proc)
  | close (d : Nat) (k : Proc)
  | truncate (d : Nat) (k : Proc)
  | write (d : Nat) (t : Text) (k : Proc)
  | readId (key : Text) (k : Option Text → Proc)
  | saveTmp (rid : Text) (r : Rec) (k : Proc)
  | saveRename (a : RunArgs) (k : Proc)
  | readRecord (n : Text) (k : Option Rec → Proc)
  | pathExists (n : Text) (k : Bool → Proc)
  | listdir (k : List Text → Proc)
  | unlink (n : RecordName) (k : Proc)
  | popen (child : Proc) (pass : Option Nat) (k : Nat → Proc)
  | wait (q : Nat) (k : Int → Proc)
  | choose (k : Choice → Option Proc)
  | say (answers : List Answer)
  | exits
  | exit
  | stuck

/-- The calls of a look; `held` gets the description it met and the id. -/
def Look.move (l : Look) (again : Look → Proc) (free : Proc)
    (held : Nat → Option Text → Proc) : Move :=
  match l.pc with
  | .opening => .openLock l.key none (fun d => again ⟨l.key, .opened d⟩)
  | .opened d =>
      .flock d (fun
        | none => again ⟨l.key, .got d⟩
        | some seen => again ⟨l.key, .lost d seen⟩)
  | .got d => .close d free
  | .lost d seen => .close d (again ⟨l.key, .reading seen⟩)
  | .reading seen => .readId l.key (held seen)

/-- Going on without a call. -/
def Move.skip (k : Proc) : Move :=
  .choose (fun _ => some k)

/-- `holds` looks at the lock only under a name that can be one. -/
def looksAt (reg : Registry) (r : Rec) : Bool :=
  r.state == "running".toList && nameRe (reg.lockKeyOf r.piece)

/-- `prune`, which keeps `rid` and every record whose run holds its lock. -/
def PrunePc.move (reg : Registry) (keep : Text) (at' : PrunePc → Proc)
    (done : Proc) : PrunePc → Move
  | .listing =>
      .listdir (fun ns =>
        let files := ns.filterMap recordName?
        at' (.checking (files.map RecordName.rid).eraseDups files []))
  | .checking [] files doomed =>
      .skip (at' (.deleting (files.filter (fun n => doomed.contains n.rid))))
  | .checking (rid :: todo) files doomed =>
      .readRecord (recordFile rid) (fun
        | some r =>
            if rid = keep then at' (.checking todo files doomed)
            else if looksAt reg r then
              at' (.looking rid ⟨reg.lockKeyOf r.piece, .opening⟩ todo files
                doomed)
            else at' (.checking todo files (rid :: doomed))
        | none =>
            if rid = keep then at' (.checking todo files doomed)
            else at' (.checking todo files (rid :: doomed)))
  | .looking rid look todo files doomed =>
      look.move (fun l => at' (.looking rid l todo files doomed))
        (at' (.checking todo files (rid :: doomed)))
        (fun _ other =>
          if other = some rid then at' (.checking todo files doomed)
          else at' (.checking todo files (rid :: doomed)))
  | .deleting files =>
      .choose (fun
        | .pick i => files[i]?.map (fun n => at' (.unlinking n files))
        | .stop => some done
        | _ => none)
  | .unlinking n files => .unlink n (at' (.deleting files))

/-- `execute` and the end of `cmd_run`, with the lock in description `d`. -/
def Body.move (reg : Registry) (a : RunArgs) (d : Nat) : Body → Move
  | .locked => .truncate d (.run a (.body d .cleared))
  | .cleared =>
      .write d a.rid (.run a (.body d (.saving (jobsOf a.entry))))
  | .saving todo =>
      .saveTmp a.rid (a.record "running") (.run a (.body d (.saved todo)))
  | .saved todo => .saveRename a (.run a (.body d (.jobs todo)))
  | .jobs [] => .skip (.run a (.body d (.ending "done")))
  | .jobs (.play :: todo) =>
      .popen (.play a d) (some d)
        (fun child => .run a (.body d (.playing child todo)))
  | .jobs (.setEnv :: todo) =>
      .skip (.run a (.body d (.guardOpening todo)))
  | .playing child todo =>
      .choose (fun
        | .task => some (.run a (.body d (.noting child todo)))
        | .go => some (.run a (.body d (.waiting child todo)))
        | _ => none)
  | .noting child todo =>
      .saveTmp a.rid (a.record "running")
        (.run a (.body d (.noted child todo)))
  | .noted child todo =>
      .saveRename a (.run a (.body d (.playing child todo)))
  | .waiting child todo =>
      .wait child (fun code =>
        if code = 0 then .run a (.body d (.jobs todo))
        else .run a (.body d (.ending "failed")))
  | .guardOpening todo =>
      .openGuard (fun g => .run a (.body d (.guardOpened g todo)))
  | .guardOpened g todo =>
      .flockWait g (.run a (.body d (.guarded g todo)))
  | .guarded g todo => .close g (.run a (.body d (.jobs todo)))
  | .guardFailed g => .close g (.run a (.body d (.ending "failed")))
  | .ending state =>
      .saveTmp a.rid (a.record state) (.run a (.body d (.ended state)))
  | .ended _ => .saveRename a (.run a (.body d (.pruning .listing)))
  | .pruning pc =>
      pc.move reg a.rid (fun pc => .run a (.body d (.pruning pc)))
        (.run a (.body d .closing))
  | .closing => .exit

/-- `cmd_run` from its lock on. -/
def RunPc.move (reg : Registry) (a : RunArgs) : RunPc → Move
  | .opening => .openLock a.key (some a.rid) (fun d => .run a (.opened d))
  | .opened d =>
      .flock d (fun
        | none => .run a (.body d .locked)
        | some seen => .run a (.lost d seen))
  | .lost d seen => .close d (.run a (.refused seen))
  | .refused seen =>
      .readId a.key (fun other => .say [.refused a.key other seen])
  | .body d b => b.move reg a d

/-- `cmd_start` from its first look on. -/
def StartPc.move (name : Text) (p : Entry) : StartPc → Move
  | .asking look =>
      look.move (fun l => .start name p (.asking l))
        (.start name p .launching)
        (fun seen other => .say [.busy look.key (busyAnswer name other) seen])
  | .launching =>
      .choose (fun
        | .stamp t =>
            if stampBody t then
              some (.start name p (.launched (newId t name)))
            else none
        | _ => none)
  | .launched rid =>
      -- an id that `cmd_run` does not accept ends the new process at once
      if h : idRe rid = true then
        .popen (.run ⟨name, p, rid, h⟩ .opening) none
          (fun _ => .start name p (.polling rid))
      else .skip (.start name p (.polling rid))
  | .polling rid =>
      .choose (fun
        | .late => some (.say [.failed rid])
        | .go => some (.start name p (.checking rid))
        | _ => none)
  | .checking rid =>
      .pathExists (recordFile rid) (fun found =>
        if found then .say [.started rid]
        else .start name p (.probing rid ⟨lockKey name p, .opening⟩))
  | .probing rid look =>
      look.move (fun l => .start name p (.probing rid l))
        (.start name p (.polling rid))
        (fun seen other =>
          if other = none ∨ other = some rid then .start name p (.polling rid)
          else .say [.busy look.key (busyAnswer name other) seen])

def isRecordFile (n : Text) : Bool :=
  ".json".toList.isSuffixOf n

/-- `load_records`, as `cmd_list` and `cmd_show` call it. -/
def ListPc.move (reg : Registry) (out : List Answer) : ListPc → Move
  | .globbing =>
      .listdir (fun ns =>
        let files := (ns.filter isRecordFile).mergeSort (fun n m => !(n < m))
        .list (.reading files) out)
  | .reading [] => .skip (.say out)
  | .reading (n :: todo) =>
      .readRecord n (fun
        | some r =>
            if looksAt reg r then
              .list (.looking r ⟨reg.lockKeyOf r.piece, .opening⟩ todo) out
            else .list (.reading todo) out
        | none => .list (.reading todo) out)
  | .looking r look todo =>
      look.move (fun l => .list (.looking r l todo) out)
        (.list (.reading todo) out)
        (fun seen other =>
          if other = r.id then
            .list (.reading todo) (.running look.key r.id seen :: out)
          else .list (.reading todo) out)

def Proc.move (reg : Registry) : Proc → Move
  | .run a pc => pc.move reg a
  | .play _ _ => .exits
  | .ended _ => .stuck
  | .start name p pc => pc.move name p
  | .list pc out => pc.move reg out
  | .say answers => .say answers

/-- An exception where the source catches it. -/
def Proc.raised : Proc → Option Proc
  | .run a (.body d (.jobs _)) => some (.run a (.body d (.ending "failed")))
  | .run a (.body d (.playing _ _)) =>
      some (.run a (.body d (.ending "failed")))
  | .run a (.body d (.noting _ _)) =>
      some (.run a (.body d (.ending "failed")))
  | .run a (.body d (.noted _ _)) =>
      some (.run a (.body d (.ending "failed")))
  | .run a (.body d (.waiting _ _)) =>
      some (.run a (.body d (.ending "failed")))
  | .run a (.body d (.guardOpening _)) =>
      some (.run a (.body d (.ending "failed")))
  | .run a (.body d (.guarded g _)) =>
      some (.run a (.body d (.guardFailed g)))
  | .run a (.body d (.pruning .listing)) => some (.run a (.body d .closing))
  | .run a (.body d (.pruning (.checking _ _ _))) =>
      some (.run a (.body d .closing))
  | .run a (.body d (.pruning (.unlinking _ _))) =>
      some (.run a (.body d .closing))
  | .start _ _ (.launched rid) => some (.say [.failed rid])
  | _ => none

/-- The machine: the locks and the records directory, the processes, the run
that each description was opened for, and what has been told. -/
structure Sys where
  locks : FileLocks Nat Nat
  ops : OpsDir
  procs : Nat → Option Proc
  operation : Nat → Option (Text × Text)
  answers : List Answer

def Sys.init (o : OpsDir) : Sys where
  locks := FileLocks.none 0
  ops := o
  procs := fun _ => none
  operation := fun _ => none
  answers := []

def Sys.setProc (st : Sys) (p : Nat) (P : Option Proc) : Sys :=
  { st with procs := Function.update st.procs p P }

def Sys.setOps (st : Sys) (o : OpsDir) : Sys :=
  { st with ops := o }

def Sys.setLocks (st : Sys) (k : FileLocks Nat Nat) : Sys :=
  { st with locks := k }

/-- Process `p` opens a file and goes on with its new description. -/
def Sys.opens (st : Sys) (p : Nat) (o : OpsDir) (i : Nat)
    (operation : Option (Text × Text)) (k : Nat → Proc) : Sys where
  locks := st.locks.opened p i
  ops := o
  procs := Function.update st.procs p (some (k st.locks.next))
  operation := Function.update st.operation st.locks.next operation
  answers := st.answers

/-- Process `p` is gone, and so are its descriptors. -/
def Sys.gone (st : Sys) (p : Nat) (P : Option Proc) : Sys :=
  (st.setLocks (st.locks.exit p)).setProc p P

variable (loads : Text → Option Rec)

/-- One call of process `p`. -/
def Sys.exec (st : Sys) (p : Nat) (c : Choice) : Move → Option Sys
  | .openLock key rid k =>
      some (st.opens p (st.ops.ensure (lockFile key))
        (st.ops.opened (lockFile key)) (rid.map (fun rid => (key, rid))) k)
  | .openGuard k =>
      some (st.opens p (st.ops.writeText guardFile [])
        (st.ops.opened guardFile) none k)
  | .flock d k =>
      if h : (p, d) ∈ st.locks.refs then
        match st.locks.holder d with
        | none =>
            some ((st.setLocks (st.locks.locked h)).setProc p (some (k none)))
        | some seen => some (st.setProc p (some (k (some seen))))
      else none
  | .flockWait d k =>
      if h : (p, d) ∈ st.locks.refs then
        match st.locks.holder d with
        | none => some ((st.setLocks (st.locks.locked h)).setProc p (some k))
        | some _ => none
      else none
  | .close d k =>
      some ((st.setLocks (st.locks.close p d)).setProc p (some k))
  | .truncate d k =>
      some ((st.setOps (st.ops.setData (st.locks.file d) [])).setProc p
        (some k))
  | .write d t k =>
      some ((st.setOps (st.ops.writeAt (st.locks.file d) t)).setProc p
        (some k))
  | .readId key k => some (st.setProc p (some (k (st.ops.runningId key))))
  | .saveTmp rid r k =>
      match c with
      | .text t =>
          if loads t = some r then
            some ((st.setOps (st.ops.writeText (tmpFile rid) t)).setProc p
              (some k))
          else none
      | _ => none
  | .saveRename a k =>
      some ((st.setOps
        (st.ops.rename (tmpFile a.rid) (recordFile a.rid))).setProc p (some k))
  | .readRecord n k =>
      some (st.setProc p (some (k ((st.ops.readText n).bind loads))))
  | .pathExists n k =>
      some (st.setProc p (some (k (st.ops.inode n).isSome)))
  | .listdir k =>
      match c with
      | .names ns =>
          if ns.all (fun n => (st.ops.inode n).isSome) then
            some (st.setProc p (some (k ns)))
          else none
      | _ => none
  | .unlink n k =>
      some ((st.setOps (st.ops.unlink n.1)).setProc p (some k))
  | .popen child pass k =>
      match c with
      | .pid q =>
          match st.procs q, pass with
          | some _, _ => none
          | none, none =>
              some ((st.setProc q (some child)).setProc p (some (k q)))
          | none, some d =>
              if h : (p, d) ∈ st.locks.refs then
                some (((st.setLocks (st.locks.inherited h q)).setProc q
                  (some child)).setProc p (some (k q)))
              else none
      | _ => none
  | .wait q k =>
      match st.procs q with
      | some (.ended code) =>
          some ((st.setProc q none).setProc p (some (k code)))
      | _ => none
  | .choose k => (k c).map (fun P => st.setProc p (some P))
  | .say answers =>
      some { st.gone p none with answers := answers ++ st.answers }
  | .exits =>
      match c with
      | .code n => some (st.gone p (some (.ended n)))
      | _ => none
  | .exit => some (st.gone p none)
  | .stuck => none

/-- What can happen: somebody starts a process, a process makes its next call,
meets an exception, or dies. -/
inductive Act where
  | run (p : Nat) (name rid : Text)
  | start (p : Nat) (name : Text)
  | list (p : Nat)
  | step (p : Nat) (c : Choice)
  | raise (p : Nat)
  | die (p : Nat)

/-- A new process under a free number. -/
def Sys.begin (st : Sys) (p : Nat) (P : Proc) : Option Sys :=
  match st.procs p with
  | some _ => none
  | none => some (st.setProc p (some P))

def Sys.step (reg : Registry) (st : Sys) : Act → Option Sys
  | .run p name rid =>
      match reg.piece? name with
      | some e =>
          if h : idRe rid = true then
            st.begin p (.run ⟨name, e, rid, h⟩ .opening)
          else none
      | none => none
  | .start p name =>
      match reg.piece? name with
      | some e =>
          st.begin p (.start name e (.asking ⟨lockKey name e, .opening⟩))
      | none => none
  | .list p => st.begin p (.list .globbing [])
  | .step p c =>
      match st.procs p with
      | some P => st.exec loads p c (P.move reg)
      | none => none
  | .raise p =>
      match st.procs p with
      | some P => P.raised.map (fun P' => st.setProc p (some P'))
      | none => none
  | .die p =>
      match st.procs p with
      | some (.play _ _) => some (st.gone p (some (.ended (-9))))
      | some (.ended _) => none
      | some _ => some (st.gone p none)
      | none => none

end Processes

end Piece
end Kelt
