import Kelt.Lib.PyText
import Kelt.Lib.Runs
import Mathlib.Logic.Function.Basic

/-!
# The dashboard's audit record

Every action of the dashboard appends a line to one file (`write_audit`); once
a day the call that finds the day over reads the file, drops the entries past
the retention period and replaces the file by what is left (`_trim`). Calls
run in the threads of one process, so one call can be between any two of its
steps while another goes on. An open file stays the file it was when its path
is given to another: `file` numbers the files that have had the path, `cur` is
the one that has it now.

Times are in microseconds. The clock of the system can be set, also back:
`seen` is the latest time it has shown, and an entry is past retention for good
once it has been so. `log` is what a file without trimming would hold.
-/

namespace Kelt
namespace Audit

section Record

/-- What `write_audit` records; `request` and `details` as they are printed. -/
structure Entry where
  ts : Int
  event : Text
  actor : Option Text
  request : Option Text
  details : Text
deriving DecidableEq

/-- A line of the file: an entry, or a line of another origin with the time
stamp that can be read from it. -/
inductive Line where
  | entry (e : Entry)
  | other (text : Text) (ts : Option Int)
deriving DecidableEq

/-- The time stamp of a line, where it can be read. -/
def Line.ts : Line → Option Int
  | entry e => some e.ts
  | other _ ts => ts

def second : Int := 1000000

/-- `_TRIM_EVERY_S` -/
def trimEvery : Int := 86400 * second

def cutoff (now days : Int) : Int :=
  now - days * 86400 * second

/-- The line is not older than the cutoff, or cannot be read. -/
def Line.since (cut : Int) (l : Line) : Bool :=
  match l.ts with
  | none => true
  | some ts => decide (cut ≤ ts)

/-- `trim_lines` -/
def trimLines (lines : List Line) (now days : Int) : List Line :=
  lines.filter (Line.since (cutoff now days))

/-- Where a call of `write_audit` stands. `mark` is how many lines had been
appended when it read the file. -/
inductive Place where
  | idle
  | stamped (e : Entry)
  | opened (e : Entry) (fd : Nat)
  | appended
  | due
  | trimming
  | read (lines : List Line) (mark : Nat)
  | kept (lines : List Line) (mark : Nat)
  | returned
deriving DecidableEq

structure Sys where
  now : Int
  seen : Int
  mono : Int
  lastTrim : Int
  file : Nat → List Line
  cur : Nat
  calls : Nat → Place
  log : List Line

/-- The lines a reader of the path finds. -/
def Sys.lines (s : Sys) : List Line :=
  s.file s.cur

def Sys.put (s : Sys) (i : Nat) (p : Place) : Sys :=
  { s with calls := Function.update s.calls i p }

/-- The process has come up and finds these lines. -/
def start (lines : List Line) (now mono : Int) : Sys where
  now := now
  seen := now
  mono := mono
  lastTrim := 0
  file := fun _ => lines
  cur := 0
  calls := fun _ => .idle
  log := lines

inductive Act where
  | tick (now mono : Int)
  | write (i : Nat) (event : Text) (actor request : Option Text)
      (details : Text)
  | go (i : Nat)
  | raise (i : Nat)

/-- The next step of a call. -/
def Sys.go (days : Int) (s : Sys) (i : Nat) : Option Sys :=
  match s.calls i with
  | .idle => none
  | .stamped e => some (s.put i (.opened e s.cur))
  | .opened e fd =>
      some ({ s with
        file := Function.update s.file fd (s.file fd ++ [Line.entry e])
        log := s.log ++ [Line.entry e] }.put i .appended)
  | .appended =>
      if s.mono - s.lastTrim > trimEvery ∨ s.lastTrim = 0 then
        some (s.put i .due)
      else
        some (s.put i .returned)
  | .due => some ({ s with lastTrim := s.mono }.put i .trimming)
  | .trimming => some (s.put i (.read s.lines s.log.length))
  | .read lines mark =>
      let kept := trimLines lines s.now days
      if kept.length = lines.length then
        some (s.put i .returned)
      else
        some (s.put i (.kept kept mark))
  | .kept lines _ =>
      some ({ s with
        file := Function.update s.file (s.cur + 1) lines
        cur := s.cur + 1 }.put i .returned)
  | .returned => none

/-- A step of the system: the clocks go on, a call begins, takes its next step,
or ends in an exception where it stands. -/
def Sys.step (days : Int) (s : Sys) : Act → Option Sys
  | .tick now mono =>
      if s.mono ≤ mono then
        some { s with now := now, seen := max s.seen now, mono := mono }
      else
        none
  | .write i event actor request details =>
      match s.calls i with
      | .idle =>
          some (s.put i (.stamped ⟨s.now, event, actor, request, details⟩))
      | _ => none
  | .go i => s.go days i
  | .raise i =>
      match s.calls i with
      | .idle => none
      | .returned => none
      | _ => some (s.put i .returned)

/-- The line is younger than the retention period, or has no readable age. -/
def Sys.young (days : Int) (s : Sys) (l : Line) : Bool :=
  l.since (cutoff s.seen days)

/-- Every line that is not past retention is in the file as often as it was
appended. -/
def Sys.Complete (days : Int) (s : Sys) : Prop :=
  ∀ l : Line, s.young days l = true → s.lines.count l = s.log.count l

/-- No call is under way. -/
def Sys.Quiet (s : Sys) : Prop :=
  ∀ i : Nat, s.calls i = .idle ∨ s.calls i = .returned

/-- The step crosses no other call: a line is appended to the file that has the
path, and a file is replaced when nothing has been appended since it was read.
Lines past retention do not matter. -/
def Sys.Uncrossed (days : Int) (s : Sys) : Act → Prop
  | .go i =>
      match s.calls i with
      | .opened e fd => s.young days (.entry e) = true → fd = s.cur
      | .kept _ mark => (s.log.drop mark).filter (s.young days) = []
      | _ => True
  | _ => True

end Record

end Audit
end Kelt
