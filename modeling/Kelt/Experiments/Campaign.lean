import Kelt.Lib.Dict
import Kelt.Lib.PyText
import Kelt.Lib.Runs

/-!
# The attempts at a network campaign

A campaign is a schedule whose lines are run on the UE by a job (`ue-run.sh`).
What the job leaves is fetched into a folder of the attempt and checked against
its manifest (`campaign.sh`). A later attempt runs the lines of which no folder
has the small file that is written when a line ends (`remaining_schedule`).
That file may be in a folder without the measurements: it is unpacked before
the fetch is cut or refused, and nothing takes it back. While the job is on the
UE it is fetched again first; once it is lost the line counts as run. Where
this does not happen, a line is left out only if it was fetched and checked
(`sound_of_fits`).

Checksums are taken for the contents, and the names of the runs for words
without the special characters of the shell.
-/

namespace Kelt
namespace Experiments
namespace Campaign

section Jobs

inductive Ext where
  | json
  | ping
  | loadJson
  | metaFile
  deriving DecidableEq

/-- A file of a job: `runs/<idx>-<name>.<ext>`, or another. -/
inductive File where
  | run (idx : Nat) (name : Text) (ext : Ext)
  | other (name : Text)
  deriving DecidableEq

inductive Kind where
  | iperf3
  | ping
  | pingLoad
  | unknown
  deriving DecidableEq

/-- The files that the tools of a line write. -/
def Kind.outputs : Kind → List Ext
  | .iperf3 => [.json]
  | .ping => [.ping]
  | .pingLoad => [.loadJson, .ping]
  | .unknown => []

structure Line where
  idx : Nat
  name : Text
  kind : Kind
  args : Text
  deriving DecidableEq

def Line.file (line : Line) (ext : Ext) : File :=
  .run line.idx line.name ext

def Line.files (line : Line) : List File :=
  (line.kind.outputs ++ [Ext.metaFile]).map line.file

structure Schedule where
  lines : List Line
  apart : (lines.map fun line => (line.idx, line.name)).Nodup

variable {γ : Type}

/-- `MANIFEST.sha256`, which may be cut off in writing. -/
structure Manifest (γ : Type) where
  entries : List (File × γ)
  whole : Bool

/-- An attempt: the schedule of its job and what is left of it, the directory of
the job, and the folder `raw/ue/<number>`, with whether its last fetch was
checked. -/
structure Attempt (γ : Type) where
  number : Nat
  lines : List Line
  left : List Line
  files : List (File × γ)
  running : Bool
  manifest : Option (Manifest γ)
  folder : Option (List (File × γ))
  checked : Bool

def Attempt.launch (number : Nat) (lines : List Line) : Attempt γ :=
  ⟨number, lines, lines, [], true, none, none, false⟩

def Attempt.got (a : Attempt γ) : List (File × γ) :=
  a.folder.getD []

def has (f : File) (files : List (File × γ)) : Bool :=
  (Dict.getItem f files).isSome

/-- What happens on the UE: a tool writes its file, a line ends, another file is
written, the job ends with its manifest, or it is killed outright. -/
inductive UeAct (γ : Type) where
  | output (ext : Ext) (c : γ)
  | finishLine (c : γ)
  | write (name : Text) (c : γ)
  | finish
  | die (manifest : Option (List (File × γ)))

/-- A tool that is killed may still write its file after the manifest. -/
def Attempt.step [DecidableEq γ] (a : Attempt γ) : UeAct γ → Option (Attempt γ)
  | .output ext c =>
      match a.left with
      | line :: _ =>
          if ext ∈ line.kind.outputs then
            some { a with files := Dict.setItem (line.file ext) c a.files }
          else none
      | [] => none
  | .finishLine c =>
      match a.left with
      | line :: rest =>
          if a.running = true ∧
              ∀ ext ∈ line.kind.outputs, has (line.file ext) a.files = true then
            some { a with
              files := Dict.setItem (line.file .metaFile) c a.files
              left := rest }
          else none
      | [] => none
  | .write name c =>
      some { a with files := Dict.setItem (.other name) c a.files }
  | .finish =>
      if a.running then
        some { a with running := false, manifest := some ⟨a.files, true⟩ }
      else none
  | .die manifest =>
      if a.running = true ∧ ∀ e ∈ manifest.getD [], e ∈ a.files then
        some { a with
          running := false
          manifest := manifest.map fun entries => ⟨entries, false⟩ }
      else none

end Jobs

section Fetching

variable {γ : Type} [DecidableEq γ]

/-- Where the transfer was cut: after so many files, and within the next. -/
abbrev Cut (γ : Type) := Option (Nat × Option γ)

/-- The folder after `tar` has unpacked the members that came through. -/
def Attempt.extract (a : Attempt γ) (members : List (File × γ)) :
    Cut γ → List (File × γ)
  | none => Dict.updateItems a.got members
  | some (n, part) =>
      let whole := Dict.updateItems a.got (members.take n)
      match members.drop n, part with
      | (f, _) :: _, some c => Dict.setItem f c whole
      | _, _ => whole

/-- `sha256sum -c` in a folder with the manifest of the job. -/
def Attempt.passes (a : Attempt γ) (folder : List (File × γ)) : Bool :=
  match a.manifest with
  | some m =>
      decide (m.entries ≠ []) &&
        m.entries.all fun e => decide (Dict.getItem e.1 folder = some e.2)
  | none => false

def Attempt.fetch (a : Attempt γ) (members : List (File × γ)) (cut : Cut γ) :
    Attempt γ :=
  let folder := a.extract members cut
  { a with folder := some folder, checked := cut.isNone && a.passes folder }

/-- The attempts whose jobs are not on the UE any more, the last one first, and
the one whose job is. -/
structure State (γ : Type) where
  past : List (Attempt γ)
  cur : Option (Attempt γ)

def State.init : State γ :=
  ⟨[], none⟩

def State.attempts (s : State γ) : List (Attempt γ) :=
  s.cur.toList ++ s.past

def Attempt.hasMeta (a : Attempt γ) (line : Line) : Bool :=
  has (line.file .metaFile) a.got

/-- `remaining_schedule` -/
def State.remaining (sch : Schedule) (s : State γ) : List Line :=
  sch.lines.filter fun line => !s.attempts.any fun a => a.hasMeta line

/-- `next_attempt` -/
def nextAttempt (attempts : List (Attempt γ)) : Nat :=
  (attempts.filter fun a => a.folder.isSome).foldl
    (fun n a => max n a.number) 0 + 1

inductive Act (γ : Type) where
  | start
  | ue (act : UeAct γ)
  | fetch (members : List (File × γ)) (cut : Cut γ) (removed : Bool)
  | lose

/-- A job is started when none is on the UE and something is left to run. A
checked fetch removes it, if the UE can still be reached. -/
def State.step (sch : Schedule) (s : State γ) : Act γ → Option (State γ)
  | .start =>
      match s.cur with
      | some _ => none
      | none =>
          if s.remaining sch = [] then none
          else
            some { s with
              cur := some (.launch (nextAttempt s.past) (s.remaining sch)) }
  | .ue act =>
      match s.cur with
      | some a => (a.step act).map fun a' => { s with cur := some a' }
      | none => none
  | .fetch members cut removed =>
      match s.cur with
      | some a =>
          if members.Perm a.files then
            let a' := a.fetch members cut
            if a'.checked && removed then some ⟨a' :: s.past, none⟩
            else some { s with cur := some a' }
          else none
      | none => none
  | .lose =>
      match s.cur with
      | some a => some ⟨a :: s.past, none⟩
      | none => none

end Fetching

section Claims

variable {γ : Type} [DecidableEq γ]

/-- All files of the line were fetched and match the manifest. -/
def Attempt.Whole (a : Attempt γ) (line : Line) : Prop :=
  ∃ m, a.manifest = some m ∧ ∀ f ∈ line.files,
    ∃ c, (f, c) ∈ m.entries ∧ Dict.getItem f a.got = some c

/-- No job is on the UE, or it has just been fetched and checked: then the rest
of the schedule is asked for. -/
def State.Settled (s : State γ) : Prop :=
  ∀ a, s.cur = some a → a.checked = true

structure State.Sound (sch : Schedule) (s : State γ) : Prop where
  leftOut : s.Settled → ∀ line ∈ sch.lines, line ∉ s.remaining sch →
    ∃ a ∈ s.attempts, a.Whole line
  next : ∀ a older, (a :: older) <:+ s.attempts →
    a.lines.Sublist sch.lines ∧
      ∀ line ∈ sch.lines, line ∉ a.lines → ∃ b ∈ older, b.Whole line
  once : ∀ a older, (a :: older) <:+ s.attempts → ∀ b ∈ older, ∀ line,
    line ∈ a.lines → line ∈ b.lines → ¬ (a.Whole line ∧ b.Whole line)

/-- The manifest lists the files of the lines that have ended. -/
def Attempt.Lists (sch : Schedule) (a : Attempt γ) (m : Manifest γ) : Prop :=
  ∀ line ∈ sch.lines, has (line.file .metaFile) a.files = true →
    ∀ f ∈ line.files, has f m.entries = true

/-- The job is not lost while its folder has the last file of a line without the
others, and a manifest that was cut off in writing and still passes the check
lists all that it should. -/
def State.Fits (sch : Schedule) (s : State γ) : Act γ → Prop
  | .lose => ∀ a, s.cur = some a → ∀ line ∈ sch.lines,
      a.hasMeta line = true → a.Whole line
  | .fetch members cut _ => ∀ a m, s.cur = some a → a.manifest = some m →
      m.whole = false → (a.fetch members cut).checked = true → a.Lists sch m
  | _ => True

end Claims

section Files

variable {γ : Type}

theorem has_setItem {f g : File} {c : γ} {files : List (File × γ)} :
    has f (Dict.setItem g c files) = true ↔ g = f ∨ has f files = true := by
  unfold has
  rw [Dict.getItem_setItem]
  by_cases h : g = f
  · simp [h]
  · simp [h]

theorem has_iff_mem {f : File} {files : List (File × γ)} :
    has f files = true ↔ f ∈ files.map Prod.fst := by
  unfold has
  rw [← not_iff_not, Bool.not_eq_true, Option.isSome_eq_false_iff,
    Option.isNone_iff_eq_none]
  exact Dict.getItem_eq_none_iff f files

theorem has_updateItems {f : File} {more files : List (File × γ)}
    (h : has f (Dict.updateItems files more) = true) :
    has f files = true ∨ has f more = true := by
  induction more generalizing files with
  | nil => exact Or.inl h
  | cons e rest ih =>
      rcases ih h with hset | hrest
      · rcases has_setItem.1 hset with rfl | hfiles
        · exact Or.inr (has_iff_mem.2 (by simp))
        · exact Or.inl hfiles
      · refine Or.inr (has_iff_mem.2 ?_)
        exact List.mem_cons_of_mem _ (has_iff_mem.1 hrest)

theorem metaFile_mem_files (line : Line) : line.file .metaFile ∈ line.files :=
  List.mem_map_of_mem (List.mem_append_right _ (List.mem_singleton_self _))

theorem file_inj {line line' : Line} {ext ext' : Ext}
    (h : line.file ext = line'.file ext') :
    (line.idx, line.name) = (line'.idx, line'.name) ∧ ext = ext' := by
  unfold Line.file at h
  injection h with hidx hname hext
  exact ⟨by rw [hidx, hname], hext⟩

/-- Lines of the schedule do not share a file. -/
theorem Schedule.line_eq (sch : Schedule) {line line' : Line} {ext ext' : Ext}
    (hline : line ∈ sch.lines) (hline' : line' ∈ sch.lines)
    (h : line.file ext = line'.file ext') : line = line' :=
  List.inj_on_of_nodup_map sch.apart hline hline' (file_inj h).1

theorem mem_files_iff {line : Line} {f : File} :
    f ∈ line.files ↔ f = line.file .metaFile ∨
      ∃ ext ∈ line.kind.outputs, f = line.file ext := by
  unfold Line.files
  simp only [List.mem_map, List.mem_append, List.mem_singleton]
  constructor
  · rintro ⟨ext, hext | rfl, rfl⟩
    · exact Or.inr ⟨ext, hext, rfl⟩
    · exact Or.inl rfl
  · rintro (rfl | ⟨ext, hext, rfl⟩)
    · exact ⟨.metaFile, Or.inr rfl, rfl⟩
    · exact ⟨ext, Or.inl hext, rfl⟩

theorem outputs_ne_metaFile {kind : Kind} {ext : Ext} (h : ext ∈ kind.outputs) :
    ext ≠ .metaFile := by
  rintro rfl
  cases kind <;> simp [Kind.outputs] at h

theorem Attempt.Whole.hasMeta {a : Attempt γ} {line : Line} (h : a.Whole line) :
    a.hasMeta line = true := by
  obtain ⟨m, -, hfiles⟩ := h
  obtain ⟨c, -, hc⟩ := hfiles _ (metaFile_mem_files line)
  unfold Attempt.hasMeta has
  rw [hc]
  rfl

end Files

section Job

variable {γ : Type} {sch : Schedule} {a : Attempt γ}

/-- What holds of the job on the UE and of its folder. -/
structure Attempt.JobOk (sch : Schedule) (a : Attempt γ) : Prop where
  left : ∀ line ∈ a.left, line ∈ sch.lines
  ended : ∀ line ∈ sch.lines, has (line.file .metaFile) a.files = true →
    ∀ f ∈ line.files, has f a.files = true
  got : ∀ f, has f a.got = true → has f a.files = true
  running : a.running = true → a.manifest = none
  lists : ∀ m, a.manifest = some m → m.whole = true → a.Lists sch m
  checked : a.checked = true → a.manifest.isSome = true ∧
    ∀ line ∈ sch.lines, a.hasMeta line = true → a.Whole line

theorem jobOk_launch (number : Nat) {lines : List Line}
    (hlines : ∀ line ∈ lines, line ∈ sch.lines) :
    (Attempt.launch number lines : Attempt γ).JobOk sch where
  left := hlines
  ended := fun _ _ h => nomatch h
  got := fun _ h => nomatch h
  running := fun _ => rfl
  lists := fun _ h => nomatch h
  checked := fun h => nomatch h

/-- A file that does not end a line. -/
theorem Attempt.JobOk.write (h : a.JobOk sch) {f : File} {c : γ}
    (hf : ∀ line ∈ sch.lines, f ≠ line.file .metaFile) :
    ({ a with files := Dict.setItem f c a.files } : Attempt γ).JobOk sch := by
  have hmeta : ∀ line ∈ sch.lines,
      has (line.file .metaFile) (Dict.setItem f c a.files) = true →
        has (line.file .metaFile) a.files = true := by
    intro line hline hhas
    exact (has_setItem.1 hhas).resolve_left (hf line hline)
  exact {
    left := h.left
    ended := fun line hline hhas g hg =>
      has_setItem.2 (Or.inr (h.ended line hline (hmeta line hline hhas) g hg))
    got := fun g hg => has_setItem.2 (Or.inr (h.got g hg))
    running := h.running
    lists := fun m hm hwhole line hline hhas =>
      h.lists m hm hwhole line hline (hmeta line hline hhas)
    checked := h.checked }

theorem Attempt.JobOk.finishLine (h : a.JobOk sch) {line : Line}
    {rest : List Line} {c : γ} (hleft : a.left = line :: rest)
    (hrunning : a.running = true)
    (houtputs : ∀ ext ∈ line.kind.outputs, has (line.file ext) a.files = true) :
    ({ a with
      files := Dict.setItem (line.file .metaFile) c a.files
      left := rest } : Attempt γ).JobOk sch := by
  have hline : line ∈ sch.lines :=
    h.left line (by rw [hleft]; exact List.mem_cons_self)
  exact {
    left := fun line' hline' =>
      h.left line' (by rw [hleft]; exact List.mem_cons_of_mem _ hline')
    ended := by
      intro line' hline' hhas f hf
      rcases has_setItem.1 hhas with heq | hold
      · cases sch.line_eq hline hline' heq
        rcases mem_files_iff.1 hf with rfl | ⟨ext, hext, rfl⟩
        · exact has_setItem.2 (Or.inl rfl)
        · exact has_setItem.2 (Or.inr (houtputs ext hext))
      · exact has_setItem.2 (Or.inr (h.ended line' hline' hold f hf))
    got := fun g hg => has_setItem.2 (Or.inr (h.got g hg))
    running := h.running
    lists := by
      intro m hm
      rw [h.running hrunning] at hm
      cases hm
    checked := h.checked }

/-- The job ends; its folder was not checked before. -/
theorem Attempt.JobOk.stop (h : a.JobOk sch) (hrunning : a.running = true)
    {manifest : Option (Manifest γ)}
    (hlists : ∀ m, manifest = some m → m.whole = true → a.Lists sch m) :
    ({ a with running := false, manifest := manifest } : Attempt γ).JobOk sch where
  left := h.left
  ended := h.ended
  got := h.got
  running := fun hfalse => nomatch hfalse
  lists := hlists
  checked := by
    intro hchecked
    have hsome := (h.checked hchecked).1
    rw [h.running hrunning] at hsome
    cases hsome

/-- What is unpacked was in the directory of the job. -/
theorem has_extract (h : ∀ f, has f a.got = true → has f a.files = true)
    {members : List (File × γ)} (hmembers : members.Perm a.files)
    (cut : Cut γ) {f : File} (hf : has f (a.extract members cut) = true) :
    has f a.files = true := by
  have hall : ∀ part : List (File × γ), part.Sublist members →
      has f part = true → has f a.files = true := by
    intro part hpart hhas
    refine has_iff_mem.2 ((hmembers.map Prod.fst).mem_iff.1 ?_)
    exact (hpart.map Prod.fst).subset (has_iff_mem.1 hhas)
  match cut with
  | none =>
      exact (has_updateItems hf).elim (h f) (hall members (List.Sublist.refl _))
  | some (n, part) =>
      have hwhole : has f (Dict.updateItems a.got (members.take n)) = true →
          has f a.files = true :=
        fun hhas => (has_updateItems hhas).elim (h f)
          (hall _ (List.take_sublist n members))
      simp only [Attempt.extract] at hf
      split at hf
      · rename_i g c' rest c hdrop
        rcases has_setItem.1 hf with rfl | hhas
        · refine hall _ (List.drop_sublist n members) ?_
          rw [hdrop]
          exact has_iff_mem.2 (by simp)
        · exact hwhole hhas
      · exact hwhole hf

variable [DecidableEq γ]

theorem Attempt.JobOk.step (h : a.JobOk sch) {act : UeAct γ} {a' : Attempt γ}
    (hstep : a.step act = some a') :
    a'.JobOk sch ∧ a'.lines = a.lines ∧ a'.number = a.number := by
  cases act with
  | output ext c =>
      simp only [Attempt.step] at hstep
      split at hstep
      · split at hstep
        · rename_i hext
          cases hstep
          refine ⟨h.write fun line' _ heq => ?_, rfl, rfl⟩
          exact outputs_ne_metaFile hext (file_inj heq).2
        · cases hstep
      · cases hstep
  | finishLine c =>
      simp only [Attempt.step] at hstep
      split at hstep
      · rename_i line rest hleft
        split at hstep
        · rename_i hended
          cases hstep
          exact ⟨h.finishLine hleft hended.1 hended.2, rfl, rfl⟩
        · cases hstep
      · cases hstep
  | write name c =>
      cases hstep
      exact ⟨h.write (fun line _ heq => nomatch heq), rfl, rfl⟩
  | finish =>
      simp only [Attempt.step, Option.ite_none_right_eq_some,
        Option.some.injEq] at hstep
      obtain ⟨hrunning, rfl⟩ := hstep
      refine ⟨h.stop hrunning ?_, rfl, rfl⟩
      intro m hm _
      cases hm
      exact h.ended
  | die manifest =>
      simp only [Attempt.step, Option.ite_none_right_eq_some,
        Option.some.injEq] at hstep
      obtain ⟨⟨hrunning, -⟩, rfl⟩ := hstep
      refine ⟨h.stop hrunning ?_, rfl, rfl⟩
      intro m hm hwhole
      obtain ⟨entries, -, rfl⟩ := Option.map_eq_some_iff.1 hm
      cases hwhole

/-- A folder that passes the check has what the manifest lists. -/
theorem getItem_of_passes {folder : List (File × γ)}
    (h : a.passes folder = true) :
    ∃ m, a.manifest = some m ∧
      ∀ e ∈ m.entries, Dict.getItem e.1 folder = some e.2 := by
  unfold Attempt.passes at h
  split at h
  · rename_i m hm
    rw [Bool.and_eq_true, List.all_eq_true] at h
    exact ⟨m, hm, fun e he => of_decide_eq_true (h.2 e he)⟩
  · cases h

theorem Attempt.JobOk.fetch (h : a.JobOk sch) {members : List (File × γ)}
    (hmembers : members.Perm a.files) {cut : Cut γ}
    (hfits : ∀ m, a.manifest = some m → m.whole = false →
      (a.fetch members cut).checked = true → a.Lists sch m) :
    (a.fetch members cut).JobOk sch where
  left := h.left
  ended := h.ended
  got := fun f hf => has_extract h.got hmembers cut hf
  running := h.running
  lists := h.lists
  checked := by
    intro hchecked
    obtain ⟨m, hm, hentries⟩ :=
      getItem_of_passes (Bool.and_eq_true _ _ ▸ hchecked).2
    have hlists : a.Lists sch m := by
      cases hwhole : m.whole with
      | true => exact h.lists m hm hwhole
      | false => exact hfits m hm hwhole hchecked
    refine ⟨Option.isSome_iff_exists.2 ⟨m, hm⟩, ?_⟩
    intro line hline hmeta
    have hmetaFiles := has_extract h.got hmembers cut hmeta
    refine ⟨m, hm, fun f hf => ?_⟩
    obtain ⟨⟨f', c⟩, he, rfl⟩ :=
      List.mem_map.1 (has_iff_mem.1 (hlists line hline hmetaFiles f hf))
    exact ⟨c, he, hentries (f', c) he⟩

end Job

section Runs

variable {γ : Type}

/-- What holds of an attempt since its start, when the others were over. -/
structure Launched (sch : Schedule) (older : List (Attempt γ))
    (a : Attempt γ) : Prop where
  lines : a.lines.Sublist sch.lines
  leftOut : ∀ line ∈ sch.lines, line ∉ a.lines → ∃ b ∈ older, b.Whole line
  fresh : ∀ line ∈ a.lines, ∀ b ∈ older, b.hasMeta line = false
  number : a.number = nextAttempt older

def Launches (sch : Schedule) : List (Attempt γ) → Prop
  | [] => True
  | a :: older => Launched sch older a ∧ Launches sch older

structure State.Inv (sch : Schedule) (s : State γ) : Prop where
  past : ∀ a ∈ s.past, ∀ line ∈ sch.lines, a.hasMeta line = true →
    a.Whole line
  job : ∀ a, s.cur = some a → a.JobOk sch
  launches : Launches sch s.attempts

theorem mem_remaining {sch : Schedule} {s : State γ} {line : Line} :
    line ∈ s.remaining sch ↔ line ∈ sch.lines ∧
      ∀ a ∈ s.attempts, a.hasMeta line = false := by
  simp [State.remaining]

theorem exists_hasMeta {sch : Schedule} {s : State γ} {line : Line}
    (hline : line ∈ sch.lines) (hleft : line ∉ s.remaining sch) :
    ∃ a ∈ s.attempts, a.hasMeta line = true := by
  by_contra hnone
  refine hleft (mem_remaining.2 ⟨hline, fun a ha => ?_⟩)
  exact Bool.eq_false_iff.2 fun h => hnone ⟨a, ha, h⟩

theorem Launches.of_suffix {sch : Schedule} {attempts : List (Attempt γ)}
    (h : Launches sch attempts) {a : Attempt γ} {older : List (Attempt γ)}
    (hsuffix : (a :: older) <:+ attempts) : Launched sch older a := by
  induction attempts with
  | nil => cases List.suffix_nil.1 hsuffix
  | cons b rest ih =>
      rcases List.suffix_cons_iff.1 hsuffix with heq | hrest
      · cases heq
        exact h.1
      · exact ih h.2 hrest

theorem Launched.congr {sch : Schedule} {older : List (Attempt γ)}
    {a a' : Attempt γ} (h : Launched sch older a) (hlines : a'.lines = a.lines)
    (hnumber : a'.number = a.number) : Launched sch older a' where
  lines := hlines ▸ h.lines
  leftOut := hlines ▸ h.leftOut
  fresh := hlines ▸ h.fresh
  number := hnumber.trans h.number

theorem inv_init (sch : Schedule) : (State.init : State γ).Inv sch where
  past := fun _ h => nomatch h
  job := fun _ h => nomatch h
  launches := trivial

/-- The job that is on the UE may change; its schedule and number stay. -/
theorem State.Inv.setCur {sch : Schedule} {s : State γ} {a a' : Attempt γ}
    (hs : s.Inv sch) (ha : s.cur = some a) (hok : a'.JobOk sch)
    (hlines : a'.lines = a.lines) (hnumber : a'.number = a.number) :
    ({ s with cur := some a' } : State γ).Inv sch where
  past := hs.past
  job := by
    intro b hb
    cases hb
    exact hok
  launches := by
    have h := hs.launches
    unfold State.attempts at h ⊢
    rw [ha] at h
    exact ⟨h.1.congr hlines hnumber, h.2⟩

/-- The job leaves the UE with a folder that can be relied on. -/
theorem State.Inv.leave {sch : Schedule} {s : State γ} {a a' : Attempt γ}
    (hs : s.Inv sch) (ha : s.cur = some a)
    (hwhole : ∀ line ∈ sch.lines, a'.hasMeta line = true → a'.Whole line)
    (hlines : a'.lines = a.lines) (hnumber : a'.number = a.number) :
    (⟨a' :: s.past, none⟩ : State γ).Inv sch where
  past := by
    intro b hb
    rcases List.mem_cons.1 hb with rfl | hb
    · exact hwhole
    · exact hs.past b hb
  job := fun _ h => nomatch h
  launches := by
    have h := hs.launches
    unfold State.attempts at h
    rw [ha] at h
    exact ⟨h.1.congr hlines hnumber, h.2⟩

theorem State.Inv.start {sch : Schedule} {s : State γ} (hs : s.Inv sch)
    (hcur : s.cur = none) :
    ({ s with
      cur := some (.launch (nextAttempt s.past) (s.remaining sch)) } :
        State γ).Inv sch where
  past := hs.past
  job := by
    intro a ha
    cases ha
    exact jobOk_launch _ fun line hline => (mem_remaining.1 hline).1
  launches := by
    have hattempts : s.attempts = s.past := by
      unfold State.attempts
      rw [hcur]
      rfl
    refine ⟨⟨List.filter_sublist, ?_, ?_, rfl⟩, ?_⟩
    · intro line hline hleft
      obtain ⟨a, ha, hmeta⟩ := exists_hasMeta hline hleft
      rw [hattempts] at ha
      exact ⟨a, ha, hs.past a ha line hline hmeta⟩
    · intro line hline b hb
      exact (mem_remaining.1 hline).2 b (hattempts ▸ hb)
    · exact hattempts ▸ hs.launches

theorem State.Inv.sound {sch : Schedule} {s : State γ} (hs : s.Inv sch) :
    s.Sound sch where
  leftOut := by
    intro hsettled line hline hleft
    obtain ⟨a, ha, hmeta⟩ := exists_hasMeta hline hleft
    refine ⟨a, ha, ?_⟩
    rcases List.mem_append.1 ha with hcur | hpast
    · rw [Option.mem_toList] at hcur
      exact ((hs.job a hcur).checked (hsettled a hcur)).2 line hline hmeta
    · exact hs.past a hpast line hline hmeta
  next := by
    intro a older hsuffix
    have h := hs.launches.of_suffix hsuffix
    exact ⟨h.lines, h.leftOut⟩
  once := by
    intro a older hsuffix b hb line hline _ hwhole
    have hfresh := (hs.launches.of_suffix hsuffix).fresh line hline b hb
    rw [hwhole.2.hasMeta] at hfresh
    cases hfresh

variable [DecidableEq γ]

theorem State.Inv.step {sch : Schedule} {s s' : State γ} {act : Act γ}
    (hs : s.Inv sch) (hfits : s.Fits sch act)
    (hstep : s.step sch act = some s') : s'.Inv sch := by
  cases act with
  | start =>
      simp only [State.step] at hstep
      split at hstep
      · cases hstep
      · rename_i hcur
        split at hstep
        · cases hstep
        · cases hstep
          exact hs.start hcur
  | ue act =>
      simp only [State.step] at hstep
      split at hstep
      · rename_i a ha
        obtain ⟨a', ha', rfl⟩ := Option.map_eq_some_iff.1 hstep
        obtain ⟨hok, hlines, hnumber⟩ := (hs.job a ha).step ha'
        exact hs.setCur ha hok hlines hnumber
      · cases hstep
  | fetch members cut removed =>
      simp only [State.step] at hstep
      split at hstep
      · rename_i a ha
        split at hstep
        · rename_i hmembers
          have hok : (a.fetch members cut).JobOk sch :=
            (hs.job a ha).fetch hmembers fun m => hfits a m ha
          split at hstep
          · rename_i hchecked
            cases hstep
            rw [Bool.and_eq_true] at hchecked
            exact hs.leave ha (hok.checked hchecked.1).2 rfl rfl
          · cases hstep
            exact hs.setCur ha hok rfl rfl
        · cases hstep
      · cases hstep
  | lose =>
      simp only [State.step] at hstep
      split at hstep
      · rename_i a ha
        cases hstep
        exact hs.leave ha (hfits a ha) rfl rfl
      · cases hstep

/-- In every run in which no job is lost with half a line in its folder and no
manifest that was cut off is taken for a whole one, a line of the schedule is
left out only if some attempt has it fetched and checked, all others are in the
next attempt, and no line is whole in two attempts that ran it. -/
theorem sound_of_fits (sch : Schedule) (s : State γ)
    (h : Reach (State.step sch) (State.Fits sch) State.init s) :
    s.Sound sch :=
  (h.inv (inv_init sch) fun _ _ _ hs hfits hstep => hs.step hfits hstep).sound

/-- A schedule of one line. -/
def oneLine : Schedule :=
  ⟨[⟨1, "dl1".toList, .iperf3, "-t 60".toList⟩], by decide⟩

/-- The line is run, fetched and checked. -/
theorem sound_of_fits_oneLine :
    State.Sound oneLine (⟨[⟨1, oneLine.lines, [],
      [(.run 1 "dl1".toList .json, 7), (.run 1 "dl1".toList .metaFile, 8)],
      false, some ⟨[(.run 1 "dl1".toList .json, 7),
        (.run 1 "dl1".toList .metaFile, 8)], true⟩,
      some [(.run 1 "dl1".toList .json, 7),
        (.run 1 "dl1".toList .metaFile, 8)], true⟩], none⟩ : State Nat) := by
  have h₁ := (Reach.refl :
    Reach (State.step oneLine) (State.Fits oneLine) (State.init : State Nat) _)
  have h₂ := h₁.step (a := Act.start) trivial rfl
  have h₃ := h₂.step (a := Act.ue (.output .json 7)) trivial rfl
  have h₄ := h₃.step (a := Act.ue (.finishLine 8)) trivial rfl
  have h₅ := h₄.step (a := Act.ue .finish) trivial rfl
  refine sound_of_fits oneLine _ (h₅.step (a := Act.fetch
    [(.run 1 "dl1".toList .json, 7), (.run 1 "dl1".toList .metaFile, 8)]
    none true) ?_ rfl)
  intro a m ha hm hwhole
  cases ha
  cases hm
  cases hwhole

/-- The fetch is cut when the last file of the line is unpacked and the
measurements are not, and the job is lost. -/
theorem not_sound_lostJob :
    ¬ ∀ s : State Nat, ReachAny (State.step oneLine) State.init s →
      s.Sound oneLine := by
  intro h
  have h₁ := (Reach.refl :
    ReachAny (State.step oneLine) (State.init : State Nat) _)
  have h₂ := h₁.step (a := Act.start) trivial rfl
  have h₃ := h₂.step (a := Act.ue (.output .json 7)) trivial rfl
  have h₄ := h₃.step (a := Act.ue (.finishLine 8)) trivial rfl
  have h₅ := h₄.step (a := Act.ue .finish) trivial rfl
  have h₆ := h₅.step (a := Act.fetch
    [(.run 1 "dl1".toList .metaFile, 8), (.run 1 "dl1".toList .json, 7)]
    (some (1, none)) false) trivial rfl
  have hsound := h _ (h₆.step (a := Act.lose) trivial rfl)
  obtain ⟨a, ha, m, -, hfiles⟩ := hsound.leftOut (fun _ hcur => nomatch hcur)
    ⟨1, "dl1".toList, .iperf3, "-t 60".toList⟩ (by decide) (by decide)
  obtain ⟨c, -, hc⟩ := hfiles (.run 1 "dl1".toList .json) (by decide)
  rw [List.mem_singleton.1 ha] at hc
  cases hc

end Runs

section Numbers

variable {γ : Type}

theorem lt_nextAttempt {attempts : List (Attempt γ)} {a : Attempt γ}
    (ha : a ∈ attempts) (hfolder : a.folder.isSome = true) :
    a.number < nextAttempt attempts := by
  have hmax : ∀ (l : List (Attempt γ)) (n : Nat),
      n ≤ l.foldl (fun n a => max n a.number) n ∧
        ∀ b ∈ l, b.number ≤ l.foldl (fun n a => max n a.number) n := by
    intro l
    induction l with
    | nil => exact fun n => ⟨le_rfl, fun _ h => nomatch h⟩
    | cons b rest ih =>
        intro n
        obtain ⟨hle, hall⟩ := ih (max n b.number)
        refine ⟨(le_max_left n b.number).trans hle, ?_⟩
        intro b' hb'
        rcases List.mem_cons.1 hb' with rfl | hb'
        · exact (le_max_right n b'.number).trans hle
        · exact hall b' hb'
  exact Nat.lt_succ_of_le
    ((hmax _ 0).2 a (List.mem_filter.2 ⟨ha, hfolder⟩))

/-- An attempt is not unpacked into the folder of an earlier one. -/
theorem State.Inv.number_lt {sch : Schedule} {s : State γ} (hs : s.Inv sch)
    {a b : Attempt γ} {older : List (Attempt γ)}
    (hsuffix : (a :: older) <:+ s.attempts) (hb : b ∈ older)
    (hfolder : b.folder.isSome = true) : b.number < a.number := by
  rw [(hs.launches.of_suffix hsuffix).number]
  exact lt_nextAttempt hb hfolder

end Numbers

end Campaign
end Experiments
end Kelt
