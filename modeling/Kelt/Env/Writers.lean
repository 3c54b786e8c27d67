import Kelt.Env.PlainFile
import Kelt.Lib.Runs

/-!
# CLI and runner writing to the same file

Any number of CLIs, each with the values it loaded once, and runners that take
turns under their guard. A CLI takes no lock: it greps the lines to keep and
later renames the whole file into place. The system counts the writes, so that a
process can be said to have seen the last one.

`intended` is the value that the completed writes have given a key: a later
write changes it only when it sets the key on purpose, an edit of a CLI or a key
of a runner's update. `intended_kept` says that the file gives every key that
value as long as no two writes cross.
-/

namespace Kelt
namespace Env

section Writers

/-- A CLI at work. `loadedAt` and `greppedAt` are the counts it saw. -/
structure Cli where
  vars : Vars
  edited : List Text
  loadedAt : Nat
  kept : Option (List Text)
  greppedAt : Nat

/-- The runner that holds the guard, with the text it is about to write. -/
structure Writer where
  update : Update
  text : Option Text
  readAt : Nat

/-- The file, the processes, the intended values, and the counts: writes that
set a key the CLI owns, all writes, and saves of a CLI. -/
structure Sys where
  file : Option Text
  clis : Nat → Option Cli
  writer : Option Writer
  intended : Text → Option Text
  ownedWrites : Nat
  writes : Nat
  saves : Nat

def Sys.init (file : Option Text) : Sys where
  file := file
  clis := fun _ => none
  writer := none
  intended := fun _ => none
  ownedWrites := 0
  writes := 0
  saves := 0

inductive Act where
  | load (i : Nat) (secretsFile : Option Text)
  | edit (i : Nat) (k : { k // k ∈ envNames }) (v : { v // Settable v })
  | grep (i : Nat)
  | replace (i : Nat)
  | quit (i : Nat)
  | lock (u : Update)
  | read
  | write
  | die

def Sys.setCli (st : Sys) (i : Nat) (o : Option Cli) : Sys :=
  { st with clis := Function.update st.clis i o }

def Sys.setWriter (st : Sys) (o : Option Writer) : Sys :=
  { st with writer := o }

def setsOwned (u : Update) : Bool :=
  u.keys.keys.any (fun k => envNames.contains k)

/-- A CLI renames its file into place. -/
def Sys.replaced (st : Sys) (i : Nat) (cli : Cli) (kept : List Text) :
    Sys where
  file := some (unlines (envManaged.body cli.vars ++ kept))
  clis := Function.update st.clis i
    (some ⟨cli.vars, [], st.ownedWrites + 1, none, 0⟩)
  writer := st.writer
  intended := fun k =>
    if k ∈ cli.edited then some (cli.vars k)
    else (st.intended k).or
      (if k ∈ envNames then some (cli.vars k) else none)
  ownedWrites := st.ownedWrites + 1
  writes := st.writes + 1
  saves := st.saves + 1

theorem Sys.replaced_intended (st : Sys) (i : Nat) (cli : Cli)
    (kept : List Text) (k : Text) :
    (st.replaced i cli kept).intended k =
      if k ∈ cli.edited then some (cli.vars k)
      else (st.intended k).or
        (if k ∈ envNames then some (cli.vars k) else none) :=
  rfl

/-- The runner replaces the file, unless it reads like the text, and lets the
guard go. -/
def Sys.written (st : Sys) (w : Writer) (text : Text) : Sys where
  file :=
    if st.file.any (fun content => universalNewlines content == text)
    then st.file
    else some text
  clis := st.clis
  writer := none
  intended := fun k => (w.update.get? k).or (st.intended k)
  ownedWrites := st.ownedWrites + (if setsOwned w.update then 1 else 0)
  writes := st.writes + 1
  saves := st.saves

def Sys.step (st : Sys) : Act → Option Sys
  | .load i secretsFile =>
      match st.clis i with
      | some _ => none
      | none =>
          some (st.setCli i
            (some ⟨loadConfig st.file secretsFile, [], st.ownedWrites, none,
              0⟩))
  | .edit i k v =>
      match st.clis i with
      | some ⟨vars, edited, loadedAt, none, greppedAt⟩ =>
          some (st.setCli i
            (some ⟨Function.update vars k v, k :: edited, loadedAt, none,
              greppedAt⟩))
      | _ => none
  | .grep i =>
      match st.clis i with
      | some ⟨vars, edited, loadedAt, none, _⟩ =>
          some (st.setCli i
            (some ⟨vars, edited, loadedAt,
              some (envManaged.kept vars st.file), st.writes⟩))
      | _ => none
  | .replace i =>
      match st.clis i with
      | some ⟨vars, edited, loadedAt, some kept, greppedAt⟩ =>
          some (st.replaced i ⟨vars, edited, loadedAt, some kept, greppedAt⟩
            kept)
      | _ => none
  | .quit i => some (st.setCli i none)
  | .lock u =>
      match st.writer with
      | some _ => none
      | none => some (st.setWriter (some ⟨u, none, 0⟩))
  | .read =>
      match st.writer with
      | some ⟨u, none, _⟩ =>
          some (st.setWriter
            (some ⟨u, some (newText u.keys st.file), st.saves⟩))
      | _ => none
  | .write =>
      match st.writer with
      | some ⟨u, some text, readAt⟩ =>
          some (st.written ⟨u, some text, readAt⟩ text)
      | _ => none
  | .die => some (st.setWriter none)

/-- Nobody has written in between: for a save, no key that the CLI owns since
it loaded the values or saved them, and nothing at all since its grep; for a
runner, no CLI since it read the file. -/
def NotCrossing (st : Sys) : Act → Prop
  | .replace i => ∀ cli, st.clis i = some cli →
      cli.loadedAt = st.ownedWrites ∧ cli.greppedAt = st.writes
  | .write => ∀ w, st.writer = some w → w.readAt = st.saves
  | _ => True

/-- What a CLI knows: its values can be read back, and those that it has not
edited are the intended ones when it has seen the last write. -/
structure CliInv (st : Sys) (cli : Cli) : Prop where
  seen : cli.loadedAt ≤ st.ownedWrites
  settable : ∀ k ∈ envNames, Settable (cli.vars k)
  owned : ∀ k ∈ cli.edited, k ∈ envNames
  loaded : cli.loadedAt = st.ownedWrites → ∀ k ∈ envNames,
    k ∉ cli.edited → ∀ v, st.intended k = some v → cli.vars k = v
  grepped : ∀ kept, cli.kept = some kept →
    cli.greppedAt ≤ st.writes ∧ (∀ ln ∈ kept, PlainLine ln) ∧
      (cli.greppedAt = st.writes → kept = envManaged.kept cli.vars st.file)

structure Inv (st : Sys) : Prop where
  plain : ∃ lines, PlainFile st.file lines
  kept : ∀ k v, st.intended k = some v →
    (readEnv st.file).get? k = some v
  clis : ∀ i cli, st.clis i = some cli → CliInv st cli
  writer : ∀ w text, st.writer = some w → w.text = some text →
    w.readAt ≤ st.saves ∧
      (w.readAt = st.saves → text = newText w.update.keys st.file)

/-- A save over a plain file gives the owned keys their values. -/
theorem readEnv_save_owned {vars : Vars} {kept : List Text}
    (hvars : ∀ k ∈ envNames, Settable (vars k))
    (hkept : ∀ ln ∈ kept, PlainLine ln)
    (hdrops : ∀ ln ∈ kept, grepDrops envNames ln = false) {k : Text}
    (hk : k ∈ envNames) :
    (readEnv (some (unlines (envManaged.body vars ++ kept)))).get? k =
      some (vars k) := by
  have hname : shellName k = true := envManaged.named k hk
  have hmem : k ∈ envManaged.names := hk
  have hnone : lastValue k kept = none := by
    rw [lastValue_eq_none_iff]
    intro ln hln
    exact (hkept ln hln).lineValue_of_kept (hdrops ln hln) hk
  rw [readEnv_get?, (plainFile_save hvars hkept).fileLines_eq,
    lastValue_append, hnone, Option.none_or, envManaged.lastValue_body,
    if_pos hmem, lineValue_assignment (envKey_of_shellName hname)
      (hvars k hk).plain, if_pos rfl]

/-- It leaves the other keys as they were when nobody has written since the
grep. -/
theorem readEnv_save_other {file : Option Text} {lines : List Text}
    (hfile : PlainFile file lines) {vars : Vars}
    (hvars : ∀ k ∈ envNames, Settable (vars k)) {k : Text}
    (hk : k ∉ envNames) :
    (readEnv (some (unlines
      (envManaged.body vars ++ envManaged.kept vars file)))).get? k =
      (readEnv file).get? k := by
  have hkept : ∀ ln ∈ envManaged.kept vars file, PlainLine ln := by
    rw [hfile.kept_eq]
    exact fun ln hln => hfile.plain ln (List.mem_filter.1 hln).1
  have hmem : k ∉ envManaged.names := hk
  rw [readEnv_get?, (plainFile_save hvars hkept).fileLines_eq,
    lastValue_append, envManaged.lastValue_body, if_neg hmem, Option.or_none,
    hfile.kept_eq, readEnv_get?, hfile.fileLines_eq]
  apply lastValue_filter
  intro ln _ hdrop
  exact lineValue_of_grepDrops envManaged.named (by simpa using hdrop) hk

/-- What the grep of a plain file yields. -/
theorem kept_plain {file : Option Text} {lines : List Text}
    (hfile : PlainFile file lines) (vars : Vars) :
    ∀ ln ∈ envManaged.kept vars file,
      PlainLine ln ∧ grepDrops envNames ln = false := by
  rw [hfile.kept_eq]
  intro ln hln
  obtain ⟨hmem, hdrops⟩ := List.mem_filter.1 hln
  have hkept : grepDrops envManaged.names ln = false := by
    simpa using hdrops
  exact ⟨hfile.plain ln hmem, hkept⟩

namespace Inv

variable {st : Sys}

theorem init {file : Option Text} {lines : List Text}
    (hfile : PlainFile file lines) : Inv (Sys.init file) where
  plain := ⟨lines, hfile⟩
  kept := fun k v hv => by cases hv
  clis := fun i cli hcli => by cases hcli
  writer := fun w text hw => by cases hw

/-- A step that only changes one CLI. -/
theorem setCli (hinv : Inv st) (i : Nat) {o : Option Cli}
    (ho : ∀ cli, o = some cli → CliInv st cli) :
    Inv (st.setCli i o) where
  plain := hinv.plain
  kept := hinv.kept
  clis := by
    intro j cli hcli
    change Function.update st.clis i o j = some cli at hcli
    have hst : CliInv st cli := by
      by_cases hj : j = i
      · subst hj
        rw [Function.update_self] at hcli
        exact ho cli hcli
      · rw [Function.update_of_ne hj] at hcli
        exact hinv.clis j cli hcli
    exact ⟨hst.seen, hst.settable, hst.owned, hst.loaded, hst.grepped⟩
  writer := hinv.writer

/-- A step that only changes the runner. -/
theorem setWriter (hinv : Inv st) {o : Option Writer}
    (ho : ∀ w text, o = some w → w.text = some text →
      w.readAt ≤ st.saves ∧
        (w.readAt = st.saves → text = newText w.update.keys st.file)) :
    Inv (st.setWriter o) where
  plain := hinv.plain
  kept := hinv.kept
  clis := by
    intro i cli hcli
    have hst := hinv.clis i cli hcli
    exact ⟨hst.seen, hst.settable, hst.owned, hst.loaded, hst.grepped⟩
  writer := ho

/-- A CLI that has just loaded the file knows the intended values. -/
theorem load (hinv : Inv st) (secretsFile : Option Text) :
    CliInv st ⟨loadConfig st.file secretsFile, [], st.ownedWrites, none, 0⟩ := by
  obtain ⟨lines, hfile⟩ := hinv.plain
  refine ⟨le_refl _, ?_, ?_, ?_, ?_⟩
  · exact fun k hk => hfile.loadConfig_settable secretsFile hk
  · exact fun k hk => absurd hk List.not_mem_nil
  · intro _ k hk _ v hv
    exact hfile.loadConfig_eq secretsFile hk (hinv.kept k v hv)
  · exact fun kept hkept => by cases hkept

theorem edit {vars : Vars} {edited : List Text} {loadedAt greppedAt : Nat}
    (hcli : CliInv st ⟨vars, edited, loadedAt, none, greppedAt⟩)
    (k : { k // k ∈ envNames }) (v : { v // Settable v }) :
    CliInv st
      ⟨Function.update vars k v, k :: edited, loadedAt, none, greppedAt⟩ := by
  refine ⟨hcli.seen, ?_, ?_, ?_, ?_⟩
  · intro k' hk'
    change Settable (Function.update vars k.1 v.1 k')
    by_cases heq : k' = k.1
    · rw [heq, Function.update_self]
      exact v.2
    · rw [Function.update_of_ne heq]
      exact hcli.settable k' hk'
  · intro k' hk'
    rcases List.mem_cons.1 hk' with rfl | hk'
    · exact k.2
    · exact hcli.owned k' hk'
  · intro hseen k' hk' hnot v' hv'
    have hne : k' ≠ k.1 := fun h => hnot (h ▸ List.mem_cons_self)
    have hnot' : k' ∉ edited := fun h => hnot (List.mem_cons_of_mem _ h)
    change Function.update vars k.1 v.1 k' = v'
    rw [Function.update_of_ne hne]
    exact hcli.loaded hseen k' hk' hnot' v' hv'
  · exact fun kept hkept => by cases hkept

theorem grep (hinv : Inv st) {vars : Vars} {edited : List Text}
    {loadedAt greppedAt : Nat}
    (hcli : CliInv st ⟨vars, edited, loadedAt, none, greppedAt⟩) :
    CliInv st ⟨vars, edited, loadedAt, some (envManaged.kept vars st.file),
      st.writes⟩ := by
  obtain ⟨lines, hfile⟩ := hinv.plain
  refine ⟨hcli.seen, hcli.settable, hcli.owned, hcli.loaded, ?_⟩
  intro kept hkept
  rw [← Option.some.inj hkept]
  exact ⟨le_refl _, fun ln hln => (kept_plain hfile vars ln hln).1,
    fun _ => rfl⟩

/-- A save that does not cross another write keeps every intended value. -/
theorem replaced (hinv : Inv st) (i : Nat) {cli : Cli} {kept : List Text}
    (hcli : st.clis i = some cli) (hkept : cli.kept = some kept)
    (hloaded : cli.loadedAt = st.ownedWrites)
    (hgrepped : cli.greppedAt = st.writes) :
    Inv (st.replaced i cli kept) := by
  obtain ⟨lines, hfile⟩ := hinv.plain
  have hst := hinv.clis i cli hcli
  obtain ⟨-, hplain, hfresh⟩ := hst.grepped kept hkept
  have hkeptEq := hfresh hgrepped
  have hdrops : ∀ ln ∈ kept, grepDrops envNames ln = false := by
    rw [hkeptEq]
    exact fun ln hln => (kept_plain hfile cli.vars ln hln).2
  have hintended : ∀ k v, (st.replaced i cli kept).intended k = some v →
      k ∈ envNames → cli.vars k = v := by
    intro k v hv hk
    rw [Sys.replaced_intended, if_pos hk] at hv
    split_ifs at hv with hedited
    · exact Option.some.inj hv
    · rcases Option.or_eq_some_iff.1 hv with hv | ⟨-, hv⟩
      · exact hst.loaded hloaded k hk hedited v hv
      · exact Option.some.inj hv
  refine ⟨⟨_, plainFile_save hst.settable hplain⟩, ?_, ?_, ?_⟩
  · intro k v hv
    change (readEnv (some (unlines
      (envManaged.body cli.vars ++ kept)))).get? k = some v
    by_cases hk : k ∈ envNames
    · rw [readEnv_save_owned hst.settable hplain hdrops hk,
        hintended k v hv hk]
    · have hedited : k ∉ cli.edited := fun h => hk (hst.owned k h)
      have hv' : st.intended k = some v := by
        rwa [Sys.replaced_intended, if_neg hedited, if_neg hk,
          Option.or_none] at hv
      rw [hkeptEq, readEnv_save_other hfile hst.settable hk]
      exact hinv.kept k v hv'
  · intro j cli' hcli'
    change Function.update st.clis i _ j = some cli' at hcli'
    by_cases hj : j = i
    · rw [hj, Function.update_self] at hcli'
      rw [← Option.some.inj hcli']
      refine ⟨le_refl _, hst.settable, ?_, ?_, ?_⟩
      · exact fun k hk => absurd hk List.not_mem_nil
      · exact fun _ k hk _ v hv => hintended k v hv hk
      · exact fun kept' h => by cases h
    · rw [Function.update_of_ne hj] at hcli'
      have hst' := hinv.clis j cli' hcli'
      have hseen := hst'.seen
      refine ⟨le_trans hseen (Nat.le_succ _), hst'.settable, hst'.owned,
        ?_, ?_⟩
      · intro h
        change cli'.loadedAt = st.ownedWrites + 1 at h
        omega
      · intro kept' hkept'
        obtain ⟨hle, hplain', -⟩ := hst'.grepped kept' hkept'
        refine ⟨le_trans hle (Nat.le_succ _), hplain', ?_⟩
        intro h
        change cli'.greppedAt = st.writes + 1 at h
        omega
  · intro w text hw htext
    obtain ⟨hle, -⟩ := hinv.writer w text hw htext
    refine ⟨le_trans hle (Nat.le_succ _), ?_⟩
    intro h
    change w.readAt = st.saves + 1 at h
    omega

theorem mem_envNames_of_setsOwned {u : Update}
    (h : setsOwned u = false) {k v : Text} (hget : u.get? k = some v) :
    k ∉ envNames := by
  intro hk
  have hmem := (u.mem_keys_iff k).2 ⟨v, hget⟩
  unfold setsOwned at h
  rw [List.any_eq_false] at h
  exact h k hmem (by simpa using hk)

/-- A runner's write that no save has crossed keeps every intended value. -/
theorem written (hinv : Inv st) {w : Writer} {text : Text}
    (htext : text = newText w.update.keys st.file) :
    Inv (st.written w text) := by
  obtain ⟨lines, hfile⟩ := hinv.plain
  have hnew : (st.written w text).file =
      writeEnvKeys w.update.keys st.file := by
    rw [htext]
    rfl
  have hplain : ∃ lines', PlainFile (st.written w text).file lines' := by
    rw [hnew]
    unfold writeEnvKeys
    split_ifs
    · exact ⟨lines, hfile⟩
    · exact ⟨_, w.update.plainFile_newText hfile⟩
  refine ⟨hplain, ?_, ?_, ?_⟩
  · intro k v hv
    change (w.update.get? k).or (st.intended k) = some v at hv
    have hagree : LinesAgree w.update.toEnvKeys (fileLines st.file) := by
      rw [hfile.fileLines_eq]
      exact w.update.linesAgree hfile.plain
    rw [hnew, w.update.reads_of_agree hagree]
    rw [Option.or_eq_some_iff] at hv ⊢
    exact hv.imp_right (fun h => ⟨h.1, hinv.kept k v h.2⟩)
  · intro i cli hcli
    have hst := hinv.clis i cli hcli
    have hseen := hst.seen
    refine ⟨le_trans hseen (Nat.le_add_right _ _), hst.settable, hst.owned,
      ?_, ?_⟩
    · intro h k hk hnot v hv
      change cli.loadedAt =
        st.ownedWrites + (if setsOwned w.update then 1 else 0) at h
      change (w.update.get? k).or (st.intended k) = some v at hv
      cases howned : setsOwned w.update with
      | true =>
          rw [howned, if_pos rfl] at h
          omega
      | false =>
          rw [howned] at h
          cases hget : w.update.get? k with
          | some v' => exact absurd hk (mem_envNames_of_setsOwned howned hget)
          | none =>
              rw [hget, Option.none_or] at hv
              exact hst.loaded h k hk hnot v hv
    · intro kept hkept
      obtain ⟨hle, hplain', -⟩ := hst.grepped kept hkept
      refine ⟨le_trans hle (Nat.le_succ _), hplain', ?_⟩
      intro h
      change cli.greppedAt = st.writes + 1 at h
      omega
  · intro w' text' hw'
    cases hw'

/-- Every step that does not cross another write keeps the invariant. -/
theorem step (hinv : Inv st) {act : Act} {st' : Sys}
    (hok : NotCrossing st act) (h : st.step act = some st') : Inv st' := by
  cases act with
  | load i secretsFile =>
      cases hi : st.clis i with
      | some cli => simp [Sys.step, hi] at h
      | none =>
          simp only [Sys.step, hi, Option.some.injEq] at h
          rw [← h]
          apply hinv.setCli i
          intro cli hcli
          rw [← Option.some.inj hcli]
          exact hinv.load secretsFile
  | edit i k v =>
      cases hi : st.clis i with
      | none => simp [Sys.step, hi] at h
      | some cli =>
          obtain ⟨vars, edited, loadedAt, kept, greppedAt⟩ := cli
          cases kept with
          | some kept => simp [Sys.step, hi] at h
          | none =>
              simp only [Sys.step, hi, Option.some.injEq] at h
              rw [← h]
              apply hinv.setCli i
              intro cli hcli
              rw [← Option.some.inj hcli]
              exact edit (hinv.clis i _ hi) k v
  | grep i =>
      cases hi : st.clis i with
      | none => simp [Sys.step, hi] at h
      | some cli =>
          obtain ⟨vars, edited, loadedAt, kept, greppedAt⟩ := cli
          cases kept with
          | some kept => simp [Sys.step, hi] at h
          | none =>
              simp only [Sys.step, hi, Option.some.injEq] at h
              rw [← h]
              apply hinv.setCli i
              intro cli hcli
              rw [← Option.some.inj hcli]
              exact hinv.grep (hinv.clis i _ hi)
  | replace i =>
      cases hi : st.clis i with
      | none => simp [Sys.step, hi] at h
      | some cli =>
          obtain ⟨hloaded, hgrepped⟩ := hok cli hi
          obtain ⟨vars, edited, loadedAt, kept, greppedAt⟩ := cli
          cases kept with
          | none => simp [Sys.step, hi] at h
          | some kept =>
              simp only [Sys.step, hi, Option.some.injEq] at h
              rw [← h]
              exact hinv.replaced i hi rfl hloaded hgrepped
  | quit i =>
      rw [← Option.some.inj h]
      exact hinv.setCli i (fun cli hcli => by cases hcli)
  | lock u =>
      cases hw : st.writer with
      | some w => simp [Sys.step, hw] at h
      | none =>
          simp only [Sys.step, hw, Option.some.injEq] at h
          rw [← h]
          apply hinv.setWriter
          intro w text hw' htext
          rw [← Option.some.inj hw'] at htext
          cases htext
  | read =>
      cases hw : st.writer with
      | none => simp [Sys.step, hw] at h
      | some w =>
          obtain ⟨u, text, readAt⟩ := w
          cases text with
          | some text => simp [Sys.step, hw] at h
          | none =>
              simp only [Sys.step, hw, Option.some.injEq] at h
              rw [← h]
              apply hinv.setWriter
              intro w text hw' htext
              rw [← Option.some.inj hw'] at htext ⊢
              exact ⟨le_refl _, fun _ => (Option.some.inj htext).symm⟩
  | write =>
      cases hw : st.writer with
      | none => simp [Sys.step, hw] at h
      | some w =>
          have hread := hok w hw
          obtain ⟨u, text, readAt⟩ := w
          cases text with
          | none => simp [Sys.step, hw] at h
          | some text =>
              simp only [Sys.step, hw, Option.some.injEq] at h
              rw [← h]
              exact hinv.written ((hinv.writer _ text hw rfl).2 hread)
  | die =>
      rw [← Option.some.inj h]
      exact hinv.setWriter (fun w text hw => by cases hw)

end Inv

/-- In every run without crossing writes over a plain file, every key that a
completed write has set on purpose keeps its value. -/
theorem intended_kept {file : Option Text} {lines : List Text}
    (hfile : PlainFile file lines) {st : Sys}
    (h : Reach Sys.step NotCrossing (Sys.init file) st) (k v : Text)
    (hv : st.intended k = some v) : (readEnv st.file).get? k = some v := by
  have hinv : Inv st := h.inv (Inv.init hfile)
    (fun _ _ _ hs hok hstep => hs.step hok hstep)
  exact hinv.kept k v hv

/-- A piece attaches the physical RAN. -/
def attachRan : Update where
  keys := Dict.single "PHYSICAL_RAN_ENABLED".toList "true".toList
  envKey := by
    intro kv hkv
    rw [List.mem_singleton.1 hkv]
    exact ⟨by decide, by decide, by decide, by decide, by decide⟩
  plainValue := by
    intro kv hkv
    rw [List.mem_singleton.1 hkv]
    exact ⟨by decide, by decide, by decide⟩
  named := by
    intro kv hkv
    rw [List.mem_singleton.1 hkv]
    decide
  settable := by
    intro kv hkv
    rw [List.mem_singleton.1 hkv]
    decide

/-- The write of a runner that nobody crosses is still there at its end. -/
theorem intended_kept_attachRan :
    ∃ st, Reach Sys.step NotCrossing (Sys.init none) st ∧
      st.intended "PHYSICAL_RAN_ENABLED".toList = some "true".toList ∧
      (readEnv st.file).get? "PHYSICAL_RAN_ENABLED".toList =
        some "true".toList := by
  have hplain : PlainFile none [] :=
    ⟨Or.inr ⟨rfl, rfl⟩, fun ln hln => by cases hln⟩
  have hlock : Reach Sys.step NotCrossing (Sys.init none)
      ((Sys.init none).setWriter (some ⟨attachRan, none, 0⟩)) :=
    Reach.refl.step (a := Act.lock attachRan) trivial rfl
  have hread := hlock.step (a := Act.read) trivial rfl
  have hwrite := hread.step (a := Act.write)
    (fun w hw => by rw [← Option.some.inj hw]; rfl) rfl
  exact ⟨_, hwrite, rfl, intended_kept hplain hwrite _ _ rfl⟩

/-- A CLI that loaded the file before the piece ran saves the old value. -/
def loadAttachSave : List Act :=
  [.load 0 none, .lock attachRan, .read, .write, .grep 0, .replace 0]

/-- Runs in which the writes cross lose an intended value. -/
theorem loadAttachSave_detaches :
    ¬ ∀ file lines, PlainFile file lines →
      ∀ st, ReachAny Sys.step (Sys.init file) st →
        ∀ k v, st.intended k = some v →
          (readEnv st.file).get? k = some v := by
  intro h
  have hplain : PlainFile none [] :=
    ⟨Or.inr ⟨rfl, rfl⟩, fun ln hln => by cases hln⟩
  cases hrun : exec Sys.step (Sys.init none) loadAttachSave with
  | none => cases hrun
  | some st =>
      have hkept := h none [] hplain st (Reach.refl.exec hrun)
        "PHYSICAL_RAN_ENABLED".toList "true".toList
      cases hrun
      -- the save finds nothing to keep in the file that the piece wrote
      have hnothing : envManaged.kept (loadConfig none none)
          (some (newText attachRan.keys none)) = [] := by
        decide
      have hsaved : (readEnv (some (unlines
          (envManaged.body (loadConfig none none) ++ [])))).get?
            "PHYSICAL_RAN_ENABLED".toList =
          some (loadConfig none none "PHYSICAL_RAN_ENABLED".toList) :=
        readEnv_save_owned (fun k hk => hplain.loadConfig_settable none hk)
          (fun ln hln => absurd hln List.not_mem_nil)
          (fun ln hln => absurd hln List.not_mem_nil) (by decide)
      rw [← hnothing] at hsaved
      have hlost := hsaved.symm.trans (hkept rfl)
      revert hlost
      decide

end Writers

end Env
end Kelt
