import Kelt.Env.Files

/-!
# Histories of a config file

Any number of writes by the CLI and the runner, one after the other, each of
which may be cut off anywhere. `fileHistory` collects what holds of file and
`.prev` in all of them.
-/

namespace Kelt
namespace Env

open Fs

section FileHistory

/-- A write to a config file: by the CLI, of a content or of the previous
version, or by the runner. -/
inductive Operation where
  | save (n : Nat) (content : Text)
  | restore (n : Nat) (confirmed : Bool)
  | setKeys (keys : Dict Text Text)

namespace Operation

def script (sp : Splitter) : Operation → FileScript
  | save n content => writeFileAtomic sp n content
  | restore n confirmed => doRestore sp n confirmed
  | setKeys keys => writeEnvKeysScript sp keys

/-- The content to be written is the one that is there. -/
def Unchanged : Operation → Files → Prop
  | save _ content, d => d .main = some content
  | restore _ _, d => d .main = d .prev
  | setKeys keys, d => ReadsAs keys d

/-- The content to be written, when it comes to that. -/
def version : Operation → Files → Option Text
  | save _ content, _ => some content
  | restore _ confirmed, d =>
      if (d .main).isSome ∧ confirmed then d .prev else none
  | setKeys keys, d => some (newText keys (d .main))

/-- The version that is not there yet. -/
def produced : Operation → Files → List (Option Text)
  | save _ content, _ => [some content]
  | restore _ _, _ => []
  | setKeys keys, d => [some (newText keys (d .main))]

def During (op : Operation) (d₀ d : Files) : Prop :=
  Untouched d₀ d ∨
    ∃ new, op.version d₀ = some new ∧ ¬ op.Unchanged d₀ ∧
      (PrevKept d₀ d ∨ Swapped d₀ new d)

def After (op : Operation) (d₀ : Files) (ok : Bool) (d : Files) : Prop :=
  ok = true →
    (op.Unchanged d₀ ∧ Untouched d₀ d) ∨
      ∃ new, op.version d₀ = some new ∧ ¬ op.Unchanged d₀ ∧
        Swapped d₀ new d

/-- From the three states of a write to those of an operation. -/
theorem wp_of_version {op : Operation} {d₀ : Files} {new : Text}
    (hversion : op.version d₀ = some new) {s : FileScript} {d : Files}
    (h : s.wp (Env.During (op.Unchanged d₀) d₀ new)
      (Env.After (op.Unchanged d₀) d₀ new) d) :
    s.wp (op.During d₀) (op.After d₀) d := by
  refine wp_mono ?_ ?_ h
  · rintro d (hd | ⟨hsame, hd⟩)
    · exact Or.inl hd
    · exact Or.inr ⟨new, hversion, hsame, hd⟩
  · intro ok d hafter hok
    rcases hafter hok with hd | ⟨hsame, hd⟩
    · exact Or.inl hd
    · exact Or.inr ⟨new, hversion, hsame, hd⟩

/-- What every operation does to file and `.prev`. -/
theorem script_wp (sp : Splitter) (op : Operation) (d₀ : Files) :
    (op.script sp).wp (op.During d₀) (op.After d₀) d₀ := by
  have hstart : op.During d₀ d₀ := Or.inl ⟨rfl, rfl⟩
  have hrefused :
      (Script.done false : FileScript).wp (op.During d₀) (op.After d₀) d₀ :=
    ⟨hstart, fun h => Bool.noConfusion h⟩
  cases op with
  | save n content =>
      exact wp_of_version rfl (writeFileAtomic_wp sp n content d₀)
  | setKeys keys =>
      exact wp_of_version rfl (writeEnvKeysScript_wp sp keys d₀)
  | restore n confirmed =>
      refine ⟨hstart, ?_⟩
      beta_reduce
      cases hprev : d₀ .prev with
      | none => exact hrefused
      | some content =>
          simp only
          split_ifs with hgo
          · have hversion : (restore n confirmed).version d₀ =
                some content := by
              simp only [version, if_pos hgo, hprev]
            apply wp_of_version hversion
            have hwrite := writeFileAtomic_wp sp n content d₀
            rw [← hprev] at hwrite
            exact hwrite
          · exact hrefused

end Operation

/-- An operation that goes through and reports success. -/
def Completes (sp : Splitter) (op : Operation) (d d' : Files) : Prop :=
  Steps (op.script sp, d) (.done true, d')

/-- The files, the script at work, and every version there has been. -/
structure History where
  files : Files
  running : Option FileScript
  versions : List (Option Text)

/-- One step of a history: a write begins, goes on, ends or is cut off. -/
inductive History.Step (sp : Splitter) : History → History → Prop
  | start (op : Operation) {d : Files} {vs : List (Option Text)} :
      Step sp ⟨d, none, vs⟩ ⟨d, some (op.script sp), vs ++ op.produced d⟩
  | work {s s' : FileScript} {d d' : Files} {vs : List (Option Text)}
      (h : Fs.Step (s, d) (s', d')) :
      Step sp ⟨d, some s, vs⟩ ⟨d', some s', vs⟩
  | finish {ok : Bool} {d : Files} {vs : List (Option Text)} :
      Step sp ⟨d, some (.done ok), vs⟩ ⟨d, none, vs⟩
  | crash {s : FileScript} {d : Files} {vs : List (Option Text)} :
      Step sp ⟨d, some s, vs⟩ ⟨d, none, vs⟩

/-- The history begins with the files there are. -/
def History.init (d : Files) : History :=
  ⟨d, none, d .main :: (d .prev).toList.map some⟩

def History.Reachable (sp : Splitter) (d : Files) : History → Prop :=
  Relation.ReflTransGen (History.Step sp) (History.init d)

/-- File and `.prev` are versions there have been; `.prev` may be missing. -/
def Known (vs : List (Option Text)) (d : Files) : Prop :=
  d .main ∈ vs ∧ (d .prev = none ∨ d .prev ∈ vs)

theorem Known.mono {vs vs' : List (Option Text)} {d : Files}
    (h : Known vs d) : Known (vs ++ vs') d :=
  ⟨List.mem_append_left _ h.1, h.2.imp_right (List.mem_append_left _)⟩

/-- An operation leaves known versions at every moment. -/
theorem Known.during {vs : List (Option Text)} {op : Operation}
    {d₀ d : Files} (h : Known vs d₀) (hd : op.During d₀ d) :
    Known (vs ++ op.produced d₀) d := by
  have hkept : (d₀ .main).or (d₀ .prev) = none ∨
      (d₀ .main).or (d₀ .prev) ∈ vs := by
    cases hmain : d₀ .main with
    | none =>
        rw [Option.none_or]
        exact h.2
    | some v =>
        rw [Option.some_or, ← hmain]
        exact Or.inr h.1
  rcases hd with hd | ⟨new, hversion, -, hd | hd⟩
  · have hsame : Known vs d := ⟨by rw [hd.1]; exact h.1, by
      rw [hd.2]
      exact h.2⟩
    exact hsame.mono
  · have hsame : Known vs d := ⟨by rw [hd.1]; exact h.1, by
      rw [hd.2]
      exact hkept⟩
    exact hsame.mono
  · refine ⟨?_, ?_⟩
    · rw [hd.1]
      cases op with
      | save n content =>
          rw [← hversion]
          simp [Operation.produced, Operation.version]
      | setKeys keys =>
          rw [← hversion]
          simp [Operation.produced, Operation.version]
      | restore n confirmed =>
          simp only [Operation.version] at hversion
          split_ifs at hversion
          rw [← hversion]
          apply List.mem_append_left
          rcases h.2 with hnone | hmem
          · rw [hnone] at hversion
            cases hversion
          · exact hmem
    · rw [hd.2]
      exact hkept.imp_right (List.mem_append_left _)

/-- What is preserved along a history: the files are known versions, and will
be at every moment of the script at work. -/
structure History.Inv (h : History) : Prop where
  known : Known h.versions h.files
  working : ∀ s, h.running = some s →
    s.wp (Known h.versions) (fun _ _ => True) h.files

theorem History.Inv.init (d : Files) : (History.init d).Inv := by
  refine ⟨⟨List.mem_cons_self, ?_⟩, ?_⟩
  · change d .prev = none ∨ d .prev ∈ d .main :: (d .prev).toList.map some
    cases d .prev with
    | none => exact Or.inl rfl
    | some v => exact Or.inr (by simp)
  · intro s hs
    cases hs

theorem History.Inv.step {sp : Splitter} {h h' : History}
    (hstep : History.Step sp h h') (hinv : h.Inv) : h'.Inv := by
  cases hstep with
  | start op =>
      refine ⟨hinv.known.mono, ?_⟩
      intro s hs
      rw [← Option.some.inj hs]
      exact wp_mono (fun d hd => hinv.known.during hd)
        (fun _ _ _ => trivial) (op.script_wp sp _)
  | work hwork =>
      have hwp := wp_step hwork (hinv.working _ rfl)
      refine ⟨wp_inv hwp, ?_⟩
      intro s hs
      rw [← Option.some.inj hs]
      exact hwp
  | finish => exact ⟨hinv.known, fun s hs => Option.noConfusion rfl (heq_of_eq hs)⟩
  | crash => exact ⟨hinv.known, fun s hs => Option.noConfusion rfl (heq_of_eq hs)⟩

theorem History.Inv.run {sp : Splitter} {d : Files} {h : History}
    (hreach : History.Reachable sp d h) : h.Inv := by
  induction hreach with
  | refl => exact History.Inv.init d
  | tail _ hstep ih => exact ih.step hstep

/-- A completed write that changes the file keeps what it replaced. -/
theorem Completes.prev {sp : Splitter} {op : Operation} {d d' : Files}
    (h : Completes sp op d d') (hchanged : d' .main ≠ d .main) {v : Text}
    (hv : d .main = some v) : d' .prev = some v := by
  rcases wp_done h (op.script_wp sp d) rfl with ⟨-, hd⟩ | ⟨new, -, -, hd⟩
  · exact absurd hd.1 hchanged
  · rw [hd.2, hv, Option.some_or]

/-- A write of what is there changes nothing, at no moment. -/
theorem untouched_of_unchanged {sp : Splitter} {op : Operation}
    {d d' : Files} {s : FileScript}
    (h : Steps (op.script sp, d) (s, d')) (hsame : op.Unchanged d) :
    Untouched d d' := by
  rcases wp_safe h (op.script_wp sp d) with hd | ⟨-, -, hnot, -⟩
  · exact hd
  · exact absurd hsame hnot

theorem Completes.restore {sp : Splitter} {n : Nat} {confirmed : Bool}
    {d d' : Files} (h : Completes sp (.restore n confirmed) d d') :
    (d .main = d .prev ∧ Untouched d d') ∨
      (d .main ≠ d .prev ∧ d' .main = d .prev ∧ d' .prev = d .main) := by
  rcases wp_done h ((Operation.restore n confirmed).script_wp sp d) rfl with
    hd | ⟨new, hversion, hnot, hd⟩
  · exact Or.inl hd
  · simp only [Operation.version] at hversion
    split_ifs at hversion with hgo
    obtain ⟨v, hv⟩ := Option.isSome_iff_exists.1 hgo.1
    refine Or.inr ⟨hnot, ?_, ?_⟩
    · rw [hd.1, hversion]
    · rw [hd.2, hv, Option.some_or]

/-- Restoring twice gives back both files. -/
theorem restore_restore {sp : Splitter} {n n' : Nat}
    {confirmed confirmed' : Bool} {d d' d'' : Files}
    (h : Completes sp (.restore n confirmed) d d')
    (h' : Completes sp (.restore n' confirmed') d' d'') :
    d'' .main = d .main ∧ d'' .prev = d .prev := by
  rcases h.restore with ⟨hsame, hd⟩ | ⟨hne, hmain, hprev⟩
  · rcases h'.restore with ⟨-, hd'⟩ | ⟨hne', -, -⟩
    · exact ⟨hd'.1.trans hd.1, hd'.2.trans hd.2⟩
    · rw [hd.1, hd.2] at hne'
      exact absurd hsame hne'
  · rcases h'.restore with ⟨hsame', -⟩ | ⟨-, hmain', hprev'⟩
    · rw [hmain, hprev] at hsame'
      exact absurd hsame'.symm hne
    · exact ⟨hmain'.trans hprev, hprev'.trans hmain⟩

/-- The runner takes the bytes it would write for unchanged when the keys can
stand in a line. -/
theorem unchanged_of_same_text (u : EnvKeys) {d : Files}
    (h : d .main = some (newText u.keys (d .main))) :
    (Operation.setKeys u.keys).Unchanged d := by
  have hread := universalNewlines_eq_self (u.return_notMem_newText (d .main))
  change (d .main).any _ = true
  rw [Option.any_eq_true]
  exact ⟨_, h, by rw [hread]; exact beq_self_eq_true _⟩

/-- The runner's script computes `writeEnvKeys`. -/
theorem Completes.setKeys {sp : Splitter} {keys : Dict Text Text}
    {d d' : Files} (h : Completes sp (.setKeys keys) d d') :
    d' .main = writeEnvKeys keys (d .main) := by
  rcases wp_done h ((Operation.setKeys keys).script_wp sp d) rfl with
    ⟨hsame, hd⟩ | ⟨new, hversion, hnot, hd⟩
  · exact hd.1.trans (if_pos hsame).symm
  · exact hd.1.trans (hversion.symm.trans (if_neg hnot).symm)

/-- File and `.prev` under any history of writes and crashes: the file is
always one whole version, a write that changes it keeps the one it replaced, a
write of the same content touches neither, and two restores undo each other. -/
theorem fileHistory (sp : Splitter) :
    (∀ d h, History.Reachable sp d h → h.files .main ∈ h.versions) ∧
    (∀ op d d', Completes sp op d d' → d' .main ≠ d .main →
      ∀ v, d .main = some v → d' .prev = some v) ∧
    (∀ op d s d', Steps (Operation.script sp op, d) (s, d') →
      op.Unchanged d → d' .main = d .main ∧ d' .prev = d .prev) ∧
    (∀ (u : EnvKeys) (d : Files) s d',
      Steps (Operation.script sp (.setKeys u.keys), d) (s, d') →
      d .main = some (newText u.keys (d .main)) →
      d' .main = d .main ∧ d' .prev = d .prev) ∧
    (∀ n n' confirmed confirmed' d d' d'',
      Completes sp (.restore n confirmed) d d' →
      Completes sp (.restore n' confirmed') d' d'' →
      d'' .main = d .main ∧ d'' .prev = d .prev) := by
  refine ⟨?_, ?_, ?_, ?_, ?_⟩
  · intro d h hreach
    exact (History.Inv.run hreach).known.1
  · intro op d d' h hchanged v hv
    exact h.prev hchanged hv
  · intro op d s d' h hsame
    exact untouched_of_unchanged h hsame
  · intro u d s d' h htext
    exact untouched_of_unchanged h (unchanged_of_same_text u htext)
  · intro n n' confirmed confirmed' d d' d'' h h'
    exact restore_restore h h'

/-- A system that writes every content at once. -/
def wholeWrites : Splitter where
  split := fun t => [t]
  flatten_split := fun t => by simp

/-- A config file and the version before it. -/
def changedFile : Files
  | .main => some "A=2\n".toList
  | .prev => some "A=1\n".toList
  | _ => none

def setA : EnvKeys where
  keys := Dict.single "A".toList "2".toList
  envKey := by
    intro kv hkv
    rw [List.mem_singleton.1 hkv]
    exact ⟨by decide, by decide, by decide, by decide, by decide⟩
  plainValue := by
    intro kv hkv
    rw [List.mem_singleton.1 hkv]
    exact ⟨by decide, by decide, by decide⟩

/-- The files after an operation that is let run. -/
def Operation.result (op : Operation) (d : Files) : Files :=
  ((op.script wholeWrites).exec d).2

/-- Restored once, the file is the previous version; twice, it is itself. -/
theorem fileHistory_changedFile :
    let restore := Operation.restore 0 true
    let once := restore.result changedFile
    let twice := restore.result once
    let save := Operation.save 0 "A=2\n".toList
    let setKeys := Operation.setKeys setA.keys
    changedFile .main ∈ (History.init changedFile).versions ∧
      once .prev = changedFile .main ∧
      save.result changedFile .prev = changedFile .prev ∧
      setKeys.result changedFile .prev = changedFile .prev ∧
      twice .main = changedFile .main ∧ twice .prev = changedFile .prev := by
  intro restore once twice save setKeys
  obtain ⟨hwhole, hprev, hsame, htext, htwice⟩ := fileHistory wholeWrites
  have honce : Completes wholeWrites restore changedFile once :=
    exec_steps (restore.script wholeWrites) changedFile
  have hagain : Completes wholeWrites restore once twice :=
    exec_steps (restore.script wholeWrites) once
  refine ⟨hwhole _ _ .refl, ?_, ?_, ?_, ?_⟩
  · exact hprev restore changedFile once honce (by decide) _ rfl
  · exact (hsame save changedFile _ _ (exec_steps _ _) rfl).2
  · exact (htext setA changedFile _ _ (exec_steps _ _) (by decide)).2
  · exact htwice 0 0 true true changedFile once twice honce hagain

end FileHistory

end Env
end Kelt
