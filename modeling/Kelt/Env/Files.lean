import Kelt.Env.WriteKeys
import Kelt.Lib.CrashFs

/-!
# The two files of a config file

`write_file_atomic` and `do_restore` of `testbed-config` and `write_env_keys` of
`ansible/tools/kelt-piece`, as scripts over the files of one config file: the
file itself, its `.prev` and the temporary names that the two programs use next
to it. Modes are not part of a file here; setting one is a step that may fail.

Whatever a script writes, it goes through three states of file and `.prev`
(`During`): both as they were, `.prev` replaced by the current version, and the
new version in place. The results about runs follow from this.
-/

namespace Kelt
namespace Env

open Fs

section Files

/-- The names next to a config file. -/
inductive Name where
  | main
  | prev
  | tmp (n : Nat)
  | tmpPrev (n : Nat)
  | runnerTmp
  | runnerPrevTmp
deriving DecidableEq, Repr

abbrev Files := Dir Name Char

abbrev FileScript := Script Name Char

/-- How the system cuts a content into single writes. -/
structure Splitter where
  split : Text → List Text
  flatten_split : ∀ t, (split t).flatten = t

/-- `rm -f`; what becomes of it is not looked at. -/
def cleanup (names : List Name) (ok : Bool) : FileScript :=
  match names with
  | [] => .done ok
  | n :: rest => .op (.remove n) (cleanup rest ok) (cleanup rest ok)

/-- Rename a finished file over the config file. -/
def install (t : Name) : FileScript :=
  .op (.rename t .main) (.done true) (.done false)

/-- Copy the current version next to the file, attributes last, and rename the
copy over `.prev`. -/
def keepPrev (sp : Splitter) (copy : Name) (current : Text)
    (next onFail : FileScript) : FileScript :=
  .op (.create copy)
    (.appendAll copy (sp.split current)
      (.op (.chmod copy) (.op (.rename copy .prev) next onFail) onFail)
      onFail)
    onFail

/-- `write_file_atomic` from the comparison on. -/
def compareAndSwap (sp : Splitter) (n : Nat) : FileScript :=
  .look fun d =>
    if (d .main).isSome ∧ d (.tmp n) = d .main then cleanup [.tmp n] true
    else
      match d .main with
      | none => install (.tmp n)
      | some current =>
          keepPrev sp (.tmpPrev n) current (install (.tmp n))
            (cleanup [.tmp n, .tmpPrev n] false)

/-- `write_file_atomic` of a content; `n` is what `mktemp` came up with. -/
def writeFileAtomic (sp : Splitter) (n : Nat) (content : Text) :
    FileScript :=
  .op (.createNew (.tmp n))
    (.appendAll (.tmp n) (sp.split content)
      (.op (.chmod (.tmp n)) (compareAndSwap sp n)
        (cleanup [.tmp n] false))
      (cleanup [.tmp n] false))
    (.done false)

/-- `do_restore`. Without the file itself the comparison of the keys fails,
which ends the program; the redirection opens `.prev` before the write. -/
def doRestore (sp : Splitter) (n : Nat) (confirmed : Bool) : FileScript :=
  .look fun d =>
    match d .prev with
    | none => .done false
    | some content =>
        if (d .main).isSome ∧ confirmed then writeFileAtomic sp n content
        else .done false

/-- `write_env_keys` under its guard; an exception ends it. -/
def writeEnvKeysScript (sp : Splitter) (keys : Dict Text Text) :
    FileScript :=
  .look fun d =>
    if (d .main).any
        (fun content => universalNewlines content == newText keys (d .main))
    then .done true
    else
      .op (.create .runnerTmp)
        (.appendAll .runnerTmp (sp.split (newText keys (d .main)))
          (.look fun d =>
            match d .main with
            | none => install .runnerTmp
            | some current =>
                .op (.chmod .runnerTmp)
                  (keepPrev sp .runnerPrevTmp current (install .runnerTmp)
                    (.done false))
                  (.done false))
          (.done false))
        (.done false)

/-- File and `.prev` are as they were. -/
def Untouched (d₀ d : Files) : Prop :=
  d .main = d₀ .main ∧ d .prev = d₀ .prev

/-- The current version is in `.prev`, when there is one. -/
def PrevKept (d₀ d : Files) : Prop :=
  d .main = d₀ .main ∧ d .prev = (d₀ .main).or (d₀ .prev)

/-- The new version is in place and the one it replaced in `.prev`. -/
def Swapped (d₀ : Files) (new : Text) (d : Files) : Prop :=
  d .main = some new ∧ d .prev = (d₀ .main).or (d₀ .prev)

/-- What holds while a content is written; `same` says that there is nothing to
write. -/
def During (same : Prop) (d₀ : Files) (new : Text) (d : Files) : Prop :=
  Untouched d₀ d ∨ ¬ same ∧ (PrevKept d₀ d ∨ Swapped d₀ new d)

/-- What holds when the write has ended well. -/
def After (same : Prop) (d₀ : Files) (new : Text) (ok : Bool)
    (d : Files) : Prop :=
  ok = true → (same ∧ Untouched d₀ d) ∨ (¬ same ∧ Swapped d₀ new d)

theorem After.of_not_ok {same : Prop} {d₀ d : Files} {new : Text} :
    After same d₀ new false d :=
  fun h => Bool.noConfusion h

section Writing

variable {same : Prop} {d₀ : Files} {new : Text}

/-- An operation on temporary names leaves file and `.prev` alone. -/
theorem untouched_apply {o : Op Name Char} {d d' : Files}
    (hmain : .main ∉ o.touches) (hprev : .prev ∉ o.touches)
    (h : o.apply d = some d') (hd : Untouched d₀ d) : Untouched d₀ d' := by
  have hmain' := Op.apply_frame h hmain
  have hprev' := Op.apply_frame h hprev
  exact ⟨hmain'.trans hd.1, hprev'.trans hd.2⟩

theorem cleanup_wp {names : List Name} {ok : Bool}
    (hnames : ∀ n ∈ names, n ≠ .main ∧ n ≠ .prev)
    (hok : ok = true → same) {d : Files} (hd : Untouched d₀ d) :
    (cleanup names ok).wp (During same d₀ new) (After same d₀ new) d := by
  induction names generalizing d with
  | nil => exact ⟨Or.inl hd, fun h => Or.inl ⟨hok h, hd⟩⟩
  | cons n rest ih =>
      have hn := hnames n List.mem_cons_self
      have hrest := fun m hm => hnames m (List.mem_cons_of_mem _ hm)
      refine ⟨Or.inl hd, ?_, ih hrest hd⟩
      intro d' h
      refine ih hrest (untouched_apply ?_ ?_ h hd)
      · simpa [Op.touches] using hn.1.symm
      · simpa [Op.touches] using hn.2.symm

/-- The last rename puts the new version in place. -/
theorem install_wp {t : Name} (ht : t ≠ .prev) (hsame : ¬ same)
    {d : Files} (hnew : d t = some new) (hd : PrevKept d₀ d) :
    (install t).wp (During same d₀ new) (After same d₀ new) d := by
  have hduring : During same d₀ new d := Or.inr ⟨hsame, Or.inl hd⟩
  refine ⟨hduring, ?_, hduring, After.of_not_ok⟩
  intro d' h
  have hmain := apply_rename h
  have hprev : d' .prev = d .prev := by
    apply Op.apply_frame h
    simpa [Op.touches] using ht.symm
  have hswapped : Swapped d₀ new d' :=
    ⟨hmain.trans hnew, hprev.trans hd.2⟩
  exact ⟨Or.inr ⟨hsame, Or.inr hswapped⟩, fun _ => Or.inr ⟨hsame, hswapped⟩⟩

/-- Keeping the current version, with the new one waiting under `t`. -/
theorem keepPrev_wp {sp : Splitter} {t copy : Name} {current : Text}
    {onFail : FileScript} (ht : t ≠ .prev)
    (hcopy : copy ≠ .main ∧ copy ≠ .prev ∧ copy ≠ t) (hsame : ¬ same)
    (hcurrent : d₀ .main = some current)
    (hfail : ∀ d, Untouched d₀ d →
      onFail.wp (During same d₀ new) (After same d₀ new) d)
    {d : Files} (hnew : d t = some new) (hd : Untouched d₀ d) :
    (keepPrev sp copy current (install t) onFail).wp
      (During same d₀ new) (After same d₀ new) d := by
  have hmainNot : Name.main ∉ (Op.chmod copy : Op Name Char).touches := by
    simp [Op.touches]
  refine ⟨Or.inl hd, ?_, hfail d hd⟩
  intro d₁ h₁
  have hd₁ : Untouched d₀ d₁ := by
    refine untouched_apply ?_ ?_ h₁ hd
    · simpa [Op.touches] using hcopy.1.symm
    · simpa [Op.touches] using hcopy.2.1.symm
  have hnew₁ : d₁ t = some new := by
    rw [Op.apply_frame h₁ (by simpa [Op.touches] using hcopy.2.2.symm), hnew]
  refine wp_appendAll (P := fun d => Untouched d₀ d ∧ d t = some new)
    ?_ (fun d h => Or.inl h.1) (fun d h => hfail d h.1) _ ?_ ⟨hd₁, hnew₁⟩
    (apply_create h₁)
  · intro d₂ d₂' hframe h
    refine ⟨⟨?_, ?_⟩, ?_⟩
    · rw [hframe _ hcopy.1.symm, h.1.1]
    · rw [hframe _ hcopy.2.1.symm, h.1.2]
    · rw [hframe _ hcopy.2.2.symm, h.2]
  · intro d₂ h₂ hcontent
    rw [List.nil_append, sp.flatten_split] at hcontent
    refine ⟨Or.inl h₂.1, ?_, hfail d₂ h₂.1⟩
    intro d₃ h₃
    have hd₃ : Untouched d₀ d₃ :=
      untouched_apply hmainNot (by simp [Op.touches]) h₃ h₂.1
    have hnew₃ : d₃ t = some new := by
      rw [Op.apply_frame h₃ (by simp [Op.touches]), h₂.2]
    have hcopy₃ : d₃ copy = some current := by
      rw [Op.apply_frame h₃ (by simp [Op.touches]), hcontent]
    refine ⟨Or.inl hd₃, ?_, hfail d₃ hd₃⟩
    intro d₄ h₄
    have hmain₄ : d₄ .main = d₃ .main := by
      apply Op.apply_frame h₄
      simpa [Op.touches] using hcopy.1.symm
    have hnew₄ : d₄ t = d₃ t := by
      apply Op.apply_frame h₄
      simpa [Op.touches] using And.intro hcopy.2.2.symm ht
    refine install_wp ht hsame (hnew₄.trans hnew₃) ⟨hmain₄.trans hd₃.1, ?_⟩
    rw [apply_rename h₄, hcopy₃, hcurrent, Option.some_or]

/-- What is kept before the last rename, whether the file exists or not. -/
theorem prevKept_of_none (hnone : d₀ .main = none) {d : Files}
    (hd : Untouched d₀ d) : PrevKept d₀ d := by
  refine ⟨hd.1, ?_⟩
  rw [hnone, Option.none_or, hd.2]

end Writing

/-- `write_file_atomic` takes a file through the three states. -/
theorem writeFileAtomic_wp (sp : Splitter) (n : Nat) (content : Text)
    (d₀ : Files) :
    (writeFileAtomic sp n content).wp
      (During (d₀ .main = some content) d₀ content)
      (After (d₀ .main = some content) d₀ content) d₀ := by
  have hundo : ∀ names : List Name,
      (∀ m ∈ names, m ≠ .main ∧ m ≠ .prev) → ∀ d, Untouched d₀ d →
      (cleanup names false).wp
        (During (d₀ .main = some content) d₀ content)
        (After (d₀ .main = some content) d₀ content) d :=
    fun names hnames d hd => cleanup_wp hnames (by simp) hd
  have hstart : Untouched d₀ d₀ := ⟨rfl, rfl⟩
  refine ⟨Or.inl hstart, ?_, Or.inl hstart, After.of_not_ok⟩
  intro d₁ h₁
  have hd₁ : Untouched d₀ d₁ :=
    untouched_apply (by simp [Op.touches]) (by simp [Op.touches]) h₁ hstart
  refine wp_appendAll (P := Untouched d₀) ?_ (fun d h => Or.inl h)
    (hundo _ (by simp)) _ ?_ hd₁ (apply_createNew h₁)
  · intro d d' hframe h
    exact ⟨(hframe _ (by simp)).trans h.1, (hframe _ (by simp)).trans h.2⟩
  · intro d₂ hd₂ hcontent
    rw [List.nil_append, sp.flatten_split] at hcontent
    refine ⟨Or.inl hd₂, ?_, hundo _ (by simp) d₂ hd₂⟩
    intro d₃ h₃
    have hd₃ : Untouched d₀ d₃ :=
      untouched_apply (by simp [Op.touches]) (by simp [Op.touches]) h₃ hd₂
    have hnew : d₃ (.tmp n) = some content := by
      rw [Op.apply_frame h₃ (by simp [Op.touches]), hcontent]
    refine ⟨Or.inl hd₃, ?_⟩
    beta_reduce
    split_ifs with hcmp
    · refine cleanup_wp (by simp) (fun _ => ?_) hd₃
      rw [← hd₃.1, ← hcmp.2, hnew]
    · have hsame : ¬ d₀ .main = some content := by
        intro h
        rw [← hd₃.1] at h
        exact hcmp ⟨by rw [h]; rfl, by rw [hnew, h]⟩
      cases hmain : d₃ .main with
      | none =>
          have hnone : d₀ .main = none := by rw [← hd₃.1, hmain]
          exact install_wp (by simp) hsame hnew (prevKept_of_none hnone hd₃)
      | some current =>
          have hcurrent : d₀ .main = some current := by rw [← hd₃.1, hmain]
          exact keepPrev_wp (by simp) (by simp) hsame hcurrent
            (hundo _ (by simp)) hnew hd₃

/-- The runner finds nothing to write: the file reads like the new text. -/
def ReadsAs (keys : Dict Text Text) (d : Files) : Prop :=
  (d .main).any
    (fun content => universalNewlines content == newText keys (d .main))
      = true

/-- `write_env_keys` takes it through the same states. -/
theorem writeEnvKeysScript_wp (sp : Splitter) (keys : Dict Text Text)
    (d₀ : Files) :
    (writeEnvKeysScript sp keys).wp
      (During (ReadsAs keys d₀) d₀ (newText keys (d₀ .main)))
      (After (ReadsAs keys d₀) d₀ (newText keys (d₀ .main))) d₀ := by
  have hfail : ∀ d, Untouched d₀ d →
      (Script.done false : FileScript).wp
        (During (ReadsAs keys d₀) d₀ (newText keys (d₀ .main)))
        (After (ReadsAs keys d₀) d₀ (newText keys (d₀ .main))) d :=
    fun d hd => ⟨Or.inl hd, After.of_not_ok⟩
  have hstart : Untouched d₀ d₀ := ⟨rfl, rfl⟩
  refine ⟨Or.inl hstart, ?_⟩
  beta_reduce
  split_ifs with hsame
  · exact ⟨Or.inl hstart, fun _ => Or.inl ⟨hsame, hstart⟩⟩
  · refine ⟨Or.inl hstart, ?_, hfail d₀ hstart⟩
    intro d₁ h₁
    have hd₁ : Untouched d₀ d₁ :=
      untouched_apply (by simp [Op.touches]) (by simp [Op.touches]) h₁ hstart
    refine wp_appendAll (P := Untouched d₀) ?_ (fun d h => Or.inl h) hfail _
      ?_ hd₁ (apply_create h₁)
    · intro d d' hframe h
      exact ⟨(hframe _ (by simp)).trans h.1, (hframe _ (by simp)).trans h.2⟩
    · intro d₂ hd₂ hnew
      rw [List.nil_append, sp.flatten_split] at hnew
      refine ⟨Or.inl hd₂, ?_⟩
      beta_reduce
      cases hmain : d₂ .main with
      | none =>
          have hnone : d₀ .main = none := by rw [← hd₂.1, hmain]
          exact install_wp (by simp) hsame hnew (prevKept_of_none hnone hd₂)
      | some current =>
          have hcurrent : d₀ .main = some current := by rw [← hd₂.1, hmain]
          refine ⟨Or.inl hd₂, ?_, hfail d₂ hd₂⟩
          intro d₃ h₃
          have hd₃ : Untouched d₀ d₃ :=
            untouched_apply (by simp [Op.touches]) (by simp [Op.touches]) h₃
              hd₂
          have hnew₃ : d₃ .runnerTmp = some (newText keys (d₀ .main)) := by
            rw [Op.apply_frame h₃ (by simp [Op.touches]), hnew]
          exact keepPrev_wp (by simp) (by simp) hsame hcurrent hfail hnew₃
            hd₃

end Files

end Env
end Kelt
