import Kelt.Lib.Runs
import Kelt.Northbound.Files

/-!
# The files of a service as a map

Reading is a view of the store as a map from paths to contents. A call that does
not raise changes the view as it should, in the path of its own, exactly when it
is `Safe`: no other path with the same base name has other contents, and the new
pod has what the old one had where it is the pod that is read. The ConfigMap
itself is a map from base names to contents in any case.
-/

namespace Kelt
namespace Northbound

open Apps

section FileMap

/-- The map after a call. -/
def setFile (m : Data) (call : FileCall) : Data :=
  Function.update m call.path (some call.content)

/-- Through every run of calls that do not raise, reading is as it would be of a
map that each call sets its path in. -/
def IsMap (w : World) (s : FileStore) (calls : List FileCall) : Prop :=
  ∀ pre, pre <+: calls → ∀ t, exec (applied w) s pre = some t →
    readFile w t = pre.foldl setFile (readFile w s)

/-- The service after the rollout: what the new pod finds. -/
def rollout (w : World) (s : FileStore) (call : FileCall) : FileStore where
  files := Function.update s.files (fileKey call.path) (some call.content)
  mounts :=
    if w.writable call.path then Dict.single storeDir .store
    else s.mounts.set call.path (.file (fileKey call.path))
  disk := s.disk
  layer := w.base
  up := call.up

/-- The content is written into the new pod. -/
def written (w : World) (call : FileCall) : Bool :=
  w.writable call.path && w.podPath call.path && call.up && call.writes

theorem ensureWritableStore_eq_some
    {s s' : FileStore} {doc : StatefulDoc}
    (h : s.ensureWritableStore doc = some s') :
    s' = { s with mounts := Dict.single storeDir .store } := by
  unfold FileStore.ensureWritableStore at h
  split_ifs at h
  exact (Option.some.inj h).symm

/-- A call that does not raise rolls the deployment out, and writes the content
into the new pod when it is the image's document and the command succeeds. -/
theorem applied_eq_some
    {w : World} {s s' : FileStore} {call : FileCall}
    (h : applied w s call = some s') :
    s' = if written w call then
        (rollout w s call).writePodFile call.path call.content
      else rollout w s call := by
  have hwritable :
      w.writable call.path = (w.writableDoc call.path).isSome := rfl
  unfold applied applyServiceFile at h
  cases hrefused : fileRefused w call with
  | some e =>
      rw [hrefused] at h
      cases h
  | none =>
      rw [hrefused] at h
      simp only at h
      unfold provideFile at h
      unfold written rollout
      cases hdoc : w.writableDoc call.path with
      | none =>
          rw [hdoc] at h hwritable
          simp only at h
          split_ifs at h
          rw [hwritable, ← Option.some.inj h]
          rfl
      | some doc =>
          rw [hdoc] at h hwritable
          simp only at h
          cases hstore : (s.applyConfigmap (fileKey call.path)
              call.content).ensureWritableStore doc with
          | none =>
              rw [hstore] at h
              cases h
          | some s₁ =>
              rw [hstore] at h
              rw [hwritable, ← Option.some.inj h,
                ensureWritableStore_eq_some hstore]
              rfl

/-- The paths of the one document that an image writes. -/
theorem path_of_writable {w : World} {path : Text}
    (h : w.writable path = true) :
    path = "/app/config/wifi-config.json".toList ∨
      path = "/data/wifi-config.json".toList := by
  obtain ⟨doc, hdoc⟩ := Option.isSome_iff_exists.1 h
  obtain ⟨hspec, hpath⟩ := Option.filter_eq_some_iff.1 hdoc
  have hmem := (statefulDocs.get?_eq_some_iff _ doc).1 hspec
  obtain ⟨-, rfl⟩ := Prod.mk.inj (List.mem_singleton.1 hmem)
  rcases Bool.or_eq_true_iff.1 hpath with hpath | hpath
  · exact Or.inl (eq_of_beq hpath)
  · exact Or.inr (eq_of_beq hpath)

theorem ne_nil_of_writable {w : World} {path : Text}
    (h : w.writable path = true) : path ≠ [] := by
  rcases path_of_writable h with rfl | rfl <;> decide

theorem ne_storeDir_of_writable {w : World} {path : Text}
    (h : w.writable path = true) : path ≠ storeDir := by
  rcases path_of_writable h with rfl | rfl <;> decide

/-- The document of the image is read in the pod, any other file in the
ConfigMap first. -/
theorem readFile_eq (w : World) (s : FileStore) (path : Text) :
    readFile w s path =
      if w.writable path then readPodFile w s path
      else (s.files (fileKey path)).or (readPodFile w s path) := by
  have hstateful : (!path.isEmpty && w.writable path) = w.writable path := by
    cases hw : w.writable path with
    | false => exact Bool.and_false _
    | true =>
        have hne := ne_nil_of_writable hw
        simp [hne]
  unfold readFile getServiceFile
  simp only [hstateful]
  cases w.writable path with
  | true => rfl
  | false => cases s.files (fileKey path) <;> rfl

/-- Writing into the pod changes the one file. -/
theorem podFile_writePodFile
    (s : FileStore) {path : Text} (content q : Text)
    (hpath : s.mounts.get? path = none) :
    (s.writePodFile path content).podFile q =
      if q = path then some content else s.podFile q := by
  unfold FileStore.writePodFile
  by_cases hq : q = path
  · subst hq
    rw [if_pos rfl]
    split_ifs with hstore
    · simp only [FileStore.podFile, hpath]
      exact (if_pos hstore).trans (Function.update_self _ _ _)
    · simp only [FileStore.podFile, hpath]
      exact (if_neg hstore).trans (Function.update_self _ _ _)
  · rw [if_neg hq]
    split_ifs with hstore <;>
      simp only [FileStore.podFile, FileStore.hasStore,
        Function.update_of_ne hq] <;> rfl

theorem files_writePodFile (s : FileStore) (path content : Text) :
    (s.writePodFile path content).files = s.files := by
  unfold FileStore.writePodFile
  split_ifs <;> rfl

theorem up_writePodFile (s : FileStore) (path content : Text) :
    (s.writePodFile path content).up = s.up := by
  unfold FileStore.writePodFile
  split_ifs <;> rfl

theorem mounts_rollout_of_writable
    {w : World} (s : FileStore) {call : FileCall}
    (h : w.writable call.path = true) :
    (rollout w s call).mounts.get? call.path = none := by
  have hmounts : (rollout w s call).mounts = Dict.single storeDir .store :=
    if_pos h
  rw [hmounts, Dict.get?_eq_none_iff]
  exact fun hmem => ne_storeDir_of_writable h (List.mem_singleton.1 hmem)

theorem writable_of_written {w : World} {call : FileCall}
    (h : written w call = true) :
    w.writable call.path = true ∧ w.podPath call.path = true ∧
      call.up = true := by
  simp only [written, Bool.and_eq_true] at h
  exact ⟨h.1.1.1, h.1.1.2, h.1.2⟩

/-- After the call, a file is the one of the new pod, but for the content that
was written into it. -/
theorem podFile_of_applied
    {w : World} {s s' : FileStore} {call : FileCall}
    (h : applied w s call = some s') (q : Text) :
    s'.podFile q =
      if written w call = true ∧ q = call.path then some call.content
      else (rollout w s call).podFile q := by
  rw [applied_eq_some h]
  split_ifs with hwritten hq hq
  · rw [podFile_writePodFile _ _ _
      (mounts_rollout_of_writable s (writable_of_written hwritten).1),
      if_pos hq.2]
  · rw [podFile_writePodFile _ _ _
      (mounts_rollout_of_writable s (writable_of_written hwritten).1),
      if_neg fun h => hq ⟨hwritten, h⟩]
  · exact absurd hq.1 hwritten
  · rfl

theorem files_of_applied
    {w : World} {s s' : FileStore} {call : FileCall}
    (h : applied w s call = some s') :
    s'.files =
      Function.update s.files (fileKey call.path) (some call.content) := by
  rw [applied_eq_some h]
  split_ifs
  · exact files_writePodFile _ _ _
  · rfl

theorem up_of_applied
    {w : World} {s s' : FileStore} {call : FileCall}
    (h : applied w s call = some s') : s'.up = call.up := by
  rw [applied_eq_some h]
  split_ifs
  · exact up_writePodFile _ _ _
  · rfl

theorem readPodFile_congr
    {w : World} {s t : FileStore} {path : Text}
    (hup : s.up = t.up) (hfile : s.podFile path = t.podFile path) :
    readPodFile w s path = readPodFile w t path := by
  unfold readPodFile
  rw [hup, hfile]

/-- The condition under which a call changes the map in its own path only. -/
structure FileSafe (w : World) (s : FileStore) (call : FileCall) : Prop where
  /-- The image's document is written, and reads as it was written; or the new
  pod has it already. -/
  content : w.writable call.path = true →
    if written w call = true then
      w.client call.content = call.content ∧
        call.content.all isBlank = false
    else readPodFile w (rollout w s call) call.path = some call.content
  /-- A path with the same base name has the same content already. -/
  sameName : ∀ q, q ≠ call.path → w.writable q = false →
    fileKey q = fileKey call.path → readFile w s q = some call.content
  /-- Where it is the pod that is read, the new one has what the old one had. -/
  pod : ∀ q, q ≠ call.path →
    (w.writable q = true ∨
      fileKey q ≠ fileKey call.path ∧ s.files (fileKey q) = none) →
    readPodFile w (rollout w s call) q = readPodFile w s q

/-- Reading back the image's document. -/
theorem readPodFile_own_iff
    {w : World} {s s' : FileStore} {call : FileCall}
    (h : applied w s call = some s') :
    readPodFile w s' call.path = some call.content ↔
      if written w call = true then
        w.client call.content = call.content ∧
          call.content.all isBlank = false
      else readPodFile w (rollout w s call) call.path = some call.content := by
  have hfile := podFile_of_applied h call.path
  have hup := up_of_applied h
  split_ifs with hwritten
  · obtain ⟨-, hpath, hrunning⟩ := writable_of_written hwritten
    rw [if_pos ⟨hwritten, rfl⟩] at hfile
    unfold readPodFile
    rw [hpath, hup, hrunning, hfile]
    change (if (w.client call.content).all isBlank = true then none
      else some (w.client call.content)) = some call.content ↔ _
    constructor
    · intro hread
      split_ifs at hread with hblank
      have hclient := Option.some.inj hread
      rw [hclient, Bool.not_eq_true] at hblank
      exact ⟨hclient, hblank⟩
    · rintro ⟨hclient, hblank⟩
      rw [hclient, hblank]
      rfl
  · rw [if_neg fun hand => hwritten hand.1] at hfile
    rw [readPodFile_congr (t := rollout w s call) hup hfile]

/-- Reading another file. -/
theorem readPodFile_other
    {w : World} {s s' : FileStore} {call : FileCall}
    (h : applied w s call = some s') {q : Text} (hq : q ≠ call.path) :
    readPodFile w s' q = readPodFile w (rollout w s call) q := by
  have hfile := podFile_of_applied h q
  rw [if_neg fun hand => hq hand.2] at hfile
  exact readPodFile_congr (up_of_applied h) hfile

theorem readFile_own_iff
    {w : World} {s s' : FileStore} {call : FileCall}
    (h : applied w s call = some s') :
    readFile w s' call.path = some call.content ↔
      (w.writable call.path = true →
        if written w call = true then
          w.client call.content = call.content ∧
            call.content.all isBlank = false
        else
          readPodFile w (rollout w s call) call.path = some call.content) := by
  rw [readFile_eq]
  cases hw : w.writable call.path with
  | true =>
      rw [if_pos rfl, readPodFile_own_iff h]
      exact ⟨fun hown _ => hown, fun hown => hown rfl⟩
  | false =>
      rw [if_neg Bool.false_ne_true, files_of_applied h, Function.update_self]
      exact ⟨fun _ hfalse => Bool.noConfusion hfalse, fun _ => rfl⟩

theorem readFile_other_iff
    {w : World} {s s' : FileStore} {call : FileCall}
    (h : applied w s call = some s') {q : Text} (hq : q ≠ call.path) :
    readFile w s' q = readFile w s q ↔
      (w.writable q = false → fileKey q = fileKey call.path →
          readFile w s q = some call.content) ∧
        ((w.writable q = true ∨
            fileKey q ≠ fileKey call.path ∧ s.files (fileKey q) = none) →
          readPodFile w (rollout w s call) q = readPodFile w s q) := by
  have hread' := readFile_eq w s' q
  have hread := readFile_eq w s q
  rw [readPodFile_other h hq, files_of_applied h] at hread'
  cases hw : w.writable q with
  | true =>
      rw [hw, if_pos rfl] at hread hread'
      rw [hread, hread']
      exact ⟨fun heq => ⟨fun hfalse => Bool.noConfusion hfalse, fun _ => heq⟩,
        fun hand => hand.2 (Or.inl rfl)⟩
  | false =>
      rw [hw, if_neg Bool.false_ne_true] at hread hread'
      by_cases hkey : fileKey q = fileKey call.path
      · rw [hkey, Function.update_self, Option.some_or] at hread'
        rw [hread', eq_comm]
        refine ⟨fun heq => ⟨fun _ _ => heq, ?_⟩, fun hand => hand.1 rfl hkey⟩
        rintro (hfalse | ⟨hne, -⟩)
        · cases hfalse
        · exact absurd hkey hne
      · rw [Function.update_of_ne hkey] at hread'
        rw [hread', hread]
        cases hfile : s.files (fileKey q) with
        | none =>
            rw [Option.none_or, Option.none_or]
            exact ⟨fun heq => ⟨fun _ heq' => absurd heq' hkey, fun _ => heq⟩,
              fun hand => hand.2 (Or.inr ⟨hkey, rfl⟩)⟩
        | some content =>
            refine ⟨fun _ => ⟨fun _ heq => absurd heq hkey, ?_⟩, fun _ => rfl⟩
            rintro (hfalse | ⟨-, hnone⟩)
            · cases hfalse
            · cases hnone

theorem setFile_iff_fileSafe
    {w : World} {s s' : FileStore} {call : FileCall}
    (h : applied w s call = some s') :
    readFile w s' = setFile (readFile w s) call ↔ FileSafe w s call := by
  constructor
  · intro heq
    have hown : readFile w s' call.path = some call.content := by
      rw [heq]
      exact Function.update_self _ _ _
    have hother : ∀ q, q ≠ call.path → readFile w s' q = readFile w s q := by
      intro q hq
      rw [heq]
      exact Function.update_of_ne hq _ _
    exact
      { content := (readFile_own_iff h).1 hown
        sameName := fun q hq => ((readFile_other_iff h hq).1 (hother q hq)).1
        pod := fun q hq => ((readFile_other_iff h hq).1 (hother q hq)).2 }
  · intro hsafe
    funext q
    unfold setFile
    by_cases hq : q = call.path
    · subst hq
      rw [Function.update_self]
      exact (readFile_own_iff h).2 hsafe.content
    · rw [Function.update_of_ne hq]
      exact (readFile_other_iff h hq).2 ⟨hsafe.sameName q hq, hsafe.pod q hq⟩

/-- In any run the ConfigMap is a map from base names to contents. -/
theorem files_of_exec
    {w : World} {s t : FileStore} {calls : List FileCall}
    (h : exec (applied w) s calls = some t) :
    t.files = calls.foldl
      (fun m call => Function.update m (fileKey call.path) (some call.content))
      s.files := by
  have hstep : ∀ s call s', applied w s call = some s' →
      s'.files =
        Function.update s.files (fileKey call.path) (some call.content) :=
    fun _ _ _ h => files_of_applied h
  have hfollows :=
    (exec_follows_iff FileStore.files
      (fun m call =>
        Function.update m (fileKey call.path) (some call.content)) s calls).2
      (EachStep.of_forall hstep s calls)
  exact hfollows calls (List.prefix_refl calls) t h

theorem foldl_of_other_keys
    (calls : List FileCall) {key : Text}
    (h : ∀ call ∈ calls, fileKey call.path ≠ key) (m : Data) :
    calls.foldl
        (fun m call =>
          Function.update m (fileKey call.path) (some call.content)) m key =
      m key := by
  induction calls generalizing m with
  | nil => rfl
  | cons call rest ih =>
      rw [List.forall_mem_cons] at h
      rw [List.foldl_cons, ih h.2, Function.update_of_ne h.1.symm]

/-- A document that is only mounted keeps its content while no later call has
its base name. -/
theorem readFile_of_last
    {w : World} {s t : FileStore} {pre rest : List FileCall} {call : FileCall}
    (h : exec (applied w) s (pre ++ call :: rest) = some t)
    (hmounted : w.writable call.path = false)
    (hlast : ∀ c ∈ rest, fileKey c.path ≠ fileKey call.path) :
    readFile w t call.path = some call.content := by
  rw [readFile_eq, hmounted, if_neg Bool.false_ne_true, files_of_exec h,
    List.foldl_append, List.foldl_cons, foldl_of_other_keys rest hlast,
    Function.update_self]
  rfl

/-- An adapter without a document of its own. -/
def vendorAdapter : World where
  name := "vendor".toList
  image := "ghcr.io/northbound/vendor-adapter:0.17.1".toList
  base := fun _ => none
  json := fun _ => true
  client := id
  word := isAlnum
  valid := by decide

/-- Nothing is applied yet. -/
def noFiles : FileStore where
  files := fun _ => none
  mounts := .empty
  disk := fun _ => none
  layer := fun _ => none
  up := true

end FileMap

end Northbound
end Kelt
