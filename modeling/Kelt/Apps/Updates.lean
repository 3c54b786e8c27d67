import Kelt.Apps.Redeploy
import Kelt.Lib.Dict

/-!
# The update of an app

`resolve_pinned_ref` pins an image of the local registry to the digest of its
tag, `latest` where there is none, and the reference is kept in an annotation.
`check_updates` takes the tag from there, and skips a reference without one. So
it reports an update exactly when the tag has another digest than what runs, but
never for a reference without a tag (`update_iff`).
-/

namespace Kelt
namespace Apps

section Updates

/-- A pod of an app: whether it is running, whether it is being deleted, and the
image ids of its containers. -/
structure Pod where
  running : Bool
  deleting : Bool
  imageIds : List Text
deriving DecidableEq

def atSha : Text :=
  "@sha256:".toList

/-- `"sha256:" + iid.split("@sha256:", 1)[1]`, where there is one. -/
def digestOfId (iid : Text) : Option Text :=
  (iid.tails.find? fun u => atSha.isPrefixOf u).map List.tail

/-- `_running_digest` -/
def runningDigest (pods : List Pod) : Option Text :=
  pods.findSome? fun p =>
    if p.running = false ∨ p.deleting = true then none
    else p.imageIds.findSome? digestOfId

/-- A digest that is there and not empty. -/
def answered (digest : Option Text) : Option Text :=
  digest.filter fun d => decide (d ≠ [])

/-- `repo` and `tag` of `ref.rpartition(":")`, where there is a colon. -/
def rpartition (ref : Text) : Text × Text :=
  ((after ':' ref.reverse).reverse, (before ':' ref.reverse).reverse)

/-- What `check_updates` says of one app. -/
def updateAvailable (host : Text) (registry : Registry) (dep : Deployment)
    (pods : List Pod) : Bool :=
  let source :=
    if dep.template.imageTag = [] then dep.template.image
    else dep.template.imageTag
  if host = [] ∨ ¬ (host ++ "/".toList) <+: source then false
  else
    let ref := source.drop (host.length + 1)
    if ':' ∉ ref ∨ "@sha256".toList <:+: ref then false
    else
      let (repo, tag) := rpartition ref
      match answered (registry repo tag), runningDigest pods with
      | some reg, some run => decide (reg ≠ run)
      | _, _ => false

/-- `check_updates`, over the Deployments and the pods of the apps. -/
def checkUpdates (s : Settings) (registry : Registry)
    (apps : Dict Text (Deployment × List Pod)) : Dict Text Bool :=
  apps.mapVals fun _ x => updateAvailable s.registryHost registry x.1 x.2

inductive SetImage where
  | invalid (e : Invalid)
  | notFound
  | updating (dep : Deployment)

/-- `set_app_image`: the patch of the app's Deployment. -/
def setAppImage (s : Settings) (digestOf : Registry) (name image : Text)
    (app : App) : SetImage :=
  if nameOk name = false then .invalid (.name name)
  else if imageOk image = false then .invalid (.image image)
  else
    match app.deployment with
    | none => .notFound
    | some dep =>
        .updating
          { dep with
            template :=
              { dep.template with
                imageTag := image
                image := resolvePinnedRef s.registryHost digestOf image } }

end Updates

section References

/-- A reference into the registry at the host, which may have a port: its path,
and a tag or none. -/
structure LocalRef (host : Text) where
  repo : Text
  tag : Option Text
  host_ne : host ≠ []
  host_plain : '@' ∉ host
  repo_plain : ':' ∉ repo ∧ '@' ∉ repo
  tag_plain : ∀ t ∈ tag, ':' ∉ t ∧ '@' ∉ t

variable {host : Text}

def LocalRef.path (r : LocalRef host) : Text :=
  r.repo ++ r.tag.elim [] fun t => ':' :: t

def LocalRef.text (r : LocalRef host) : Text :=
  host ++ "/".toList ++ r.path

/-- What the registry names for the reference: its tag, or `latest`. -/
def LocalRef.digest (r : LocalRef host) (registry : Registry) : Option Text :=
  answered (registry r.repo (r.tag.getD "latest".toList))

/-- The Deployment of an app after it was deployed, or retargeted, from an
image. -/
inductive RolledOut (s : Settings) (image : Text) : Deployment → Prop where
  | deployed (registry : Registry) (req : Request) (app : App)
      (response : Response) (app' : App) (dep : Deployment)
      (h : deployApp s registry req app = (.deployed response, app'))
      (himage : req.image = image) (hdep : app'.deployment = some dep) :
      RolledOut s image dep
  | retargeted (registry : Registry) (name : Text) (app : App)
      (dep : Deployment)
      (h : setAppImage s registry name image app = .updating dep) :
      RolledOut s image dep

/-- The running pod is of the image with this digest, and so are all that
run. -/
structure Runs (pods : List Pod) (digest : Text) : Prop where
  sha : "sha256:".toList <+: digest
  some_runs : ∃ p ∈ pods, p.running = true ∧ p.deleting = false ∧
    p.imageIds ≠ []
  all_run : ∀ p ∈ pods, p.running = true → p.deleting = false →
    ∀ iid ∈ p.imageIds, ∃ image, '@' ∉ image ∧ iid = image ++ '@' :: digest

end References

section Digests

theorem digestOfId_append {image digest : Text} (himage : '@' ∉ image)
    (hsha : "sha256:".toList <+: digest) :
    digestOfId (image ++ '@' :: digest) = some digest := by
  unfold digestOfId
  induction image with
  | nil =>
      have hmark : atSha.isPrefixOf ('@' :: digest) = true :=
        List.isPrefixOf_iff_prefix.2 (List.cons_prefix_cons.2 ⟨rfl, hsha⟩)
      rw [List.nil_append, List.tails_cons, List.find?_cons_of_pos hmark]
      rfl
  | cons c image ih =>
      rw [List.mem_cons, not_or] at himage
      have hmark : ¬ atSha.isPrefixOf (c :: (image ++ '@' :: digest)) = true := by
        intro h
        exact himage.1 (List.cons_prefix_cons.1
          (List.isPrefixOf_iff_prefix.1 h)).1
      rw [List.cons_append, List.tails_cons, List.find?_cons_of_neg hmark]
      exact ih himage.2

theorem runningDigest_eq {pods : List Pod} {digest : Text}
    (h : Runs pods digest) : runningDigest pods = some digest := by
  have hone : ∀ p ∈ pods,
      (if p.running = false ∨ p.deleting = true then none
        else p.imageIds.findSome? digestOfId) = none ∨
      (if p.running = false ∨ p.deleting = true then none
        else p.imageIds.findSome? digestOfId) = some digest := by
    intro p hp
    split
    · exact .inl rfl
    · rename_i hclean
      rw [not_or, Bool.not_eq_false, Bool.not_eq_true] at hclean
      cases hids : p.imageIds with
      | nil => exact .inl rfl
      | cons iid ids =>
          obtain ⟨image, himage, rfl⟩ := h.all_run p hp hclean.1 hclean.2 iid
            (by rw [hids]; exact List.mem_cons_self)
          refine .inr ?_
          rw [List.findSome?_cons, digestOfId_append himage h.sha]
  obtain ⟨p, hp, hrunning, hdeleting, hids⟩ := h.some_runs
  cases hresult : runningDigest pods with
  | some d =>
      obtain ⟨q, hq, hd⟩ := List.exists_of_findSome?_eq_some hresult
      rcases hone q hq with hnone | hsome
      · rw [hnone] at hd
        cases hd
      · rw [← hd, hsome]
  | none =>
      have hnone := List.findSome?_eq_none_iff.1 hresult p hp
      rw [if_neg (by simp [hrunning, hdeleting])] at hnone
      obtain ⟨iid, ids, hcons⟩ := List.exists_cons_of_ne_nil hids
      obtain ⟨image, himage, rfl⟩ := h.all_run p hp hrunning hdeleting iid
        (by rw [hcons]; exact List.mem_cons_self)
      rw [hcons, List.findSome?_cons, digestOfId_append himage h.sha] at hnone
      cases hnone

end Digests

section References

variable {host : Text} (r : LocalRef host)

theorem rpartition_append_cons (repo : Text) {tag : Text} (h : ':' ∉ tag) :
    rpartition (repo ++ ':' :: tag) = (repo, tag) := by
  have hreverse : (repo ++ ':' :: tag).reverse =
      tag.reverse ++ ':' :: repo.reverse := by
    simp
  have hmem : ':' ∉ tag.reverse := fun hmem => h (List.mem_reverse.1 hmem)
  unfold rpartition
  rw [hreverse, after_append_cons hmem, before_append_cons hmem,
    List.reverse_reverse, List.reverse_reverse]

theorem path_plain : '@' ∉ r.path := by
  unfold LocalRef.path
  cases htag : r.tag with
  | none => simpa using r.repo_plain.2
  | some t => simp [r.repo_plain.2, (r.tag_plain t htag).2]

theorem text_plain : '@' ∉ r.text := by
  unfold LocalRef.text
  simp [r.host_plain, path_plain r]

theorem prefix_text : host ++ "/".toList <+: r.text :=
  List.prefix_append _ _

theorem drop_text : r.text.drop (host.length + 1) = r.path := by
  have hlen : host.length + 1 = (host ++ "/".toList).length := by simp
  unfold LocalRef.text
  rw [hlen, List.drop_left]

theorem text_ne_nil : r.text ≠ [] := by
  unfold LocalRef.text
  simp

/-- A text without an at sign has no digest. -/
theorem not_infix_of_plain {m t : Text} (hm : '@' ∈ m) (ht : '@' ∉ t) :
    ¬ m <:+: t :=
  fun h => ht (h.subset hm)

/-- What `resolve_pinned_ref` makes of the reference: the digest of its tag, or
of `latest`. -/
theorem resolvePinnedRef_text (registry : Registry) :
    resolvePinnedRef host registry r.text =
      (r.digest registry).elim r.text fun d =>
        host ++ "/".toList ++ r.repo ++ "@".toList ++ d := by
  have hguard : ¬ (host = [] ∨ ¬ (host ++ "/".toList) <+: r.text ∨
      "@sha256:".toList <:+: r.text) := by
    rintro (hhost | hprefix | hinfix)
    · exact r.host_ne hhost
    · exact hprefix (prefix_text r)
    · exact not_infix_of_plain (by decide) (text_plain r) hinfix
  unfold resolvePinnedRef LocalRef.digest answered
  rw [if_neg hguard, drop_text]
  dsimp only
  have hparts : (if ':' ∈ r.path then
        ((after ':' r.path.reverse).reverse, (before ':' r.path.reverse).reverse)
      else (r.path, "latest".toList)) =
      (r.repo, r.tag.getD "latest".toList) := by
    unfold LocalRef.path
    cases htag : r.tag with
    | none => simp [r.repo_plain.1]
    | some t =>
        rw [if_pos (by simp)]
        exact rpartition_append_cons r.repo (r.tag_plain t htag).1
  rw [hparts]
  dsimp only
  cases registry r.repo (r.tag.getD "latest".toList) with
  | none => rfl
  | some d =>
      cases d with
      | nil => rfl
      | cons c d => rfl

theorem imageTag_of_rolledOut {s : Settings} {image : Text} {dep : Deployment}
    (h : RolledOut s image dep) : dep.template.imageTag = image := by
  cases h with
  | deployed registry req app response app' dep h himage hdep =>
      obtain ⟨networks, -, rfl⟩ := @deployApp_deployed s ⟨req, registry⟩ app app'
        response h
      rw [after_deployment, Option.some.injEq] at hdep
      rw [← hdep, ← himage]
      cases app.deployment <;> rfl
  | retargeted registry name app dep h =>
      unfold setAppImage at h
      split at h
      · cases h
      · split at h
        · cases h
        · cases hdep : app.deployment with
          | none =>
              rw [hdep] at h
              cases h
          | some old =>
              rw [hdep] at h
              cases h
              rfl

/-- An update of the reference is reported where it has a tag that now has
another digest than what runs. -/
theorem updateAvailable_iff {dep : Deployment}
    (htag : dep.template.imageTag = r.text) (registry : Registry)
    {pods : List Pod} {running : Text} (hpods : Runs pods running) :
    updateAvailable host registry dep pods = true ↔
      r.tag ≠ none ∧ ∃ d, r.digest registry = some d ∧ d ≠ running := by
  have hguard : ¬ (host = [] ∨ ¬ (host ++ "/".toList) <+: r.text) := by
    rintro (hhost | hprefix)
    · exact r.host_ne hhost
    · exact hprefix (prefix_text r)
  unfold updateAvailable LocalRef.digest
  dsimp only
  rw [htag, if_neg (text_ne_nil r), if_neg hguard, drop_text,
    runningDigest_eq hpods]
  cases hr : r.tag with
  | none =>
      have hcolon : ':' ∉ r.path := by
        unfold LocalRef.path
        rw [hr]
        simpa using r.repo_plain.1
      rw [if_pos (.inl hcolon)]
      simp
  | some t =>
      have hpath : r.path = r.repo ++ ':' :: t := by
        unfold LocalRef.path
        rw [hr]
        rfl
      have hsep : ¬ (':' ∉ r.path ∨ "@sha256".toList <:+: r.path) := by
        rintro (hcolon | hinfix)
        · exact hcolon (by rw [hpath]; simp)
        · exact not_infix_of_plain (by decide) (path_plain r) hinfix
      rw [if_neg hsep, hpath, rpartition_append_cons _ (r.tag_plain t hr).1]
      dsimp only [Option.getD_some]
      cases answered (registry r.repo t) with
      | none => simp
      | some d => simp

end References

section Result

/-- `check_updates` reports an update of an app exactly when the reference that
was resolved now has another digest than what runs, if and only if the reference
has a tag, or its `latest` has not moved. -/
theorem update_iff {s : Settings} (r : LocalRef s.registryHost)
    {dep : Deployment} (hdep : RolledOut s r.text dep) (later : Registry)
    {pods : List Pod} {running : Text} (hpods : Runs pods running)
    {apps : Dict Text (Deployment × List Pod)} {name : Text}
    (happ : apps.get? name = some (dep, pods)) :
    (∀ registry, resolvePinnedRef s.registryHost registry r.text =
      (r.digest registry).elim r.text fun d =>
        s.registryHost ++ "/".toList ++ r.repo ++ "@".toList ++ d) ∧
    (((checkUpdates s later apps).get? name = some true ↔
        ∃ d, r.digest later = some d ∧ d ≠ running) ↔
      r.tag ≠ none ∨ ∀ d, r.digest later = some d → d = running) := by
  refine ⟨resolvePinnedRef_text r, ?_⟩
  unfold checkUpdates
  rw [Dict.get?_mapVals, happ, Option.map_some, Option.some.injEq,
    updateAvailable_iff r (imageTag_of_rolledOut hdep) later hpods]
  constructor
  · intro h
    by_cases htag : r.tag = none
    · refine .inr fun d hd => ?_
      by_contra hne
      exact (h.2 ⟨d, hd, hne⟩).1 htag
    · exact .inl htag
  · rintro (htag | hsame)
    · exact and_iff_right htag
    · refine iff_of_false (fun h => ?_) fun h => ?_
      · obtain ⟨-, d, hd, hne⟩ := h
        exact hne (hsame d hd)
      · obtain ⟨d, hd, hne⟩ := h
        exact hne (hsame d hd)

/-- A registry on a port of the testbed. -/
def withRegistry : Settings :=
  { testbed with registryHost := "10.0.0.5:30500".toList }

def faceRef (tag : Option Text) (h : ∀ t ∈ tag, ':' ∉ t ∧ '@' ∉ t) :
    LocalRef withRegistry.registryHost where
  repo := "mec/face".toList
  tag := tag
  host_ne := by decide
  host_plain := by decide
  repo_plain := by decide
  tag_plain := h

def firstDigest : Text :=
  "sha256:aa".toList

def secondDigest : Text :=
  "sha256:bb".toList

/-- The app before it is retargeted. -/
def faceApp : App where
  config := none
  secret := none
  deployment := some ⟨1, ⟨[], none, [], [], 80, []⟩⟩
  service := none

/-- The app retargeted to an image that the registry names by the first
digest. -/
def retargeted (image : Text) : Deployment where
  replicas := 1
  template :=
    { imageTag := image
      networks := none
      image := resolvePinnedRef withRegistry.registryHost
        (fun _ _ => some firstDigest) image
      ports := []
      probePort := 80
      pullSecrets := [] }

def facePod : Pod where
  running := true
  deleting := false
  imageIds := ["10.0.0.5:30500/mec/face@sha256:aa".toList]

theorem runs_facePod : Runs [facePod] firstDigest where
  sha := by decide
  some_runs := ⟨facePod, List.mem_cons_self, rfl, rfl, by decide⟩
  all_run := by
    intro p hp _ _ iid hiid
    rw [List.mem_singleton.1 hp] at hiid
    rw [List.mem_singleton.1 hiid]
    exact ⟨"10.0.0.5:30500/mec/face".toList, by decide, by decide⟩

theorem rolledOut_retargeted {image : Text} (himage : imageOk image = true) :
    RolledOut withRegistry image (retargeted image) := by
  refine .retargeted (fun _ _ => some firstDigest) "face".toList faceApp _ ?_
  unfold setAppImage
  rw [if_neg (by decide), if_neg (by rw [himage]; decide)]
  rfl

/-- The tag has moved on. -/
theorem update_iff_v3 :
    (checkUpdates withRegistry (fun _ _ => some secondDigest)
        (.single "face".toList (retargeted
          (faceRef (some "v3".toList) (by decide)).text, [facePod]))).get?
          "face".toList = some true ↔
      ∃ d, (faceRef (some "v3".toList) (by decide)).digest
        (fun _ _ => some secondDigest) = some d ∧ d ≠ firstDigest :=
  (update_iff (faceRef (some "v3".toList) (by decide))
    (rolledOut_retargeted (by decide)) _ runs_facePod rfl).2.2
    (.inl (by decide))

/-- `latest` has moved on, and no update is reported. -/
theorem not_update_untagged :
    RolledOut withRegistry (faceRef none (by decide)).text
        (retargeted (faceRef none (by decide)).text) ∧
      Runs [facePod] firstDigest ∧
      ¬ ((checkUpdates withRegistry (fun _ _ => some secondDigest)
          (.single "face".toList (retargeted
            (faceRef none (by decide)).text, [facePod]))).get?
            "face".toList = some true ↔
        ∃ d, (faceRef none (by decide)).digest
          (fun _ _ => some secondDigest) = some d ∧ d ≠ firstDigest) := by
  refine ⟨rolledOut_retargeted (by decide), runs_facePod, fun h => ?_⟩
  have hreported := h.2 ⟨secondDigest, by decide, by decide⟩
  revert hreported
  decide

end Result

end Apps
end Kelt
