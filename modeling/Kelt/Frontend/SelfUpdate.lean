import Kelt.Lib.PyText
import Kelt.Lib.Runs
import Kelt.Northbound.Versions

/-!
# The update of the dashboard

The overlay of an update polls the status of the components
(`UpdateContext.jsx`), which the backend takes from the image that the
Deployment asks for, or from the digest of the first pod that has one
(`selfupdate_service.py`). Neither says whether the pod of the new version is
ready. Where it is by the time the status says so, the overlay shows the update
as applied only when it is, and a rollout without a ready pod ends in the
timeout (`applied_of_fits`).

`Site` is what the cluster has of one component: the pods under its label, and
the image of the first container of its Deployment, which has the component's
name.
-/

namespace Kelt
namespace Frontend
namespace SelfUpdate

open Northbound.Versions

section Service

inductive Mode where
  | tag
  | digest

structure Component where
  name : Text
  display : Text
  mode : Mode

/-- `COMPONENTS` -/
def components : List Component :=
  [⟨"dashboard-frontend".toList, "Dashboard frontend".toList, .tag⟩,
    ⟨"dashboard-docs".toList, "Documentation".toList, .digest⟩]

/-- A pod, with the image it was made for and what its containers report. -/
structure Pod where
  name : Text
  image : Text
  imageIds : List Text
  ready : Bool

structure Site where
  image : Option Text
  pods : List Pod

structure Registry where
  tags : Text → List Text
  digest : Text → Text → Option Text

structure World where
  site : Text → Site
  registry : Registry

/-- Which calls of a request answer. -/
structure Api where
  deployment : Text → Bool
  pods : Text → Bool
  tags : Text → Bool
  digest : Text → Bool

def sha256 : Text :=
  "sha256:".toList

/-- `_extract_sha` -/
def extractSha (imageId : Text) : Option Text :=
  if imageId.tails.any fun u => sha256.isPrefixOf u then
    some (sha256 ++ strip (afterText sha256 imageId))
  else none

def ghcr : Text :=
  "ghcr.io/".toList

/-- `_parse_ref` -/
def parseRef (image : Text) : Option (Text × Text) :=
  if ghcr.isPrefixOf image then
    let rest := image.drop ghcr.length
    let tag := after ':' rest
    some (before ':' rest, if tag = [] then "latest".toList else tag)
  else none

/-- The first digest that a pod reports. -/
def firstDigest (pods : List Pod) : Option Text :=
  pods.findSome? fun p => p.imageIds.findSome? extractSha

/-- `_deployed_digest` -/
def deployedDigest (api : Api) (w : World) (name : Text) : Option Text :=
  if api.pods name then firstDigest (w.site name).pods else none

def publishedDigest (r : Registry) (image : Text) : Option Text :=
  (parseRef image).bind fun ref => r.digest ref.1 ref.2

/-- `_registry_digest` -/
def registryDigest (api : Api) (w : World) (image : Text) : Option Text :=
  if api.digest image then publishedDigest w.registry image else none

/-- `_latest_for` -/
def latestFor (api : Api) (w : World) (repo tag : Text) : Option Text :=
  (semverKey tag).bind fun key =>
    latestInMajor
      (if api.tags repo then some (w.registry.tags repo) else none) key.major

/-- `_deployed_image`; an empty text counts as none. -/
def deployedImage (api : Api) (w : World) (name : Text) : Option Text :=
  if api.deployment name then
    (w.site name).image.filter fun image => !image.isEmpty
  else none

/-- Repository, tag and version of an image with a version for its tag. -/
def versioned (image : Text) : Option (Text × Text × SemVer) :=
  (parseRef image).bind fun ref =>
    (semverKey ref.2).map fun key => (ref.1, ref.2, key)

/-- What a component is compared by. One that is to have a pinned tag may still
run a mutable one. -/
def Component.pinned (comp : Component) (image : Text) :
    Option (Text × Text × SemVer) :=
  match comp.mode with
  | .tag => versioned image
  | .digest => none

inductive EntryState where
  | notDeployed
  | unknown
  | updateAvailable
  | upToDate
  deriving DecidableEq

structure Entry where
  name : Text
  display : Text
  image : Option Text
  deployedDigest : Option Text
  registryDigest : Option Text
  deployedVersion : Option Text
  latestVersion : Option Text
  state : EntryState

def tagState (key : SemVer) (latest : Option Text) : EntryState :=
  match latest with
  | none => .unknown
  | some tag =>
      if (semverKey tag).any key.lt then .updateAvailable else .upToDate

def digestState (deployed registry : Option Text) : EntryState :=
  match registry, deployed with
  | none, _ => .unknown
  | some _, none => .notDeployed
  | some r, some d => if d = r then .upToDate else .updateAvailable

/-- One turn of the loop of `status`. -/
def entryOf (api : Api) (w : World) (comp : Component) : Entry :=
  let entry : Entry :=
    ⟨comp.name, comp.display, deployedImage api w comp.name, none, none, none,
      none, .notDeployed⟩
  match deployedImage api w comp.name with
  | none => entry
  | some image =>
      match comp.pinned image with
      | some (repo, tag, key) =>
          let latest := latestFor api w repo tag
          { entry with
            deployedVersion := some tag
            latestVersion := latest
            state := tagState key latest }
      | none =>
          let deployed := deployedDigest api w comp.name
          let registry := registryDigest api w image
          { entry with
            deployedDigest := deployed
            registryDigest := registry
            state := digestState deployed registry }

def status (api : Api) (w : World) : List Entry :=
  components.map (entryOf api w)

inductive Reply where
  | rollingOut (versions : Option (Text × Text))
  | upToDate (version : Text)

/-- A restart leaves the image as it is. -/
def World.setImage (w : World) (name image : Text) : World :=
  { w with
    site := Function.update w.site name
      { w.site name with image := some image } }

/-- `update`; a component that is not known raises. -/
def update (api : Api) (w : World) (name : Text) : Option (World × Reply) :=
  match components.find? fun comp => comp.name == name with
  | none => none
  | some comp =>
      match (deployedImage api w name).bind comp.pinned with
      | none => some (w, .rollingOut none)
      | some (repo, tag, key) =>
          match latestFor api w repo tag with
          | none => some (w, .upToDate tag)
          | some latest =>
              if (semverKey latest).any key.lt then
                some (w.setImage name (ghcr ++ repo ++ ':' :: latest),
                  .rollingOut (some (tag, latest)))
              else some (w, .upToDate tag)

/-- The pod runs what the Deployment asks for: its image, or, under a mutable
tag, what the registry has for it. -/
def RunsTarget (w : World) (comp : Component) (p : Pod) : Prop :=
  ∃ image, (w.site comp.name).image = some image ∧
    match comp.pinned image with
    | some _ => p.image = image
    | none => ∃ id ∈ p.imageIds, ∃ d, extractSha id = some d ∧
        publishedDigest w.registry image = some d

/-- A ready pod of the component runs the target version. -/
def Applied (w : World) (comp : Component) : Prop :=
  ∃ p ∈ (w.site comp.name).pods, p.ready = true ∧ RunsTarget w comp p

end Service

section Page

/-- `ROLLOUT_TIMEOUT_MS` -/
def rolloutTimeout : Nat :=
  180000

/-- What the overlay shows; `seen` is the world at the poll that ended it. -/
inductive Phase where
  | rolling
  | done (seen : World)
  | timeout

structure Overlay where
  name : Text
  startedAt : Nat
  phase : Phase

structure State where
  world : World
  overlay : Option Overlay

/-- What `startUpdate` has of its call. -/
inductive Back where
  | rollingOut
  | upToDate
  | cut
  | error

/-- `update` is the call as the backend handles it, `back` its end in the
browser; `tick` is a poll, with the calls that answer it if any does. The
rollout goes by `created`, `pulled`, `ready` and `removed`. -/
inductive Act where
  | update (api : Api) (name : Text)
  | back (name : Text) (back : Back) (now : Nat)
  | tick (now : Nat) (answer : Option Api)
  | dismiss
  | reload
  | created (name : Text) (place : Nat) (p : Pod)
  | pulled (name pod : Text) (imageIds : List Text)
  | ready (name pod : Text) (b : Bool)
  | removed (name pod : Text)
  | publish (r : Registry)

def World.onPods (w : World) (name : Text) (f : List Pod → List Pod) : World :=
  { w with
    site := Function.update w.site name
      { w.site name with pods := f (w.site name).pods } }

def mapPod (pod : Text) (f : Pod → Pod) (pods : List Pod) : List Pod :=
  pods.map fun p => if p.name = pod then f p else p

/-- `setRollout`; an overlay that is there keeps its start and its phase. -/
def Overlay.show? (o : Option Overlay) (name : Text) (now : Nat) : Overlay :=
  match o with
  | none => ⟨name, now, .rolling⟩
  | some o => { o with name := name }

/-- The status of the component under a name says that it is up to date. -/
def saysUpToDate (entries : List Entry) (name : Text) : Bool :=
  (entries.find? fun e => e.name == name).any fun e =>
    e.state == .upToDate

/-- A tick of a rolling overlay. -/
def tickPhase (w : World) (o : Overlay) (now : Nat) (answer : Option Api) :
    Phase :=
  if rolloutTimeout < now - o.startedAt then .timeout
  else
    match answer with
    | none => .rolling
    | some api =>
        if saysUpToDate (status api w) o.name then .done w else .rolling

def State.step (s : State) : Act → Option State
  | .update api name =>
      (Kelt.Frontend.SelfUpdate.update api s.world name).map
        fun r => { s with world := r.1 }
  | .back name .rollingOut now | .back name .cut now =>
      some { s with overlay := some (Overlay.show? s.overlay name now) }
  | .back _ .upToDate _ | .back _ .error _ => some s
  | .tick now answer =>
      match s.overlay with
      | some o =>
          match o.phase with
          | .rolling =>
              some { s with
                overlay := some
                  { o with phase := tickPhase s.world o now answer } }
          | _ => none
      | none => none
  | .dismiss => some { s with overlay := none }
  | .reload => some { s with overlay := none }
  | .created name place p =>
      some { s with
        world := s.world.onPods name fun pods => pods.insertIdx place p }
  | .pulled name pod imageIds =>
      some { s with
        world := s.world.onPods name
          (mapPod pod fun p => { p with imageIds := imageIds }) }
  | .ready name pod b =>
      some { s with
        world := s.world.onPods name
          (mapPod pod fun p => { p with ready := b }) }
  | .removed name pod =>
      some { s with
        world := s.world.onPods name
          fun pods => pods.filter fun p => p.name != pod }
  | .publish r => some { s with world := { s.world with registry := r } }

def State.init (w : World) : State :=
  ⟨w, none⟩

end Page

section Claims

/-- The overlay shows an update as applied only when it is. -/
def State.Sound (s : State) : Prop :=
  ∀ o w, s.overlay = some o → o.phase = .done w →
    ∃ comp ∈ components, comp.name = o.name ∧ Applied w comp

/-- The overlay is left to its polls: it is not closed, and no other call of
`startUpdate` ends in it. -/
def Act.Stays : Act → Prop
  | .dismiss | .reload | .back _ .rollingOut _ | .back _ .cut _ => False
  | _ => True

/-- From here, a rollout whose new pod never becomes ready ends in the timeout,
where the overlay goes on polling until then. -/
def State.EndsInTimeout (ok : State → Act → Prop) (s : State) : Prop :=
  ∀ o comp acts s', s.overlay = some o → o.phase = .rolling →
    comp ∈ components → comp.name = o.name →
    exec State.step s acts = some s' →
    EachStep State.step
      (fun s act _ => ok s act ∧ act.Stays ∧ ¬ Applied s.world comp) s acts →
    (∃ now answer, Act.tick now answer ∈ acts ∧
      rolloutTimeout < now - o.startedAt) →
    ∃ o', s'.overlay = some o' ∧ o'.phase = .timeout

/-- The condition on a poll that is answered in time. Under a pinned tag, the
registry has a newer one or a ready pod has the image that the Deployment asks
for; otherwise, if the first digest of a pod is the registry's, a ready pod
reports it. -/
structure TickFits (api : Api) (w : World) (comp : Component) : Prop where
  pinned : ∀ image repo tag key latest,
    deployedImage api w comp.name = some image →
    comp.pinned image = some (repo, tag, key) →
    latestFor api w repo tag = some latest →
    (semverKey latest).any key.lt = true ∨
      ∃ p ∈ (w.site comp.name).pods, p.ready = true ∧ p.image = image
  mutable : ∀ image d,
    deployedImage api w comp.name = some image → comp.pinned image = none →
    deployedDigest api w comp.name = some d →
    registryDigest api w image = some d →
    ∃ p ∈ (w.site comp.name).pods, p.ready = true ∧
      ∃ id ∈ p.imageIds, extractSha id = some d

/-- The answered polls in time meet the condition, and no call of `startUpdate`
ends in an overlay that shows an update as applied. -/
def Fits (s : State) : Act → Prop
  | .tick now (some api) => ∀ o, s.overlay = some o →
      now - o.startedAt ≤ rolloutTimeout →
        ∀ comp ∈ components, comp.name = o.name → TickFits api s.world comp
  | .back _ .rollingOut _ | .back _ .cut _ =>
      ∀ o w, s.overlay = some o → o.phase ≠ .done w
  | _ => True

end Claims

section Polls

theorem image_of_deployedImage {api : Api} {w : World} {name image : Text}
    (h : deployedImage api w name = some image) :
    (w.site name).image = some image := by
  unfold deployedImage at h
  split at h
  · exact (Option.filter_eq_some_iff.1 h).1
  · cases h

theorem publishedDigest_of_registryDigest {api : Api} {w : World}
    {image d : Text} (h : registryDigest api w image = some d) :
    publishedDigest w.registry image = some d := by
  unfold registryDigest at h
  split at h
  · exact h
  · cases h

theorem latest_of_tagState {key : SemVer} {latest : Option Text}
    (h : tagState key latest = .upToDate) :
    ∃ tag, latest = some tag ∧ ¬ (semverKey tag).any key.lt = true := by
  unfold tagState at h
  split at h
  · cases h
  · next tag =>
      split at h
      · cases h
      · next hnewer => exact ⟨tag, rfl, hnewer⟩

theorem digests_of_digestState {deployed registry : Option Text}
    (h : digestState deployed registry = .upToDate) :
    ∃ d, deployed = some d ∧ registry = some d := by
  unfold digestState at h
  split at h
  · cases h
  · cases h
  · next r d =>
      split at h
      · next heq => exact ⟨d, rfl, by rw [heq]⟩
      · cases h

/-- A status that says that a component is up to date is right under the
condition. -/
theorem applied_of_entryOf {api : Api} {w : World} {comp : Component}
    (hfits : TickFits api w comp)
    (h : (entryOf api w comp).state = .upToDate) : Applied w comp := by
  unfold entryOf at h
  cases himage : deployedImage api w comp.name with
  | none =>
      rw [himage] at h
      cases h
  | some image =>
      rw [himage] at h
      simp only at h
      have hsite := image_of_deployedImage himage
      cases hpin : comp.pinned image with
      | some v =>
          obtain ⟨repo, tag, key⟩ := v
          rw [hpin] at h
          obtain ⟨latest, hlatest, hnewer⟩ := latest_of_tagState h
          rcases hfits.pinned image repo tag key latest himage hpin hlatest with
            hlt | ⟨p, hp, hready, hrun⟩
          · exact absurd hlt hnewer
          · refine ⟨p, hp, hready, image, hsite, ?_⟩
            rw [hpin]
            exact hrun
      | none =>
          rw [hpin] at h
          obtain ⟨d, hdeployed, hregistry⟩ := digests_of_digestState h
          obtain ⟨p, hp, hready, id, hid, hsha⟩ :=
            hfits.mutable image d himage hpin hdeployed hregistry
          refine ⟨p, hp, hready, image, hsite, ?_⟩
          rw [hpin]
          exact ⟨id, hid, d, hsha, publishedDigest_of_registryDigest hregistry⟩

theorem entryOf_name (api : Api) (w : World) (comp : Component) :
    (entryOf api w comp).name = comp.name := by
  unfold entryOf
  cases deployedImage api w comp.name with
  | none => rfl
  | some image =>
      simp only
      cases comp.pinned image with
      | none => rfl
      | some v => rfl

theorem component_of_saysUpToDate {api : Api} {w : World} {name : Text}
    (h : saysUpToDate (status api w) name = true) :
    ∃ comp ∈ components, comp.name = name ∧
      (entryOf api w comp).state = .upToDate := by
  obtain ⟨e, he, hstate⟩ := Option.any_eq_true _ _ |>.1 h
  obtain ⟨comp, hcomp, rfl⟩ := List.mem_map.1 (List.mem_of_find?_eq_some he)
  have hname := List.find?_some he
  rw [entryOf_name] at hname
  exact ⟨comp, hcomp, by simpa using hname, by simpa using hstate⟩

/-- What a tick under the condition makes of the overlay. -/
theorem tickPhase_cases {s : State} {o : Overlay} {now : Nat}
    {answer : Option Api} (ho : s.overlay = some o)
    (hfits : Fits s (.tick now answer)) :
    tickPhase s.world o now answer = .timeout ∨
      (now - o.startedAt ≤ rolloutTimeout ∧
        (tickPhase s.world o now answer = .rolling ∨
          (tickPhase s.world o now answer = .done s.world ∧
            ∃ comp ∈ components, comp.name = o.name ∧
              Applied s.world comp))) := by
  unfold tickPhase
  split
  · exact .inl rfl
  · next htime =>
      have hin : now - o.startedAt ≤ rolloutTimeout := Nat.le_of_not_lt htime
      refine .inr ⟨hin, ?_⟩
      cases answer with
      | none => exact .inl rfl
      | some api =>
          simp only
          split
          · next hsays =>
              obtain ⟨comp, hcomp, hname, hstate⟩ :=
                component_of_saysUpToDate hsays
              have happlied :=
                applied_of_entryOf (hfits o ho hin comp hcomp hname) hstate
              exact .inr ⟨rfl, comp, hcomp, hname, happlied⟩
          · exact .inl rfl

end Polls

section Runs

/-- What a step does to the overlay. -/
inductive OverlayStep (s s' : State) : Act → Prop
  | same (act : Act) (ho : s'.overlay = s.overlay)
      (htick : ∀ now answer, act ≠ .tick now answer) : OverlayStep s s' act
  | shown (name : Text) (back : Back) (now : Nat)
      (hback : back = .rollingOut ∨ back = .cut)
      (ho : s'.overlay = some (Overlay.show? s.overlay name now)) :
      OverlayStep s s' (.back name back now)
  | ticked (o : Overlay) (now : Nat) (answer : Option Api)
      (hshown : s.overlay = some o) (hphase : o.phase = .rolling)
      (ho : s'.overlay =
        some { o with phase := tickPhase s.world o now answer }) :
      OverlayStep s s' (.tick now answer)
  | closed (act : Act) (hact : ¬ act.Stays) (ho : s'.overlay = none) :
      OverlayStep s s' act

theorem overlayStep_of_step {s s' : State} {act : Act}
    (hstep : s.step act = some s') : OverlayStep s s' act := by
  cases act with
  | update api name =>
      obtain ⟨r, -, rfl⟩ := Option.map_eq_some_iff.1 hstep
      exact .same _ rfl (fun _ _ h => nomatch h)
  | back name back now =>
      cases back with
      | rollingOut =>
          cases hstep
          exact .shown name _ now (.inl rfl) rfl
      | cut =>
          cases hstep
          exact .shown name _ now (.inr rfl) rfl
      | upToDate =>
          cases hstep
          exact .same _ rfl (fun _ _ h => nomatch h)
      | error =>
          cases hstep
          exact .same _ rfl (fun _ _ h => nomatch h)
  | tick now answer =>
      simp only [State.step] at hstep
      split at hstep
      · next o ho =>
          split at hstep
          · next hphase =>
              cases hstep
              exact .ticked o now answer ho hphase rfl
          · cases hstep
      · cases hstep
  | dismiss =>
      cases hstep
      exact .closed _ id rfl
  | reload =>
      cases hstep
      exact .closed _ id rfl
  | created name place p =>
      cases hstep
      exact .same _ rfl (fun _ _ h => nomatch h)
  | pulled name pod imageIds =>
      cases hstep
      exact .same _ rfl (fun _ _ h => nomatch h)
  | ready name pod b =>
      cases hstep
      exact .same _ rfl (fun _ _ h => nomatch h)
  | removed name pod =>
      cases hstep
      exact .same _ rfl (fun _ _ h => nomatch h)
  | publish r =>
      cases hstep
      exact .same _ rfl (fun _ _ h => nomatch h)

/-- A step that meets the condition keeps the overlay sound. -/
theorem State.Sound.step {s s' : State} {act : Act} (h : s.Sound)
    (hfits : Fits s act) (hstep : s.step act = some s') : s'.Sound := by
  intro o' w ho' hdone
  cases overlayStep_of_step hstep with
  | same _ ho _ => exact h o' w (ho ▸ ho') hdone
  | shown name back now hback ho =>
      -- an overlay that was there does not show an update as applied
      have hopen : ∀ o w, s.overlay = some o → o.phase ≠ .done w := by
        rcases hback with rfl | rfl
        · exact hfits
        · exact hfits
      rw [ho] at ho'
      cases ho'
      cases hshown : s.overlay with
      | none =>
          rw [hshown] at hdone
          cases hdone
      | some o =>
          rw [hshown] at hdone
          exact absurd hdone (hopen o w hshown)
  | ticked o now answer hshown _ ho =>
      rw [ho] at ho'
      cases ho'
      rcases tickPhase_cases hshown hfits with
        htimeout | ⟨-, hrolling | ⟨hseen, hcomp⟩⟩
      · rw [htimeout] at hdone
        cases hdone
      · rw [hrolling] at hdone
        cases hdone
      · rw [hseen] at hdone
        cases hdone
        exact hcomp
  | closed _ _ ho =>
      rw [ho] at ho'
      cases ho'

theorem component_eq {a b : Component} (ha : a ∈ components)
    (hb : b ∈ components) (h : a.name = b.name) : a = b := by
  simp only [components, List.mem_cons, List.not_mem_nil, or_false] at ha hb
  rcases ha with rfl | rfl
  · rcases hb with rfl | rfl
    · rfl
    · exact absurd h (by decide)
  · rcases hb with rfl | rfl
    · exact absurd h (by decide)
    · rfl

/-- While the new pod is not ready the overlay rolls, until a tick after the
time is up. -/
theorem rolling_step {s s' : State} {act : Act} {o : Overlay}
    {comp : Component} (ho : s.overlay = some o) (hphase : o.phase = .rolling)
    (hmem : comp ∈ components) (hcomp : comp.name = o.name)
    (hfits : Fits s act) (hstays : act.Stays)
    (hnot : ¬ Applied s.world comp) (hstep : s.step act = some s') :
    (∃ o', s'.overlay = some o' ∧ o'.phase = .timeout) ∨
      (s'.overlay = some o ∧ ∀ now answer, act = .tick now answer →
        now - o.startedAt ≤ rolloutTimeout) := by
  cases overlayStep_of_step hstep with
  | same _ hsame htick =>
      exact .inr ⟨hsame.trans ho, fun now answer hact =>
        absurd hact (htick now answer)⟩
  | shown name back now hback _ =>
      rcases hback with rfl | rfl
      · exact hstays.elim
      · exact hstays.elim
  | ticked o₁ now answer hshown _ ho' =>
      rw [ho] at hshown
      cases hshown
      rcases tickPhase_cases ho hfits with
        htimeout | ⟨hin, hrolling | ⟨-, comp', hcomp', hname, happlied⟩⟩
      · exact .inl ⟨_, ho', htimeout⟩
      · refine .inr ⟨?_, fun now' answer' hact => ?_⟩
        · rw [ho', hrolling, ← hphase]
        · cases hact
          exact hin
      · rw [component_eq hmem hcomp' (hcomp.trans hname.symm)] at hnot
        exact absurd happlied hnot
  | closed _ hact _ => exact absurd hstays hact

/-- Once it shows the timeout, an overlay that is left to its polls stays so. -/
theorem timeout_step {s s' : State} {act : Act}
    (h : ∃ o, s.overlay = some o ∧ o.phase = .timeout) (hstays : act.Stays)
    (hstep : s.step act = some s') :
    (∃ o, s'.overlay = some o ∧ o.phase = .timeout) := by
  obtain ⟨o, ho, hphase⟩ := h
  cases overlayStep_of_step hstep with
  | same _ hsame _ => exact ⟨o, hsame.trans ho, hphase⟩
  | shown name back now hback _ =>
      rcases hback with rfl | rfl
      · exact hstays.elim
      · exact hstays.elim
  | ticked o₁ now answer hshown hrolling _ =>
      rw [ho] at hshown
      cases hshown
      rw [hphase] at hrolling
      cases hrolling
  | closed _ hact _ => exact absurd hstays hact

theorem timeout_run {ok : State → Act → Prop} {comp : Component}
    (acts : List Act) {s s' : State}
    (h : ∃ o, s.overlay = some o ∧ o.phase = .timeout)
    (hexec : exec State.step s acts = some s')
    (heach : EachStep State.step
      (fun s act _ => ok s act ∧ act.Stays ∧ ¬ Applied s.world comp) s acts) :
    ∃ o, s'.overlay = some o ∧ o.phase = .timeout := by
  induction acts generalizing s with
  | nil =>
      cases hexec
      exact h
  | cons act rest ih =>
      rw [exec] at hexec
      cases hstep : s.step act with
      | none =>
          rw [hstep] at hexec
          cases hexec
      | some s₁ =>
          rw [hstep] at hexec
          obtain ⟨⟨-, hstays, -⟩, hrest⟩ := heach s₁ hstep
          exact ih (timeout_step h hstays hstep) hexec hrest

theorem endsInTimeout_of_fits (s : State) : s.EndsInTimeout Fits := by
  intro o comp acts s' ho hphase hmem hcomp hexec heach hlate
  induction acts generalizing s with
  | nil =>
      obtain ⟨now, answer, hin, -⟩ := hlate
      cases hin
  | cons act rest ih =>
      rw [exec] at hexec
      cases hstep : s.step act with
      | none =>
          rw [hstep] at hexec
          cases hexec
      | some s₁ =>
          rw [hstep] at hexec
          obtain ⟨⟨hfits, hstays, hnot⟩, hrest⟩ := heach s₁ hstep
          rcases rolling_step ho hphase hmem hcomp hfits hstays hnot hstep with
            htimeout | ⟨ho₁, hin⟩
          · exact timeout_run rest htimeout hexec hrest
          · refine ih s₁ ho₁ hexec hrest ?_
            obtain ⟨now, answer, htick, htime⟩ := hlate
            rcases List.mem_cons.1 htick with hact | hlater
            · exact absurd htime (Nat.not_lt.2 (hin now answer hact.symm))
            · exact ⟨now, answer, hlater, htime⟩

/-- Where the answered polls meet the condition, the overlay shows an update as
applied only when a ready pod runs the target version, and a rollout whose new
pod never becomes ready ends in the timeout. -/
theorem applied_of_fits (w : World) (s : State)
    (h : Reach State.step Fits (State.init w) s) :
    s.Sound ∧ s.EndsInTimeout Fits := by
  refine ⟨?_, endsInTimeout_of_fits s⟩
  refine h.inv (I := State.Sound) ?_ ?_
  · exact fun o w ho => nomatch ho
  · exact fun s act s' hs hfits hstep => hs.step hfits hstep

def frontend : Text :=
  "dashboard-frontend".toList

theorem frontend_mem :
    ⟨frontend, "Dashboard frontend".toList, .tag⟩ ∈ components :=
  List.mem_cons_self

def imageOf (tag : String) : Text :=
  "ghcr.io/jacobbista/dashboard-frontend:".toList ++ tag.toList

/-- One version runs, and the registry has a newer one. -/
def behind : World where
  site _ :=
    ⟨some (imageOf "1.0.0"), [⟨"old".toList, imageOf "1.0.0", [], true⟩]⟩
  registry :=
    ⟨fun _ => ["1.0.0".toList, "1.1.0".toList], fun _ _ => none⟩

def answers : Api :=
  ⟨fun _ => true, fun _ => true, fun _ => true, fun _ => true⟩

/-- An update whose new pod is ready at the first poll. -/
theorem applied_of_fits_readyPod :
    ∃ s : State, (∃ o w, s.overlay = some o ∧ o.phase = .done w) ∧
      s.Sound ∧ s.EndsInTimeout Fits := by
  have h₁ : Reach State.step Fits (State.init behind) _ :=
    Reach.refl.step (a := Act.update answers frontend) trivial rfl
  have h₂ := h₁.step (a := Act.back frontend .rollingOut 0)
    (fun o w ho => nomatch ho) rfl
  have h₃ := h₂.step (a := Act.created frontend 0
    ⟨"new".toList, imageOf "1.1.0", [], true⟩) trivial rfl
  refine ⟨_, ?_, applied_of_fits behind _
    (h₃.step (a := Act.tick 3000 (some answers)) ?_ rfl)⟩
  · exact ⟨_, _, rfl, rfl⟩
  · intro o ho _ comp hcomp hname
    cases ho
    cases component_eq hcomp frontend_mem hname
    constructor
    · intro image repo tag key latest himage _ _
      cases image_of_deployedImage himage
      exact .inr ⟨_, List.mem_cons_self, rfl, rfl⟩
    · intro image d himage hpin _ _
      cases image_of_deployedImage himage
      cases hpin

/-- An update of a pinned tag. The first poll finds the Deployment at the new
tag, and only the old pod. -/
theorem not_applied_oldPod :
    ¬ ∀ (w : World) (s : State), ReachAny State.step (State.init w) s →
      s.Sound ∧ s.EndsInTimeout (fun _ _ => True) := by
  intro h
  have h₁ : ReachAny State.step (State.init behind) _ :=
    Reach.refl.step (a := Act.update answers frontend) trivial rfl
  have h₂ := h₁.step (a := Act.back frontend .rollingOut 0) trivial rfl
  have h₃ := h₂.step (a := Act.tick 3000 (some answers)) trivial rfl
  obtain ⟨comp, hcomp, hname, p, hp, -, image, himage, hrun⟩ :=
    (h behind _ h₃).1 _ _ rfl rfl
  cases component_eq hcomp frontend_mem hname
  cases himage
  cases List.mem_singleton.1 hp
  have hsame : imageOf "1.0.0" = imageOf "1.1.0" := hrun
  exact absurd hsame (by decide)

end Runs

end SelfUpdate
end Frontend
end Kelt
