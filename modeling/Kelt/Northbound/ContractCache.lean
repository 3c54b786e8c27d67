import Kelt.Apps.Deploy
import Kelt.Lib.Json
import Kelt.Lib.Runs

/-!
# The cached contracts of the inventory

Each poll of the inventory asks every service without an entry in
`_CONTRACT_META` for its contract. The entry is kept under the image of the
spec, the contract is read from the newest pod that runs, and a read that fails
is kept as "no contract" once any pod of the service is ready. The entries are
right as long as no poll keeps what another image answered, or a failed read
that no ready pod of the image has confirmed (`justified_of_fits`).
-/

namespace Kelt
namespace Northbound
namespace ContractCache

universe u

section Cluster

/-- What `list_pods` has of a pod. -/
structure Pod where
  name : Text
  deployment : Option Text
  phase : Text
  restarts : Nat
  startTime : Option Text
  ready : Bool
  waitingReason : Option Text
  image : Option Text

structure Deployment where
  name : Text
  labels : List (Text × Text)
  image : Option Text
  replicas : Nat
  readyReplicas : Nat
  conditions : List (Text × Text)

structure Namespace where
  deployments : List Deployment
  services : List Text
  pods : List Pod

abbrev Cluster := Text → Namespace

/-- `start_time or ""` -/
def Pod.startKey (p : Pod) : Text :=
  p.startTime.getD []

def Pod.isLive (deployment : Text) (p : Pod) : Bool :=
  p.deployment == some deployment && p.phase == "Running".toList &&
    p.waitingReason.all List.isEmpty

/-- `running_pods` -/
def runningPods (pods : List Pod) (deployment : Text) : List Pod :=
  (pods.filter (Pod.isLive deployment)).insertionSort
    fun p q => ¬p.startKey < q.startKey

/-- `contract_pod` -/
def contractPod (pods : List Pod) (deployment : Text) : Option Pod :=
  (runningPods pods deployment).head?

/-- The pods of a deployment that run, run this image and no other. -/
def RunsOnly (pods : List Pod) (deployment : Text) (image : Option Text) :
    Prop :=
  runningPods pods deployment ≠ [] ∧
    ∀ p ∈ runningPods pods deployment, p.image = image

end Cluster

section Read

variable {ν : Type u}

/-- What comes of a read of `/contract`: the JSON of the answer, the answer of
the pod that it has no such endpoint, another status, or nothing that parses. -/
inductive Read (ν : Type u) where
  | answer (data : Json ν)
  | noEndpoint (reason : Text)
  | refused (status : Nat) (reason : Text)
  | failed

/-- What comes of the calls of a poll: which namespaces can be listed, which
Deployments can be read, and what the contract of a service is read as. -/
structure Api (ν : Type u) where
  deployments : Text → Bool
  pods : Text → Bool
  services : Text → Bool
  deployment : Text → Bool
  get : Text → Read ν

inductive ContractResult (ν : Type u) where
  | available (ns : Text) (contract : Json ν)
  | unavailable (ns : Option Text) (error : Text)

/-- The namespace in which `service_contract` finds the Service. -/
def serviceNamespace (namespaces : List Text) (c : Cluster) (api : Api ν)
    (name : Text) : Option Text :=
  namespaces.find? fun ns => api.services ns && (c ns).services.contains name

/-- Why a service is not asked; a Deployment that cannot be read is no reason. -/
def notServing (c : Cluster) (api : Api ν) (ns name : Text) : Option Text :=
  if api.deployment name = false then none
  else
    match (c ns).deployments.find? fun dep => dep.name == name with
    | none => none
    | some dep =>
        if dep.replicas = 0 then some "stopped (scaled to 0 replicas)".toList
        else if dep.readyReplicas = 0 ∧
            (contractPod (c ns).pods name).isNone then
          match (c ns).pods.findSome? fun p =>
              if p.deployment = some name then
                p.waitingReason.filter fun r => !r.isEmpty
              else none with
          | some reason =>
              some ("not ready (".toList ++ reason ++ ")".toList)
          | none => some "not ready (starting up)".toList
        else none

def unreachable : Text :=
  "contract endpoint unreachable".toList

/-- The text of an `ApiException`. -/
def unreachableHttp (status : Nat) (reason : Text) : Text :=
  if status = 0 then unreachable
  else
    unreachable ++ " (HTTP ".toList ++ (toString status).toList ++
      " ".toList ++ reason ++ ")".toList

/-- `service_contract` -/
def serviceContract (namespaces : List Text) (c : Cluster) (api : Api ν)
    (name : Text) : ContractResult ν :=
  match serviceNamespace namespaces c api name with
  | none => .unavailable none "service not found".toList
  | some ns =>
      match notServing c api ns name with
      | some error => .unavailable (some ns) error
      | none =>
          match contractPod (c ns).pods name with
          | none => .unavailable (some ns) unreachable
          | some _ =>
              match api.get name with
              | .answer data => .available ns data
              | .noEndpoint reason =>
                  .unavailable (some ns) (unreachableHttp 404 reason)
              | .refused status reason =>
                  .unavailable (some ns) (unreachableHttp status reason)
              | .failed => .unavailable (some ns) unreachable

/-- The pod that `service_contract` sends its request to. -/
def askedPod (namespaces : List Text) (c : Cluster) (api : Api ν)
    (name : Text) : Option Pod :=
  match serviceNamespace namespaces c api name with
  | none => none
  | some ns =>
      match notServing c api ns name with
      | some _ => none
      | none => contractPod (c ns).pods name

/-- A contract comes from the pod that was asked. -/
theorem serviceContract_available {namespaces : List Text} {c : Cluster}
    {api : Api ν} {name ns : Text} {data : Json ν}
    (h : serviceContract namespaces c api name = .available ns data) :
    ∃ p, askedPod namespaces c api name = some p ∧
      p ∈ runningPods (c ns).pods name ∧ api.get name = .answer data := by
  unfold serviceContract at h
  unfold askedPod
  cases hns : serviceNamespace namespaces c api name with
  | none =>
      rw [hns] at h
      cases h
  | some ns' =>
      rw [hns] at h
      simp only at h ⊢
      cases hnot : notServing c api ns' name with
      | some error =>
          rw [hnot] at h
          cases h
      | none =>
          rw [hnot] at h
          simp only at h ⊢
          cases hpod : contractPod (c ns').pods name with
          | none =>
              rw [hpod] at h
              cases h
          | some p =>
              rw [hpod] at h
              cases hget : api.get name with
              | answer d =>
                  rw [hget] at h
                  cases h
                  exact ⟨p, rfl, List.mem_of_mem_head? hpod, rfl⟩
              | noEndpoint reason =>
                  rw [hget] at h
                  cases h
              | refused status reason =>
                  rw [hget] at h
                  cases h
              | failed =>
                  rw [hget] at h
                  cases h

/-- What a pod that was asked has answered is the contract of the service. -/
theorem serviceContract_of_answer {namespaces : List Text} {c : Cluster}
    {api : Api ν} {name : Text} {p : Pod} {data : Json ν}
    (hp : askedPod namespaces c api name = some p)
    (hget : api.get name = .answer data) :
    ∃ ns, serviceContract namespaces c api name = .available ns data := by
  unfold askedPod at hp
  unfold serviceContract
  cases hns : serviceNamespace namespaces c api name with
  | none =>
      rw [hns] at hp
      cases hp
  | some ns =>
      rw [hns] at hp
      simp only at hp ⊢
      cases hnot : notServing c api ns name with
      | some error =>
          rw [hnot] at hp
          cases hp
      | none =>
          rw [hnot] at hp
          simp only at hp ⊢
          rw [hp, hget]
          exact ⟨ns, rfl⟩

end Read

section Inventory

variable {ν : Type u} [Zero ν] [DecidableEq ν]

structure Meta (ν : Type u) where
  kind : Json ν
  configurable : Bool
  subdomain : Json ν
  hasMapping : Bool

def Meta.noContract : Meta ν where
  kind := .null
  configurable := false
  subdomain := .null
  hasMapping := false

/-- `.get`, on what stands for an object. -/
def getField (name : String) (contract : Json ν) : Json ν :=
  (Json.field? name.toList contract).getD .null

/-- A contract without content reads as an empty object, and anything else that
is no object raises. -/
def contractMeta (contract : Json ν) : Option (Meta ν) :=
  match contract.pyTrue, contract with
  | false, _ => some ⟨.null, true, .null, false⟩
  | true, .obj fields =>
      some {
        kind := getField "kind" (.obj fields)
        configurable := true
        subdomain := getField "subdomain" (.obj fields)
        hasMapping := (getField "schema" (.obj fields)).pyTrue }
  | true, _ => none

structure Row (ν : Type u) where
  name : Text
  ns : Text
  image : Option Text
  runningImage : Option Text
  rollout : Text
  info : Meta ν

/-- The pod runs the image that is being deployed, and fails. -/
def Pod.isBad (p : Pod) : Bool :=
  ["CrashLoopBackOff", "ImagePullBackOff", "ErrImagePull"].any
      (fun reason => p.waitingReason == some reason.toList) ||
    (!p.ready && decide (0 < p.restarts))

def rollout (dep : Deployment) (pods : List Pod) : Text :=
  let current := pods.filter fun p => p.image == dep.image
  if current.any Pod.isBad ||
      dep.conditions.contains ("Progressing".toList, "False".toList) then
    "degraded".toList
  else if (current.filter Pod.ready).length < dep.replicas then
    "progressing".toList
  else "complete".toList

/-- The image of a ready pod of the rollout, or else of any ready pod. -/
def runningImage (dep : Deployment) (pods : List Pod) : Option Text :=
  let ready := pods.filter Pod.ready
  match ready.find? fun p => p.image == dep.image with
  | some p => p.image
  | none => ready.head?.bind Pod.image

def row (c : Cluster) (ns : Text) (dep : Deployment) (info : Meta ν) : Row ν :=
  let pods := (c ns).pods.filter fun p => p.deployment == some dep.name
  ⟨dep.name, ns, dep.image, runningImage dep pods, rollout dep pods, info⟩

/-- A service under an image. -/
abbrev Key := Text × Option Text

def Deployment.key (dep : Deployment) : Key :=
  (dep.name, dep.image)

/-- `_CONTRACT_META`, and the services that a ready pod of the image has said to
have no contract. -/
structure Memory (ν : Type u) where
  cache : Key → Option (Meta ν)
  denied : List Key

def Memory.keep (mem : Memory ν) (k : Key) (info : Meta ν) : Memory ν :=
  { mem with cache := Function.update mem.cache k (some info) }

/-- The image of the ready pod that has answered that there is no contract. -/
def denial (namespaces : List Text) (c : Cluster) (api : Api ν)
    (name : Text) : Option Key :=
  match askedPod namespaces c api name, api.get name with
  | some p, .noEndpoint _ => if p.ready then some (name, p.image) else none
  | _, _ => none

def Memory.note (mem : Memory ν) (k : Option Key) : Memory ν :=
  { mem with denied := k.toList ++ mem.denied }

/-- What the inventory does for one Deployment. -/
def visit (namespaces : List Text) (c : Cluster) (api : Api ν)
    (mem : Memory ν) (ns : Text) (dep : Deployment) :
    Memory ν × Option (Row ν) :=
  match mem.cache dep.key with
  | some info => (mem, some (row c ns dep info))
  | none =>
      if Apps.nameOk dep.name = false then (mem, none)
      else
        let mem := mem.note (denial namespaces c api dep.name)
        match serviceContract namespaces c api dep.name with
        | .available _ data =>
            match contractMeta data with
            | none => (mem, none)
            | some info =>
                (mem.keep dep.key info, some (row c ns dep info))
        | .unavailable _ _ =>
            (if 1 ≤ dep.readyReplicas then mem.keep dep.key .noContract
              else mem,
              some (row c ns dep .noContract))

def isEdgeApp (dep : Deployment) : Bool :=
  dep.labels.contains
    ("app.kubernetes.io/managed-by".toList, "dashboard-apps".toList)

/-- The Deployments that a poll visits. Where the pods of a namespace cannot be
listed it ends with an error. -/
def worklist (c : Cluster) (api : Api ν) :
    List Text → List (Option (Text × Deployment))
  | [] => []
  | ns :: rest =>
      if api.deployments ns = false then worklist c api rest
      else if api.pods ns = false then [none]
      else
        ((c ns).deployments.filter fun dep => !isEdgeApp dep).map
            (fun dep => some (ns, dep)) ++
          worklist c api rest

def visitAll (namespaces : List Text) (c : Cluster) (api : Api ν) :
    Memory ν → List (Option (Text × Deployment)) →
      Memory ν × Option (List (Row ν))
  | mem, [] => (mem, some [])
  | mem, none :: _ => (mem, none)
  | mem, some (ns, dep) :: rest =>
      match visit namespaces c api mem ns dep with
      | (mem', none) => (mem', none)
      | (mem', some row) =>
          ((visitAll namespaces c api mem' rest).1,
            (visitAll namespaces c api mem' rest).2.map (row :: ·))

/-- `inventory` -/
def inventory (namespaces : List Text) (c : Cluster) (api : Api ν)
    (mem : Memory ν) : Memory ν × Option (List (Row ν)) :=
  visitAll namespaces c api mem (worklist c api namespaces)

end Inventory

section System

variable {ν : Type u} [Zero ν] [DecidableEq ν]

structure State (ν : Type u) where
  cluster : Cluster
  mem : Memory ν

def State.init (c : Cluster) : State ν :=
  ⟨c, fun _ => none, []⟩

/-- The steps of a rollout, and a poll: a Deployment has another image or
status, a pod appears or changes, a pod is gone. -/
inductive Act (ν : Type u) where
  | deployment (ns : Text) (dep : Deployment)
  | pod (ns : Text) (p : Pod)
  | gone (ns name : Text)
  | poll (api : Api ν)

/-- Put where its name stands, or at the end. -/
def put {β : Type} (nameOf : β → Text) (b : β) : List β → List β
  | [] => [b]
  | b' :: rest =>
      if nameOf b' = nameOf b then b :: rest else b' :: put nameOf b rest

def Cluster.putDeployment (c : Cluster) (ns : Text) (dep : Deployment) :
    Cluster :=
  Function.update c ns
    { c ns with deployments := put Deployment.name dep (c ns).deployments }

def Cluster.putPod (c : Cluster) (ns : Text) (p : Pod) : Cluster :=
  Function.update c ns { c ns with pods := put Pod.name p (c ns).pods }

def Cluster.removePod (c : Cluster) (ns name : Text) : Cluster :=
  Function.update c ns
    { c ns with pods := (c ns).pods.filter fun p => p.name != name }

def State.step (namespaces : List Text) (s : State ν) :
    Act ν → Option (State ν)
  | .deployment ns dep =>
      some { s with cluster := s.cluster.putDeployment ns dep }
  | .pod ns p => some { s with cluster := s.cluster.putPod ns p }
  | .gone ns name => some { s with cluster := s.cluster.removePod ns name }
  | .poll api =>
      some { s with mem := (inventory namespaces s.cluster api s.mem).1 }

/-- The contract that an image has as a service, if it has one. -/
abbrev Serves (ν : Type u) := Text → Option Text → Option (Json ν)

/-- A pod answers with the contract of its image, and a ready pod says that it
has none only when it has none. -/
def Genuine (namespaces : List Text) (serves : Serves ν) (s : State ν) :
    Act ν → Prop
  | .poll api => ∀ name p, askedPod namespaces s.cluster api name = some p →
      (∀ data, api.get name = .answer data →
        serves name p.image = some data) ∧
      (p.ready = true → ∀ reason, api.get name = .noEndpoint reason →
        serves name p.image = none)
  | _ => True

/-- A "no contract" entry is what a ready pod of the image has answered. -/
def Justified (mem : Memory ν) : Prop :=
  ∀ k info, mem.cache k = some info → info.configurable = false →
    k ∈ mem.denied

/-- The service is shown with its contract. -/
def Row.ShowsContract (r : Row ν) (data : Json ν) : Prop :=
  r.info.configurable = true ∧ r.info.kind = getField "kind" data ∧
    r.info.subdomain = getField "subdomain" data ∧
    r.info.hasMapping = (getField "schema" data).pyTrue

/-- A poll that answers, and whose read of a contract succeeds or would, shows
the contract of the one image that runs. -/
def Shown (namespaces : List Text) (serves : Serves ν) (s : State ν)
    (api : Api ν) : Prop :=
  ∀ ns dep image data read rows,
    some (ns, dep) ∈ worklist s.cluster api namespaces →
    RunsOnly (s.cluster ns).pods dep.name image →
    serves dep.name image = some data →
    serviceContract namespaces s.cluster api dep.name = .available ns read →
    (inventory namespaces s.cluster api s.mem).2 = some rows →
    ∃ r ∈ rows, r.name = dep.name ∧ r.ns = ns ∧ r.ShowsContract data

end System

section Fits

variable {ν : Type u} [Zero ν] [DecidableEq ν]

/-- The condition on the visit of a Deployment. A kept entry is shown only while
the pod that would be asked has the contract of the spec's image; what is kept
of a contract is that of the spec's image; and no contract is kept only when a
ready pod of the spec's image has answered so. -/
structure VisitFits (namespaces : List Text) (serves : Serves ν) (c : Cluster)
    (api : Api ν) (mem : Memory ν) (ns : Text) (dep : Deployment) : Prop where
  kept : ∀ info p data image, mem.cache dep.key = some info →
    askedPod namespaces c api dep.name = some p →
    api.get dep.name = .answer data →
    RunsOnly (c ns).pods dep.name image →
    serves dep.name dep.image = some data
  answered : ∀ p data info, mem.cache dep.key = none →
    Apps.nameOk dep.name = true →
    askedPod namespaces c api dep.name = some p →
    api.get dep.name = .answer data → contractMeta data = some info →
    serves dep.name dep.image = some data
  silent : mem.cache dep.key = none → Apps.nameOk dep.name = true →
    1 ≤ dep.readyReplicas →
    (∃ p data, askedPod namespaces c api dep.name = some p ∧
        api.get dep.name = .answer data) ∨
      denial namespaces c api dep.name = some dep.key

/-- Every visit of a poll meets the condition. -/
def EachFits (namespaces : List Text) (serves : Serves ν) (c : Cluster)
    (api : Api ν) : Memory ν → List (Option (Text × Deployment)) → Prop
  | _, [] => True
  | _, none :: _ => True
  | mem, some (ns, dep) :: rest =>
      VisitFits namespaces serves c api mem ns dep ∧
        ((visit namespaces c api mem ns dep).2.isSome = true →
          EachFits namespaces serves c api
            (visit namespaces c api mem ns dep).1 rest)

def Fits (namespaces : List Text) (serves : Serves ν) (s : State ν) :
    Act ν → Prop
  | .poll api =>
      EachFits namespaces serves s.cluster api s.mem
        (worklist s.cluster api namespaces)
  | _ => True

end Fits

section Entries

variable {ν : Type u} [Zero ν] [DecidableEq ν]

theorem field?_of_not_pyTrue {contract : Json ν}
    (h : contract.pyTrue = false) (name : Text) :
    Json.field? name contract = none := by
  cases contract with
  | obj fields =>
      cases fields with
      | nil => rfl
      | cons f rest => cases h
  | _ => rfl

/-- What is kept of a contract shows it. -/
theorem showsContract_of_contractMeta {contract : Json ν} {info : Meta ν}
    (h : contractMeta contract = some info) :
    info.configurable = true ∧ info.kind = getField "kind" contract ∧
      info.subdomain = getField "subdomain" contract ∧
      info.hasMapping = (getField "schema" contract).pyTrue := by
  unfold contractMeta at h
  cases hpy : contract.pyTrue with
  | false =>
      rw [hpy] at h
      cases h
      have hfield (name : String) : getField name contract = .null := by
        rw [getField, field?_of_not_pyTrue hpy, Option.getD_none]
      rw [hfield, hfield, hfield]
      exact ⟨rfl, rfl, rfl, rfl⟩
  | true =>
      rw [hpy] at h
      cases contract with
      | obj fields =>
          cases h
          exact ⟨rfl, rfl, rfl, rfl⟩
      | _ => cases h

/-- The entries are those of the contracts, and "no contract" is what a ready
pod has answered. -/
structure Right (serves : Serves ν) (mem : Memory ν) : Prop where
  entry : ∀ (k : Key) info, mem.cache k = some info →
    (serves k.1 k.2 = none ∧ info = .noContract) ∨
      ∃ data, serves k.1 k.2 = some data ∧ contractMeta data = some info
  justified : Justified mem

omit [Zero ν] [DecidableEq ν] in
theorem Memory.keep_cache_of_ne {mem : Memory ν} {k k' : Key} (h : k' ≠ k)
    (info : Meta ν) : (mem.keep k info).cache k' = mem.cache k' :=
  Function.update_of_ne h _ _

omit [Zero ν] [DecidableEq ν] in
theorem Memory.keep_cache_self (mem : Memory ν) (k : Key) (info : Meta ν) :
    (mem.keep k info).cache k = some info :=
  Function.update_self _ _ _

theorem Right.note {serves : Serves ν} {mem : Memory ν}
    (h : Right serves mem) (k : Option Key) : Right serves (mem.note k) where
  entry := h.entry
  justified k' info hk hno :=
    List.mem_append_right _ (h.justified k' info hk hno)

/-- An entry may be kept when it is that of the image, and "no contract" only
when a ready pod has said so. -/
theorem Right.keep {serves : Serves ν} {mem : Memory ν}
    (h : Right serves mem) {k : Key} {info : Meta ν}
    (hentry : (serves k.1 k.2 = none ∧ info = .noContract) ∨
      ∃ data, serves k.1 k.2 = some data ∧ contractMeta data = some info)
    (hdenied : info.configurable = false → k ∈ mem.denied) :
    Right serves (mem.keep k info) := by
  constructor
  · intro k' info' hk'
    by_cases hkey : k' = k
    · subst hkey
      rw [Memory.keep_cache_self] at hk'
      cases hk'
      exact hentry
    · rw [Memory.keep_cache_of_ne hkey] at hk'
      exact h.entry k' info' hk'
  · intro k' info' hk' hno
    by_cases hkey : k' = k
    · subst hkey
      rw [Memory.keep_cache_self] at hk'
      cases hk'
      exact hdenied hno
    · rw [Memory.keep_cache_of_ne hkey] at hk'
      exact h.justified k' info' hk' hno

/-- The contract of an image may be kept for it. -/
theorem Right.keep_contract {serves : Serves ν} {mem : Memory ν}
    (h : Right serves mem) {k : Key} {data : Json ν} {info : Meta ν}
    (hserves : serves k.1 k.2 = some data)
    (hinfo : contractMeta data = some info) :
    Right serves (mem.keep k info) := by
  refine h.keep (.inr ⟨data, hserves, hinfo⟩) fun hno => ?_
  rw [(showsContract_of_contractMeta hinfo).1] at hno
  cases hno

end Entries

section Visits

variable {ν : Type u} [Zero ν] [DecidableEq ν]
variable {namespaces : List Text} {serves : Serves ν} {s : State ν}
  {api : Api ν} {mem : Memory ν} {ns : Text} {dep : Deployment}

omit [Zero ν] [DecidableEq ν] in
/-- A genuine denial is of an image without a contract. -/
theorem serves_of_denial (hgen : Genuine namespaces serves s (.poll api))
    {name : Text} {k : Key}
    (h : denial namespaces s.cluster api name = some k) :
    serves k.1 k.2 = none := by
  unfold denial at h
  split at h
  · next p reason hp hget =>
      split at h
      · next hready =>
          cases h
          exact (hgen name p hp).2 hready reason hget
      · cases h
  · cases h

theorem Right.visit (hmem : Right serves mem)
    (hgen : Genuine namespaces serves s (.poll api))
    (hfits : VisitFits namespaces serves s.cluster api mem ns dep) :
    Right serves (visit namespaces s.cluster api mem ns dep).1 := by
  unfold ContractCache.visit
  cases hkey : mem.cache dep.key with
  | some info => exact hmem
  | none =>
      simp only
      split
      · exact hmem
      · next hname =>
          have hname' : Apps.nameOk dep.name = true := by
            simpa using hname
          have hnote := hmem.note (denial namespaces s.cluster api dep.name)
          cases hread : serviceContract namespaces s.cluster api dep.name with
          | available ns' data =>
              simp only
              cases hinfo : contractMeta data with
              | none => exact hnote
              | some info =>
                  obtain ⟨p, hp, -, hget⟩ := serviceContract_available hread
                  exact hnote.keep_contract
                    (hfits.answered p data info hkey hname' hp hget hinfo) hinfo
          | unavailable ns' error =>
              simp only
              split
              · next hready =>
                  rcases hfits.silent hkey hname' hready with
                    ⟨p, data, hp, hget⟩ | hdenied
                  · obtain ⟨ns'', h⟩ := serviceContract_of_answer hp hget
                    rw [hread] at h
                    cases h
                  · have hnone := serves_of_denial hgen hdenied
                    refine hnote.keep (.inl ⟨hnone, rfl⟩) fun _ => ?_
                    rw [Memory.note, hdenied]
                    exact List.mem_cons_self
              · exact hnote

/-- Where the read of the contract succeeds, or would, the row shows it. -/
theorem shows_of_visit (hmem : Right serves mem)
    (hgen : Genuine namespaces serves s (.poll api))
    (hfits : VisitFits namespaces serves s.cluster api mem ns dep)
    {image : Option Text} {data read : Json ν} {r : Row ν}
    (hruns : RunsOnly (s.cluster ns).pods dep.name image)
    (hserves : serves dep.name image = some data)
    (hread : serviceContract namespaces s.cluster api dep.name =
      .available ns read)
    (hrow : (visit namespaces s.cluster api mem ns dep).2 = some r) :
    r.name = dep.name ∧ r.ns = ns ∧ r.ShowsContract data := by
  obtain ⟨p, hp, hrunning, hget⟩ := serviceContract_available hread
  -- the pod that is asked runs the image, and answers with its contract
  have hsame : read = data := by
    have hown := (hgen dep.name p hp).1 read hget
    rw [hruns.2 p hrunning, hserves] at hown
    exact (Option.some.inj hown).symm
  subst hsame
  unfold ContractCache.visit at hrow
  cases hkey : mem.cache dep.key with
  | some info =>
      rw [hkey] at hrow
      cases hrow
      have hspec := hfits.kept info p read image hkey hp hget hruns
      rcases hmem.entry dep.key info hkey with
        ⟨hnone, -⟩ | ⟨data', hdata', hinfo⟩
      · rw [Deployment.key, hspec] at hnone
        cases hnone
      · rw [Deployment.key, hspec] at hdata'
        cases hdata'
        exact ⟨rfl, rfl, showsContract_of_contractMeta hinfo⟩
  | none =>
      rw [hkey] at hrow
      simp only at hrow
      split at hrow
      · cases hrow
      · rw [hread] at hrow
        simp only at hrow
        cases hinfo : contractMeta read with
        | none =>
            rw [hinfo] at hrow
            cases hrow
        | some info =>
            rw [hinfo] at hrow
            cases hrow
            exact ⟨rfl, rfl, showsContract_of_contractMeta hinfo⟩

theorem Right.visitAll (hgen : Genuine namespaces serves s (.poll api))
    (work : List (Option (Text × Deployment))) (hmem : Right serves mem)
    (hfits : EachFits namespaces serves s.cluster api mem work) :
    Right serves (visitAll namespaces s.cluster api mem work).1 := by
  induction work generalizing mem with
  | nil => exact hmem
  | cons entry rest ih =>
      cases entry with
      | none => exact hmem
      | some v =>
          obtain ⟨ns, dep⟩ := v
          have hnext := hmem.visit hgen hfits.1
          rw [ContractCache.visitAll]
          cases hvisit :
              ContractCache.visit namespaces s.cluster api mem ns dep with
          | mk mem' r =>
              rw [hvisit] at hnext
              cases r with
              | none => exact hnext
              | some r =>
                  refine ih hnext ?_
                  have hrest := hfits.2 (by rw [hvisit]; rfl)
                  rwa [hvisit] at hrest

theorem shown_of_visitAll (hgen : Genuine namespaces serves s (.poll api))
    (work : List (Option (Text × Deployment))) (hmem : Right serves mem)
    (hfits : EachFits namespaces serves s.cluster api mem work)
    {image : Option Text} {data read : Json ν} {rows : List (Row ν)}
    (hwork : some (ns, dep) ∈ work)
    (hruns : RunsOnly (s.cluster ns).pods dep.name image)
    (hserves : serves dep.name image = some data)
    (hread : serviceContract namespaces s.cluster api dep.name =
      .available ns read)
    (hrows : (visitAll namespaces s.cluster api mem work).2 = some rows) :
    ∃ r ∈ rows, r.name = dep.name ∧ r.ns = ns ∧ r.ShowsContract data := by
  induction work generalizing mem rows with
  | nil => cases hwork
  | cons entry rest ih =>
      cases entry with
      | none => cases hrows
      | some v =>
          obtain ⟨ns', dep'⟩ := v
          have hnext := hmem.visit hgen hfits.1
          rw [ContractCache.visitAll] at hrows
          cases hvisit :
              ContractCache.visit namespaces s.cluster api mem ns' dep' with
          | mk mem' o =>
              rw [hvisit] at hnext hrows
              cases o with
              | none => cases hrows
              | some r =>
                  have hrest := hfits.2 (by rw [hvisit]; rfl)
                  rw [hvisit] at hrest
                  obtain ⟨rows', hrows', rfl⟩ := Option.map_eq_some_iff.1 hrows
                  rcases List.mem_cons.1 hwork with hhere | hlater
                  · cases hhere
                    exact ⟨r, List.mem_cons_self,
                      shows_of_visit hmem hgen hfits.1 hruns hserves hread
                        (by rw [hvisit])⟩
                  · obtain ⟨r', hmem', hr'⟩ := ih hnext hrest hlater hrows'
                    exact ⟨r', List.mem_cons_of_mem _ hmem', hr'⟩

end Visits

section Runs

variable {ν : Type u} [Zero ν] [DecidableEq ν]

/-- A step that meets the condition keeps the entries right. -/
theorem Right.step {namespaces : List Text} {serves : Serves ν}
    {s s' : State ν} {act : Act ν} (h : Right serves s.mem)
    (hgen : Genuine namespaces serves s act)
    (hfits : Fits namespaces serves s act)
    (hstep : s.step namespaces act = some s') : Right serves s'.mem := by
  cases act with
  | deployment ns dep =>
      cases hstep
      exact h
  | pod ns p =>
      cases hstep
      exact h
  | gone ns name =>
      cases hstep
      exact h
  | poll api =>
      cases hstep
      exact h.visitAll hgen _ hfits

theorem right_of_reach {namespaces : List Text} {serves : Serves ν}
    {c : Cluster} {s : State ν}
    (h : Reach (State.step namespaces)
      (fun s act => Genuine namespaces serves s act ∧
        Fits namespaces serves s act) (State.init c) s) :
    Right serves s.mem := by
  refine h.inv (I := fun s => Right serves s.mem) ?_ ?_
  · exact ⟨fun _ _ hk => (nomatch hk), fun _ _ hk _ => (nomatch hk)⟩
  · intro s act s' hs hok hstep
    exact hs.step hok.1 hok.2 hstep

/-- Where the polls meet the condition, every "no contract" entry is what a
ready pod of the image has answered, and the polls show the contracts. -/
theorem justified_of_fits (namespaces : List Text) (serves : Serves ν)
    (c : Cluster) (s : State ν)
    (h : Reach (State.step namespaces)
      (fun s act => Genuine namespaces serves s act ∧
        Fits namespaces serves s act) (State.init c) s) :
    Justified s.mem ∧
      ∀ api, Genuine namespaces serves s (.poll api) →
        Fits namespaces serves s (.poll api) →
        Shown namespaces serves s api := by
  have hright := right_of_reach h
  refine ⟨hright.justified, ?_⟩
  intro api hgen hfits ns dep image data read rows hwork hruns hserves hread
    hrows
  exact shown_of_visitAll hgen _ hright hfits hwork hruns hserves hread hrows

def positioning : Text :=
  "positioning".toList

def adapter : Text :=
  "wifi-adapter".toList

def oldImage : Option Text :=
  some "wifi-adapter:1".toList

def newImage : Option Text :=
  some "wifi-adapter:2".toList

/-- One contract, of both images. -/
def bothServe : Serves Int :=
  fun _ _ => some (.obj [("kind".toList, .str "internal".toList)])

def adapterPod (name started : String) (ready : Bool) (image : Option Text) :
    Pod where
  name := name.toList
  deployment := some adapter
  phase := "Running".toList
  restarts := 0
  startTime := some started.toList
  ready := ready
  waitingReason := none
  image := image

def adapterDeployment (image : Option Text) : Deployment :=
  ⟨adapter, [], image, 1, 1, []⟩

/-- The old image runs. -/
def running : Cluster :=
  fun _ =>
    ⟨[adapterDeployment oldImage], [adapter],
      [adapterPod "old" "2026-09-01" true oldImage]⟩

/-- Every call answers, and contracts are read so. -/
def reads (get : Read Int) : Api Int :=
  ⟨fun _ => true, fun _ => true, fun _ => true, fun _ => true, fun _ => get⟩

def contractRead : Read Int :=
  .answer (.obj [("kind".toList, .str "internal".toList)])

theorem genuine_contractRead (s : State Int) :
    Genuine [positioning] bothServe s (.poll (reads contractRead)) := by
  intro name p hp
  refine ⟨fun data hdata => ?_, fun _ reason hreason => nomatch hreason⟩
  cases hdata
  rfl

theorem genuine_failed (s : State Int) :
    Genuine [positioning] bothServe s (.poll (reads .failed)) :=
  fun _ _ _ => ⟨fun _ h => (nomatch h), fun _ _ h => (nomatch h)⟩

/-- A poll of the service in its one version. -/
theorem justified_of_fits_oneImage :
    ∃ s : State Int, s.mem.cache (adapter, oldImage) ≠ none ∧
      Justified s.mem ∧
        ∀ api, Genuine [positioning] bothServe s (.poll api) →
          Fits [positioning] bothServe s (.poll api) →
          Shown [positioning] bothServe s api := by
  refine ⟨_, ?_, justified_of_fits [positioning] bothServe running _
    (Reach.refl.step (a := Act.poll (reads contractRead)) ⟨?_, ?_⟩ rfl)⟩
  · exact fun h => nomatch h
  · exact genuine_contractRead _
  · refine ⟨⟨?_, ?_, ?_⟩, fun _ => trivial⟩
    · exact fun _ _ _ _ hkept => nomatch hkept
    · intro p data info _ _ _ hget _
      cases hget
      rfl
    · exact fun _ _ _ => .inl ⟨_, _, rfl, rfl⟩

/-- An upgrade: the new pod runs but does not answer yet, while the old one is
ready. The poll in between keeps that the new image has no contract. -/
theorem not_justified_rollout :
    ¬ ∀ (namespaces : List Text) (serves : Serves Int) (c : Cluster)
        (s : State Int),
      Reach (State.step namespaces) (Genuine namespaces serves) (State.init c)
        s →
      Justified s.mem ∧
        ∀ api, Genuine namespaces serves s (.poll api) →
          Shown namespaces serves s api := by
  intro h
  have h₁ : Reach (State.step [positioning]) (Genuine [positioning] bothServe)
      (State.init running) _ :=
    Reach.refl.step (a := Act.deployment positioning
      (adapterDeployment newImage)) trivial rfl
  have h₂ := h₁.step (a := Act.pod positioning
    (adapterPod "new" "2026-09-02" false newImage)) trivial rfl
  have h₃ := h₂.step (a := Act.poll (reads .failed)) (genuine_failed _) rfl
  have hmem := (h [positioning] bothServe running _ h₃).1
    (adapter, newImage) .noContract rfl rfl
  cases hmem

end Runs

end ContractCache
end Northbound
end Kelt
