import Kelt.Lib.IpAddress
import Kelt.Lib.KeyedMerge
import Kelt.Lib.PyText

/-!
# Deploying an edge app

`deploy_app` checks the request, writes the app's ConfigMap and Secret, and then
builds the manifest of its Deployment, with more checks on the way; the Service
comes last. `App` is what the cluster has of one app name. What all manifests of
an app have alike (labels, selector, node, resources, the names in `envFrom`) is
left out.

A patch follows the strategic merge of Kubernetes: keys that the patch lacks are
kept, and lists are merged by their merge key (`Patcher`). The one container of
an app has the app's name.
-/

namespace Kelt
namespace Apps

open Ip

section Deploy

/-- The data of a ConfigMap or a Secret. -/
abbrev Data := Text → Option Text

def Data.empty : Data :=
  fun _ => none

/-- Patched data: the patch first, what it lacks is kept. -/
def Data.patch (d new : Data) : Data :=
  fun k => (new k).or (d k)

structure EnvVar where
  name : Text
  value : Text
  sensitive : Bool
deriving DecidableEq

/-- `AppDeployRequest` -/
structure Request where
  name : Text
  image : Text
  port : Int
  replicas : Int
  env : List EnvVar
  imagePullSecret : Option Text
  expose : Bool
  attachMec : Bool
  mecIp : Option Text
  udpPorts : List Int
deriving DecidableEq

/-- `{e.name: e.value for e in req.env if e.sensitive == sensitive}` -/
def Request.data (req : Request) (sensitive : Bool) : Data := fun k =>
  (req.env.reverse.find?
    (fun e => e.sensitive == sensitive && e.name == k)).map EnvVar.value

/-- The request has a sensitive variable. -/
def Request.hasSecrets (req : Request) : Bool :=
  req.env.any EnvVar.sensitive

inductive Proto where
  | tcp
  | udp
deriving DecidableEq

/-- A port of the container, as stored: TCP unless it says otherwise. -/
structure Port where
  containerPort : Int
  protocol : Proto
  name : Text
deriving DecidableEq

/-- A port of a manifest. -/
structure PortItem where
  containerPort : Int
  protocol : Option Proto
  name : Text
deriving DecidableEq

/-- Ports are merged by `containerPort`. -/
def portPatcher : Patcher Int Port PortItem where
  key := Port.containerPort
  patchKey := PortItem.containerPort
  put := fun o item =>
    { containerPort := item.containerPort
      protocol := item.protocol.getD ((o.map Port.protocol).getD .tcp)
      name := item.name }
  key_put := fun _ _ => rfl

/-- Pull secrets are merged by their name, which is all they have. -/
def namePatcher : Patcher Text Text Text where
  key := id
  patchKey := id
  put := fun _ name => name
  key_put := fun _ _ => rfl

/-- The networks annotation: the attachment definition, its namespace and the
requested address. -/
structure Net where
  nad : Text
  ns : Text
  ip : Option (IpAddress × Nat)
deriving DecidableEq

/-- The pod template, with the annotations for the image tag and the networks. -/
structure Template where
  imageTag : Text
  networks : Option Net
  image : Text
  ports : List Port
  probePort : Int
  pullSecrets : List Text
deriving DecidableEq

structure Deployment where
  replicas : Int
  template : Template
deriving DecidableEq

/-- What a manifest of the Deployment says. -/
structure Manifest where
  replicas : Int
  imageTag : Text
  networks : Option Net
  image : Text
  ports : List PortItem
  probePort : Int
  pullSecret : Option Text

def Manifest.create (m : Manifest) : Deployment where
  replicas := m.replicas
  template :=
    { imageTag := m.imageTag
      networks := m.networks
      image := m.image
      ports := portPatcher.create m.ports
      probePort := m.probePort
      pullSecrets := m.pullSecret.toList }

/-- The pull secrets are kept when the manifest has none. -/
def patchSecrets (old : List Text) : Option Text → List Text
  | none => old
  | some name => namePatcher.apply old [name]

def Manifest.patch (m : Manifest) (d : Deployment) : Deployment where
  replicas := m.replicas
  template :=
    { imageTag := m.imageTag
      networks := m.networks.or d.template.networks
      image := m.image
      ports := portPatcher.apply d.template.ports m.ports
      probePort := m.probePort
      pullSecrets := patchSecrets d.template.pullSecrets m.pullSecret }

/-- The published Service: its target port. -/
structure Service where
  targetPort : Int
deriving DecidableEq

/-- What the cluster has of one app. -/
structure App where
  config : Option Data
  secret : Option Data
  deployment : Option Deployment
  service : Option Service

def App.empty : App :=
  ⟨none, none, none, none⟩

/-- `apply_configmap` -/
def App.applyConfigmap (app : App) (data : Data) : App :=
  { app with config := some ((app.config.getD .empty).patch data) }

/-- `upsert_secret` -/
def App.upsertSecret (app : App) (data : Data) : App :=
  { app with secret := some ((app.secret.getD .empty).patch data) }

/-- `upsert_deployment` -/
def App.upsertDeployment (app : App) (m : Manifest) : App :=
  { app with
    deployment := some
      (match app.deployment with
      | none => m.create
      | some d => m.patch d) }

/-- `upsert_service` or `delete_service` -/
def App.setService (app : App) (service : Option Service) : App :=
  { app with service := service }

/-- `$` also matches before a newline at the end. -/
def dropNewline (t : Text) : Text :=
  if t.getLast? = some '\n' then t.dropLast else t

def isLowerAlnum (c : Char) : Bool :=
  ('a' ≤ c && c ≤ 'z') || ('0' ≤ c && c ≤ '9')

def isAlnum (c : Char) : Bool :=
  isLowerAlnum c || ('A' ≤ c && c ≤ 'Z')

/-- `_NAME_RE` -/
def nameOk (t : Text) : Bool :=
  let t := dropNewline t
  t.all (fun c => isLowerAlnum c || c == '-') && decide (t.length ≤ 63) &&
    t.head?.any isLowerAlnum && t.getLast?.any isLowerAlnum

/-- `_IMAGE_RE` -/
def imageOk (t : Text) : Bool :=
  match dropNewline t with
  | [] => false
  | c :: rest =>
      isAlnum c && decide (rest.length ≤ 255) &&
        rest.all (fun c => isAlnum c || "._-/:@".toList.contains c)

/-- Settings and the network plan. -/
structure Settings where
  ns : Text
  n6mNad : Text
  n6mStaticNad : Text
  staticBand : IpNetwork
  subnetLength : Nat
  registryHost : Text
  externalScheme : Text
  externalBaseDomain : Text
  keltPrefix : Text

/-- `_public_url` -/
def Settings.publicUrl (s : Settings) (name : Text) (exposed : Bool) :
    Option Text :=
  if exposed = true ∧ s.externalBaseDomain ≠ [] then
    some (s.externalScheme ++ "://".toList ++ s.keltPrefix ++ "-".toList ++
      name ++ ".".toList ++ s.externalBaseDomain)
  else
    none

/-- What the registry answers for a repository and a tag. -/
abbrev Registry := Text → Text → Option Text

/-- `resolve_pinned_ref`: the reference to deploy. -/
def resolvePinnedRef (host : Text) (digestOf : Registry) (image : Text) :
    Text :=
  if host = [] ∨ ¬ (host ++ "/".toList) <+: image ∨
      "@sha256:".toList <:+: image then
    image
  else
    let ref := image.drop (host.length + 1)
    let (repo, tag) :=
      if ':' ∈ ref then
        ((after ':' ref.reverse).reverse, (before ':' ref.reverse).reverse)
      else
        (ref, "latest".toList)
    match digestOf repo tag with
    | none => image
    | some [] => image
    | some digest => host ++ "/".toList ++ repo ++ "@".toList ++ digest

/-- Why a request is invalid. -/
inductive Invalid where
  | name (name : Text)
  | image (image : Text)
  | address (address : Text)
  | outsideBand (band : IpNetwork)
deriving DecidableEq

/-- The networks annotation of a request. -/
def networksOf (s : Settings) (req : Request) : Except Invalid (Option Net) :=
  if req.attachMec then
    match req.mecIp with
    | none => .ok (some ⟨s.n6mNad, s.ns, none⟩)
    | some [] => .ok (some ⟨s.n6mNad, s.ns, none⟩)
    | some requested =>
        match ipAddress (String.ofList (before '/' requested)) with
        | none => .error (.address (before '/' requested))
        | some ip =>
            if mem ip s.staticBand then
              .ok (some ⟨s.n6mStaticNad, s.ns, some (ip, s.subnetLength)⟩)
            else
              .error (.outsideBand s.staticBand)
  else
    .ok none

/-- The ports of the container: the HTTP port, then the UDP ports. -/
def Request.ports (req : Request) : List PortItem :=
  ⟨req.port, none, "http".toList⟩ ::
    req.udpPorts.mapIdx (fun i up =>
      ⟨up, some .udp, "udp".toList ++ (toString i).toList⟩)

/-- An empty name counts as none. -/
def Request.pullSecret (req : Request) : Option Text :=
  req.imagePullSecret.filter (fun name => decide (name ≠ []))

def manifestOf (s : Settings) (digestOf : Registry) (req : Request)
    (networks : Option Net) : Manifest where
  replicas := req.replicas
  imageTag := req.image
  networks := networks
  image := resolvePinnedRef s.registryHost digestOf req.image
  ports := req.ports
  probePort := req.port
  pullSecret := req.pullSecret

structure Response where
  name : Text
  ns : Text
  exposed : Bool
  publicUrl : Option Text
  mecAttached : Bool
  mecIp : Option Text
deriving DecidableEq

inductive Outcome where
  | deployed (response : Response)
  | rejected (e : Invalid)
deriving DecidableEq

def responseOf (s : Settings) (req : Request) : Response where
  name := req.name
  ns := s.ns
  exposed := req.expose
  publicUrl := s.publicUrl req.name req.expose
  mecAttached := req.attachMec
  mecIp :=
    if req.attachMec then
      match req.mecIp with
      | none => some "dynamic".toList
      | some [] => some "dynamic".toList
      | some ip => some ip
    else
      none

/-- The writes of the ConfigMap and, where there is something for it, of the
Secret. -/
def App.applyEnv (app : App) (req : Request) : App :=
  let app := app.applyConfigmap (req.data false)
  if req.hasSecrets then app.upsertSecret (req.data true) else app

/-- `deploy_app` -/
def deployApp (s : Settings) (digestOf : Registry) (req : Request)
    (app : App) : Outcome × App :=
  if nameOk req.name = false then
    (.rejected (.name req.name), app)
  else if imageOk req.image = false then
    (.rejected (.image req.image), app)
  else
    let app := app.applyEnv req
    match networksOf s req with
    | .error e => (.rejected e, app)
    | .ok networks =>
        let app := app.upsertDeployment (manifestOf s digestOf req networks)
        let app := app.setService
          (if req.expose then some ⟨req.port⟩ else none)
        (.deployed (responseOf s req), app)

end Deploy

end Apps
end Kelt
