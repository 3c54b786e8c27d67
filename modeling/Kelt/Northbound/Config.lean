import Kelt.Apps.Deploy
import Kelt.Lib.Dict
import Kelt.Lib.Layers

/-!
# Configuring a northbound service

`apply_service_config` writes the requested values to the two objects of the
operator, the ConfigMap `<name>-config` and the Secret `<name>-secrets`; which
of the two is said by the service's contract. A key that the deployment provides
from elsewhere is refused. The pod reads the sources of its deployment in order:
each `envFrom` entry, then `env`.

The writes and the restart of the deployment are taken to succeed; a read can
fail, and counts as one that finds nothing. `envFrom` entries have no prefix.
-/

namespace Kelt
namespace Northbound

open Apps

section Config

/-- An entry of `envFrom`. -/
structure EnvFrom where
  configMapRef : Option Text
  secretRef : Option Text
deriving DecidableEq

/-- The container of a deployment: where its environment comes from. -/
structure Deployment where
  envFrom : List EnvFrom
  env : List (Text × Text)
deriving DecidableEq

/-- What a source of the environment refers to. -/
inductive Ref where
  | configmap (name : Text)
  | secret (name : Text)
  | inline
deriving DecidableEq

/-- The namespace of a service, as far as its environment goes. -/
structure Cluster where
  configMaps : Text → Option Data
  secrets : Text → Option Data
  deployment : Deployment

/-- The sources in order of precedence, the strongest last. -/
def Deployment.refs (d : Deployment) : List Ref :=
  d.envFrom.flatMap (fun ef =>
      (ef.configMapRef.map Ref.configmap).toList ++
        (ef.secretRef.map Ref.secret).toList) ++
    if d.env.any (fun e => !e.1.isEmpty) then [.inline] else []

/-- `{e.name: e.value for e in env if e.name}` -/
def Deployment.inline (d : Deployment) : Data := fun k =>
  (d.env.reverse.find? (fun e => !e.1.isEmpty && e.1 == k)).map Prod.snd

namespace Cluster

/-- What a source has in it; an object that is missing has nothing. -/
def data (c : Cluster) : Ref → Data
  | .configmap name => (c.configMaps name).getD .empty
  | .secret name => (c.secrets name).getD .empty
  | .inline => c.deployment.inline

/-- The value that the pod sees: that of the last source with the key. -/
def effective (c : Cluster) (k : Text) : Option Text :=
  Layers.lookup c.data c.deployment.refs k

end Cluster

/-- Which of the reads answer. -/
structure Reads where
  deployment : Bool
  configMap : Text → Bool
  secret : Text → Bool

def Reads.answers (reads : Reads) : Ref → Bool
  | .configmap name => reads.configMap name
  | .secret name => reads.secret name
  | .inline => true

def configName (name : Text) : Text :=
  name ++ "-config".toList

def secretName (name : Text) : Text :=
  name ++ "-secrets".toList

/-- A source as `_env_sources` lists it: its keys, and whether it is the
operator's. -/
structure Source where
  ref : Ref
  has : Text → Bool
  operator : Bool

def Cluster.source (c : Cluster) (reads : Reads) (name : Text) (r : Ref) :
    Source where
  ref := r
  has := fun k => reads.answers r && (c.data r k).isSome
  operator :=
    r == .configmap (configName name) || r == .secret (secretName name)

/-- `_env_sources` -/
def Cluster.envSources (c : Cluster) (reads : Reads) (name : Text) :
    List Source :=
  if reads.deployment then
    c.deployment.refs.map (c.source reads name)
  else []

/-- `_effective` -/
def effectiveSource (sources : List Source) (key : Text) : Option Source :=
  sources.foldl (fun hit src => if src.has key then some src else hit) none

/-- A variable of the contract. -/
structure ContractVar where
  name : Text
  sensitive : Bool
  type : Text
deriving DecidableEq

/-- The groups of `env` in `/contract`. -/
structure Contract where
  required : List ContractVar
  recommended : List ContractVar
  optional : List ContractVar
deriving DecidableEq

namespace Contract

def vars (ct : Contract) : List ContractVar :=
  ct.required ++ ct.recommended ++ ct.optional

def knows (ct : Contract) (k : Text) : Bool :=
  ct.vars.any (fun e => e.name == k)

/-- `sensitive.get(k)`: the last variable of the name counts. -/
def sensitive (ct : Contract) (k : Text) : Bool :=
  ((ct.vars.reverse.find? (fun e => e.name == k)).map
    ContractVar.sensitive).getD false

/-- `json_typed` -/
def jsonTyped (ct : Contract) : List Text :=
  (ct.vars.filter (fun e => e.type.map Char.toLower == "json".toList)).map
    ContractVar.name

/-- The operator's object for a key. -/
def target (ct : Contract) (name k : Text) : Ref :=
  if ct.sensitive k then .secret (secretName name)
  else .configmap (configName name)

end Contract

/-- The requested values; `none` asks to unset the key. -/
abbrev Values := Dict Text (Option Text)

/-- The `ValueError`s of `apply_service_config`. -/
inductive Refused where
  | name
  | unavailable
  | unknown (keys : List Text)
  | jsonObject (key : Text)
  | ownedElsewhere (keys : List Text)
deriving DecidableEq

def sorted (keys : List Text) : List Text :=
  keys.mergeSort (fun n m => !(m < n))

/-- The requested value is empty, absent or a JSON object. -/
def jsonFine (jsonObject : Text → Bool) (values : Values) (k : Text) : Bool :=
  match values.get? k with
  | some (some v) => v.isEmpty || jsonObject v
  | _ => true

/-- The checks of `apply_service_config`, up to its first write; `contract` is
what `service_contract` has of an available service. -/
def check (jsonObject : Text → Bool) (contract : Option Contract)
    (reads : Reads) (c : Cluster) (name : Text) (values : Values) :
    Except Refused Contract :=
  if !nameOk name then .error .name
  else
    match contract with
    | none => .error .unavailable
    | some ct =>
        let unknown := values.keys.filter (fun k => !ct.knows k)
        if !unknown.isEmpty then .error (.unknown (sorted unknown))
        else
          match ct.jsonTyped.find? (fun k => !jsonFine jsonObject values k) with
          | some k => .error (.jsonObject k)
          | none =>
              let sources := c.envSources reads name
              let elsewhere := values.keys.filter (fun k =>
                (effectiveSource sources k).any (fun src => !src.operator))
              if !elsewhere.isEmpty then
                .error (.ownedElsewhere (sorted elsewhere))
              else .ok ct

/-- `cm_vars` for `false` and `secret_vars` for `true`. -/
def setVars (ct : Contract) (values : Values) (b : Bool) : Data := fun k =>
  if ct.sensitive k == b then (values.get? k).join else none

def hasSetVars (ct : Contract) (values : Values) (b : Bool) : Bool :=
  values.items.any (fun kv => kv.2.isSome && ct.sensitive kv.1 == b)

/-- `cm_unset` for `false` and `secret_unset` for `true`. -/
def unsetKeys (ct : Contract) (values : Values) (b : Bool) (k : Text) : Bool :=
  ct.sensitive k == b && values.get? k == some none

def hasUnsetKeys (ct : Contract) (values : Values) (b : Bool) : Bool :=
  values.items.any (fun kv => kv.2.isNone && ct.sensitive kv.1 == b)

/-- Data without some keys. -/
def without (keys : Text → Bool) (d : Data) : Data := fun k =>
  if keys k then none else d k

namespace Cluster

/-- `apply_configmap` -/
def applyConfigmap (c : Cluster) (n : Text) (new : Data) : Cluster :=
  { c with
    configMaps := Function.update c.configMaps n
      (some (((c.configMaps n).getD .empty).patch new)) }

/-- `upsert_secret` -/
def upsertSecret (c : Cluster) (n : Text) (new : Data) : Cluster :=
  { c with
    secrets := Function.update c.secrets n
      (some (((c.secrets n).getD .empty).patch new)) }

/-- `unset_configmap_keys` -/
def unsetConfigmapKeys (c : Cluster) (n : Text) (keys : Text → Bool) :
    Cluster :=
  { c with
    configMaps := Function.update c.configMaps n
      ((c.configMaps n).map (without keys)) }

/-- `unset_secret_keys` -/
def unsetSecretKeys (c : Cluster) (n : Text) (keys : Text → Bool) : Cluster :=
  { c with
    secrets := Function.update c.secrets n
      ((c.secrets n).map (without keys)) }

/-- The writes of `apply_service_config`. -/
def write (c : Cluster) (ct : Contract) (name : Text) (values : Values) :
    Cluster :=
  let cm := configName name
  let secret := secretName name
  let c := if hasSetVars ct values false then
    c.applyConfigmap cm (setVars ct values false) else c
  let c := if hasSetVars ct values true then
    c.upsertSecret secret (setVars ct values true) else c
  let c := if hasUnsetKeys ct values false then
    c.unsetConfigmapKeys cm (unsetKeys ct values false) else c
  if hasUnsetKeys ct values true then
    c.unsetSecretKeys secret (unsetKeys ct values true) else c

end Cluster

/-- What `apply_service_config` returns. -/
structure Applied where
  configMap : Option Text
  secret : Option Text
  applied : List Text
deriving DecidableEq

/-- `apply_service_config` -/
def applyServiceConfig (jsonObject : Text → Bool) (contract : Option Contract)
    (reads : Reads) (c : Cluster) (name : Text) (values : Values) :
    Except Refused Applied × Cluster :=
  match check jsonObject contract reads c name values with
  | .error e => (.error e, c)
  | .ok ct =>
      (.ok
        { configMap :=
            if hasSetVars ct values false then some (configName name) else none
          secret :=
            if hasSetVars ct values true then some (secretName name) else none
          applied := sorted values.keys },
        c.write ct name values)

end Config

end Northbound
end Kelt
