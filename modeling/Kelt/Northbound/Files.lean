import Kelt.Apps.Deploy
import Kelt.Lib.Dict
import Kelt.Piece.Registry

/-!
# Files of a northbound service

`apply_service_file` stores a document in the ConfigMap `<name>-files` under the
last part of its path, mounts it at the path, and restarts the deployment. The
document that a stateful image writes itself lies on a volume of its own: that
one is mounted, and the content is written into the new pod.
`get_service_file` reads the ConfigMap, or the file in the pod.

A pod has the mounted files, the volume, and a layer of its own that a new pod
starts afresh from its image. Reads come after the rollout, and the API server
answers them. Mounts of other volumes count as part of the image.
-/

namespace Kelt
namespace Northbound

open Apps

section Files

/-- `path.rsplit("/", 1)[-1]` -/
def baseName (path : Text) : Text :=
  path.rtakeWhile (fun c => c != '/')

/-- `path.rsplit("/", 1)[-1] or "file"` -/
def fileKey (path : Text) : Text :=
  if baseName path = [] then "file".toList else baseName path

/-- `_image_basename` -/
def imageBasename (image : Text) : Text :=
  before ':' (before '@' (baseName image))

/-- The document that an image writes at run time. -/
structure StatefulDoc where
  env : Text
  path : Text
deriving DecidableEq

/-- `_STATEFUL_DOCS` -/
def statefulDocs : Dict Text StatefulDoc :=
  Dict.single "wifi-adapter".toList
    ⟨"WIFI_CONFIG_PATH".toList, "/app/config/wifi-config.json".toList⟩

/-- `STORE_DIR` -/
def storeDir : Text :=
  "/data".toList

/-- The path lies in the directory of the store. -/
def inStore (path : Text) : Bool :=
  (storeDir ++ ['/']).isPrefixOf path

/-- `f"{STORE_DIR}/{fname}"` -/
def storePath (doc : StatefulDoc) : Text :=
  storeDir ++ '/' :: fileKey doc.path

/-- A volume mount: a key of `<name>-files`, or the store. -/
inductive Mount where
  | file (key : Text)
  | store
deriving DecidableEq

/-- What there is of one service: the ConfigMap `<name>-files`, the mounts of
its container by their paths, the files of its volume, and the layer of its pod,
if one is running. -/
structure FileStore where
  files : Data
  mounts : Dict Text Mount
  disk : Data
  layer : Data
  up : Bool

/-- The service and what its pods run on. `client` is what the Kubernetes client
makes of the output of a command, `word` the class `\w`. -/
structure World where
  name : Text
  image : Text
  base : Data
  json : Text → Bool
  client : Text → Text
  word : Char → Bool
  valid : nameOk name = true

namespace World

variable (w : World)

/-- `_stateful_spec` -/
def statefulSpec : Option StatefulDoc :=
  statefulDocs.get? (imageBasename w.image)

/-- The document of the image, if the path is in
`_writable_doc_path(name, ns)`. -/
def writableDoc (path : Text) : Option StatefulDoc :=
  w.statefulSpec.filter (fun doc => path == doc.path || path == storePath doc)

def writable (path : Text) : Bool :=
  (w.writableDoc path).isSome

def podPathBody (path : Text) : Bool :=
  match path with
  | '/' :: rest =>
      !rest.isEmpty &&
        rest.all (fun c => w.word c || c == '.' || c == '/' || c == '-')
  | _ => false

/-- The paths that are read and written in a pod: `/`, and then word characters,
dots, slashes and hyphens. -/
def podPath (path : Text) : Bool :=
  Piece.dollar w.podPathBody path

end World

namespace FileStore

/-- The volume is mounted. -/
def hasStore (s : FileStore) : Bool :=
  s.mounts.get? storeDir == some .store

/-- A file of the pod. -/
def podFile (s : FileStore) (path : Text) : Option Text :=
  match s.mounts.get? path with
  | some (.file key) => s.files key
  | some .store => none
  | none =>
      if s.hasStore && inStore path then s.disk path else s.layer path

/-- `apply_configmap` of one key. -/
def applyConfigmap (s : FileStore) (key content : Text) : FileStore :=
  { s with files := Function.update s.files key (some content) }

/-- The rollout of a restart; `up` says whether a pod comes up. -/
def restart (w : World) (s : FileStore) (up : Bool) : FileStore :=
  { s with layer := w.base, up := up }

/-- Mount a key of the ConfigMap at a path. -/
def mountFile (s : FileStore) (path key : Text) : FileStore :=
  { s with mounts := s.mounts.set path (.file key) }

/-- The mounts that `attach_dir_store` leaves, before the store is one. -/
def stripped (s : FileStore) (doc : StatefulDoc) : List (Text × Mount) :=
  s.mounts.items.filter (fun m =>
    m.2 != .store && m.1 != storeDir && m.1 != doc.path)

/-- `_ensure_writable_store`. It takes the volume `service-files` away, and the
API server refuses a mount that has no volume. -/
def ensureWritableStore (s : FileStore) (doc : StatefulDoc) :
    Option FileStore :=
  if s.stripped doc = [] then
    some { s with mounts := Dict.single storeDir .store }
  else none

/-- The content goes to the file that the pod has at the path. -/
def writePodFile (s : FileStore) (path content : Text) : FileStore :=
  if s.hasStore && inStore path then
    { s with disk := Function.update s.disk path (some content) }
  else { s with layer := Function.update s.layer path (some content) }

end FileStore

/-- `_read_pod_file` -/
def readPodFile (w : World) (s : FileStore) (path : Text) : Option Text :=
  if w.podPath path && s.up then
    (s.podFile path).bind (fun content =>
      let out := w.client content
      if out.all isBlank then none else some out)
  else none

/-- What `get_service_file` returns. -/
structure FileContent where
  content : Option Text
  ephemeral : Bool
deriving DecidableEq

/-- `get_service_file` -/
def getServiceFile (w : World) (s : FileStore) (path : Text) : FileContent :=
  let stateful := !path.isEmpty && w.writable path
  match if stateful then none else s.files (fileKey path) with
  | some content => ⟨some content, false⟩
  | none =>
      let runtime := readPodFile w s path
      ⟨runtime, runtime.isSome && !stateful⟩

/-- An `apply_service_file`: its arguments, whether a pod comes up after the
rollout, and whether the command in it succeeds. -/
structure FileCall where
  path : Text
  content : Text
  up : Bool
  writes : Bool
deriving DecidableEq

/-- Why `apply_service_file` raises; the last is an `ApiException`. -/
inductive FileRefused where
  | path
  | json
  | rejected
deriving DecidableEq, Repr

/-- What `apply_service_file` returns; `written` is there for a persistent
document. -/
structure FileApplied where
  configMap : Text
  mount : Text
  written : Option Bool
deriving DecidableEq

/-- A key that the API server takes for a ConfigMap. -/
def configMapKey (key : Text) : Bool :=
  !key.isEmpty && key.length ≤ 253 && key != ['.'] &&
    !("..".toList.isPrefixOf key) &&
    key.all (fun c => isAlnum c || c == '-' || c == '_' || c == '.')

/-- A path that the API server takes for a mount. -/
def mountPath (path : Text) : Bool :=
  !path.contains ':'

def filesName (name : Text) : Text :=
  name ++ "-files".toList

/-- `path.endswith(".json")` -/
def isJsonPath (path : Text) : Bool :=
  ".json".toList.isSuffixOf path

/-- What `apply_service_file` checks itself, and the API server of its first
write. -/
def fileRefused (w : World) (call : FileCall) : Option FileRefused :=
  if call.path.head? != some '/' then some .path
  else if isJsonPath call.path && !w.json call.content then some .json
  else if configMapKey (fileKey call.path) then none
  else some .rejected

/-- What follows the first write: a document of the image's goes to the store,
any other is mounted. -/
def provideFile (w : World) (s : FileStore) (call : FileCall) :
    Except FileRefused FileApplied × FileStore :=
  match w.writableDoc call.path with
  | some doc =>
      match s.ensureWritableStore doc with
      | none => (.error .rejected, s)
      | some s =>
          let s := s.restart w call.up
          let written := w.podPath call.path && call.up && call.writes
          (.ok ⟨filesName w.name, call.path, some written⟩,
            if written then s.writePodFile call.path call.content else s)
  | none =>
      if mountPath call.path then
        (.ok ⟨filesName w.name, call.path, none⟩,
          (s.mountFile call.path (fileKey call.path)).restart w call.up)
      else (.error .rejected, s)

/-- `apply_service_file` -/
def applyServiceFile (w : World) (s : FileStore) (call : FileCall) :
    Except FileRefused FileApplied × FileStore :=
  match fileRefused w call with
  | some e => (.error e, s)
  | none =>
      provideFile w (s.applyConfigmap (fileKey call.path) call.content) call

/-- The store after a call that does not raise. -/
def applied (w : World) (s : FileStore) (call : FileCall) : Option FileStore :=
  match applyServiceFile w s call with
  | (.ok _, s') => some s'
  | (.error _, _) => none

/-- What one reads at a path. -/
def readFile (w : World) (s : FileStore) (path : Text) : Option Text :=
  (getServiceFile w s path).content

end Files

end Northbound
end Kelt
