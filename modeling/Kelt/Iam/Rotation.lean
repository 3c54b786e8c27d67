import Kelt.Iam.SecretFile
import Kelt.Lib.Runs

/-!
# Rotations of the client secrets

`rotate` of `iam_service.py` as a process that makes one call at a time: it
reads the whole secrets file, replaces it as a whole, and then sets the secret
in Keycloak and in the pod that presents it. Any call may fail, a remote write
may fail after it took effect, and a rotation can die before any call. Nothing
keeps two rotations apart.

The temporary files have names of their own, so what happens in them is one
step. The route always hands a Kubernetes service to `rotate`.

A rotation writes the file first whatever the others do (`fileFirst`). That it
keeps the other clients' values, and that all three places agree in the end,
holds as long as no rotation crosses another (`rotations_agree`).
-/

namespace Kelt
namespace Iam

open Env

section Rotation

/-- `CLIENTS`. -/
inductive Client where
  | camaraGateway
  | camaraApiDemo
  | dashboardReadonly
deriving DecidableEq

def Client.envKey : Client → Text
  | camaraGateway => "CAMARA_CLIENT_SECRET".toList
  | camaraApiDemo => "CAMARA_API_DEMO_SECRET".toList
  | dashboardReadonly => "DASHBOARD_READONLY_SECRET".toList

/-- A workload in the cluster presents the secret. -/
def Client.consumer : Client → Bool
  | camaraGateway => true
  | camaraApiDemo => false
  | dashboardReadonly => false

/-- Where a rotation is; `seen` is the file it read. -/
inductive Pc where
  | looking
  | reading
  | writing (seen : Option Text)
  | keeping (seen : Option Text)
  | replacingPrev (seen : Option Text) (copy : Text)
  | replacing (seen : Option Text)
  | converging
  | finding
  | putting
  | patching
  | done
  | failed

/-- A rotation; `number` counts its write of the file among all of them, and is
zero before. -/
structure Rotation where
  client : Client
  secret : Token
  number : Nat
  pc : Pc

def Rotation.goto (r : Rotation) (pc : Pc) : Rotation :=
  { r with pc := pc }

/-- What becomes of a call: it fails, or its answer is lost. -/
inductive Outcome where
  | ok
  | fails
  | lost

/-- The file and its `.prev`, the secrets in Keycloak and in the pods, and the
rotations. `past` has the contents that the file was given, newest first; the
last three numbers say which write of the file has the last word on a client in
each place. -/
structure Sys where
  file : Option Text
  prev : Option Text
  keycloak : Client → Text
  pod : Client → Text
  procs : Nat → Option Rotation
  past : List Text
  fileAt : Client → Nat
  keycloakAt : Client → Nat
  podAt : Client → Nat

def Sys.init (file : Option Text) (keycloak pod : Client → Text) : Sys where
  file := file
  prev := none
  keycloak := keycloak
  pod := pod
  procs := fun _ => none
  past := []
  fileAt := fun _ => 0
  keycloakAt := fun _ => 0
  podAt := fun _ => 0

def Sys.setProc (st : Sys) (p : Nat) (r : Rotation) : Sys :=
  { st with procs := Function.update st.procs p (some r) }

/-- `os.replace(tmp, TESTBED_SECRETS)`. -/
def Sys.replaceFile (st : Sys) (c : Client) (content : Text) : Sys :=
  { st with
    file := some content
    past := content :: st.past
    fileAt := Function.update st.fileAt c (st.past.length + 1) }

/-- `_set_client_secret`, its last request. -/
def Sys.putSecret (st : Sys) (r : Rotation) : Sys :=
  { st with
    keycloak := Function.update st.keycloak r.client r.secret.text
    keycloakAt := Function.update st.keycloakAt r.client r.number }

/-- `patch_namespaced_deployment`, for a client with a consumer. -/
def Sys.patchPod (st : Sys) (r : Rotation) : Sys :=
  if r.client.consumer then
    { st with
      pod := Function.update st.pod r.client r.secret.text
      podAt := Function.update st.podAt r.client r.number }
  else st

/-- The next call of rotation `r`, when it succeeds. -/
def Sys.call (st : Sys) (p : Nat) (r : Rotation) : Option Sys :=
  match r.pc with
  | .looking =>
      match st.file with
      | none => some (st.setProc p (r.goto (.writing none)))
      | some _ => some (st.setProc p (r.goto .reading))
  | .reading =>
      match st.file with
      | none => some (st.setProc p (r.goto .failed))
      | some t => some (st.setProc p (r.goto (.writing (some t))))
  | .writing seen =>
      if st.file.isSome then some (st.setProc p (r.goto (.keeping seen)))
      else some (st.setProc p (r.goto (.replacing seen)))
  | .keeping seen =>
      match st.file with
      | none => some (st.setProc p (r.goto .failed))
      | some t => some (st.setProc p (r.goto (.replacingPrev seen t)))
  | .replacingPrev seen copy =>
      some ({ st with prev := some copy }.setProc p (r.goto (.replacing seen)))
  | .replacing seen =>
      some ((st.replaceFile r.client
          (writeSecret r.client.envKey r.secret.text seen)).setProc p
        { r with number := st.past.length + 1, pc := .converging })
  | .converging =>
      -- the admin token: without the admin password in the file, an exception
      match readSecret adminPassword st.file with
      | none => some (st.setProc p (r.goto .failed))
      | some password =>
          if password = [] then some (st.setProc p (r.goto .failed))
          else some (st.setProc p (r.goto .finding))
  | .finding => some (st.setProc p (r.goto .putting))
  | .putting => some ((st.putSecret r).setProc p (r.goto .patching))
  | .patching => some ((st.patchPod r).setProc p (r.goto .done))
  | .done => none
  | .failed => none

/-- A remote write that takes effect although the rotation fails. -/
def Sys.callLost (st : Sys) (p : Nat) (r : Rotation) : Option Sys :=
  match r.pc with
  | .putting => some ((st.putSecret r).setProc p (r.goto .failed))
  | .patching => some ((st.patchPod r).setProc p (r.goto .failed))
  | _ => none

/-- A rotation that has not ended. -/
def Rotation.running (r : Rotation) : Bool :=
  match r.pc with
  | .done => false
  | .failed => false
  | _ => true

inductive Act where
  | rotate (p : Nat) (c : Client) (secret : Token)
  | step (p : Nat) (o : Outcome)
  | die (p : Nat)

def Sys.step (st : Sys) : Act → Option Sys
  | .rotate p c secret =>
      match st.procs p with
      | some _ => none
      | none => some (st.setProc p ⟨c, secret, 0, .looking⟩)
  | .step p o =>
      match st.procs p with
      | none => none
      | some r =>
          match o with
          | .ok => st.call p r
          | .lost => st.callLost p r
          | .fails =>
              if r.running then some (st.setProc p (r.goto .failed)) else none
  | .die p =>
      match st.procs p with
      | none => none
      | some r =>
          if r.running then some (st.setProc p (r.goto .failed)) else none

/-- The secret was in the file before, in the client's line. -/
def Sys.WasWritten (st : Sys) (c : Client) (secret : Text) : Prop :=
  ∃ content ∈ st.past,
    assignment c.envKey secret ∈ fileLines (some content)

/-- Keycloak and the pods have got nothing but secrets that were in the file
before. -/
def FileFirst (keycloak pod : Client → Text) (st : Sys) : Prop :=
  ∀ c, (st.keycloak c = keycloak c ∨ st.WasWritten c (st.keycloak c)) ∧
    (st.pod c = pod c ∨ st.WasWritten c (st.pod c))

/-- The rotation that acts. -/
def Act.proc : Act → Nat
  | .rotate p _ _ => p
  | .step p _ => p
  | .die p => p

/-- A step of a rotation keeps what the file says of other clients. -/
def OthersKept (st : Sys) (act : Act) (st' : Sys) : Prop :=
  ∀ r, st.procs act.proc = some r → ∀ c, c ≠ r.client →
    readSecret c.envKey st'.file = readSecret c.envKey st.file

/-- When all rotations have ended well, the three places have the same secret of
each client that was rotated. -/
def Agreed (st : Sys) : Prop :=
  (∀ p r, st.procs p = some r → r.pc = .done) →
    ∀ p r, st.procs p = some r →
      readSecret r.client.envKey st.file = some (st.keycloak r.client) ∧
        (r.client.consumer = true → st.pod r.client = st.keycloak r.client)

/-- The last of several assignments of a key already gives the value. -/
def LastWord (file : Option Text) (key value : Text) : Prop :=
  ∀ ln, ((fileLines file).filter (isAssignment key)).tail.getLast? = some ln →
    strip (after '=' ln) = value

/-- Steps that cross no other rotation: the file is replaced only while it is
still what was read, and a secret goes to Keycloak or to the pod only while no
later one of the client has got there. -/
def Calm (st : Sys) : Act → Prop
  | .step _ .fails => True
  | .step p _ => ∀ r, st.procs p = some r →
      match r.pc with
      | .replacing seen =>
          st.file = seen ∧ LastWord seen r.client.envKey r.secret.text
      | .putting => st.keycloakAt r.client ≤ r.number
      | .patching => st.podAt r.client ≤ r.number
      | _ => True
  | _ => True

theorem secretKey_envKey (c : Client) : SecretKey c.envKey := by
  cases c <;> exact ⟨by decide, by decide, by decide, by decide⟩

theorem envKey_inj {c c' : Client} (h : c.envKey = c'.envKey) : c = c' := by
  revert h
  cases c <;> cases c' <;> decide

end Rotation

end Iam
end Kelt
