import Kelt.Apps.Deploy
import Kelt.Lib.Runs

/-!
# Whose objects the consoles write

The Apps page, the gNB console and the Northbound page write and delete objects
of the cluster by names that they derive from the one of the request
(`apps_service.py`, `northbound_service.py`). None of them looks at whose object
bears the name. So a request changes what is not its own exactly when something
of the platform, of the gNB console or of another app stands under one of these
names (`frame_iff`). Apps do not meet each other that way (`not_other_app`).

Of the body of a call only what the API server makes of it is kept. A request may
end after any of its calls, by an error or a check.
-/

namespace Kelt
namespace Apps
namespace Ownership

section Cluster

inductive Kind where
  | deployment
  | service
  | endpoints
  | configmap
  | secret
  deriving DecidableEq

structure Key where
  kind : Kind
  ns : Text
  name : Text
  deriving DecidableEq

/-- Who created an object: the platform, or a console for the gNB, for an app,
or for an adapter. -/
inductive Owner where
  | platform
  | gnb
  | app (name : Text)
  | adapter (ns name : Text)
  deriving DecidableEq

variable {γ : Type}

structure Obj (γ : Type) where
  owner : Owner
  content : γ

abbrev Cluster (γ : Type) := Key → Option (Obj γ)

/-- What is created of a body, and what a patch with it makes of an object. -/
structure Body (γ : Type) where
  create : γ
  patch : γ → γ

inductive Write (γ : Type) where
  | upsert (body : Body γ)
  | patch (f : γ → γ)
  | delete

structure Call (γ : Type) where
  key : Key
  write : Write γ

/-- A patch of what is not there raises, as the last call of its request. -/
def Write.result (owner : Owner) (w : Write γ) (o : Option (Obj γ)) :
    Option (Obj γ) :=
  match w, o with
  | .upsert body, none => some ⟨owner, body.create⟩
  | .upsert body, some o => some { o with content := body.patch o.content }
  | .patch _, none => none
  | .patch f, some o => some { o with content := f o.content }
  | .delete, _ => none

def runCalls (owner : Owner) (s : Cluster γ) (calls : List (Call γ)) :
    Cluster γ :=
  calls.foldl
    (fun s c => Function.update s c.key (c.write.result owner (s c.key))) s

end Cluster

section Requests

/-- The namespaces of the network plan. -/
structure Plan where
  apps : Text
  positioning : Text
  camara : Text

inductive Request (γ : Type) where
  | deployApp (name image : Text) (config : Body γ) (secret : Option (Body γ))
      (deployment : Body γ) (service : Option (Body γ))
  | setAppImage (name image : Text) (f : γ → γ)
  | deleteApp (name : Text)
  | setGnbConsole (host : Text) (port : Int) (service : Body γ) (endpoints : γ)
  | clearGnbConsole
  | deployWorkload (ns name image : Text) (config : Body γ)
      (secret : Option (Body γ)) (deployment service : Body γ)
  | deleteAdapterWorkload (name : Text)

variable {γ : Type}

def configName (name : Text) : Text :=
  name ++ "-config".toList

def secretName (name : Text) : Text :=
  name ++ "-secrets".toList

/-- `GNB_SVC` -/
def gnbSvc : Text :=
  "gnb".toList

/-- `NORTHBOUND_NAMESPACES` -/
def Plan.northbound (plan : Plan) : List Text :=
  [plan.camara, plan.positioning, plan.apps]

/-- The config objects of a workload, which are written first. -/
def envCalls (ns name : Text) (config : Body γ) (secret : Option (Body γ)) :
    List (Call γ) :=
  ⟨⟨.configmap, ns, configName name⟩, .upsert config⟩ ::
    (secret.map fun body =>
      (⟨⟨.secret, ns, secretName name⟩, .upsert body⟩ : Call γ)).toList

/-- The calls of a request that its checks let through. -/
def Request.calls (plan : Plan) : Request γ → List (Call γ)
  | .deployApp name image config secret deployment service =>
      if nameOk name && imageOk image then
        envCalls plan.apps name config secret ++
          [⟨⟨.deployment, plan.apps, name⟩, .upsert deployment⟩,
            ⟨⟨.service, plan.apps, name⟩, service.elim .delete .upsert⟩]
      else []
  | .setAppImage name image f =>
      if nameOk name && imageOk image then
        [⟨⟨.deployment, plan.apps, name⟩, .patch f⟩]
      else []
  | .deleteApp name =>
      if nameOk name then
        [⟨⟨.deployment, plan.apps, name⟩, .delete⟩,
          ⟨⟨.service, plan.apps, name⟩, .delete⟩,
          ⟨⟨.secret, plan.apps, secretName name⟩, .delete⟩,
          ⟨⟨.configmap, plan.apps, configName name⟩, .delete⟩]
      else []
  | .setGnbConsole host port service endpoints =>
      if (Ip.ipAddress (String.ofList (strip host))).isSome = true ∧
          1 ≤ port ∧ port ≤ 65535 then
        [⟨⟨.service, plan.apps, gnbSvc⟩, .upsert service⟩,
          ⟨⟨.endpoints, plan.apps, gnbSvc⟩,
            .upsert ⟨endpoints, fun _ => endpoints⟩⟩]
      else []
  | .clearGnbConsole =>
      [⟨⟨.service, plan.apps, gnbSvc⟩, .delete⟩,
        ⟨⟨.endpoints, plan.apps, gnbSvc⟩, .delete⟩]
  | .deployWorkload ns name image config secret deployment service =>
      if nameOk name && imageOk image && decide (ns ∈ plan.northbound) then
        envCalls ns name config secret ++
          [⟨⟨.deployment, ns, name⟩, .upsert deployment⟩,
            ⟨⟨.service, ns, name⟩, .upsert service⟩]
      else []
  | .deleteAdapterWorkload name =>
      if nameOk name then
        [⟨⟨.service, plan.positioning, name⟩, .delete⟩,
          ⟨⟨.deployment, plan.positioning, name⟩, .delete⟩,
          ⟨⟨.configmap, plan.positioning, configName name⟩, .delete⟩,
          ⟨⟨.configmap, plan.positioning, name ++ "-files".toList⟩, .delete⟩,
          ⟨⟨.secret, plan.positioning, secretName name⟩, .delete⟩,
          ⟨⟨.secret, plan.positioning, name ++ "-env".toList⟩, .delete⟩]
      else []

/-- Whose objects the request creates. -/
def Request.owner (plan : Plan) : Request γ → Owner
  | .deployApp name _ _ _ _ _ | .setAppImage name _ _ | .deleteApp name =>
      .app name
  | .setGnbConsole _ _ _ _ | .clearGnbConsole => .gnb
  | .deployWorkload ns name _ _ _ _ _ => .adapter ns name
  | .deleteAdapterWorkload name => .adapter plan.positioning name

/-- A request, and after how many calls it ends. -/
def step (plan : Plan) (s : Cluster γ) (a : Request γ × Nat) :
    Option (Cluster γ) :=
  some (runCalls (a.1.owner plan) s ((a.1.calls plan).take a.2))

end Requests

section Claims

variable {γ : Type}

/-- Of the platform, of the gNB console, or of an app other than the request's. -/
def Owner.Foreign (o mine : Owner) : Prop :=
  o = .platform ∨ o = .gnb ∨ (∃ name, o = .app name) ∧ o ≠ mine

/-- A request for an app or an adapter leaves foreign objects as they are. -/
def Frame (plan : Plan) (s : Cluster γ) (a : Request γ × Nat)
    (s' : Cluster γ) : Prop :=
  a.1.owner plan ≠ .gnb → ∀ k o, s k = some o →
    o.owner.Foreign (a.1.owner plan) → s' k = some o

def Write.Keeps : Write γ → γ → Prop
  | .upsert body, c => body.patch c = c
  | .patch f, c => f c = c
  | .delete, _ => False

/-- No foreign object stands under a name that the request comes to, but for
one that is written as it is. -/
def Fits (plan : Plan) (s : Cluster γ) (a : Request γ × Nat) : Prop :=
  a.1.owner plan ≠ .gnb → ∀ c ∈ (a.1.calls plan).take a.2, ∀ o,
    s c.key = some o → o.owner.Foreign (a.1.owner plan) →
      c.write.Keeps o.content

end Claims

section Frames

variable {γ : Type} {owner : Owner} {s : Cluster γ} {calls : List (Call γ)}

theorem runCalls_of_not_mem {k : Key} (hk : ∀ c ∈ calls, c.key ≠ k) :
    runCalls owner s calls k = s k := by
  unfold runCalls
  induction calls generalizing s with
  | nil => rfl
  | cons c rest ih =>
      rw [List.foldl_cons, ih fun c' hc' => hk c' (List.mem_cons_of_mem _ hc')]
      exact Function.update_of_ne (hk c List.mem_cons_self).symm _ s

theorem runCalls_of_mem (hkeys : (calls.map Call.key).Nodup) {c : Call γ}
    (hc : c ∈ calls) :
    runCalls owner s calls c.key = c.write.result owner (s c.key) := by
  unfold runCalls
  induction calls generalizing s with
  | nil => cases hc
  | cons c' rest ih =>
      rw [List.map_cons, List.nodup_cons] at hkeys
      rw [List.foldl_cons]
      rcases List.mem_cons.1 hc with rfl | hc
      · have hrest : ∀ c' ∈ rest, c'.key ≠ c.key :=
          fun c' hc' heq => hkeys.1 (heq ▸ List.mem_map_of_mem hc')
        refine (runCalls_of_not_mem hrest).trans ?_
        exact Function.update_self c.key _ s
      · have hne : c.key ≠ c'.key :=
          fun heq => hkeys.1 (heq ▸ List.mem_map_of_mem hc)
        rw [ih hkeys.2 hc, Function.update_of_ne hne]

theorem result_some_iff (w : Write γ) (o : Obj γ) :
    w.result owner (some o) = some o ↔ w.Keeps o.content := by
  obtain ⟨owner', content⟩ := o
  cases w <;> simp [Write.result, Write.Keeps]

/-- The keys of the calls of one request are different. -/
theorem nodup_keys (plan : Plan) (r : Request γ) :
    ((r.calls plan).map Call.key).Nodup := by
  cases r with
  | deployApp name image config secret deployment service =>
      simp only [Request.calls]
      split
      · cases secret <;> simp [envCalls]
      · exact List.nodup_nil
  | setAppImage name image f =>
      simp only [Request.calls]
      split <;> simp
  | deleteApp name =>
      simp only [Request.calls]
      split <;> simp
  | setGnbConsole host port service endpoints =>
      simp only [Request.calls]
      split <;> simp
  | clearGnbConsole => simp [Request.calls]
  | deployWorkload ns name image config secret deployment service =>
      simp only [Request.calls]
      split
      · cases secret <;> simp [envCalls]
      · exact List.nodup_nil
  | deleteAdapterWorkload name =>
      simp only [Request.calls]
      split <;> simp [configName, secretName]

/-- One request leaves the foreign objects as they are exactly when it fits. -/
theorem frame_step_iff (plan : Plan) (s : Cluster γ) (a : Request γ × Nat) :
    Frame plan s a
        (runCalls (a.1.owner plan) s ((a.1.calls plan).take a.2)) ↔
      Fits plan s a := by
  have hkeys : (((a.1.calls plan).take a.2).map Call.key).Nodup :=
    (nodup_keys plan a.1).sublist ((List.take_sublist _ _).map _)
  unfold Frame Fits
  refine forall_congr' fun _ => ⟨?_, ?_⟩
  · intro h c hc o ho hforeign
    have hkeep := h c.key o ho hforeign
    rw [runCalls_of_mem hkeys hc, ho] at hkeep
    exact (result_some_iff c.write o).1 hkeep
  · intro h k o ho hforeign
    by_cases hk : ∃ c ∈ (a.1.calls plan).take a.2, c.key = k
    · obtain ⟨c, hc, rfl⟩ := hk
      rw [runCalls_of_mem hkeys hc, ho]
      exact (result_some_iff c.write o).2 (h c hc o ho hforeign)
    · rw [runCalls_of_not_mem fun c hc heq => hk ⟨c, hc, heq⟩]
      exact ho

/-- In a run of any requests from any cluster, the requests for apps and adapters
leave all foreign objects as they are exactly when each of them fits. -/
theorem frame_iff (plan : Plan) (s : Cluster γ)
    (acts : List (Request γ × Nat)) :
    EachStep (step plan) (Frame plan) s acts ↔
      EachStep (step plan) (fun s a _ => Fits plan s a) s acts := by
  refine EachStep.congr (fun s a s' hs' => ?_) s acts
  cases hs'
  exact frame_step_iff plan s a

/-- The measurement server of the platform, in the namespace of the apps. -/
def testbedCluster : Cluster Unit := fun k =>
  if k = ⟨.deployment, "mec".toList, "measurement-server".toList⟩ then
    some ⟨.platform, ()⟩
  else none

/-- An app of that name is deleted. -/
theorem not_frame_measurementServer :
    ¬ EachStep (step ⟨"mec".toList, "positioning".toList, "camara".toList⟩)
      (Frame ⟨"mec".toList, "positioning".toList, "camara".toList⟩)
      testbedCluster [(.deleteApp "measurement-server".toList, 4)] := by
  intro h
  have hframe := (h _ rfl).1
  have hkept := hframe (by decide)
    ⟨.deployment, "mec".toList, "measurement-server".toList⟩
    ⟨.platform, ()⟩ rfl (Or.inl rfl)
  cases hkept

end Frames

section Names

variable {γ : Type}

/-- What a console has of an app stands under one of these names. -/
def appKeys (plan : Plan) (name : Text) : List Key :=
  [⟨.configmap, plan.apps, configName name⟩,
    ⟨.secret, plan.apps, secretName name⟩, ⟨.deployment, plan.apps, name⟩,
    ⟨.service, plan.apps, name⟩]

theorem eq_of_mem_appKeys {plan : Plan} {k : Key} {name name' : Text}
    (h : k ∈ appKeys plan name) (h' : k ∈ appKeys plan name') :
    name = name' := by
  unfold appKeys configName secretName at h h'
  simp only [List.mem_cons, List.not_mem_nil, or_false] at h h'
  rcases h with rfl | rfl | rfl | rfl <;> simpa using h'

theorem mem_appKeys_of_call {plan : Plan} {r : Request γ} {name : Text}
    (hr : r.owner plan = .app name) {c : Call γ} (hc : c ∈ r.calls plan) :
    c.key ∈ appKeys plan name := by
  cases r with
  | deployApp name' image config secret deployment service =>
      cases hr
      simp only [Request.calls] at hc
      split at hc
      · cases secret <;>
          (simp only [envCalls, Option.map_none, Option.map_some,
            Option.toList_none, Option.toList_some, List.cons_append,
            List.nil_append, List.mem_cons, List.not_mem_nil, or_false] at hc
           rcases hc with rfl | rfl | rfl | rfl <;> simp [appKeys])
      · cases hc
  | setAppImage name' image f =>
      cases hr
      simp only [Request.calls] at hc
      split at hc
      · rw [List.mem_singleton.1 hc]
        simp [appKeys]
      · cases hc
  | deleteApp name' =>
      cases hr
      simp only [Request.calls] at hc
      split at hc
      · simp only [List.mem_cons, List.not_mem_nil, or_false] at hc
        rcases hc with rfl | rfl | rfl | rfl <;> simp [appKeys]
      · cases hc
  | _ => cases hr

/-- The objects of the apps stand under the names of their app. -/
def Named (plan : Plan) (s : Cluster γ) : Prop :=
  ∀ k o name, s k = some o → o.owner = .app name → k ∈ appKeys plan name

theorem result_owner {owner : Owner} {w : Write γ} {o : Option (Obj γ)}
    {o' : Obj γ} (h : w.result owner o = some o') :
    o'.owner = owner ∨ ∃ o₁, o = some o₁ ∧ o'.owner = o₁.owner := by
  cases w <;> cases o <;> simp [Write.result] at h <;> subst h <;> simp

theorem Named.step {plan : Plan} {s s' : Cluster γ} (hs : Named plan s)
    {a : Request γ × Nat} (h : step plan s a = some s') : Named plan s' := by
  cases h
  have hkeys : (((a.1.calls plan).take a.2).map Call.key).Nodup :=
    (nodup_keys plan a.1).sublist ((List.take_sublist _ _).map _)
  intro k o name ho hname
  by_cases hk : ∃ c ∈ (a.1.calls plan).take a.2, c.key = k
  · obtain ⟨c, hc, rfl⟩ := hk
    rw [runCalls_of_mem hkeys hc] at ho
    rcases result_owner ho with howner | ⟨o₁, ho₁, howner⟩
    · exact mem_appKeys_of_call (howner.symm.trans hname)
        (List.mem_of_mem_take hc)
    · exact hs c.key o₁ name ho₁ (howner ▸ hname)
  · rw [runCalls_of_not_mem fun c hc heq => hk ⟨c, hc, heq⟩] at ho
    exact hs k o name ho hname

/-- A request for an app does not come to the objects of another app. -/
theorem not_other_app {plan : Plan} {s₀ s : Cluster γ} (hs₀ : Named plan s₀)
    (h : ReachAny (Ownership.step plan) s₀ s) {r : Request γ} {name : Text}
    (hr : r.owner plan = .app name) {c : Call γ} (hc : c ∈ r.calls plan)
    {o : Obj γ} {name' : Text} (ho : s c.key = some o)
    (hname : o.owner = .app name') : name' = name := by
  have hs : Named plan s := h.inv hs₀ fun _ _ _ hs _ hstep => hs.step hstep
  exact eq_of_mem_appKeys (hs c.key o name' ho hname)
    (mem_appKeys_of_call hr hc)

end Names

end Ownership
end Apps
end Kelt
