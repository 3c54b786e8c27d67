import Kelt.Apps.Deploy

/-!
# What redeploying leaves behind

Every object keeps what a later request does not name: keys of the ConfigMap and
the Secret, the networks annotation, ports and pull secrets. After a sequence of
deploys the app is what deploying the last request alone makes of it exactly
when the earlier requests brought nothing that the last one lacks
(`redeploy_same_iff`).
-/

namespace Kelt
namespace Apps

open Ip

section Redeploy

/-- A request and what the registry answers when it is deployed. -/
structure Deploy where
  req : Request
  digestOf : Registry

/-- Deploys one after the other, as long as none is rejected. -/
def deployAll (s : Settings) (app : App) : List Deploy → Option App
  | [] => some app
  | d :: ds =>
      match deployApp s d.digestOf d.req app with
      | (.deployed _, app') => deployAll s app' ds
      | (.rejected _, _) => none

/-- What a deploy that is not rejected makes of an app. -/
def App.after (app : App) (s : Settings) (d : Deploy)
    (networks : Option Net) : App :=
  ((app.applyEnv d.req).upsertDeployment
    (manifestOf s d.digestOf d.req networks)).setService
      (if d.req.expose then some ⟨d.req.port⟩ else none)

theorem deployApp_deployed {s : Settings} {d : Deploy} {app app' : App}
    {response : Response}
    (h : deployApp s d.digestOf d.req app = (.deployed response, app')) :
    ∃ networks, networksOf s d.req = .ok networks ∧
      app' = app.after s d networks := by
  unfold deployApp at h
  by_cases hname : nameOk d.req.name = false
  · rw [if_pos hname] at h
    cases h
  · by_cases himage : imageOk d.req.image = false
    · rw [if_neg hname, if_pos himage] at h
      cases h
    · rw [if_neg hname, if_neg himage] at h
      cases hnet : networksOf s d.req with
      | error e =>
          simp only [hnet] at h
          cases h
      | ok networks =>
          simp only [hnet, Prod.mk.injEq] at h
          exact ⟨networks, rfl, h.2.symm⟩

/-- The first of several deploys, none of which is rejected. -/
theorem deployed_of_cons {s : Settings} {d : Deploy} {ds : List Deploy}
    {app app' : App} (h : deployAll s app (d :: ds) = some app') :
    ∃ response app₁,
      deployApp s d.digestOf d.req app = (.deployed response, app₁) ∧
        deployAll s app₁ ds = some app' := by
  unfold deployAll at h
  cases hd : deployApp s d.digestOf d.req app with
  | mk outcome app₁ =>
      rw [hd] at h
      cases outcome with
      | rejected e => cases h
      | deployed response => exact ⟨response, app₁, rfl, h⟩

theorem deployAll_cons {s : Settings} {d : Deploy} {ds : List Deploy}
    {app app' : App} (h : deployAll s app (d :: ds) = some app') :
    ∃ networks, networksOf s d.req = .ok networks ∧
      deployAll s (app.after s d networks) ds = some app' := by
  obtain ⟨response, app₁, hd, hrest⟩ := deployed_of_cons h
  obtain ⟨networks, hnet, rfl⟩ := deployApp_deployed hd
  exact ⟨networks, hnet, hrest⟩

/-- A request gets a networks annotation exactly when it attaches to N6m. -/
theorem networksOf_isSome {s : Settings} {req : Request}
    {networks : Option Net} (h : networksOf s req = .ok networks) :
    networks.isSome = req.attachMec := by
  unfold networksOf at h
  split_ifs at h with hattach
  · rw [hattach]
    split at h
    · cases h
      rfl
    · cases h
      rfl
    · split at h
      · cases h
      · split_ifs at h
        cases h
        rfl
  · cases h
    exact (Bool.eq_false_of_not_eq_true hattach).symm

/-- Patched data equal the patch alone exactly when it names every key. -/
theorem patch_eq_iff (d new : Data) :
    d.patch new = Data.empty.patch new ↔
      ∀ k, (d k).isSome = true → (new k).isSome = true := by
  constructor
  · intro h k hk
    have hat := congrFun h k
    unfold Data.patch Data.empty at hat
    cases hnew : new k with
    | some v => rfl
    | none =>
        rw [hnew, Option.none_or, Option.none_or] at hat
        rw [hat] at hk
        cases hk
  · intro h
    funext k
    unfold Data.patch Data.empty
    cases hnew : new k with
    | some v => rfl
    | none =>
        cases hd : d k with
        | none => rfl
        | some v =>
            have hsome := h k (by rw [hd]; rfl)
            rw [hnew] at hsome
            cases hsome

theorem isSome_patch (d new : Data) (k : Text) :
    (d.patch new k).isSome = true ↔
      (d k).isSome = true ∨ (new k).isSome = true := by
  unfold Data.patch
  cases new k <;> simp

/-- The data of an object that may not be there. -/
def dataOf (o : Option Data) : Data :=
  o.getD .empty

/-- A request has secrets exactly when some key is sensitive. -/
theorem hasSecrets_iff (req : Request) :
    req.hasSecrets = true ↔ ∃ k, (req.data true k).isSome = true := by
  unfold Request.hasSecrets Request.data
  simp only [List.any_eq_true, Option.isSome_map, List.find?_isSome,
    List.mem_reverse, Bool.and_eq_true, beq_iff_eq]
  constructor
  · rintro ⟨e, he, hs⟩
    exact ⟨e.name, e, he, hs, rfl⟩
  · rintro ⟨k, e, he, hs, -⟩
    exact ⟨e, he, hs⟩

section After

variable {app : App} {s : Settings} {d : Deploy} {networks : Option Net}

theorem after_config : (app.after s d networks).config =
    some ((dataOf app.config).patch (d.req.data false)) := by
  unfold App.after App.applyEnv
  cases d.req.hasSecrets <;> rfl

theorem after_secret : (app.after s d networks).secret =
    if d.req.hasSecrets then
      some ((dataOf app.secret).patch (d.req.data true))
    else
      app.secret := by
  unfold App.after App.applyEnv
  cases d.req.hasSecrets <;> rfl

theorem after_deployment : (app.after s d networks).deployment =
    some
      (match app.deployment with
      | none => (manifestOf s d.digestOf d.req networks).create
      | some dep => (manifestOf s d.digestOf d.req networks).patch dep) := by
  unfold App.after App.applyEnv
  cases d.req.hasSecrets <;> rfl

theorem isSome_after_config (k : Text) :
    (dataOf (app.after s d networks).config k).isSome = true ↔
      (dataOf app.config k).isSome = true ∨
        (d.req.data false k).isSome = true := by
  rw [after_config]
  exact isSome_patch _ _ k

theorem isSome_after_secret (k : Text) :
    (dataOf (app.after s d networks).secret k).isSome = true ↔
      (dataOf app.secret k).isSome = true ∨
        (d.req.data true k).isSome = true := by
  rw [after_secret]
  split_ifs with hsecrets
  · exact isSome_patch _ _ k
  · have hnone : ¬ (d.req.data true k).isSome = true :=
      fun h => hsecrets ((hasSecrets_iff d.req).mpr ⟨k, h⟩)
    simp [hnone]

end After

/-- The container ports of a request. -/
def Request.portKeys (req : Request) : List Int :=
  req.port :: req.udpPorts

theorem ports_keys (req : Request) :
    req.ports.map portPatcher.patchKey = req.portKeys := by
  refine congrArg (req.port :: ·) ?_
  refine List.ext_getElem? fun i => ?_
  simp only [List.getElem?_map, List.getElem?_mapIdx, Option.map_map]
  exact Option.map_id'

/-- The names of the ports of a request tell them apart. -/
theorem ports_names (req : Request) : (req.ports.map PortItem.name).Nodup := by
  have hmap : (req.udpPorts.mapIdx (fun i up =>
      (⟨up, some .udp, "udp".toList ++ (toString i).toList⟩ : PortItem))).map
        PortItem.name =
      (List.range req.udpPorts.length).map
        (fun i => "udp".toList ++ (toString i).toList) := by
    refine List.ext_getElem (by simp) fun i h₁ h₂ => ?_
    simp
  have hinj : ∀ i j : Nat, "udp".toList ++ (toString i).toList =
      "udp".toList ++ (toString j).toList → i = j := by
    intro i j h
    have hrepr : Nat.repr i = Nat.repr j :=
      String.toList_inj.mp (List.append_cancel_left h)
    have hdigits : Nat.toDigits 10 i = Nat.toDigits 10 j :=
      String.ofList_injective hrepr
    have hvalue := congrArg (fun t => Nat.ofDigitChars 10 t 0) hdigits
    simpa only [Nat.ofDigitChars_toDigits (b := 10) (by decide) (by decide)]
      using hvalue
  rw [Request.ports, List.map_cons, hmap, List.nodup_cons]
  refine ⟨?_, (List.nodup_range).map (fun i j h => hinj i j h)⟩
  intro hmem
  obtain ⟨i, _, hi⟩ := List.mem_map.mp hmem
  simp at hi

theorem ports_nodup (req : Request) : req.ports.Nodup :=
  (ports_names req).of_map _

/-- What a port of a manifest leaves in the Deployment tells which it was. -/
theorem ports_put (req : Request) :
    ∀ b ∈ req.ports, ∀ c ∈ req.ports, ∀ o o' : Option Port,
      portPatcher.put o b = portPatcher.put o' c → b = c := by
  intro b hb c hc o o' h
  have hname : b.name = c.name := congrArg Port.name h
  exact List.inj_on_of_nodup_map (ports_names req) hb hc hname

/-- A property of the apps that deploys bring and nothing takes away. -/
theorem deployAll_iff {s : Settings} {U : App → Prop} {V : Request → Prop}
    (hafter : ∀ (app : App) (d : Deploy) (networks : Option Net),
      networksOf s d.req = .ok networks →
        (U (app.after s d networks) ↔ U app ∨ V d.req))
    {ds : List Deploy} {app app' : App}
    (h : deployAll s app ds = some app') :
    U app' ↔ U app ∨ ∃ d ∈ ds, V d.req := by
  induction ds generalizing app with
  | nil =>
      obtain rfl := Option.some.inj h
      simp
  | cons d ds ih =>
      obtain ⟨networks, hnet, hrest⟩ := deployAll_cons h
      rw [ih hrest, hafter app d networks hnet, List.exists_mem_cons_iff,
        or_assoc]

/-- The Deployment is there and its template has a property. -/
def App.Has (U : Template → Prop) (app : App) : Prop :=
  ∃ dep, app.deployment = some dep ∧ U dep.template

/-- What a deploy does to a property of the template, from what creating and
patching do to it. -/
theorem has_after_iff {s : Settings} {U : Template → Prop} {app : App}
    {d : Deploy} {networks : Option Net} {V : Prop}
    (hcreate : U (manifestOf s d.digestOf d.req networks).create.template ↔ V)
    (hpatch : ∀ dep, U ((manifestOf s d.digestOf d.req networks).patch
      dep).template ↔ U dep.template ∨ V) :
    App.Has U (app.after s d networks) ↔ App.Has U app ∨ V := by
  unfold App.Has
  rw [after_deployment]
  cases app.deployment with
  | none => simp [hcreate]
  | some dep => simp [hpatch]

theorem has_networks_iff {s : Settings} {ds : List Deploy} {app app' : App}
    (h : deployAll s app ds = some app') :
    App.Has (fun t => t.networks.isSome = true) app' ↔
      App.Has (fun t => t.networks.isSome = true) app ∨
        ∃ d ∈ ds, d.req.attachMec = true := by
  refine deployAll_iff (V := fun req => req.attachMec = true)
    (fun app d networks hnet => ?_) h
  have hsome := networksOf_isSome hnet
  refine has_after_iff ?_ fun dep => ?_
  · rw [← hsome]
    rfl
  · rw [← hsome]
    change (networks.or dep.template.networks).isSome = true ↔ _
    cases networks <;> simp

theorem has_pullSecret_iff {s : Settings} {ds : List Deploy}
    {app app' : App} (h : deployAll s app ds = some app') (name : Text) :
    App.Has (fun t => name ∈ t.pullSecrets) app' ↔
      App.Has (fun t => name ∈ t.pullSecrets) app ∨
        ∃ d ∈ ds, d.req.pullSecret = some name := by
  refine deployAll_iff (V := fun req => req.pullSecret = some name)
    (fun app d networks _ => ?_) h
  refine has_after_iff ?_ fun dep => ?_
  · change name ∈ d.req.pullSecret.toList ↔ _
    cases d.req.pullSecret <;> simp [eq_comm]
  · cases hsecret : d.req.pullSecret with
    | none => simp [manifestOf, Manifest.patch, patchSecrets, hsecret]
    | some new =>
        have hkey := @Patcher.key_mem_apply_iff _ _ _ _ namePatcher
          dep.template.pullSecrets [new] name
        simp only [manifestOf, Manifest.patch, patchSecrets, hsecret]
        simpa [namePatcher, eq_comm] using hkey

theorem has_port_iff {s : Settings} {ds : List Deploy} {app app' : App}
    (h : deployAll s app ds = some app') (p : Int) :
    App.Has (fun t => p ∈ t.ports.map portPatcher.key) app' ↔
      App.Has (fun t => p ∈ t.ports.map portPatcher.key) app ∨
        ∃ d ∈ ds, p ∈ d.req.portKeys := by
  refine deployAll_iff (V := fun req => p ∈ req.portKeys)
    (fun app d networks _ => ?_) h
  rw [← ports_keys]
  refine has_after_iff ?_ fun dep => ?_
  · change p ∈ (portPatcher.create d.req.ports).map portPatcher.key ↔ _
    rw [Patcher.create, List.map_map]
    rfl
  · exact Patcher.key_mem_apply_iff portPatcher

/-- A port number is used for UDP. -/
def UdpAt (p : Int) (x : Port) : Prop :=
  x.containerPort = p ∧ x.protocol = .udp

/-- The UDP items of a request. -/
theorem exists_udp_iff (req : Request) (p : Int) :
    (∃ b ∈ req.ports, b.containerPort = p ∧ b.protocol = some .udp) ↔
      p ∈ req.udpPorts := by
  rw [Request.ports, List.exists_mem_cons_iff]
  constructor
  · rintro (⟨-, h⟩ | ⟨b, hb, hkey, -⟩)
    · cases h
    · obtain ⟨i, hi, rfl⟩ := List.mem_mapIdx.mp hb
      exact hkey ▸ List.getElem_mem hi
  · intro h
    obtain ⟨i, hi, rfl⟩ := List.mem_iff_getElem.mp h
    exact Or.inr ⟨_, List.mem_mapIdx.mpr ⟨i, hi, rfl⟩, rfl, rfl⟩

/-- A request names UDP or no protocol. -/
theorem protocol_ne_tcp {req : Request} {b : PortItem} (hb : b ∈ req.ports) :
    b.protocol ≠ some .tcp := by
  rcases List.mem_cons.mp hb with rfl | hb
  · exact fun h => by cases h
  · obtain ⟨i, hi, rfl⟩ := List.mem_mapIdx.mp hb
    exact fun h => by cases h

theorem udpAt_put_none (p : Int) (b : PortItem) :
    UdpAt p (portPatcher.put none b) ↔
      b.containerPort = p ∧ b.protocol = some .udp := by
  obtain ⟨port, protocol, name⟩ := b
  cases protocol <;> simp [UdpAt, portPatcher]

theorem udpAt_put_some {p : Int} {b : PortItem} {x : Port}
    (hkey : portPatcher.key x = portPatcher.patchKey b)
    (htcp : b.protocol ≠ some .tcp) :
    UdpAt p (portPatcher.put (some x) b) ↔
      UdpAt p x ∨ (b.containerPort = p ∧ b.protocol = some .udp) := by
  obtain ⟨port, protocol, name⟩ := b
  have hport : x.containerPort = port := hkey
  cases protocol with
  | none => simp [UdpAt, portPatcher, hport]
  | some proto =>
      cases proto with
      | tcp => exact absurd rfl htcp
      | udp =>
          simp only [UdpAt, portPatcher, hport, Option.getD_some, and_true]
          tauto

theorem has_udp_iff {s : Settings} {ds : List Deploy} {app app' : App}
    (h : deployAll s app ds = some app') (p : Int) :
    App.Has (fun t => ∃ x ∈ t.ports, UdpAt p x) app' ↔
      App.Has (fun t => ∃ x ∈ t.ports, UdpAt p x) app ∨
        ∃ d ∈ ds, p ∈ d.req.udpPorts := by
  refine deployAll_iff (V := fun req => p ∈ req.udpPorts)
    (fun app d networks _ => ?_) h
  rw [← exists_udp_iff]
  refine has_after_iff ?_ fun dep => ?_
  · change (∃ x ∈ d.req.ports.map (portPatcher.put none), UdpAt p x) ↔ _
    simp only [List.mem_map, exists_exists_and_eq_and, udpAt_put_none]
  · exact Patcher.exists_apply_iff portPatcher
      (fun b _ => udpAt_put_none p b)
      (fun b hb x hx => udpAt_put_some hx (protocol_ne_tcp hb))

theorem nodup_names_apply (xs bs : List Text) :
    (namePatcher.apply xs bs).Nodup ↔ xs.Nodup := by
  have h := @Patcher.nodup_keys_apply_iff _ _ _ _ namePatcher xs bs
  rwa [show namePatcher.key = id from rfl, List.map_id, List.map_id] at h

/-- Of every pull secret there is one. -/
def App.SecretsDistinct (app : App) : Prop :=
  ∀ dep, app.deployment = some dep → dep.template.pullSecrets.Nodup

theorem secretsDistinct_of_deployAll {s : Settings} {ds : List Deploy}
    {app app' : App} (h : deployAll s app ds = some app')
    (happ : app.SecretsDistinct) : app'.SecretsDistinct := by
  induction ds generalizing app with
  | nil =>
      obtain rfl := Option.some.inj h
      exact happ
  | cons d ds ih =>
      obtain ⟨networks, _, hrest⟩ := deployAll_cons h
      refine ih hrest ?_
      intro dep hdep
      rw [after_deployment] at hdep
      obtain rfl := Option.some.inj hdep
      cases happdep : app.deployment with
      | none =>
          change d.req.pullSecret.toList.Nodup
          cases d.req.pullSecret <;> simp
      | some dep =>
          have hold := happ dep happdep
          cases hsecret : d.req.pullSecret with
          | none =>
              simp only [manifestOf, Manifest.patch, patchSecrets, hsecret]
              exact hold
          | some name =>
              simp only [manifestOf, Manifest.patch, patchSecrets, hsecret]
              exact (nodup_names_apply _ _).mpr hold

/-- Two ports of the Deployment have one number exactly when the request that
created it has. -/
theorem has_distinct_iff {s : Settings} {ds : List Deploy} {app app' : App}
    (h : deployAll s app ds = some app') (hdep : app.deployment.isSome = true) :
    App.Has (fun t => (t.ports.map portPatcher.key).Nodup) app' ↔
      App.Has (fun t => (t.ports.map portPatcher.key).Nodup) app := by
  induction ds generalizing app with
  | nil =>
      obtain rfl := Option.some.inj h
      exact Iff.rfl
  | cons d ds ih =>
      obtain ⟨networks, _, hrest⟩ := deployAll_cons h
      obtain ⟨dep, happ⟩ := Option.isSome_iff_exists.mp hdep
      rw [ih hrest (by rw [after_deployment]; rfl)]
      unfold App.Has
      rw [after_deployment, happ]
      simp only [Option.some.injEq, exists_eq_left']
      exact portPatcher.nodup_keys_apply_iff

/-- The earlier requests brought nothing that the last one lacks. -/
structure NothingLeft (earlier : List Deploy) (last : Request) : Prop where
  config : ∀ d ∈ earlier, ∀ k, (d.req.data false k).isSome = true →
    (last.data false k).isSome = true
  secret : ∀ d ∈ earlier, ∀ k, (d.req.data true k).isSome = true →
    (last.data true k).isSome = true
  networks : ∀ d ∈ earlier, d.req.attachMec = true → last.attachMec = true
  pullSecret : ∀ d ∈ earlier, ∀ name, d.req.pullSecret = some name →
    last.pullSecret = some name
  ports : ∀ d ∈ earlier, ∀ p ∈ d.req.portKeys, p ∈ last.portKeys
  tcp : ∀ d ∈ earlier, last.port ∉ d.req.udpPorts
  distinct : ∀ first ∈ earlier.head?,
    first.req.portKeys.Nodup ∧ last.portKeys.Nodup

/-- The compared objects: ConfigMap, Secret, and pod template. -/
structure SameObjects (app fresh : App) : Prop where
  config : app.config = fresh.config
  secret : app.secret = fresh.secret
  template : app.deployment.map Deployment.template =
    fresh.deployment.map Deployment.template

theorem deployAll_append {s : Settings} {ds es : List Deploy}
    {app app' : App} (h : deployAll s app (ds ++ es) = some app') :
    ∃ mid, deployAll s app ds = some mid ∧ deployAll s mid es = some app' := by
  induction ds generalizing app with
  | nil => exact ⟨app, rfl, h⟩
  | cons d ds ih =>
      rw [List.cons_append] at h
      obtain ⟨response, app₁, hd, hrest⟩ := deployed_of_cons h
      obtain ⟨mid, hmid, hlast⟩ := ih hrest
      refine ⟨mid, ?_, hlast⟩
      unfold deployAll
      rw [hd]
      exact hmid

theorem deployAll_singleton {s : Settings} {d : Deploy} {app app' : App}
    (h : deployAll s app [d] = some app') :
    ∃ networks, networksOf s d.req = .ok networks ∧
      app' = app.after s d networks := by
  obtain ⟨networks, hnet, hrest⟩ := deployAll_cons h
  exact ⟨networks, hnet, (Option.some.inj hrest).symm⟩

/-- The ConfigMap after a deploy is that of the request alone exactly when the
request has all its keys. -/
theorem config_same_iff {s : Settings} {app : App} {d : Deploy}
    {networks : Option Net} :
    (app.after s d networks).config =
        (App.empty.after s d networks).config ↔
      ∀ k, (dataOf app.config k).isSome = true →
        (d.req.data false k).isSome = true := by
  rw [after_config, after_config, Option.some.injEq]
  exact patch_eq_iff _ _

/-- The same of the Secret, which is there as soon as it has a key. -/
theorem secret_same_iff {s : Settings} {app : App} {d : Deploy}
    {networks : Option Net}
    (happ : app.secret.isSome = true →
      ∃ k, (dataOf app.secret k).isSome = true) :
    (app.after s d networks).secret =
        (App.empty.after s d networks).secret ↔
      ∀ k, (dataOf app.secret k).isSome = true →
        (d.req.data true k).isSome = true := by
  rw [after_secret, after_secret]
  split_ifs with hsecrets
  · rw [Option.some.injEq]
    exact patch_eq_iff _ _
  · have hnone : ∀ k, ¬ (d.req.data true k).isSome = true :=
      fun k h => hsecrets ((hasSecrets_iff d.req).mpr ⟨k, h⟩)
    constructor
    · intro h k hk
      rw [h] at hk
      cases hk
    · intro h
      cases hsecret : app.secret with
      | none => rfl
      | some data =>
          obtain ⟨k, hk⟩ := happ (by rw [hsecret]; rfl)
          exact absurd (h k hk) (hnone k)

theorem networks_same_iff (new old : Option Net) :
    new.or old = new ↔ (old.isSome = true → new.isSome = true) := by
  cases new <;> cases old <;> simp

/-- The pull secrets after a patch are those of the manifest alone exactly when
there was none but this one. -/
theorem pullSecrets_same_iff {old : List Text} (hold : old.Nodup)
    (new : Option Text) :
    patchSecrets old new = new.toList ↔ ∀ name ∈ old, new = some name := by
  cases new with
  | none =>
      constructor
      · rintro rfl name hname
        cases hname
      · intro h
        refine List.eq_nil_iff_forall_not_mem.mpr fun name hname => ?_
        cases h name hname
  | some name =>
      have hput : ∀ b ∈ [name], ∀ c ∈ [name], ∀ o o' : Option Text,
          namePatcher.put o b = namePatcher.put o' c → b = c :=
        fun _ _ _ _ _ _ h => h
      refine (namePatcher.apply_eq_create_iff (List.nodup_singleton name)
        hput).trans ?_
      constructor
      · rintro ⟨-, -, hmem, -⟩ other hother
        have hname : other ∈ [name] := hmem other hother
        rw [List.mem_singleton.mp hname]
      · intro h
        refine ⟨(List.map_id old).symm ▸ hold, List.nodup_singleton _, ?_,
          fun _ _ _ _ _ => rfl⟩
        intro other hother
        exact List.mem_singleton.mpr (Option.some.inj (h other hother)).symm

/-- The ports after a patch are those of the request alone. -/
theorem ports_same_iff {old : List Port} {req : Request} :
    portPatcher.apply old req.ports = portPatcher.create req.ports ↔
      (old.map portPatcher.key).Nodup ∧ req.portKeys.Nodup ∧
      (∀ p ∈ old.map portPatcher.key, p ∈ req.portKeys) ∧
      ¬ ∃ x ∈ old, UdpAt req.port x := by
  rw [portPatcher.apply_eq_create_iff (ports_nodup req) (ports_put req),
    ports_keys]
  refine and_congr_right fun _ => and_congr_right fun _ => ?_
  refine and_congr (by simp) ?_
  constructor
  · rintro h ⟨x, hx, hport, hudp⟩
    have hput := h ⟨req.port, none, "http".toList⟩ List.mem_cons_self x hx hport
    have hproto : x.protocol = .tcp := congrArg Port.protocol hput
    rw [hudp] at hproto
    cases hproto
  · intro h b hb x hx hkey
    rcases List.mem_cons.mp hb with rfl | hb
    · have hproto : x.protocol = .tcp := by
        cases hx' : x.protocol with
        | tcp => rfl
        | udp => exact absurd ⟨x, hx, hkey, hx'⟩ h
      simp [portPatcher, hproto]
    · obtain ⟨i, hi, rfl⟩ := List.mem_mapIdx.mp hb
      rfl

/-- The template after a patch is that of the manifest alone. -/
theorem template_same_iff {s : Settings} {d : Deploy}
    {networks : Option Net} {dep : Deployment}
    (hold : dep.template.pullSecrets.Nodup) :
    ((manifestOf s d.digestOf d.req networks).patch dep).template =
        (manifestOf s d.digestOf d.req networks).create.template ↔
      (dep.template.networks.isSome = true → networks.isSome = true) ∧
      ((dep.template.ports.map portPatcher.key).Nodup ∧
        d.req.portKeys.Nodup ∧
        (∀ p ∈ dep.template.ports.map portPatcher.key, p ∈ d.req.portKeys) ∧
        ¬ ∃ x ∈ dep.template.ports, UdpAt d.req.port x) ∧
      ∀ name ∈ dep.template.pullSecrets, d.req.pullSecret = some name := by
  rw [← networks_same_iff, ← ports_same_iff, ← pullSecrets_same_iff hold,
    Manifest.patch, Manifest.create, Template.mk.injEq]
  simp only [manifestOf, true_and]

theorem has_none_iff {U : Template → Prop} (app : App)
    (h : app.deployment = none) : ¬ App.Has U app := by
  rintro ⟨dep, hdep, _⟩
  rw [h] at hdep
  cases hdep

theorem has_some_iff {U : Template → Prop} {app : App} {dep : Deployment}
    (h : app.deployment = some dep) : App.Has U app ↔ U dep.template := by
  unfold App.Has
  rw [h]
  simp

/-- What a property of the template comes to when the app began without one. -/
theorem template_iff {U : Template → Prop} {app : App} {dep : Deployment}
    {V : Prop} (hdep : app.deployment = some dep)
    (hiff : App.Has U app ↔ App.Has U .empty ∨ V) : U dep.template ↔ V := by
  rw [has_some_iff hdep] at hiff
  exact hiff.trans (or_iff_right (has_none_iff _ rfl))

/-- The Secret is there only when some key came with it. -/
theorem secret_isSome {s : Settings} {ds : List Deploy} {app : App}
    (h : deployAll s .empty ds = some app) (hsome : app.secret.isSome = true) :
    ∃ k, (dataOf app.secret k).isSome = true := by
  have hkeep : ∀ (ds : List Deploy) (app app' : App),
      (app.secret.isSome = true → ∃ k, (dataOf app.secret k).isSome = true) →
      deployAll s app ds = some app' → app'.secret.isSome = true →
        ∃ k, (dataOf app'.secret k).isSome = true := by
    intro ds
    induction ds with
    | nil =>
        intro app app' happ h hsome
        obtain rfl := Option.some.inj h
        exact happ hsome
    | cons d ds ih =>
        intro app app' happ h hsome
        obtain ⟨networks, _, hrest⟩ := deployAll_cons h
        refine ih _ app' (fun hafter => ?_) hrest hsome
        by_cases hsecrets : d.req.hasSecrets = true
        · obtain ⟨k, hk⟩ := (hasSecrets_iff d.req).mp hsecrets
          exact ⟨k, (isSome_after_secret k).mpr (Or.inr hk)⟩
        · rw [after_secret, if_neg hsecrets] at hafter
          obtain ⟨k, hk⟩ := happ hafter
          exact ⟨k, (isSome_after_secret k).mpr (Or.inl hk)⟩
  exact hkeep ds .empty app (fun h => by cases h) h hsome

theorem isSome_config_iff {s : Settings} {ds : List Deploy} {app : App}
    (h : deployAll s .empty ds = some app) (k : Text) :
    (dataOf app.config k).isSome = true ↔
      ∃ d ∈ ds, (d.req.data false k).isSome = true := by
  have hiff := deployAll_iff
    (U := fun app => (dataOf app.config k).isSome = true)
    (V := fun req => (req.data false k).isSome = true)
    (fun app d networks _ => isSome_after_config k) h
  exact hiff.trans (or_iff_right (fun hempty => by cases hempty))

theorem isSome_secret_iff {s : Settings} {ds : List Deploy} {app : App}
    (h : deployAll s .empty ds = some app) (k : Text) :
    (dataOf app.secret k).isSome = true ↔
      ∃ d ∈ ds, (d.req.data true k).isSome = true := by
  have hiff := deployAll_iff
    (U := fun app => (dataOf app.secret k).isSome = true)
    (V := fun req => (req.data true k).isSome = true)
    (fun app d networks _ => isSome_after_secret k) h
  exact hiff.trans (or_iff_right (fun hempty => by cases hempty))

/-- The Deployment that is there after a first deploy. -/
theorem deployment_of_cons {s : Settings} {d : Deploy} {ds : List Deploy}
    {app : App} (h : deployAll s .empty (d :: ds) = some app) :
    ∃ dep, app.deployment = some dep ∧ dep.template.pullSecrets.Nodup ∧
      ((dep.template.ports.map portPatcher.key).Nodup ↔
        d.req.portKeys.Nodup) := by
  obtain ⟨networks, _, hrest⟩ := deployAll_cons h
  have hfirst : (App.empty.after s d networks).deployment =
      some (manifestOf s d.digestOf d.req networks).create := after_deployment
  have hsome : ∀ (ds : List Deploy) (app app' : App),
      app.deployment.isSome = true → deployAll s app ds = some app' →
        app'.deployment.isSome = true := by
    intro ds
    induction ds with
    | nil =>
        intro app app' happ h
        obtain rfl := Option.some.inj h
        exact happ
    | cons d ds ih =>
        intro app app' _ h
        obtain ⟨networks, _, hrest⟩ := deployAll_cons h
        exact ih _ app' (by rw [after_deployment]; rfl) hrest
  have hisSome : (App.empty.after s d networks).deployment.isSome = true := by
    rw [hfirst]
    rfl
  obtain ⟨dep, hdep⟩ := Option.isSome_iff_exists.mp
    (hsome ds _ app hisSome hrest)
  have hsecrets := secretsDistinct_of_deployAll h
    (fun dep hnone => by cases hnone)
  have hdistinct := has_distinct_iff hrest hisSome
  rw [has_some_iff hdep, has_some_iff hfirst] at hdistinct
  refine ⟨dep, hdep, hsecrets dep hdep, hdistinct.trans ?_⟩
  rw [← ports_keys]
  change ((portPatcher.create d.req.ports).map portPatcher.key).Nodup ↔ _
  rw [Patcher.create, List.map_map]
  rfl

/-- After a sequence of deploys of one app its ConfigMap, Secret and pod
template are those that deploying the last request alone makes, exactly when
the earlier requests brought nothing that the last one lacks. -/
theorem redeploy_same_iff {s : Settings} {earlier : List Deploy}
    {last : Deploy} {app fresh : App}
    (h : deployAll s .empty (earlier ++ [last]) = some app)
    (hfresh : deployAll s .empty [last] = some fresh) :
    SameObjects app fresh ↔ NothingLeft earlier last.req := by
  obtain ⟨mid, hmid, hlast⟩ := deployAll_append h
  obtain ⟨networks, hnet, rfl⟩ := deployAll_singleton hlast
  obtain ⟨networks', hnet', rfl⟩ := deployAll_singleton hfresh
  obtain rfl : networks = networks' :=
    Except.ok.inj (hnet.symm.trans hnet')
  cases earlier with
  | nil =>
      obtain rfl := Option.some.inj hmid
      refine iff_of_true ⟨rfl, rfl, rfl⟩ ?_
      constructor <;> simp
  | cons first rest =>
      obtain ⟨dep, hdep, hsecrets, hdistinct⟩ := deployment_of_cons hmid
      have hconfig := @config_same_iff s mid last networks
      have hsecret := @secret_same_iff s mid last networks
        (secret_isSome hmid)
      have htemplate := @template_same_iff s last networks dep hsecrets
      have hnetworks : dep.template.networks.isSome = true ↔
          ∃ d ∈ first :: rest, d.req.attachMec = true :=
        template_iff hdep (has_networks_iff hmid)
      have hports : ∀ p, p ∈ dep.template.ports.map portPatcher.key ↔
          ∃ d ∈ first :: rest, p ∈ d.req.portKeys :=
        fun p => template_iff hdep (has_port_iff hmid p)
      have hudp : (∃ x ∈ dep.template.ports, UdpAt last.req.port x) ↔
          ∃ d ∈ first :: rest, last.req.port ∈ d.req.udpPorts :=
        template_iff hdep (has_udp_iff hmid last.req.port)
      have hpull : ∀ name, name ∈ dep.template.pullSecrets ↔
          ∃ d ∈ first :: rest, d.req.pullSecret = some name :=
        fun name => template_iff hdep (has_pullSecret_iff hmid name)
      have hsame : ((mid.after s last networks).deployment.map
            Deployment.template =
          (App.empty.after s last networks).deployment.map
            Deployment.template) ↔
          ((manifestOf s last.digestOf last.req networks).patch
            dep).template =
          (manifestOf s last.digestOf last.req networks).create.template := by
        rw [after_deployment, after_deployment, hdep]
        exact Option.some_inj
      rw [networksOf_isSome hnet, hnetworks, hdistinct, hudp] at htemplate
      constructor
      · rintro ⟨hc, hs, ht⟩
        obtain ⟨hn, ⟨hfirst, hkeys, hmem, htcp⟩, hp⟩ :=
          htemplate.mp (hsame.mp ht)
        exact {
          config := fun d hd k hk => hconfig.mp hc k
            ((isSome_config_iff hmid k).mpr ⟨d, hd, hk⟩)
          secret := fun d hd k hk => hsecret.mp hs k
            ((isSome_secret_iff hmid k).mpr ⟨d, hd, hk⟩)
          networks := fun d hd hattach => hn ⟨d, hd, hattach⟩
          pullSecret := fun d hd name hname =>
            hp name ((hpull name).mpr ⟨d, hd, hname⟩)
          ports := fun d hd p hport => hmem p ((hports p).mpr ⟨d, hd, hport⟩)
          tcp := fun d hd hport => htcp ⟨d, hd, hport⟩
          distinct := by
            rintro d ⟨rfl⟩
            exact ⟨hfirst, hkeys⟩ }
      · intro hleft
        have hfirst := hleft.distinct first rfl
        refine ⟨hconfig.mpr fun k hk => ?_, hsecret.mpr fun k hk => ?_,
          hsame.mpr (htemplate.mpr ⟨?_, ⟨hfirst.1, hfirst.2, ?_, ?_⟩, ?_⟩)⟩
        · obtain ⟨d, hd, hkd⟩ := (isSome_config_iff hmid k).mp hk
          exact hleft.config d hd k hkd
        · obtain ⟨d, hd, hkd⟩ := (isSome_secret_iff hmid k).mp hk
          exact hleft.secret d hd k hkd
        · rintro ⟨d, hd, hattach⟩
          exact hleft.networks d hd hattach
        · intro p hp
          obtain ⟨d, hd, hport⟩ := (hports p).mp hp
          exact hleft.ports d hd p hport
        · rintro ⟨d, hd, hport⟩
          exact hleft.tcp d hd hport
        · intro name hname
          obtain ⟨d, hd, hsecretName⟩ := (hpull name).mp hname
          exact hleft.pullSecret d hd name hsecretName

/-- Settings of a testbed. -/
def testbed : Settings where
  ns := "mec".toList
  n6mNad := "n6m-net".toList
  n6mStaticNad := "n6m-static".toList
  staticBand := .v4 (BitVec.ofNat 32 0x0ad000c8) 29
  subnetLength := 24
  registryHost := []
  externalScheme := "https".toList
  externalBaseDomain := []
  keltPrefix := "kelt".toList

/-- The app "face" with these variables. -/
def faceWith (env : List EnvVar) : Deploy where
  req :=
    { name := "face".toList
      image := "face:dev".toList
      port := 80
      replicas := 1
      env := env
      imagePullSecret := none
      expose := true
      attachMec := false
      mecIp := none
      udpPorts := [] }
  digestOf := fun _ _ => none

def modeVar : EnvVar := ⟨"MODE".toList, "debug".toList, false⟩

theorem redeploy_same_face :
    ∃ app fresh, deployAll testbed .empty ([faceWith []] ++
        [faceWith [modeVar]]) = some app ∧
      (SameObjects app fresh ↔
        NothingLeft [faceWith []] (faceWith [modeVar]).req) :=
  ⟨_, _, rfl, redeploy_same_iff rfl rfl⟩

/-- A variable that the second deploy no longer has stays in the ConfigMap. -/
theorem dropped_variable_kept :
    ¬ ∀ (s : Settings) (earlier : List Deploy) (last : Deploy)
      (app fresh : App),
      deployAll s .empty (earlier ++ [last]) = some app →
      deployAll s .empty [last] = some fresh → SameObjects app fresh := by
  intro hall
  have hsame := hall testbed [faceWith [modeVar]] (faceWith []) _ _ rfl rfl
  have hmode := congrArg (fun o => dataOf o "MODE".toList) hsame.config
  cases hmode

end Redeploy

end Apps
end Kelt
