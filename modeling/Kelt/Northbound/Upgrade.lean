import Kelt.Lib.PyInt
import Kelt.Northbound.Files

/-!
# Upgrading an adapter

`upgrade_adapter` reads the adapter's ConfigMap, adds the wiring, drops
`ADAPTER_KIND` and the frame `local`, and merges the result back; a key that is
dropped is then removed by a read and a replacement. A read that fails counts as
empty data, so that nothing is migrated and the wiring is written over, and one
that finds nothing ends the removal. The configuration is migrated exactly when
no read is taken wrongly that would have mattered (`upgrade_iff`).

What the later calls of an upgrade do to the Deployment is left out; they do not
touch the ConfigMap.
-/

namespace Kelt
namespace Northbound
namespace Upgrade

open Apps

section Capabilities

/-- The capabilities as `json.loads` and `json.dumps` see them: a text is an
object, another value (`some none`) or no JSON, and an object that is written is
read back. A text among the values is the text of one string. -/
structure CapsJson where
  V : Type
  eq : DecidableEq V
  str : Text → V
  str_injective : Function.Injective str
  loads : Text → Option (Option (Dict Text V))
  dumps : Dict Text V → Text
  loads_nil : loads [] = none
  loads_dumps : ∀ caps, loads (dumps caps) = some (some caps)

variable (json : CapsJson)

/-- The object in a text, `json.loads(caps_json) if caps_json else None`. -/
def CapsJson.object (capsJson : Text) : Option (Dict Text json.V) :=
  if capsJson = [] then none else (json.loads capsJson).join

def frame : Text :=
  "frame".toList

def localFrame : Text :=
  "local".toList

/-- `_IMAGES_WITH_BAKED_FRAME` -/
def imagesWithBakedFrame : List Text :=
  ["wifi-adapter".toList, "synthetic-adapter".toList]

/-- The object without the frame `local`. -/
def rebind (imageBasename : Text) (caps : Dict Text json.V) : Dict Text json.V :=
  if imageBasename ∈ imagesWithBakedFrame then caps.erase frame
  else caps.set frame (json.str "venue".toList)

/-- `migrate_capabilities` -/
def migrateCapabilities (capsJson imageBasename : Text) : Option Text :=
  match json.object capsJson with
  | none => none
  | some caps =>
      have := json.eq
      if caps.get? frame = some (json.str localFrame) then
        some (json.dumps (rebind json imageBasename caps))
      else none

end Capabilities

section Upgrade

/-- The cluster facts of the wiring. -/
structure Plan where
  positioningNs : Text
  enginePort : Int

/-- `KELT_WIRED_ENV` -/
def engineUrlKey : Text :=
  "POSITIONING_ENGINE_URL".toList

def adapterNameKey : Text :=
  "ADAPTER_NAME".toList

def baseUrlKey : Text :=
  "ADAPTER_BASE_URL".toList

def kindKey : Text :=
  "ADAPTER_KIND".toList

def capabilitiesKey : Text :=
  "ADAPTER_CAPABILITIES".toList

/-- `http://{service}.{ns}.svc.cluster.local:{port}` -/
def serviceUrl (service ns : Text) (port : Int) : Text :=
  "http://".toList ++ service ++ ".".toList ++ ns ++
    ".svc.cluster.local:".toList ++ intText port

/-- `_kelt_wiring` -/
def keltWiring (p : Plan) (name : Text) (port : Int) : List (Text × Text) :=
  [(engineUrlKey,
      serviceUrl "positioning-engine".toList p.positioningNs p.enginePort),
    (adapterNameKey, name),
    (baseUrlKey, serviceUrl name p.positioningNs port)]

/-- `_RETIRED_ADAPTER_ENV` -/
def retiredAdapterEnv : List Text :=
  [kindKey]

/-- What a read of the ConfigMap comes to: what is there, or a failure. -/
inductive Read where
  | answered
  | notFound
  | failed
deriving DecidableEq

/-- What the calls of one upgrade come to: the container ports of the Deployment
where it could be read, the two reads of the ConfigMap, and whether the later
calls succeed. -/
structure Calls where
  deployment : Option (List (List Int))
  config : Read
  unset : Read
  later : Bool

/-- The port of `ADAPTER_BASE_URL`. -/
def Calls.port (c : Calls) : Int :=
  match c.deployment with
  | some ((p :: _) :: _) => if p = 0 then 8080 else p
  | _ => 8080

/-- `data.setdefault(k, v)` -/
def setdefault (d : Data) (kv : Text × Text) : Data := fun k =>
  if k = kv.1 then some ((d k).getD kv.2) else d k

def pop (d : Data) (key : Text) : Data := fun k =>
  if k = key then none else d k

def put (d : Data) (key v : Text) : Data := fun k =>
  if k = key then some v else d k

/-- The data that is read: a failure counts as none. -/
def readData (r : Read) (stored : Option Data) : Data :=
  match r with
  | .answered => stored.getD .empty
  | .notFound => .empty
  | .failed => .empty

/-- The retired keys that are there. -/
def retired (d : Data) : List Text :=
  retiredAdapterEnv.filter fun k => (d k).isSome

def wired (p : Plan) (name : Text) (port : Int) (d : Data) : Data :=
  (keltWiring p name port).foldl setdefault d

/-- The data that is merged into the ConfigMap. -/
def merged (json : CapsJson) (imageBasename : Text) (d : Data) : Data :=
  let data := (retired d).foldl pop d
  match migrateCapabilities json ((data capabilitiesKey).getD [])
      imageBasename with
  | some caps => put data capabilitiesKey caps
  | none => data

/-- `apply_configmap`: a patch, or a new object. -/
def applyConfigmap (stored : Option Data) (data : Data) : Data :=
  (stored.getD .empty).patch data

/-- `unset_configmap_keys`; an error is none. -/
def unsetConfigmapKeys (r : Read) (keys : List Text) (stored : Data) :
    Option Data :=
  match r with
  | .answered => some (keys.foldl pop stored)
  | .notFound => some stored
  | .failed => none

inductive Outcome where
  | invalid (e : Invalid)
  | error
  | upgrading (name image : Text)
deriving DecidableEq

/-- The writes of the configuration: what they leave, if the removal does not
fail, and what the merge has left before. -/
def migrateConfig (json : CapsJson) (p : Plan) (calls : Calls)
    (name image : Text) (stored : Option Data) : Option Data × Data :=
  let data := wired p name calls.port (readData calls.config stored)
  let patched :=
    applyConfigmap stored (merged json (imageBasename image) data)
  if retired data = [] then (some patched, patched)
  else (unsetConfigmapKeys calls.unset (retired data) patched, patched)

/-- `upgrade_adapter`, with the ConfigMap that it leaves. -/
def upgradeAdapter (json : CapsJson) (p : Plan) (calls : Calls)
    (name image : Text) (stored : Option Data) : Outcome × Option Data :=
  if nameOk name = false then (.invalid (.name name), stored)
  else if imageOk image = false then (.invalid (.image image), stored)
  else
    match migrateConfig json p calls name image stored with
    | (none, patched) => (.error, some patched)
    | (some config, _) =>
        (if calls.later then .upgrading name image else .error, some config)

end Upgrade

section Migrated

/-- The keys of the wiring. -/
def wiredKeys : List Text :=
  [engineUrlKey, adapterNameKey, baseUrlKey]

/-- The capabilities object of a configuration. -/
def capabilities (json : CapsJson) (d : Data) : Option (Dict Text json.V) :=
  json.object ((d capabilitiesKey).getD [])

/-- The object declares the frame `local`. -/
def DeclaresLocal (json : CapsJson) (d : Data) : Prop :=
  ∃ caps, capabilities json d = some caps ∧
    caps.get? frame = some (json.str localFrame)

/-- The configuration `new` is `old`, migrated. -/
structure Migrated (json : CapsJson) (old new : Data) : Prop where
  noKind : new kindKey = none
  noLocal : ¬ DeclaresLocal json new
  wiring : ∀ k ∈ wiredKeys, new k ≠ none ∧ ∀ v, old k = some v → new k = some v
  others : ∀ k, k ≠ kindKey → k ≠ capabilitiesKey → k ∉ wiredKeys →
    new k = old k
  capabilities : ∀ caps, Upgrade.capabilities json old = some caps →
    ∃ caps', Upgrade.capabilities json new = some caps' ∧
      ∀ k ≠ frame, caps'.get? k = caps.get? k
  untouched : ¬ DeclaresLocal json old →
    new capabilitiesKey = old capabilitiesKey

/-- What the wiring gives to a key. -/
def wiringValue (p : Plan) (name : Text) (port : Int) (k : Text) :
    Option Text :=
  ((keltWiring p name port).find? fun kv => decide (kv.1 = k)).map Prod.snd

/-- Nothing in the configuration is lost when it is taken for empty. -/
structure Plain (json : CapsJson) (p : Plan) (name : Text) (port : Int)
    (old : Data) : Prop where
  noKind : old kindKey = none
  noLocal : ¬ DeclaresLocal json old
  wiring : ∀ k ∈ wiredKeys, ∀ v, old k = some v →
    wiringValue p name port k = some v

/-- No read of the two upgrades is taken wrongly where that matters: the first
read succeeds, or the configuration is plain; the read of the removal does not
find nothing; and the second upgrade reads the configuration, or writes the
wiring that is there. -/
structure Sound (json : CapsJson) (p : Plan) (name : Text)
    (first second : Calls) (old : Data) : Prop where
  config : first.config = .answered ∨ Plain json p name first.port old
  unset : old kindKey ≠ none → first.unset ≠ .notFound
  again : second.config = .answered ∨ ∀ k ∈ wiredKeys,
    wiringValue p name second.port k =
      (old k).or (wiringValue p name first.port k)

end Migrated

section Lookups

variable {json : CapsJson} {p : Plan} {name : Text} {port : Int} {d : Data}

theorem foldl_setdefault (kvs : List (Text × Text)) (d : Data) (k : Text) :
    kvs.foldl setdefault d k =
      (d k).or ((kvs.find? fun kv => decide (kv.1 = k)).map Prod.snd) := by
  induction kvs generalizing d with
  | nil => simp
  | cons kv kvs ih =>
      rw [List.foldl_cons, ih, setdefault]
      by_cases hk : kv.1 = k
      · have hfirst : (kv :: kvs).find? (fun kv => decide (kv.1 = k)) =
            some kv := List.find?_cons_of_pos (decide_eq_true hk)
        rw [if_pos hk.symm, hfirst]
        cases d k <;> rfl
      · rw [if_neg (Ne.symm hk),
          List.find?_cons_of_neg (by simpa using hk)]

theorem wired_apply (k : Text) :
    wired p name port d k = (d k).or (wiringValue p name port k) :=
  foldl_setdefault _ d k

theorem wiringValue_ne_none {k : Text} (h : k ∈ wiredKeys) :
    wiringValue p name port k ≠ none := by
  simp only [wiredKeys, List.mem_cons, List.not_mem_nil, or_false] at h
  rcases h with rfl | rfl | rfl <;> exact Option.some_ne_none _

theorem wiringValue_eq_none {k : Text} (h : k ∉ wiredKeys) :
    wiringValue p name port k = none := by
  simp only [wiredKeys, List.mem_cons, List.not_mem_nil, or_false,
    not_or] at h
  unfold wiringValue keltWiring
  simp [Ne.symm h.1, Ne.symm h.2.1, Ne.symm h.2.2]

theorem retired_eq (d : Data) :
    retired d = if (d kindKey).isSome then [kindKey] else [] := by
  unfold retired retiredAdapterEnv
  cases h : (d kindKey).isSome <;> simp [h]

/-- Popping the retired keys leaves no kind. -/
theorem foldl_pop_retired (d : Data) :
    (retired d).foldl pop d = pop d kindKey := by
  rw [retired_eq]
  split
  · rfl
  · rename_i hnone
    funext k
    rw [pop]
    split
    · rename_i hk
      rw [hk]
      simpa using hnone
    · rfl

theorem migrateCapabilities_eq_none (imageBasename : Text)
    (h : ¬ DeclaresLocal json d) :
    migrateCapabilities json ((d capabilitiesKey).getD []) imageBasename =
      none := by
  unfold migrateCapabilities
  cases hcaps : json.object ((d capabilitiesKey).getD []) with
  | none => rfl
  | some caps => exact if_neg fun hframe => h ⟨caps, hcaps, hframe⟩

/-- The ConfigMap behind the merge. -/
theorem patched_apply (imageBasename : Text) (stored : Option Data) (r : Data)
    (k : Text) :
    applyConfigmap stored
        (merged json imageBasename (wired p name port r)) k =
      if k = kindKey then stored.getD .empty k
      else if k = capabilitiesKey then
        ((migrateCapabilities json ((r k).getD []) imageBasename).or (r k)).or
          (stored.getD .empty k)
      else ((r k).or (wiringValue p name port k)).or
        (stored.getD .empty k) := by
  have hcaps : pop (wired p name port r) kindKey capabilitiesKey =
      r capabilitiesKey := by
    rw [pop, if_neg (by decide), wired_apply,
      wiringValue_eq_none (by decide), Option.or_none]
  unfold applyConfigmap Data.patch merged
  rw [foldl_pop_retired, hcaps]
  by_cases hkind : k = kindKey
  · subst hkind
    have hne : kindKey ≠ capabilitiesKey := by decide
    rw [if_pos rfl]
    cases migrateCapabilities json ((r capabilitiesKey).getD []) imageBasename
      with
    | none => simp [pop]
    | some caps => simp [put, pop, hne]
  · rw [if_neg hkind]
    by_cases hkey : k = capabilitiesKey
    · subst hkey
      rw [if_pos rfl]
      cases migrateCapabilities json ((r capabilitiesKey).getD [])
          imageBasename with
      | none => simp [hcaps]
      | some caps => simp [put]
    · rw [if_neg hkey]
      cases migrateCapabilities json ((r capabilitiesKey).getD []) imageBasename
        with
      | none => simp [pop, hkind, wired_apply]
      | some caps => simp [put, pop, hkind, hkey, wired_apply]

end Lookups

section Target

variable (json : CapsJson) (p : Plan) (name image : Text) (port : Int)
  (old : Data)

/-- The configuration that an upgrade is to leave. -/
def target : Data := fun k =>
  if k = kindKey then none
  else if k = capabilitiesKey then
    (migrateCapabilities json ((old k).getD []) (imageBasename image)).or
      (old k)
  else (old k).or (wiringValue p name port k)

theorem object_dumps (caps : Dict Text json.V) :
    json.object (json.dumps caps) = some caps := by
  have hne : json.dumps caps ≠ [] := by
    intro hnil
    have hloads := json.loads_dumps caps
    rw [hnil, json.loads_nil] at hloads
    cases hloads
  unfold CapsJson.object
  rw [if_neg hne, json.loads_dumps]
  rfl

theorem get?_rebind_frame (imageBasename : Text) (caps : Dict Text json.V) :
    (rebind json imageBasename caps).get? frame ≠
      some (json.str localFrame) := by
  unfold rebind
  split
  · rw [Dict.get?_erase, if_pos rfl]
    exact (Option.some_ne_none _).symm
  · rw [Dict.get?_set_self, ne_eq, Option.some.injEq]
    intro h
    exact absurd (json.str_injective h) (by decide)

theorem get?_rebind_of_ne (imageBasename : Text) (caps : Dict Text json.V)
    {k : Text} (hk : k ≠ frame) :
    (rebind json imageBasename caps).get? k = caps.get? k := by
  unfold rebind
  split
  · exact Dict.get?_erase_of_ne caps hk
  · exact Dict.get?_set_of_ne caps _ hk

theorem target_kind : target json p name image port old kindKey = none :=
  if_pos rfl

theorem target_capabilities :
    target json p name image port old capabilitiesKey =
      (migrateCapabilities json ((old capabilitiesKey).getD [])
        (imageBasename image)).or (old capabilitiesKey) := by
  unfold target
  rw [if_neg (by decide), if_pos rfl]

theorem target_of_ne {k : Text} (hkind : k ≠ kindKey)
    (hcaps : k ≠ capabilitiesKey) :
    target json p name image port old k =
      (old k).or (wiringValue p name port k) := by
  unfold target
  rw [if_neg hkind, if_neg hcaps]

theorem ne_of_mem_wiredKeys {k : Text} (h : k ∈ wiredKeys) :
    k ≠ kindKey ∧ k ≠ capabilitiesKey := by
  constructor
  · rintro rfl
    revert h
    decide
  · rintro rfl
    revert h
    decide

/-- The capabilities of the target: the migrated ones, or those that were
there. -/
theorem capabilities_target :
    (DeclaresLocal json old ∧ ∃ caps, capabilities json old = some caps ∧
      capabilities json (target json p name image port old) =
        some (rebind json (imageBasename image) caps)) ∨
    (¬ DeclaresLocal json old ∧
      target json p name image port old capabilitiesKey =
        old capabilitiesKey) := by
  by_cases hlocal : DeclaresLocal json old
  · obtain ⟨caps, hcaps, hframe⟩ := hlocal
    have hmigrate : migrateCapabilities json ((old capabilitiesKey).getD [])
        (imageBasename image) =
          some (json.dumps (rebind json (imageBasename image) caps)) := by
      unfold migrateCapabilities
      rw [show json.object _ = some caps from hcaps]
      exact if_pos hframe
    refine .inl ⟨⟨caps, hcaps, hframe⟩, caps, hcaps, ?_⟩
    unfold capabilities
    rw [target_capabilities, hmigrate, Option.some_or, Option.getD_some,
      object_dumps]
  · refine .inr ⟨hlocal, ?_⟩
    rw [target_capabilities, migrateCapabilities_eq_none _ hlocal,
      Option.none_or]

theorem capabilities_congr {d e : Data}
    (h : d capabilitiesKey = e capabilitiesKey) :
    capabilities json d = capabilities json e := by
  unfold capabilities
  rw [h]

theorem not_declaresLocal_target :
    ¬ DeclaresLocal json (target json p name image port old) := by
  rintro ⟨caps', hcaps', hframe'⟩
  rcases capabilities_target json p name image port old with
    ⟨-, caps, -, hnew⟩ | ⟨hlocal, hsame⟩
  · rw [hnew, Option.some.injEq] at hcaps'
    rw [← hcaps'] at hframe'
    exact get?_rebind_frame json _ caps hframe'
  · rw [capabilities_congr json hsame] at hcaps'
    exact hlocal ⟨caps', hcaps', hframe'⟩

/-- The target is the migrated configuration. -/
theorem migrated_target :
    Migrated json old (target json p name image port old) where
  noKind := target_kind json p name image port old
  noLocal := not_declaresLocal_target json p name image port old
  wiring := by
    intro k hk
    obtain ⟨hkind, hcaps⟩ := ne_of_mem_wiredKeys hk
    rw [target_of_ne json p name image port old hkind hcaps]
    constructor
    · intro hnone
      exact wiringValue_ne_none hk (Option.or_eq_none_iff.1 hnone).2
    · intro v hv
      rw [hv]
      rfl
  others := by
    intro k hkind hcaps hk
    rw [target_of_ne json p name image port old hkind hcaps,
      wiringValue_eq_none hk, Option.or_none]
  capabilities := by
    intro caps hcaps
    rcases capabilities_target json p name image port old with
      ⟨-, caps₀, hcaps₀, hnew⟩ | ⟨-, hsame⟩
    · rw [hcaps₀, Option.some.injEq] at hcaps
      rw [← hcaps]
      exact ⟨_, hnew, fun k hk => get?_rebind_of_ne json _ _ hk⟩
    · exact ⟨caps, (capabilities_congr json hsame).trans hcaps,
        fun _ _ => rfl⟩
  untouched := by
    intro hlocal
    rcases capabilities_target json p name image port old with
      ⟨hlocal', -⟩ | ⟨-, hsame⟩
    · exact absurd hlocal' hlocal
    · exact hsame

end Target

section Runs

variable {json : CapsJson} {p : Plan} {calls : Calls} {name image : Text}
  {stored : Option Data} {old : Data}

theorem retired_wired (port : Int) (r : Data) :
    retired (wired p name port r) =
      if (r kindKey).isSome then [kindKey] else [] := by
  rw [retired_eq, wired_apply, wiringValue_eq_none (by decide), Option.or_none]

/-- Merged into what it was read from, the data is the target but for the
kind. -/
theorem patched_answered (port : Int) (hold : stored.getD .empty = old)
    (k : Text) :
    applyConfigmap stored
        (merged json (imageBasename image) (wired p name port old)) k =
      if k = kindKey then old k else target json p name image port old k := by
  rw [patched_apply, hold]
  unfold target
  split
  · rfl
  · split
    · cases migrateCapabilities json ((old k).getD []) (imageBasename image)
        <;> cases old k <;> rfl
    · cases old k <;> simp

/-- With the configuration read, the upgrade leaves the target, where the
removal is not needed or does what it is asked. -/
theorem migrateConfig_answered (hread : calls.config = .answered)
    (hold : stored.getD .empty = old) :
    (migrateConfig json p calls name image stored).1 =
      if old kindKey = none ∨ calls.unset = .answered then
        some (target json p name image calls.port old)
      else if calls.unset = .notFound then
        some (fun k => if k = kindKey then old k
          else target json p name image calls.port old k)
      else none := by
  have hpatched : applyConfigmap stored (merged json (imageBasename image)
      (wired p name calls.port old)) = fun k => if k = kindKey then old k
        else target json p name image calls.port old k :=
    funext (patched_answered calls.port hold)
  have hpop : pop (fun k => if k = kindKey then old k
        else target json p name image calls.port old k) kindKey =
      target json p name image calls.port old := by
    funext k
    unfold pop
    by_cases hk : k = kindKey
    · rw [if_pos hk, hk, target_kind]
    · rw [if_neg hk]
      exact if_neg hk
  unfold migrateConfig readData
  rw [hread]
  dsimp only
  rw [hold, retired_wired, hpatched]
  cases hkind : old kindKey with
  | none =>
      have hretired : (if (none : Option Text).isSome then [kindKey] else []) =
          [] := rfl
      rw [hretired, if_pos rfl, if_pos (.inl rfl)]
      refine congrArg some (funext fun k => ?_)
      split
      · rename_i hk
        rw [hk, hkind, target_kind]
      · rfl
  | some v =>
      have hretired : (if (some v).isSome then [kindKey] else []) =
          [kindKey] := rfl
      rw [hretired, if_neg (List.cons_ne_nil _ _)]
      cases calls.unset with
      | answered =>
          rw [if_pos (by simp)]
          exact congrArg some hpop
      | notFound =>
          rw [if_neg (by simp), if_pos rfl]
          rfl
      | failed =>
          rw [if_neg (by simp), if_neg (by simp)]
          rfl

/-- With the configuration not read, the wiring is written over what is there
and nothing else happens. -/
theorem migrateConfig_missed (hread : calls.config ≠ .answered)
    (hold : stored.getD .empty = old) :
    (migrateConfig json p calls name image stored).1 = some fun k =>
      (wiringValue p name calls.port k).or (old k) := by
  have hempty : readData calls.config stored = .empty := by
    unfold readData
    cases hc : calls.config with
    | answered => exact absurd hc hread
    | notFound => rfl
    | failed => rfl
  have hlocal : ¬ DeclaresLocal json .empty := by
    rintro ⟨caps, hcaps, -⟩
    cases hcaps
  unfold migrateConfig
  dsimp only
  rw [hempty, retired_wired]
  refine congrArg some (funext fun k => ?_)
  rw [patched_apply, hold]
  split
  · rename_i hk
    rw [hk, wiringValue_eq_none (by decide), Option.none_or]
  · split
    · rename_i hk
      have hmigrate := migrateCapabilities_eq_none (imageBasename image) hlocal
      subst hk
      rw [hmigrate, wiringValue_eq_none (by decide)]
      rfl
    · rfl

end Runs

section Result

variable {json : CapsJson} {p : Plan} {name image n i : Text}
  {stored : Option Data} {first second : Calls} {new : Data}

theorem upgrading_inv
    (h : upgradeAdapter json p first name image stored =
      (.upgrading n i, some new)) :
    nameOk name = true ∧ imageOk image = true ∧
      (migrateConfig json p first name image stored).1 = some new := by
  unfold upgradeAdapter at h
  cases hname : nameOk name with
  | false =>
      rw [if_pos hname] at h
      cases h
  | true =>
      cases himage : imageOk image with
      | false =>
          rw [if_neg (by simp [hname]), if_pos himage] at h
          cases h
      | true =>
          rw [if_neg (by simp [hname]), if_neg (by simp [himage])] at h
          refine ⟨rfl, rfl, ?_⟩
          rcases hconfig : migrateConfig json p first name image stored with
            ⟨config, patched⟩
          rw [hconfig] at h
          cases config with
          | none => cases h
          | some config => exact (Prod.mk.inj h).2

theorem upgradeAdapter_eq (hname : nameOk name = true)
    (himage : imageOk image = true) {config : Data}
    (h : (migrateConfig json p second name image stored).1 = some config) :
    upgradeAdapter json p second name image stored =
      (if second.later then .upgrading name image else .error,
        some config) := by
  unfold upgradeAdapter
  rw [if_neg (by simp [hname]), if_neg (by simp [himage])]
  rcases hconfig : migrateConfig json p second name image stored with
    ⟨written, patched⟩
  rw [hconfig] at h
  cases written with
  | none => cases h
  | some written =>
      rw [← Option.some.inj h]

/-- The target of a configuration that is migrated is that configuration. -/
theorem target_eq_self {old : Data} (h : Migrated json old new) (port : Int) :
    target json p name image port new = new := by
  funext k
  by_cases hkind : k = kindKey
  · rw [hkind, target_kind, h.noKind]
  · by_cases hcaps : k = capabilitiesKey
    · rw [hcaps, target_capabilities,
        migrateCapabilities_eq_none _ h.noLocal, Option.none_or]
    · rw [target_of_ne json p name image port new hkind hcaps]
      by_cases hk : k ∈ wiredKeys
      · obtain ⟨v, hv⟩ := Option.ne_none_iff_exists'.1 (h.wiring k hk).1
        rw [hv, Option.some_or]
      · rw [wiringValue_eq_none hk, Option.or_none]

/-- A second upgrade changes nothing if it reads the configuration, or writes
the wiring that is there. -/
theorem again_iff (hname : nameOk name = true) (himage : imageOk image = true)
    {old : Data} (h : Migrated json old new) :
    (upgradeAdapter json p second name image (some new)).2 = some new ↔
      second.config = .answered ∨
        ∀ k ∈ wiredKeys, wiringValue p name second.port k = new k := by
  by_cases hread : second.config = .answered
  · refine iff_of_true ?_ (.inl hread)
    have hconfig := @migrateConfig_answered json p second name image (some new)
      new hread rfl
    rw [if_pos (.inl h.noKind), target_eq_self h] at hconfig
    exact congrArg Prod.snd (upgradeAdapter_eq hname himage hconfig)
  · have hmissed := @migrateConfig_missed json p second name image (some new)
      new hread rfl
    rw [upgradeAdapter_eq hname himage hmissed, Option.some.injEq,
      or_iff_right hread, funext_iff]
    constructor
    · intro hsame k hk
      obtain ⟨v, hv⟩ := Option.ne_none_iff_exists'.1
        (@wiringValue_ne_none p name second.port k hk)
      rw [← hsame k, hv, Option.some_or]
    · intro hsame k
      by_cases hk : k ∈ wiredKeys
      · rw [hsame k hk]
        cases new k <;> rfl
      · rw [wiringValue_eq_none hk, Option.none_or]

/-- What a plain configuration is written over with is its target. -/
theorem target_of_plain {port : Int} {old : Data}
    (h : Plain json p name port old) (k : Text) :
    target json p name image port old k =
      (wiringValue p name port k).or (old k) := by
  by_cases hkind : k = kindKey
  · rw [hkind, target_kind, wiringValue_eq_none (by decide), h.noKind]
    rfl
  · by_cases hcaps : k = capabilitiesKey
    · rw [hcaps, target_capabilities, migrateCapabilities_eq_none _ h.noLocal,
        wiringValue_eq_none (by decide)]
    · rw [target_of_ne json p name image port old hkind hcaps]
      by_cases hk : k ∈ wiredKeys
      · cases hold : old k with
        | none => rw [Option.none_or, Option.or_none]
        | some v =>
            rw [h.wiring k hk v hold, Option.some_or]
      · rw [wiringValue_eq_none hk, Option.or_none, Option.none_or]

/-- Where the configuration was not read, it is migrated only if it was
plain. -/
theorem plain_of_migrated {port : Int} {old : Data}
    (h : Migrated json old fun k => (wiringValue p name port k).or (old k)) :
    Plain json p name port old where
  noKind := (Option.or_eq_none_iff.1 h.noKind).2
  noLocal := by
    have hsame : (wiringValue p name port capabilitiesKey).or
        (old capabilitiesKey) = old capabilitiesKey := by
      rw [wiringValue_eq_none (by decide), Option.none_or]
    rintro ⟨caps, hcaps, hframe⟩
    exact h.noLocal
      ⟨caps, (capabilities_congr json hsame).trans hcaps, hframe⟩
  wiring := by
    intro k hk v hv
    obtain ⟨w, hw⟩ := Option.ne_none_iff_exists'.1
      (@wiringValue_ne_none p name port k hk)
    have hkeep := (h.wiring k hk).2 v hv
    rw [hw, Option.some_or] at hkeep
    rw [hw, hkeep]

/-- The wiring of the target is what was there, or else what is written. -/
theorem target_wiring (port : Int) (old : Data) {k : Text}
    (hk : k ∈ wiredKeys) :
    target json p name image port old k =
      (old k).or (wiringValue p name port k) :=
  target_of_ne json p name image port old (ne_of_mem_wiredKeys hk).1
    (ne_of_mem_wiredKeys hk).2

/-- An upgrade that leaves the target: the second one keeps it exactly where it
reads it, or writes the wiring that is there. -/
theorem target_again_iff (hname : nameOk name = true)
    (himage : imageOk image = true) (port : Int) (old : Data) :
    (upgradeAdapter json p second name image
        (some (target json p name image port old))).2 =
      some (target json p name image port old) ↔
    second.config = .answered ∨ ∀ k ∈ wiredKeys,
      wiringValue p name second.port k =
        (old k).or (wiringValue p name port k) := by
  rw [again_iff hname himage (migrated_target json p name image port old)]
  refine or_congr_right (forall₂_congr fun k hk => ?_)
  rw [target_wiring port old hk]

/-- An upgrade that succeeds leaves the configuration migrated, and a second one
changes nothing, exactly where no read is taken wrongly that matters. -/
theorem upgrade_iff
    (h : upgradeAdapter json p first name image stored =
      (.upgrading n i, some new)) :
    (Migrated json (stored.getD .empty) new ∧
      (upgradeAdapter json p second name image (some new)).2 = some new) ↔
    Sound json p name first second (stored.getD .empty) := by
  obtain ⟨hname, himage, hnew⟩ := upgrading_inv h
  have hagain := @target_again_iff json p name image second hname himage
    first.port (stored.getD .empty)
  by_cases hread : first.config = .answered
  · rw [migrateConfig_answered hread rfl] at hnew
    by_cases hremoved : stored.getD .empty kindKey = none ∨
        first.unset = .answered
    · -- the target is left
      rw [if_pos hremoved, Option.some.injEq] at hnew
      rw [← hnew, hagain,
        and_iff_right (migrated_target json p name image first.port _)]
      refine ⟨fun hsecond => ⟨.inl hread, ?_, hsecond⟩,
        fun hsound => hsound.again⟩
      rintro hkind hmissing
      rcases hremoved with hnone | hanswered
      · exact hkind hnone
      · rw [hanswered] at hmissing
        cases hmissing
    · -- the removal finds nothing, and the kind stays
      rw [if_neg hremoved] at hnew
      obtain ⟨hkind, hunset⟩ := not_or.1 hremoved
      by_cases hmissing : first.unset = .notFound
      · rw [if_pos hmissing, Option.some.injEq] at hnew
        refine iff_of_false ?_ fun hsound => hsound.unset hkind hmissing
        rintro ⟨hmigrated, -⟩
        have hnone := hmigrated.noKind
        rw [← hnew] at hnone
        exact hkind hnone
      · rw [if_neg hmissing] at hnew
        cases hnew
  · rw [migrateConfig_missed hread rfl, Option.some.injEq] at hnew
    by_cases hplain : Plain json p name first.port (stored.getD .empty)
    · have htarget : new =
          target json p name image first.port (stored.getD .empty) := by
        rw [← hnew]
        exact (funext (target_of_plain hplain)).symm
      rw [htarget, hagain,
        and_iff_right (migrated_target json p name image first.port _)]
      exact ⟨fun hsecond =>
          ⟨.inr hplain, fun hkind => absurd hplain.noKind hkind, hsecond⟩,
        fun hsound => hsound.again⟩
    · refine iff_of_false ?_ fun hsound =>
        hplain (hsound.config.resolve_left hread)
      rintro ⟨hmigrated, -⟩
      rw [← hnew] at hmigrated
      exact hplain (plain_of_migrated hmigrated)

end Result

section Flat

/-- The text of a string behind its opening quote. -/
def spelled : Text → Text
  | [] => ['"']
  | c :: s =>
      if c = '"' ∨ c = '\\' then '\\' :: c :: spelled s else c :: spelled s

def spelledMember (kv : Text × Text) (rest : Text) : Text :=
  '"' :: (spelled kv.1 ++ ':' :: '"' :: (spelled kv.2 ++ rest))

def spelledMembers : List (Text × Text) → Text
  | [] => ['\x7d']
  | kv :: kvs => ',' :: spelledMember kv (spelledMembers kvs)

/-- An object of strings, with no blanks. -/
def spelledObject : List (Text × Text) → Text
  | [] => ['\x7b', '\x7d']
  | kv :: kvs => '\x7b' :: spelledMember kv (spelledMembers kvs)

/-- A string behind its opening quote, and the text behind it. -/
def readString : Text → Option (Text × Text)
  | [] => none
  | '"' :: rest => some ([], rest)
  | ['\\'] => none
  | '\\' :: c :: rest =>
      if c = '"' ∨ c = '\\' then
        (readString rest).map fun r => (c :: r.1, r.2)
      else none
  | c :: rest => (readString rest).map fun r => (c :: r.1, r.2)

def readMember : Text → Option ((Text × Text) × Text)
  | '"' :: rest =>
      match readString rest with
      | some (k, ':' :: '"' :: rest) =>
          (readString rest).map fun r => ((k, r.1), r.2)
      | _ => none
  | _ => none

def readMembers : Nat → Text → Option (List (Text × Text))
  | _, ['\x7d'] => some []
  | n + 1, ',' :: rest =>
      (readMember rest).bind fun r =>
        (readMembers n r.2).map fun kvs => r.1 :: kvs
  | _, _ => none

def readObject : Text → Option (List (Text × Text))
  | ['\x7b', '\x7d'] => some []
  | '\x7b' :: rest =>
      (readMember rest).bind fun r =>
        (readMembers r.2.length r.2).map fun kvs => r.1 :: kvs
  | _ => none

theorem readString_spelled (s rest : Text) :
    readString (spelled s ++ rest) = some (s, rest) := by
  induction s with
  | nil => rfl
  | cons c s ih =>
      unfold spelled
      split
      · rename_i hc
        rw [List.cons_append, List.cons_append]
        rw [readString, if_pos hc, ih]
        rfl
      · rename_i hc
        rw [not_or] at hc
        rw [List.cons_append, readString, ih]
        · rfl
        · exact hc.1
        · exact fun h => absurd h hc.2
        · exact fun _ _ h => absurd h hc.2

theorem readMember_spelledMember (kv : Text × Text) (rest : Text) :
    readMember (spelledMember kv rest) = some (kv, rest) := by
  unfold spelledMember
  rw [readMember, readString_spelled]
  change (readString (spelled kv.2 ++ rest)).map _ = _
  rw [readString_spelled]
  rfl

theorem length_le_spelledMembers (kvs : List (Text × Text)) :
    kvs.length ≤ (spelledMembers kvs).length := by
  induction kvs with
  | nil => exact Nat.zero_le _
  | cons kv kvs ih =>
      simp only [spelledMembers, spelledMember, List.length_cons,
        List.length_append]
      omega

theorem readMembers_spelledMembers (n : Nat) (kvs : List (Text × Text))
    (hn : kvs.length ≤ n) : readMembers n (spelledMembers kvs) = some kvs := by
  induction kvs generalizing n with
  | nil => cases n <;> rfl
  | cons kv kvs ih =>
      cases n with
      | zero => cases hn
      | succ n =>
          rw [spelledMembers, readMembers, readMember_spelledMember, Option.bind_some,
            ih n (Nat.le_of_succ_le_succ hn)]
          rfl

theorem readObject_spelledObject (kvs : List (Text × Text)) :
    readObject (spelledObject kvs) = some kvs := by
  cases kvs with
  | nil => rfl
  | cons kv kvs =>
      unfold spelledObject
      rw [readObject, readMember_spelledMember, Option.bind_some,
        readMembers_spelledMembers _ _ (length_le_spelledMembers kvs)]
      · rfl
      · intro h
        cases h

/-- Objects of strings, one key at most once. -/
def flatJson : CapsJson where
  V := Text
  eq := inferInstance
  str := id
  str_injective := Function.injective_id
  loads capsJson :=
    (readObject capsJson).bind fun kvs =>
      if h : (kvs.map Prod.fst).Nodup then some (some ⟨kvs, h⟩) else none
  dumps caps := spelledObject caps.items
  loads_nil := rfl
  loads_dumps caps := by
    rw [readObject_spelledObject, Option.bind_some, dif_pos caps.nodup]

def sitePlan : Plan :=
  ⟨"positioning".toList, 8080⟩

def wifiImage : Text :=
  "vendor-adapter:0.19".toList

/-- An adapter from before, bound to an engine of its own. -/
def oldConfig : Data :=
  put (put (put .empty kindKey "wifi".toList) capabilitiesKey
    "\x7b\"frame\":\"local\",\"id\":\"x\"\x7d".toList) engineUrlKey
    "http://engine:9".toList

def goodCalls : Calls :=
  ⟨some [[8090]], .answered, .answered, true⟩

/-- The first read of the configuration fails. -/
def missedCalls : Calls :=
  { goodCalls with config := .failed }

def wifiName : Text :=
  "vendor-adapter".toList

theorem upgradeAdapter_old (calls : Calls) (hlater : calls.later = true)
    {config : Data}
    (h : (migrateConfig flatJson sitePlan calls wifiName wifiImage
      (some oldConfig)).1 = some config) :
    upgradeAdapter flatJson sitePlan calls wifiName wifiImage
        (some oldConfig) =
      (.upgrading wifiName wifiImage, some config) := by
  rw [upgradeAdapter_eq (by decide) (by decide +kernel) h, if_pos hlater]

example : migrateCapabilities flatJson
    ((oldConfig capabilitiesKey).getD []) (imageBasename wifiImage) =
    some "\x7b\"frame\":\"venue\",\"id\":\"x\"\x7d".toList := by
  decide

/-- With every read answered the adapter is migrated, and stays so. -/
theorem upgrade_iff_vendor :
    Migrated flatJson oldConfig
        (target flatJson sitePlan wifiName wifiImage 8090 oldConfig) ∧
      (upgradeAdapter flatJson sitePlan goodCalls wifiName wifiImage
        (some (target flatJson sitePlan wifiName wifiImage 8090
          oldConfig))).2 =
        some (target flatJson sitePlan wifiName wifiImage 8090 oldConfig) :=
  (upgrade_iff (upgradeAdapter_old goodCalls rfl
      ((migrateConfig_answered rfl rfl).trans (if_pos (.inr rfl))))).2
    ⟨.inl rfl, fun _ h => Read.noConfusion h, .inl rfl⟩

/-- One failed read of the ConfigMap: the upgrade succeeds, and the retired kind
is still there. -/
theorem not_upgrade_missed :
    ¬ ∀ (json : CapsJson) (p : Plan) (first second : Calls)
      (name image n i : Text) (stored : Option Data) (new : Data),
      upgradeAdapter json p first name image stored =
        (.upgrading n i, some new) →
      Migrated json (stored.getD .empty) new ∧
        (upgradeAdapter json p second name image (some new)).2 =
          some new := by
  intro h
  have hmissed : (migrateConfig flatJson sitePlan missedCalls wifiName wifiImage
      (some oldConfig)).1 = _ :=
    migrateConfig_missed (by decide) rfl
  have hupgrade := upgradeAdapter_old missedCalls rfl hmissed
  have hkind := (h _ _ _ goodCalls _ _ _ _ _ _ hupgrade).1.noKind
  revert hkind
  decide

end Flat

end Upgrade
end Northbound
end Kelt
