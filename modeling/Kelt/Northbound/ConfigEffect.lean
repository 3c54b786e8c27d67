import Kelt.Lib.Runs
import Kelt.Northbound.Config

/-!
# What a configuration comes to

The writes change the requested keys in their target objects and nothing else
(`Cluster.data_write`). What the pod then sees of a requested key depends on the
other sources: `Cluster.Lands` says of the state before when it is the requested
value.
-/

namespace Kelt
namespace Northbound

open Apps Layers

section ConfigEffect

/-- One ConfigMap is replaced, made or deleted. -/
theorem data_update_configMaps
    (c : Cluster) (n : Text) (o : Option Data) (r : Ref) (k : Text) :
    ({ c with configMaps := Function.update c.configMaps n o }).data r k =
      if r = .configmap n then (o.getD .empty) k else c.data r k := by
  cases r with
  | configmap m =>
      by_cases h : m = n
      · subst h
        simp [Cluster.data]
      · simp [Cluster.data, h]
  | secret m => simp [Cluster.data]
  | inline => simp [Cluster.data]

/-- The same of a Secret. -/
theorem data_update_secrets
    (c : Cluster) (n : Text) (o : Option Data) (r : Ref) (k : Text) :
    ({ c with secrets := Function.update c.secrets n o }).data r k =
      if r = .secret n then (o.getD .empty) k else c.data r k := by
  cases r with
  | secret m =>
      by_cases h : m = n
      · subst h
        simp [Cluster.data]
      · simp [Cluster.data, h]
  | configmap m => simp [Cluster.data]
  | inline => simp [Cluster.data]

theorem data_applyConfigmap
    (c : Cluster) (n : Text) (new : Data) (r : Ref) (k : Text) :
    (c.applyConfigmap n new).data r k =
      if r = .configmap n then (new k).or (c.data r k) else c.data r k := by
  unfold Cluster.applyConfigmap
  rw [data_update_configMaps]
  split_ifs with hr
  · subst hr
    rfl
  · rfl

theorem data_upsertSecret
    (c : Cluster) (n : Text) (new : Data) (r : Ref) (k : Text) :
    (c.upsertSecret n new).data r k =
      if r = .secret n then (new k).or (c.data r k) else c.data r k := by
  unfold Cluster.upsertSecret
  rw [data_update_secrets]
  split_ifs with hr
  · subst hr
    rfl
  · rfl

/-- Removing keys from an object that may be missing. -/
theorem getD_map_without (old : Option Data) (keys : Text → Bool) (k : Text) :
    ((old.map (without keys)).getD .empty) k =
      if keys k then none else (old.getD .empty) k := by
  cases old with
  | none => cases h : keys k <;> simp [Data.empty]
  | some d => rfl

theorem data_unsetConfigmapKeys
    (c : Cluster) (n : Text) (keys : Text → Bool) (r : Ref) (k : Text) :
    (c.unsetConfigmapKeys n keys).data r k =
      if r = .configmap n then (if keys k then none else c.data r k)
      else c.data r k := by
  unfold Cluster.unsetConfigmapKeys
  rw [data_update_configMaps, getD_map_without]
  by_cases hr : r = .configmap n
  · subst hr
    rfl
  · rw [if_neg hr, if_neg hr]

theorem data_unsetSecretKeys
    (c : Cluster) (n : Text) (keys : Text → Bool) (r : Ref) (k : Text) :
    (c.unsetSecretKeys n keys).data r k =
      if r = .secret n then (if keys k then none else c.data r k)
      else c.data r k := by
  unfold Cluster.unsetSecretKeys
  rw [data_update_secrets, getD_map_without]
  by_cases hr : r = .secret n
  · subst hr
    rfl
  · rw [if_neg hr, if_neg hr]

variable (ct : Contract) (values : Values)

/-- The write that is skipped would have set nothing. -/
theorem setVars_of_not_has {b : Bool} (h : hasSetVars ct values b = false)
    (k : Text) : setVars ct values b k = none := by
  unfold setVars
  split_ifs with hb
  · cases hk : values.get? k with
    | none => rfl
    | some req =>
        cases req with
        | none => rfl
        | some v =>
            have hmem := (values.get?_eq_some_iff k (some v)).1 hk
            have hany := List.any_eq_false.1 h (k, some v) hmem
            simp [hb] at hany
  · rfl

theorem unsetKeys_of_not_has {b : Bool} (h : hasUnsetKeys ct values b = false)
    (k : Text) : unsetKeys ct values b k = false := by
  by_contra hk
  rw [Bool.not_eq_false] at hk
  obtain ⟨hb, hreq⟩ := Bool.and_eq_true_iff.1 hk
  have hmem := (values.get?_eq_some_iff k none).1 (by simpa using hreq)
  have hany := List.any_eq_false.1 h (k, none) hmem
  simp [hb] at hany

/-- What comes of one key in the object that `b` stands for. -/
theorem key_written (b : Bool) (k : Text) (old : Option Text) :
    (if unsetKeys ct values b k then none
      else (setVars ct values b k).or old) =
      if ct.sensitive k = b then (values.get? k).getD old else old := by
  unfold unsetKeys setVars
  by_cases hb : ct.sensitive k = b
  · subst hb
    cases values.get? k with
    | none => simp
    | some req => cases req <;> simp
  · have hb' : (ct.sensitive k == b) = false := by simpa using hb
    simp [hb, hb']

/-- A write to one object, made or skipped. -/
theorem data_ite {has : Bool} {c c' : Cluster} {r t : Ref} {k : Text}
    (f : Option Text → Option Text)
    (hmade : c'.data r k = if r = t then f (c.data r k) else c.data r k)
    (hskipped : has = false → f (c.data r k) = c.data r k) :
    (if has then c' else c).data r k =
      if r = t then f (c.data r k) else c.data r k := by
  cases has with
  | true => exact hmade
  | false =>
      rw [hskipped rfl, ite_self]
      rfl

/-- The four writes together: a requested key is set or removed in its target,
and every other key of every source stays as it was. -/
theorem data_write (c : Cluster) (name : Text) (r : Ref) (k : Text) :
    (c.write ct name values).data r k =
      if r = ct.target name k then (values.get? k).getD (c.data r k)
      else c.data r k := by
  have hset : ∀ b old, hasSetVars ct values b = false →
      (setVars ct values b k).or old = old := fun b old h => by
    rw [setVars_of_not_has ct values h, Option.none_or]
  have hunset : ∀ b (old : Option Text), hasUnsetKeys ct values b = false →
      (if unsetKeys ct values b k then none else old) = old := fun b old h => by
    rw [unsetKeys_of_not_has ct values h]
    rfl
  unfold Cluster.write
  simp only
  rw [data_ite _ (data_unsetSecretKeys _ _ _ r k) (hunset true _),
    data_ite _ (data_unsetConfigmapKeys _ _ _ r k) (hunset false _),
    data_ite _ (data_upsertSecret _ _ _ r k) (hset true _),
    data_ite _ (data_applyConfigmap _ _ _ r k) (hset false _)]
  cases r with
  | inline => cases h : ct.sensitive k <;> simp [Contract.target, h]
  | configmap n =>
      have hkey := key_written ct values false k (c.data (.configmap n) k)
      cases h : ct.sensitive k <;> by_cases hn : n = configName name <;>
        simp [Contract.target, h, hn] at hkey ⊢ <;> exact hkey
  | secret n =>
      have hkey := key_written ct values true k (c.data (.secret n) k)
      cases h : ct.sensitive k <;> by_cases hn : n = secretName name <;>
        simp [Contract.target, h, hn] at hkey ⊢ <;> exact hkey

theorem deployment_write (c : Cluster) (name : Text) :
    (c.write ct name values).deployment = c.deployment := by
  unfold Cluster.write
  simp only
  split_ifs <;> rfl

/-- A key that is not requested keeps its value. -/
theorem effective_write_of_not_requested
    (c : Cluster) (name : Text) {k : Text} (hk : values.get? k = none) :
    (c.write ct name values).effective k = c.effective k := by
  unfold Cluster.effective
  rw [deployment_write]
  refine lookup_congr fun r _ => ?_
  rw [data_write, hk, Option.getD_none, ite_self]

/-- The requested value of `k` is what the pod sees once `t` has it: `t` is a
source, and no source above the last `t` has another value; or it is no source,
and the pod sees the value already. To unset a key, `t` must be the only source
that has it. -/
def Cluster.Lands (c : Cluster) (t : Ref) (k : Text) : Option Text → Prop
  | some v =>
      if t ∈ c.deployment.refs then
        ∀ w, lookup c.data (above t c.deployment.refs) k = some w → w = v
      else c.effective k = some v
  | none => ∀ r ∈ c.deployment.refs, r ≠ t → c.data r k = none

theorem effective_write_iff
    (c : Cluster) (name : Text) {k : Text} {req : Option Text}
    (hk : values.get? k = some req) :
    (c.write ct name values).effective k = req ↔
      c.Lands (ct.target name k) k req := by
  have hset : (c.write ct name values).data (ct.target name k) k = req := by
    rw [data_write, if_pos rfl, hk, Option.getD_some]
  have hother : ∀ r, r ≠ ct.target name k →
      (c.write ct name values).data r k = c.data r k := fun r hr => by
    rw [data_write, if_neg hr]
  unfold Cluster.effective
  rw [deployment_write]
  cases req with
  | none => exact lookup_unset_iff hset hother
  | some v =>
      unfold Cluster.Lands
      split_ifs with hmem
      · rw [lookup_set hmem hset hother, Option.some.injEq]
        cases lookup c.data (above (ct.target name k) c.deployment.refs) k with
        | none => simp
        | some w => simp
      · rw [lookup_of_not_mem hmem hother]
        rfl

/-- The call raised and wrote nothing, or each requested key has the requested
value and every other key the one from before. -/
def Met (c : Cluster) (values : Values) :
    Except Refused Applied × Cluster → Prop
  | (.error _, c') => c' = c
  | (.ok _, c') =>
      ∀ k, c'.effective k = (values.get? k).getD (c.effective k)

theorem met_write_iff (c : Cluster) (name : Text) (a : Applied) :
    Met c values (.ok a, c.write ct name values) ↔
      ∀ k req, values.get? k = some req →
        c.Lands (ct.target name k) k req := by
  constructor
  · intro h k req hk
    have heff := h k
    rw [hk, Option.getD_some] at heff
    exact (effective_write_iff ct values c name hk).1 heff
  · intro h k
    cases hk : values.get? k with
    | none => exact effective_write_of_not_requested ct values c name hk
    | some req =>
        exact (effective_write_iff ct values c name hk).2 (h k req hk)

/-- A configuration that is accepted does what it says exactly when each
requested value lands. -/
theorem applyServiceConfig_met_iff
    (jsonObject : Text → Bool) (contract : Option Contract) (reads : Reads)
    (c : Cluster) (name : Text) (values : Values) :
    Met c values
        (applyServiceConfig jsonObject contract reads c name values) ↔
      ∀ ct, check jsonObject contract reads c name values = .ok ct →
        ∀ k req, values.get? k = some req →
          c.Lands (ct.target name k) k req := by
  unfold applyServiceConfig
  cases check jsonObject contract reads c name values with
  | error e => exact ⟨fun _ => by rintro ct ⟨⟩, fun _ => rfl⟩
  | ok ct =>
      refine (met_write_iff ct values c name _).trans ?_
      exact ⟨fun h ct' hct => Except.ok.inj hct ▸ h, fun h => h ct rfl⟩

/-- The operator's object that the contract does not keep the key in. -/
def Contract.other (ct : Contract) (name k : Text) : Ref :=
  if ct.sensitive k then .configmap (configName name)
  else .secret (secretName name)

/-- No key is in the operator's object that is not its target, as it would be
after the contract changed whether it is sensitive. -/
def Cluster.Separated (c : Cluster) (ct : Contract) (name : Text) : Prop :=
  ∀ k, c.data (ct.other name k) k = none

theorem other_ne_target (name k : Text) :
    ct.other name k ≠ ct.target name k := by
  unfold Contract.other Contract.target
  cases ct.sensitive k <;> exact fun h => nomatch h

theorem Cluster.Separated.write {c : Cluster} {name : Text}
    (h : c.Separated ct name) : (c.write ct name values).Separated ct name := by
  intro k
  rw [data_write, if_neg (other_ne_target ct name k)]
  exact h k

theorem target_or_other_of_operator
    {c : Cluster} {reads : Reads} {name : Text} {r : Ref}
    (h : (c.source reads name r).operator = true) (k : Text) :
    r = ct.target name k ∨ r = ct.other name k := by
  have hr : r = .configmap (configName name) ∨
      r = .secret (secretName name) := by
    simpa [Cluster.source] using h
  unfold Contract.target Contract.other
  cases ct.sensitive k with
  | true => exact hr.symm
  | false => exact hr

/-- The last source with the key is the one that provides it. -/
theorem effectiveSource_eq {below above : List Source} {src : Source} {k : Text}
    (hsrc : src.has k = true) (habove : ∀ s ∈ above, s.has k = false) :
    effectiveSource (below ++ src :: above) k = some src := by
  unfold effectiveSource
  rw [List.foldl_append, List.foldl_cons, if_pos hsrc]
  induction above with
  | nil => rfl
  | cons s rest ih =>
      rw [List.forall_mem_cons] at habove
      rw [List.foldl_cons, habove.1]
      exact ih habove.2

/-- The checks give back the contract, and let no key pass that the deployment
provides. -/
theorem check_eq_ok
    {jsonObject : Text → Bool} {contract : Option Contract} {reads : Reads}
    {c : Cluster} {name : Text}
    (h : check jsonObject contract reads c name values = .ok ct) :
    contract = some ct ∧ ∀ k ∈ values.keys, ∀ src,
      effectiveSource (c.envSources reads name) k = some src →
        src.operator = true := by
  unfold check at h
  split_ifs at h with hname
  cases contract with
  | none => cases h
  | some ct' =>
      simp only at h
      split_ifs at h with hunknown helsewhere
      · split at h <;> cases h
      · split at h
        · cases h
        · refine ⟨congrArg some (Except.ok.inj h), fun k hk src hsrc => ?_⟩
          rw [Bool.not_eq_true, Bool.not_eq_false', List.isEmpty_iff,
            List.filter_eq_nil_iff] at helsewhere
          have hnot := helsewhere k hk
          rw [hsrc] at hnot
          simpa using hnot

/-- All reads answer. -/
def Reads.all : Reads :=
  ⟨true, fun _ => true, fun _ => true⟩

/-- While the contract does not move keys between the objects, every value that
the checks let pass lands in a deployment that lists its target. -/
theorem lands_of_separated
    {jsonObject : Text → Bool} {contract : Option Contract}
    {c : Cluster} {name : Text}
    (h : check jsonObject contract .all c name values = .ok ct)
    (hsep : c.Separated ct name) {k v : Text}
    (hk : values.get? k = some (some v))
    (hmem : ct.target name k ∈ c.deployment.refs) :
    c.Lands (ct.target name k) k (some v) := by
  unfold Cluster.Lands
  simp only
  rw [if_pos hmem]
  intro w hw
  obtain ⟨below, r, top, habove, hr, htop⟩ := exists_of_lookup hw
  have hrefs : c.deployment.refs =
      c.deployment.refs.rdropWhile (fun r => r != ct.target name k) ++
        below ++ r :: top := by
    rw [List.append_assoc, ← habove]
    exact List.rdropWhile_append_rtakeWhile.symm
  have hne : r ≠ ct.target name k := by
    have hin : r ∈ above (ct.target name k) c.deployment.refs := by
      rw [habove]
      exact List.mem_append_right below List.mem_cons_self
    simpa using List.mem_rtakeWhile_imp hin
  have hsource : effectiveSource (c.envSources .all name) k =
      some (c.source .all name r) := by
    change effectiveSource
      (c.deployment.refs.map (c.source .all name)) k = _
    rw [hrefs, List.map_append, List.map_cons]
    refine effectiveSource_eq ?_ ?_
    · change (Reads.all.answers r && (c.data r k).isSome) = true
      rw [hr]
      cases r <;> rfl
    · rw [lookup_eq_none_iff] at htop
      intro s hs
      obtain ⟨r', hr', rfl⟩ := List.mem_map.1 hs
      change (Reads.all.answers r' && (c.data r' k).isSome) = false
      rw [htop r' hr', Option.isSome_none, Bool.and_false]
  have hkeys : k ∈ values.keys := by
    by_contra hnot
    rw [(values.get?_eq_none_iff k).2 hnot] at hk
    cases hk
  have hoperator := (check_eq_ok ct values h).2 k hkeys _ hsource
  rcases target_or_other_of_operator ct hoperator k with heq | heq
  · exact absurd heq hne
  · rw [heq, hsep k] at hr
    cases hr

/-- A configuration that is accepted, all reads answering. -/
def configured (jsonObject : Text → Bool) (ct : Contract) (name : Text)
    (c : Cluster) (values : Values) : Option Cluster :=
  match applyServiceConfig jsonObject (some ct) .all c name values with
  | (.ok _, c') => some c'
  | (.error _, _) => none

theorem configured_eq_some
    {jsonObject : Text → Bool} {name : Text} {c c' : Cluster}
    (h : configured jsonObject ct name c values = some c') :
    check jsonObject (some ct) .all c name values = .ok ct ∧
      c' = c.write ct name values := by
  unfold configured applyServiceConfig at h
  cases hcheck : check jsonObject (some ct) .all c name values with
  | error e =>
      rw [hcheck] at h
      cases h
  | ok ct' =>
      obtain rfl := Option.some.inj (check_eq_ok ct' values hcheck).1
      rw [hcheck] at h
      exact ⟨rfl, (Option.some.inj h).symm⟩

/-- Under one contract, whatever was configured before, a value that is accepted
is what the pod sees. -/
theorem effective_of_configured
    {jsonObject : Text → Bool} {name : Text} {c mid c' : Cluster}
    {earlier : List Values} {k v : Text} (hsep : c.Separated ct name)
    (hmem : ct.target name k ∈ c.deployment.refs)
    (hearlier : exec (configured jsonObject ct name) c earlier = some mid)
    (hlast : configured jsonObject ct name mid values = some c')
    (hk : values.get? k = some (some v)) :
    c'.effective k = some v := by
  have hinv : mid.Separated ct name ∧ mid.deployment = c.deployment := by
    refine (Reach.refl.exec hearlier).inv
      (I := fun d => d.Separated ct name ∧ d.deployment = c.deployment)
      ⟨hsep, rfl⟩ ?_
    rintro d values d' ⟨hd, hdeployment⟩ - hstep
    obtain ⟨-, rfl⟩ := configured_eq_some ct values hstep
    exact ⟨hd.write ct values, (deployment_write ct values d name).trans
      hdeployment⟩
  obtain ⟨hcheck, rfl⟩ := configured_eq_some ct values hlast
  refine (effective_write_iff ct values mid name hk).2 ?_
  exact lands_of_separated ct values hcheck hinv.1 hk (hinv.2 ▸ hmem)

/-- A gateway whose contract had a sensitive `TOKEN` once: the Secret still has
it, and comes last. -/
def staleToken : Cluster where
  configMaps := fun _ => none
  secrets := fun n =>
    if n = "gw-secrets".toList then
      some (fun k => if k = "TOKEN".toList then some "old".toList else none)
    else none
  deployment :=
    { envFrom :=
        [⟨some "gw-config".toList, none⟩, ⟨none, some "gw-secrets".toList⟩]
      env := [] }

def openToken : Contract where
  required := [⟨"TOKEN".toList, false, "string".toList⟩]
  recommended := []
  optional := []

/-- The new value goes to the ConfigMap, and the old one in the Secret wins. -/
theorem stale_secret_shadows :
    ¬ ∀ (contract : Option Contract) (reads : Reads) (c : Cluster)
      (name : Text) (values : Values),
      Met c values
        (applyServiceConfig (fun _ => true) contract reads c name values) := by
  intro h
  have hmet :=
    h (some openToken) ⟨true, fun _ => true, fun _ => true⟩ staleToken
      "gw".toList (Dict.single "TOKEN".toList (some "new".toList))
  have htoken := hmet "TOKEN".toList
  cases htoken

end ConfigEffect

end Northbound
end Kelt
