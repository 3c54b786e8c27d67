import Kelt.Apps.Redeploy

/-!
# What a rejected deploy leaves

The name and the image are checked before anything is written, the fixed N6m
address after the ConfigMap and the Secret. A request whose address is rejected
leaves the app as it was only when there was nothing to write
(`rejected_unchanged_iff`).
-/

namespace Kelt
namespace Apps

open Ip

section Rejection

/-- A fixed address that is asked for is an address of the reserved band. -/
def AddressOk (s : Settings) (req : Request) : Prop :=
  req.attachMec = true → ∀ requested, req.mecIp = some requested →
    requested ≠ [] →
      ∃ ip, ipAddress (String.ofList (before '/' requested)) = some ip ∧
        mem ip s.staticBand = true

/-- The object has these values already. -/
def Holds (o : Option Data) (new : Data) : Prop :=
  ∃ d, o = some d ∧ ∀ k v, new k = some v → d k = some v

/-- The variables of the request are all in the ConfigMap and the Secret. -/
def HasEnv (app : App) (req : Request) : Prop :=
  Holds app.config (req.data false) ∧
    (req.hasSecrets = true → Holds app.secret (req.data true))

theorem networksOf_ok_iff {s : Settings} {req : Request} :
    (∃ networks, networksOf s req = .ok networks) ↔ AddressOk s req := by
  unfold networksOf AddressOk
  cases hattach : req.attachMec with
  | false => simp
  | true =>
      cases hip : req.mecIp with
      | none => simp
      | some requested =>
          cases requested with
          | nil => simp
          | cons c rest =>
              simp only [if_true, true_implies, Option.some.injEq, ne_eq]
              cases haddr :
                  ipAddress (String.ofList (before '/' (c :: rest))) with
              | none =>
                  refine iff_of_false ?_ ?_
                  · rintro ⟨networks, h⟩
                    cases h
                  · intro h
                    obtain ⟨ip, hsome, _⟩ := h _ rfl (by simp)
                    rw [haddr] at hsome
                    cases hsome
              | some ip =>
                  dsimp only
                  split_ifs with hband
                  · refine iff_of_true ⟨_, rfl⟩ ?_
                    rintro _ rfl _
                    exact ⟨ip, haddr, hband⟩
                  · refine iff_of_false ?_ ?_
                    · rintro ⟨networks, h⟩
                      cases h
                    · intro h
                      obtain ⟨ip', hsome, hmem⟩ := h _ rfl (by simp)
                      rw [haddr] at hsome
                      obtain rfl := Option.some.inj hsome
                      exact hband hmem

/-- Patching an object changes nothing exactly when it has the values. -/
theorem patch_unchanged_iff (o : Option Data) (new : Data) :
    some ((o.getD .empty).patch new) = o ↔ Holds o new := by
  unfold Holds
  cases o with
  | none => simp
  | some d =>
      simp only [Option.getD_some, Option.some.injEq, exists_eq_left']
      constructor
      · intro h k v hnew
        have hk := congrFun h k
        rw [Data.patch, hnew, Option.some_or] at hk
        exact hk.symm
      · intro h
        funext k
        unfold Data.patch
        cases hnew : new k with
        | none => rfl
        | some v => exact (h k v hnew).symm

/-- The writes before the last check change nothing. -/
theorem applyEnv_eq_iff (app : App) (req : Request) :
    app.applyEnv req = app ↔ HasEnv app req := by
  obtain ⟨config, secret, deployment, service⟩ := app
  unfold HasEnv App.applyEnv App.applyConfigmap App.upsertSecret
  rw [← patch_unchanged_iff, ← patch_unchanged_iff]
  cases req.hasSecrets <;> simp

/-- A rejected request leaves the app as it was. -/
def RejectedUnchanged (s : Settings) (digestOf : Registry) (req : Request)
    (app : App) : Prop :=
  ∀ e app', deployApp s digestOf req app = (.rejected e, app') → app' = app

/-- A rejected request leaves the app as it was exactly when it is rejected for
its name or image, its fixed address is fine, or its variables were there. -/
theorem rejected_unchanged_iff (s : Settings) (digestOf : Registry)
    (req : Request) (app : App) :
    RejectedUnchanged s digestOf req app ↔
      nameOk req.name = false ∨ imageOk req.image = false ∨
        AddressOk s req ∨ HasEnv app req := by
  unfold RejectedUnchanged deployApp
  by_cases hname : nameOk req.name = false
  · simp only [hname, if_true, true_or, iff_true]
    rintro e app' h
    exact (Prod.mk.inj h).2.symm
  by_cases himage : imageOk req.image = false
  · simp only [hname, himage, if_true, true_or, or_true, iff_true]
    rintro e app' h
    exact (Prod.mk.inj h).2.symm
  · rw [if_neg hname, if_neg himage, ← networksOf_ok_iff, ← applyEnv_eq_iff]
    simp only [hname, himage]
    cases hnet : networksOf s req with
    | ok networks => simp
    | error e =>
        simp only [Prod.mk.injEq, Outcome.rejected.injEq, reduceCtorEq,
          exists_const, false_or]
        constructor
        · intro h
          exact h e _ ⟨rfl, rfl⟩
        · rintro h e' app' ⟨-, rfl⟩
          exact h

/-- A request for a fixed address outside the band. -/
def strayFace : Request :=
  { (faceWith [modeVar]).req with
    attachMec := true
    mecIp := some "10.208.0.5".toList }

/-- A rejected request creates the ConfigMap of an app that is not there. -/
theorem rejected_writes_config :
    ¬ ∀ (s : Settings) (digestOf : Registry) (req : Request) (app : App),
      RejectedUnchanged s digestOf req app := by
  intro hall
  have hunchanged := hall testbed (fun _ _ => none) strayFace .empty
    (.outsideBand testbed.staticBand) _ rfl
  have hconfig := congrArg App.config hunchanged
  cases hconfig

end Rejection

end Apps
end Kelt
