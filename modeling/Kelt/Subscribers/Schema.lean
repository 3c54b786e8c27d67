import Kelt.Lib.PyInt
import Kelt.Subscribers.Value

/-!
# The schema of a subscriber

`subscriber_schema.py`: the defaults, the test of a key, and
`normalize_subscriber`, which either raises or gives a document with a K and
one of OP and OPc. `normalizeSecurity_ok` says what it has checked then.

The test of a key leaves the digits to `int`, which takes more than digits.
-/

namespace Kelt
namespace Subscribers

section Schema

/-- `OPEN5GS_SUBSCRIBER_DEFAULTS`. -/
def subscriberDefaults : Doc where
  items :=
    [("subscribed_rau_tau_timer", .int 12), ("network_access_mode", .int 0),
      ("subscriber_status", .int 0), ("access_restriction_data", .int 32),
      ("msisdn", .list []), ("schema_version", .int 1), ("__v", .int 0)].map
        (fun kv => (kv.1.toList, kv.2))
  nodup := by decide

def defaultAmf : Text :=
  "8000".toList

/-- `_is_valid_hex`. Of the letters that `lower` changes beside the ASCII ones,
none becomes a digit or a sign of `int`, and the one that gets longer is none
either. -/
def isValidHex (s : Text) (length : Nat) : Bool :=
  if s = [] then false
  else
    let s := (strip s).map Char.toLower
    if s.length ≠ length then false else isInt16 s

/-- `security = result.get("security") or {}`, when it is a mapping. -/
def securityBlock (v : Option Value) : Fields :=
  match v with
  | some (.doc fields) => fields
  | _ => []

def withAmf (security : Fields) : Fields :=
  if (security.get "amf").any Value.truthy then security
  else security.set "amf" (.str defaultAmf)

variable [Printer]

/-- `str(security.get("k") or "").strip()`. -/
def keyText (v : Option Value) : Text :=
  match v with
  | some v => if v.truthy then strip v.text else []
  | none => []

/-- What is said of a key that is no key; `label` and `rest` differ. -/
def invalidKey (label : String) (key : Text) (rest : String) : Text :=
  "Invalid ".toList ++ label.toList ++ " value '".toList ++ key.take 8 ++
    "…': must be a 32-character hex string".toList ++ rest.toList

def requiredK : Text :=
  "K is required: a 32-character hex string (128-bit key)".toList

def requiredOp : Text :=
  "OP or OPc is required: a 32-character hex string".toList

def checkK (v : Option Value) : Except Text Text :=
  if keyText v = [] then .error requiredK
  else if isValidHex (keyText v) 32 then .ok (keyText v)
  else .error (invalidKey "K" (keyText v) " (128-bit key)")

/-- A text of white space, or none. -/
def isBlankText (v : Value) : Bool :=
  match v with
  | .str t => (strip t).isEmpty
  | _ => false

/-- The check of OP and of OPc: nothing, or a key. -/
def checkOptional (label : String) (v : Option Value) :
    Except Text (Option Text) :=
  match v with
  | none => .ok none
  | some .null => .ok none
  | some v =>
      if isBlankText v then .ok none
      else if isValidHex (strip v.text) 32 then .ok (some (strip v.text))
      else .error (invalidKey label (strip v.text) "")

/-- The block that is stored. -/
def storedSecurity (security : Fields) (k : Text) (op opc : Option Text) :
    Fields :=
  ((security.set "k" (.str k)).set "op" (.ofText op)).set "opc" (.ofText opc)

/-- `normalize_subscriber` from the security block on. -/
def normalizeSecurity (v : Option Value) : Except Text Fields := do
  let security := withAmf (securityBlock v)
  let k ← checkK (security.get "k")
  let op ← checkOptional "OP" (security.get "op")
  let opc ← checkOptional "OPc" (security.get "opc")
  let op := if opc.isSome then none else op
  if opc = none ∧ op = none then .error requiredOp
  else .ok (storedSecurity security k op opc)

/-- `normalize_subscriber`. -/
def normalizeSubscriber (payload : Doc) : Except Text Doc := do
  let result := subscriberDefaults.update (payload.erase idField)
  let security ← normalizeSecurity (result.get? securityField)
  .ok (result.set securityField (.doc security))

/-- A text that is stored as a key. -/
def ValidKey (t : Text) : Prop :=
  strip t = t ∧ isValidHex t 32 = true

theorem checkK_ok {v : Option Value} {k : Text} (h : checkK v = .ok k) :
    ∃ w, v = some w ∧ w.truthy = true ∧ k = strip w.text ∧ ValidKey k := by
  unfold checkK at h
  split_ifs at h with hempty hhex
  cases h
  cases v with
  | none => exact absurd rfl hempty
  | some w =>
      by_cases htruthy : w.truthy = true
      · have hkey : keyText (some w) = strip w.text := if_pos htruthy
        rw [hkey] at hhex ⊢
        exact ⟨w, rfl, htruthy, rfl, strip_strip w.text, hhex⟩
      · exact absurd (if_neg htruthy) hempty

theorem checkOptional_some {label : String} {v : Option Value} {t : Text}
    (h : checkOptional label v = .ok (some t)) :
    ∃ w, v = some w ∧ t = strip w.text ∧ ValidKey t := by
  unfold checkOptional at h
  split at h
  · cases h
  · cases h
  · rename_i w _
    split_ifs at h with hblank hhex
    · cases h
    · obtain rfl := Option.some.inj (Except.ok.inj h)
      exact ⟨w, rfl, rfl, strip_strip w.text, hhex⟩

/-- What `normalizeSecurity` has checked when it gives a block. -/
theorem normalizeSecurity_ok {v : Option Value} {sec : Fields}
    (h : normalizeSecurity v = .ok sec) :
    ∃ k op opc, checkK ((securityBlock v).get "k") = .ok k ∧
      checkOptional "OP" ((securityBlock v).get "op") = .ok op ∧
      checkOptional "OPc" ((securityBlock v).get "opc") = .ok opc ∧
      (op.isSome = true ∨ opc.isSome = true) ∧
      sec = storedSecurity (withAmf (securityBlock v)) k
        (if opc.isSome then none else op) opc := by
  have hget : ∀ name : String, "amf" ≠ name →
      (withAmf (securityBlock v)).get name = (securityBlock v).get name := by
    intro name hne
    unfold withAmf
    split_ifs
    · rfl
    · exact Fields.get_set_of_ne _ _ hne
  simp only [normalizeSecurity, hget "k" (by decide),
    hget "op" (by decide), hget "opc" (by decide)] at h
  cases hk : checkK ((securityBlock v).get "k") with
  | error e => simp [hk, bind, Except.bind] at h
  | ok k =>
      cases hop : checkOptional "OP" ((securityBlock v).get "op") with
      | error e => simp [hk, hop, bind, Except.bind] at h
      | ok op =>
          cases hopc : checkOptional "OPc" ((securityBlock v).get "opc") with
          | error e => simp [hk, hop, hopc, bind, Except.bind] at h
          | ok opc =>
              simp only [hk, hop, hopc, bind, Except.bind] at h
              split_ifs at h with hsome hnone hnone
              · cases h
                exact ⟨k, op, opc, rfl, rfl, rfl, Or.inr hsome,
                  by rw [if_pos hsome]⟩
              · cases h
                refine ⟨k, op, opc, rfl, rfl, rfl, Or.inl ?_,
                  by rw [if_neg hsome]⟩
                cases op with
                | some t => rfl
                | none => exact absurd ⟨by simpa using hsome, rfl⟩ hnone

theorem normalizeSubscriber_ok {payload data : Doc}
    (h : normalizeSubscriber payload = .ok data) :
    ∃ sec, normalizeSecurity
        ((subscriberDefaults.update (payload.erase idField)).get?
          securityField) = .ok sec ∧
      data = (subscriberDefaults.update (payload.erase idField)).set
        securityField (.doc sec) := by
  unfold normalizeSubscriber at h
  cases hsec : normalizeSecurity
      ((subscriberDefaults.update (payload.erase idField)).get?
        securityField) with
  | error e => simp [hsec, bind, Except.bind] at h
  | ok sec =>
      simp only [hsec, bind, Except.bind] at h
      cases h
      exact ⟨sec, rfl, rfl⟩

/-- The fields of a normalised document beside the security block. -/
theorem get?_normalizeSubscriber {payload data : Doc}
    (h : normalizeSubscriber payload = .ok data) {f : Text}
    (hf : f ≠ securityField) :
    data.get? f =
      if f = idField then none
      else (payload.get? f).or (subscriberDefaults.get? f) := by
  obtain ⟨sec, -, rfl⟩ := normalizeSubscriber_ok h
  rw [Dict.get?_set_of_ne _ _ hf, Dict.get?_update, Dict.get?_erase]
  by_cases hid : f = idField
  · subst hid
    rfl
  · rw [if_neg (Ne.symm hid), if_neg hid]

/-- The block that is normalised is that of the payload. -/
theorem normalizeSubscriber_security {payload data : Doc}
    (h : normalizeSubscriber payload = .ok data) :
    ∃ sec, normalizeSecurity (payload.get? securityField) = .ok sec ∧
      data.get? securityField = some (.doc sec) := by
  obtain ⟨sec, hsec, rfl⟩ := normalizeSubscriber_ok h
  have hpayload : (subscriberDefaults.update (payload.erase idField)).get?
      securityField = payload.get? securityField := by
    rw [Dict.get?_update, Dict.get?_erase_of_ne _ securityField_ne_idField]
    cases payload.get? securityField <;> rfl
  exact ⟨sec, hpayload ▸ hsec, Dict.get?_set_self _ _ _⟩

end Schema

end Subscribers
end Kelt
