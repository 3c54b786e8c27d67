import Kelt.Auth.Jwks

/-!
# Verifying a token

`_verify_token` of `app/auth.py`. The header of a token and the claims that it
carries are JSON of the caller's choice, so every use of a field meets values of
any type. The header parser and the decoder of the token library either return
or raise `JWTError`; `Jose` holds the two.

`TypesFit` says which values the code can deal with (`verifyToken_sound_iff`).
-/

namespace Kelt
namespace Auth

section Token

/-- The token library; an error is the text of a `JWTError`. -/
structure Jose where
  headers : Text → Except Text (Json.Members Rat)
  decode : Text → Value → Value → Value → Except Text (Json.Members Rat)
  claims : Text → Except Text (Json.Members Rat)

/-- What a request ends with instead of an answer of its own. -/
inductive Raised where
  | http (status : Nat) (detail : Text)
  | other (f : Fault)

/-- `bool(v)`. -/
def truthy : Value → Bool
  | .null => false
  | .bool b => b
  | .num n => n != 0
  | .str t => !t.isEmpty
  | .arr items => !items.isEmpty
  | .obj fields => !fields.isEmpty

theorem truthy_null : truthy .null = false :=
  rfl

/-- `fields.get(name)`. -/
def get (fields : Json.Members Rat) (name : String) : Value :=
  (Dict.getItem name.toList fields).getD .null

/-- `v or w`. -/
def orElse (v w : Value) : Value :=
  if truthy v then v else w

structure Principal where
  subject : Value
  username : Value
  clientId : Value
  roles : List Key

/-- `{c.strip() for c in clients.split(",") if c.strip()}`. -/
def acceptedClients (clients : Text) : List Text :=
  ((clients.splitOn ',').map strip).filter (fun c => !c.isEmpty)

/-- `v in accepted`. -/
def inAccepted (accepted : List Text) (v : Value) : Except Fault Bool :=
  (hash v).map fun
    | .str t => accepted.contains t
    | _ => false

/-- `any(a in accepted for a in aud)`. -/
def anyAccepted (accepted : List Text) : List Value → Except Fault Bool
  | [] => .ok false
  | a :: rest =>
      inAccepted accepted a >>= fun found =>
        if found then .ok true else anyAccepted accepted rest

/-- The audiences as the code compares them: of no other type than a list. -/
def audiences (claims : Json.Members Rat) : List Value :=
  match get claims "aud" with
  | .str t => [.str t]
  | .arr items => items
  | _ => []

/-- The token is for an accepted client. -/
def isFor (accepted : List Text) (claims : Json.Members Rat) :
    Except Fault Bool :=
  inAccepted accepted (get claims "azp") >>= fun found =>
    if found then .ok true else anyAccepted accepted (audiences claims)

/-- The hashes of the values, as a set is made of them. -/
def hashAll : List Value → Except Fault (List Key)
  | [] => .ok []
  | v :: rest =>
      hash v >>= fun k => (hashAll rest).map (fun ks => k :: ks)

/-- `frozenset((claims.get("realm_access") or {}).get("roles") or [])`. -/
def realmRoles (claims : Json.Members Rat) : Except Fault (List Key) :=
  match orElse (get claims "realm_access") (.obj []) with
  | .obj access => iterate (orElse (get access "roles") (.arr [])) >>= hashAll
  | _ => .error .attributeError

/-- `claims.get("sub", "")`. -/
def subject (claims : Json.Members Rat) : Value :=
  (Dict.getItem "sub".toList claims).getD (.str [])

/-- The name of the caller in the claims, or else `sub`. -/
def nameOr (claims : Json.Members Rat) (sub : Value) : Value :=
  orElse (get claims "preferred_username") (orElse (get claims "email") sub)

/-- The end of `_verify_token`, with the claims of the verified token. -/
def principalOf (accepted : List Text) (claims : Json.Members Rat) :
    Except Raised Principal :=
  match isFor accepted claims with
  | .error f => .error (.other f)
  | .ok false =>
      .error (.http 401 "Token not for an accepted client".toList)
  | .ok true =>
      match realmRoles claims with
      | .error f => .error (.other f)
      | .ok roles =>
          .ok
            { subject := subject claims
              username := nameOr claims (subject claims)
              clientId := orElse (get claims "azp") (.str [])
              roles := roles }

/-- `headers.get("alg", "RS256")`. -/
def algOf (headers : Json.Members Rat) : Value :=
  (Dict.getItem "alg".toList headers).getD (.str "RS256".toList)

/-- `_verify_token` once the key is found. -/
def verifyWith (jose : Jose) (accepted : List Text) (token : Text)
    (headers : Json.Members Rat) (key issuer : Value) :
    Except Raised Principal :=
  if truthy issuer then
    match jose.decode token key (algOf headers) issuer with
    | .error e => .error (.http 401 ("Invalid token: ".toList ++ e))
    | .ok claims => principalOf accepted claims
  else
    .error (.http 503 "Keycloak unreachable".toList)

/-- The second look at the cache, for its issuer. -/
def Cache.awaitIssuer (c : Cache) (k : Key) (v : Visit) :
    Except Fault Unit × Cache :=
  if truthy c.issuer then (.ok (), c)
  else
    match c.getKey k v with
    | (.error f, c') => (.error f, c')
    | (.ok _, c') => (.ok (), c')

/-- `_verify_token` with the cache as it finds it; `first` and `second` are what
its calls of `get_key` meet. -/
def verifyToken (jose : Jose) (clients : Text) (c : Cache)
    (first second : Visit) (token : Text) :
    Except Raised Principal × Cache :=
  match jose.headers token with
  | .error e => (.error (.http 401 ("Malformed token: ".toList ++ e)), c)
  | .ok headers =>
      if truthy (get headers "kid") then
        match hash (get headers "kid") with
        | .error f => (.error (.other f), c)
        | .ok k =>
            match c.getKey k first with
            | (.error f, c₁) => (.error (.other f), c₁)
            | (.ok key, c₁) =>
                if truthy (key.getD .null) then
                  match c₁.awaitIssuer k second with
                  | (.error f, c₂) => (.error (.other f), c₂)
                  | (.ok _, c₂) =>
                      (verifyWith jose (acceptedClients clients) token headers
                        (key.getD .null) c₂.issuer, c₂)
                else
                  (.error (.http 401 "Unknown signing key".toList), c₁)
      else
        (.error (.http 401 "Token missing \'kid\' header".toList), c)

/-- The code ends as it should: with an answer, or with 401 or 503. -/
def Answered {α : Type} : Except Raised α → Prop
  | .ok _ => True
  | .error (.http status _) => status = 401 ∨ status = 503
  | .error (.other _) => False

/-- The client or an audience of the token is accepted. -/
def AcceptedFor (accepted : List Text) (claims : Json.Members Rat) : Prop :=
  ∃ t ∈ accepted, get claims "azp" = .str t ∨ .str t ∈ audiences claims

/-- The token verifies, under the key in the cache that its `kid` names and with
the issuer in the cache, to claims that are for an accepted client. -/
def Verified (jose : Jose) (accepted : List Text) (c : Cache) (token : Text) :
    Prop :=
  ∃ headers k key claims,
    jose.headers token = .ok headers ∧ hash (get headers "kid") = .ok k ∧
      c.keys.get? k = some key ∧ truthy c.issuer = true ∧
      jose.decode token key (algOf headers) c.issuer = .ok claims ∧
      AcceptedFor accepted claims

/-- The value is no list and no dictionary. -/
def HasHash : Value → Prop
  | .arr _ => False
  | .obj _ => False
  | _ => True

/-- An audience without a hash comes after one that is accepted. -/
def AudienceFits (accepted : List Text) (auds : List Value) : Prop :=
  ∀ pre a post, auds = pre ++ a :: post → ¬ HasHash a →
    ∃ t ∈ accepted, Json.str t ∈ pre

/-- What `frozenset` can be made of. -/
def SetFits : Value → Prop
  | .str _ => True
  | .obj _ => True
  | .arr items => ∀ v ∈ items, HasHash v
  | _ => False

/-- `realm_access` is empty or an object, and its roles are empty or can be made
a set of. -/
def RolesFit (claims : Json.Members Rat) : Prop :=
  truthy (get claims "realm_access") = true →
    ∃ access, get claims "realm_access" = .obj access ∧
      (truthy (get access "roles") = true → SetFits (get access "roles"))

/-- The claims have the types that the code deals with. -/
structure ClaimsFit (accepted : List Text) (claims : Json.Members Rat) :
    Prop where
  azp : HasHash (get claims "azp")
  aud : (∀ t ∈ accepted, get claims "azp" ≠ .str t) →
    AudienceFits accepted (audiences claims)
  roles : AcceptedFor accepted claims → RolesFit claims

/-- The replies to an attempt can be read. -/
def Visit.Readable (v : Visit) : Prop :=
  match v.certs with
  | .httpError => True
  | .text => False
  | .json certs =>
      match v.config with
      | .httpError => True
      | .text => False
      | .json config =>
          (∃ keys, keysOf certs = .ok keys) ∧
            ∃ issuer, issuerOf config = .ok issuer

/-- An attempt that the key calls for gets replies that can be read. -/
def Cache.KeyFits (c : Cache) (k : Key) (v : Visit) : Prop :=
  c.keys.get? k = none → cooldown ≤ v.now - c.lastRefresh → v.Readable

/-- Every value that the code comes to use has a type it deals with: the `kid`,
the replies of Keycloak when the key is not there, and the claims once the token
is verified. -/
def TypesFit (jose : Jose) (clients : Text) (c : Cache) (first : Visit)
    (token : Text) : Prop :=
  ∀ headers, jose.headers token = .ok headers →
    truthy (get headers "kid") = true →
    HasHash (get headers "kid") ∧
      ∀ k, hash (get headers "kid") = .ok k →
        c.KeyFits k first ∧
          ∀ key claims, (c.getKey k first).2.keys.get? k = some key →
            truthy key = true → truthy (c.getKey k first).2.issuer = true →
            jose.decode token key (algOf headers)
                (c.getKey k first).2.issuer = .ok claims →
            ClaimsFit (acceptedClients clients) claims

theorem hash_of_hasHash {v : Value} (h : HasHash v) : ∃ k, hash v = .ok k := by
  cases v with
  | arr items => exact h.elim
  | obj fields => exact h.elim
  | null => exact ⟨_, rfl⟩
  | bool b => exact ⟨_, rfl⟩
  | num n => exact ⟨_, rfl⟩
  | str t => exact ⟨_, rfl⟩

theorem hasHash_of_hash {v : Value} {k : Key} (h : hash v = .ok k) :
    HasHash v := by
  cases v with
  | arr items => cases h
  | obj fields => cases h
  | _ => trivial

theorem hash_of_not_hasHash {v : Value} (h : ¬ HasHash v) :
    hash v = .error .typeError := by
  cases v with
  | arr items => rfl
  | obj fields => rfl
  | _ => exact absurd trivial h

/-- A value is looked for among the accepted clients as the text it is. -/
theorem inAccepted_of_hasHash (accepted : List Text) {v : Value}
    (h : HasHash v) :
    (inAccepted accepted v = .ok true ∧ ∃ t ∈ accepted, v = .str t) ∨
      (inAccepted accepted v = .ok false ∧ ∀ t ∈ accepted, v ≠ .str t) := by
  cases v with
  | arr items => exact h.elim
  | obj fields => exact h.elim
  | str t =>
      by_cases ht : t ∈ accepted
      · refine Or.inl ⟨?_, t, ht, rfl⟩
        simp [inAccepted, hash, Except.map, ht]
      · refine Or.inr ⟨?_, ?_⟩
        · simp [inAccepted, hash, Except.map, ht]
        · rintro u hu ⟨⟩
          exact ht hu
  | null => exact Or.inr ⟨rfl, by rintro t ht ⟨⟩⟩
  | bool b => exact Or.inr ⟨rfl, by rintro t ht ⟨⟩⟩
  | num n => exact Or.inr ⟨rfl, by rintro t ht ⟨⟩⟩

theorem inAccepted_of_not_hasHash (accepted : List Text) {v : Value}
    (h : ¬ HasHash v) : inAccepted accepted v = .error .typeError := by
  rw [inAccepted, hash_of_not_hasHash h]
  rfl

theorem audienceFits_cons_iff (accepted : List Text) (a : Value)
    (rest : List Value) :
    AudienceFits accepted (a :: rest) ↔
      HasHash a ∧
        ((∀ t ∈ accepted, a ≠ .str t) → AudienceFits accepted rest) := by
  constructor
  · intro h
    refine ⟨?_, fun hno pre b post heq hb => ?_⟩
    · by_contra ha
      obtain ⟨t, -, ht⟩ := h [] a rest rfl ha
      cases ht
    · obtain ⟨t, ht, hmem⟩ := h (a :: pre) b post (by rw [heq]; rfl) hb
      cases hmem with
      | head => exact absurd rfl (hno t ht)
      | tail _ hmem => exact ⟨t, ht, hmem⟩
  · rintro ⟨ha, hrest⟩ pre b post heq hb
    cases pre with
    | nil =>
        obtain ⟨rfl, rfl⟩ := List.cons.inj heq
        exact absurd ha hb
    | cons c pre =>
        obtain ⟨rfl, hpost⟩ := List.cons.inj heq
        by_cases hacc : ∃ t ∈ accepted, a = .str t
        · obtain ⟨t, ht, rfl⟩ := hacc
          exact ⟨t, ht, List.mem_cons_self⟩
        · obtain ⟨t, ht, hmem⟩ := hrest
            (fun t ht hat => hacc ⟨t, ht, hat⟩) pre b post hpost hb
          exact ⟨t, ht, List.mem_cons_of_mem a hmem⟩

/-- The audiences are gone through up to the first that is accepted. -/
theorem anyAccepted_of_fits (accepted : List Text) {auds : List Value}
    (h : AudienceFits accepted auds) :
    (anyAccepted accepted auds = .ok true ∧
        ∃ t ∈ accepted, Json.str t ∈ auds) ∨
      (anyAccepted accepted auds = .ok false ∧
        ∀ t ∈ accepted, Json.str t ∉ auds) := by
  induction auds with
  | nil => exact Or.inr ⟨rfl, by simp⟩
  | cons a rest ih =>
      obtain ⟨ha, hrest⟩ := (audienceFits_cons_iff accepted a rest).1 h
      rw [anyAccepted]
      obtain ⟨hin, t, ht, rfl⟩ | ⟨hin, hno⟩ := inAccepted_of_hasHash accepted ha
      · rw [hin]
        exact Or.inl ⟨rfl, t, ht, List.mem_cons_self⟩
      · rw [hin]
        obtain ⟨hany, t, ht, hmem⟩ | ⟨hany, hnone⟩ := ih (hrest hno)
        · exact Or.inl ⟨hany, t, ht, List.mem_cons_of_mem a hmem⟩
        · refine Or.inr ⟨hany, fun t ht hmem => ?_⟩
          cases hmem with
          | head => exact hno t ht rfl
          | tail _ hmem => exact hnone t ht hmem

theorem fits_of_anyAccepted (accepted : List Text) {auds : List Value}
    {b : Bool} (h : anyAccepted accepted auds = .ok b) :
    AudienceFits accepted auds := by
  induction auds with
  | nil =>
      intro pre a post heq
      simp at heq
  | cons a rest ih =>
      rw [anyAccepted] at h
      by_cases ha : HasHash a
      · refine (audienceFits_cons_iff accepted a rest).2 ⟨ha, fun hno => ?_⟩
        obtain ⟨-, t, ht, hat⟩ | ⟨hin, -⟩ := inAccepted_of_hasHash accepted ha
        · exact absurd hat (hno t ht)
        · rw [hin] at h
          exact ih h
      · rw [inAccepted_of_not_hasHash accepted ha] at h
        cases h

theorem isFor_of_fits (accepted : List Text) {claims : Json.Members Rat}
    (hazp : HasHash (get claims "azp"))
    (haud : (∀ t ∈ accepted, get claims "azp" ≠ .str t) →
      AudienceFits accepted (audiences claims)) :
    (isFor accepted claims = .ok true ∧ AcceptedFor accepted claims) ∨
      (isFor accepted claims = .ok false ∧ ¬ AcceptedFor accepted claims) := by
  rw [isFor]
  obtain ⟨hin, t, ht, heq⟩ | ⟨hin, hno⟩ := inAccepted_of_hasHash accepted hazp
  · rw [hin]
    exact Or.inl ⟨rfl, t, ht, Or.inl heq⟩
  · rw [hin]
    obtain ⟨hany, t, ht, hmem⟩ | ⟨hany, hnone⟩ :=
      anyAccepted_of_fits accepted (haud hno)
    · exact Or.inl ⟨hany, t, ht, Or.inr hmem⟩
    · refine Or.inr ⟨hany, ?_⟩
      rintro ⟨t, ht, heq | hmem⟩
      · exact hno t ht heq
      · exact hnone t ht hmem

theorem fits_of_isFor (accepted : List Text) {claims : Json.Members Rat}
    {b : Bool} (h : isFor accepted claims = .ok b) :
    HasHash (get claims "azp") ∧
      ((∀ t ∈ accepted, get claims "azp" ≠ .str t) →
        AudienceFits accepted (audiences claims)) := by
  rw [isFor] at h
  by_cases hazp : HasHash (get claims "azp")
  · refine ⟨hazp, fun hno => ?_⟩
    obtain ⟨-, t, ht, heq⟩ | ⟨hin, -⟩ := inAccepted_of_hasHash accepted hazp
    · exact absurd heq (hno t ht)
    · rw [hin] at h
      exact fits_of_anyAccepted accepted h
  · rw [inAccepted_of_not_hasHash accepted hazp] at h
    cases h

theorem hashAll_ok_iff (items : List Value) :
    (∃ ks, hashAll items = .ok ks) ↔ ∀ v ∈ items, HasHash v := by
  induction items with
  | nil => exact ⟨fun _ => by simp, fun _ => ⟨[], rfl⟩⟩
  | cons v rest ih =>
      rw [List.forall_mem_cons, ← ih, hashAll]
      constructor
      · rintro ⟨ks, h⟩
        cases hv : hash v with
        | error f =>
            rw [hv] at h
            cases h
        | ok k =>
            rw [hv] at h
            refine ⟨hasHash_of_hash hv, ?_⟩
            cases hrest : hashAll rest with
            | error f =>
                rw [hrest] at h
                cases h
            | ok ks => exact ⟨ks, rfl⟩
      · rintro ⟨hv, ks, hrest⟩
        obtain ⟨k, hk⟩ := hash_of_hasHash hv
        rw [hk, hrest]
        exact ⟨k :: ks, rfl⟩

/-- The values a set can be made of. -/
theorem iterate_hashAll_ok_iff (v : Value) :
    (∃ ks, (iterate v >>= hashAll) = .ok ks) ↔ SetFits v := by
  have herror : ∀ f : Fault,
      ¬ ∃ ks, ((Except.error f : Except Fault (List Value)) >>= hashAll) =
        .ok ks := by
    rintro f ⟨ks, h⟩
    cases h
  cases v with
  | null => exact iff_of_false (herror _) not_false
  | bool b => exact iff_of_false (herror _) not_false
  | num n => exact iff_of_false (herror _) not_false
  | str t =>
      refine iff_of_true ((hashAll_ok_iff _).2 ?_) trivial
      intro v hv
      obtain ⟨c, -, rfl⟩ := List.mem_map.1 hv
      trivial
  | arr items => exact hashAll_ok_iff items
  | obj fields =>
      refine iff_of_true ((hashAll_ok_iff _).2 ?_) trivial
      intro v hv
      obtain ⟨kv, -, rfl⟩ := List.mem_map.1 hv
      trivial

theorem setFits_orElse_iff (v : Value) :
    SetFits (orElse v (.arr [])) ↔ (truthy v = true → SetFits v) := by
  unfold orElse
  cases truthy v with
  | true => simp
  | false => simp [SetFits]

theorem realmRoles_ok_iff (claims : Json.Members Rat) :
    (∃ roles, realmRoles claims = .ok roles) ↔ RolesFit claims := by
  unfold realmRoles RolesFit orElse
  cases htruthy : truthy (get claims "realm_access") with
  | false => exact iff_of_true ⟨[], rfl⟩ (by rintro ⟨⟩)
  | true =>
      simp only [if_true, forall_const]
      cases hacc : get claims "realm_access" with
      | obj access =>
          have hroles := iterate_hashAll_ok_iff
            (orElse (get access "roles") (.arr []))
          rw [setFits_orElse_iff] at hroles
          simp only [Json.obj.injEq, exists_eq_left']
          exact hroles
      | _ => simp

theorem answered_principalOf_iff (accepted : List Text)
    (claims : Json.Members Rat) :
    Answered (principalOf accepted claims) ↔ ClaimsFit accepted claims := by
  constructor
  · intro h
    unfold principalOf at h
    cases hfor : isFor accepted claims with
    | error f =>
        rw [hfor] at h
        exact h.elim
    | ok b =>
        obtain ⟨hazp, haud⟩ := fits_of_isFor accepted hfor
        refine ⟨hazp, haud, fun hacc => ?_⟩
        obtain ⟨htrue, -⟩ | ⟨-, hnot⟩ := isFor_of_fits accepted hazp haud
        · rw [htrue] at h
          cases hroles : realmRoles claims with
          | error f =>
              simp only [hroles] at h
              exact h.elim
          | ok roles => exact (realmRoles_ok_iff claims).1 ⟨roles, hroles⟩
        · exact absurd hacc hnot
  · rintro ⟨hazp, haud, hrolesFit⟩
    unfold principalOf
    obtain ⟨hfor, hacc⟩ | ⟨hfor, -⟩ := isFor_of_fits accepted hazp haud
    · obtain ⟨roles, hroles⟩ := (realmRoles_ok_iff claims).2 (hrolesFit hacc)
      rw [hfor]
      simp only [hroles]
      trivial
    · rw [hfor]
      exact Or.inl rfl

theorem username_of_principalOf {accepted : List Text}
    {claims : Json.Members Rat} {p : Principal}
    (h : principalOf accepted claims = .ok p) :
    p.username = nameOr claims (subject claims) := by
  unfold principalOf at h
  split at h
  · cases h
  · cases h
  · split at h
    · cases h
    · obtain rfl := Except.ok.inj h
      rfl

theorem acceptedFor_of_principalOf {accepted : List Text}
    {claims : Json.Members Rat} {p : Principal}
    (h : principalOf accepted claims = .ok p) :
    AcceptedFor accepted claims := by
  unfold principalOf at h
  cases hfor : isFor accepted claims with
  | error f =>
      rw [hfor] at h
      cases h
  | ok b =>
      obtain ⟨hazp, haud⟩ := fits_of_isFor accepted hfor
      obtain ⟨-, hacc⟩ | ⟨hfalse, -⟩ := isFor_of_fits accepted hazp haud
      · exact hacc
      · rw [hfalse] at h
        cases h

theorem refresh_ok_iff (c : Cache) (v : Visit) :
    (∃ u, (c.refresh v).1 = .ok u) ↔ v.Readable := by
  unfold Cache.refresh Visit.Readable
  cases v.certs with
  | httpError => simp
  | text => simp
  | json certs =>
      cases v.config with
      | httpError => simp
      | text => simp
      | json config =>
          cases hkeys : keysOf certs <;> cases hissuer : issuerOf config <;>
            simp [hkeys, hissuer]

theorem getKey_ok_iff (c : Cache) (k : Key) (v : Visit) :
    (∃ key, (c.getKey k v).1 = .ok key) ↔ c.KeyFits k v := by
  unfold Cache.getKey Cache.KeyFits
  cases hkey : c.keys.get? k with
  | some key => simp
  | none =>
      by_cases hcool : v.now - c.lastRefresh < cooldown
      · simp [hcool]
      · simp only [hcool, if_false, forall_const, not_lt.1 hcool]
        rw [← refresh_ok_iff c v, Cache.afterRefresh]
        cases hrefresh : c.refresh v with
        | mk r c' => cases r <;> simp

/-- What `get_key` returns is what the cache has then. -/
theorem getKey_eq_ok {c c' : Cache} {k : Key} {v : Visit} {key : Option Value}
    (h : c.getKey k v = (.ok key, c')) : c'.keys.get? k = key := by
  unfold Cache.getKey at h
  cases hkey : c.keys.get? k with
  | some key' =>
      simp only [hkey, Prod.mk.injEq, Except.ok.injEq] at h
      rw [← h.2, ← h.1, hkey]
  | none =>
      simp only [hkey] at h
      split_ifs at h with hcool
      · simp only [Prod.mk.injEq, Except.ok.injEq] at h
        rw [← h.2, ← h.1, hkey]
      · rw [Cache.afterRefresh] at h
        cases hrefresh : c.refresh v with
        | mk r c₁ =>
            rw [hrefresh] at h
            cases r with
            | error f => simp at h
            | ok u =>
                simp only [Prod.mk.injEq, Except.ok.injEq] at h
                rw [← h.2, ← h.1]

/-- The second look finds the key and changes nothing. -/
theorem awaitIssuer_of_key {c : Cache} {k : Key} {key : Value}
    (h : c.keys.get? k = some key) (v : Visit) :
    c.awaitIssuer k v = (.ok (), c) := by
  unfold Cache.awaitIssuer Cache.getKey
  rw [h]
  split_ifs <;> rfl

theorem answered_verifyWith_iff (jose : Jose) (accepted : List Text)
    (token : Text) (headers : Json.Members Rat) (key issuer : Value) :
    Answered (verifyWith jose accepted token headers key issuer) ↔
      (truthy issuer = true → ∀ claims,
        jose.decode token key (algOf headers) issuer = .ok claims →
          ClaimsFit accepted claims) := by
  unfold verifyWith
  cases truthy issuer with
  | false =>
      simp only [Bool.false_eq_true, if_false, IsEmpty.forall_iff, iff_true]
      exact Or.inr rfl
  | true =>
      simp only [if_true, forall_const]
      cases jose.decode token key (algOf headers) issuer with
      | error e => exact iff_of_true (Or.inl rfl) (by rintro claims ⟨⟩)
      | ok claims =>
          simp only [Except.ok.injEq, forall_eq']
          exact answered_principalOf_iff accepted claims

theorem claims_of_verifyWith {jose : Jose} {accepted : List Text}
    {token : Text} {headers : Json.Members Rat} {key issuer : Value}
    {p : Principal}
    (h : verifyWith jose accepted token headers key issuer = .ok p) :
    truthy issuer = true ∧ ∃ claims,
      jose.decode token key (algOf headers) issuer = .ok claims ∧
        principalOf accepted claims = .ok p := by
  unfold verifyWith at h
  cases hissuer : truthy issuer with
  | false => simp [hissuer] at h
  | true =>
      simp only [hissuer, if_true] at h
      cases hdecode : jose.decode token key (algOf headers) issuer with
      | error e => simp [hdecode] at h
      | ok claims =>
          simp only [hdecode] at h
          exact ⟨rfl, claims, rfl, h⟩

/-- Once the key is found, the token is verified with it. -/
theorem verifyToken_of_key {jose : Jose} {clients : Text} {c c' : Cache}
    {first second : Visit} {token : Text} {headers : Json.Members Rat}
    {k : Key} {key : Value} (hheaders : jose.headers token = .ok headers)
    (hkid : truthy (get headers "kid") = true)
    (hk : hash (get headers "kid") = .ok k)
    (hkey : c.getKey k first = (.ok (some key), c'))
    (htruthy : truthy key = true) :
    verifyToken jose clients c first second token =
      (verifyWith jose (acceptedClients clients) token headers key c'.issuer,
        c') := by
  unfold verifyToken
  simp only [hheaders, hkid, if_true, hk, hkey, Option.getD_some, htruthy,
    awaitIssuer_of_key (getKey_eq_ok hkey) second]

/-- A principal is made of the claims of a token that verifies. -/
theorem claims_of_verifyToken {jose : Jose} {clients : Text} {c : Cache}
    {first second : Visit} {token : Text} {p : Principal}
    (h : (verifyToken jose clients c first second token).1 = .ok p) :
    ∃ headers k key claims,
      jose.headers token = .ok headers ∧ hash (get headers "kid") = .ok k ∧
        (verifyToken jose clients c first second token).2.keys.get? k =
          some key ∧
        truthy (verifyToken jose clients c first second token).2.issuer =
          true ∧
        jose.decode token key (algOf headers)
          (verifyToken jose clients c first second token).2.issuer =
            .ok claims ∧
        principalOf (acceptedClients clients) claims = .ok p := by
  cases hheaders : jose.headers token with
  | error e => simp [verifyToken, hheaders] at h
  | ok headers =>
      cases hkid : truthy (get headers "kid") with
      | false => simp [verifyToken, hheaders, hkid] at h
      | true =>
          cases hk : hash (get headers "kid") with
          | error f => simp [verifyToken, hheaders, hkid, hk] at h
          | ok k =>
              cases hget : c.getKey k first with
              | mk r c' =>
                  cases r with
                  | error f =>
                      simp [verifyToken, hheaders, hkid, hk, hget] at h
                  | ok key =>
                      cases key with
                      | none =>
                          simp [verifyToken, hheaders, hkid, hk, hget,
                            truthy_null] at h
                      | some key =>
                          cases htruthy : truthy key with
                          | false =>
                              simp [verifyToken, hheaders, hkid, hk, hget,
                                htruthy] at h
                          | true =>
                              rw [verifyToken_of_key hheaders hkid hk hget
                                htruthy] at h ⊢
                              obtain ⟨hissuer, claims, hdecode, hp⟩ :=
                                claims_of_verifyWith h
                              exact ⟨headers, k, key, claims, rfl, hk,
                                getKey_eq_ok hget, hissuer, hdecode, hp⟩

theorem verified_of_verifyToken {jose : Jose} {clients : Text} {c : Cache}
    {first second : Visit} {token : Text} {p : Principal}
    (h : (verifyToken jose clients c first second token).1 = .ok p) :
    Verified jose (acceptedClients clients)
      (verifyToken jose clients c first second token).2 token := by
  obtain ⟨headers, k, key, claims, hheaders, hk, hkey, hissuer, hdecode, hp⟩ :=
    claims_of_verifyToken h
  exact ⟨headers, k, key, claims, hheaders, hk, hkey, hissuer, hdecode,
    acceptedFor_of_principalOf hp⟩

/-- What the types have to be once the key of the token is known. -/
theorem typesFit_iff_of_hash {jose : Jose} {clients : Text} {c : Cache}
    {first : Visit} {token : Text} {headers : Json.Members Rat} {k : Key}
    (hheaders : jose.headers token = .ok headers)
    (hkid : truthy (get headers "kid") = true)
    (hk : hash (get headers "kid") = .ok k) :
    TypesFit jose clients c first token ↔
      c.KeyFits k first ∧
        ∀ key claims, (c.getKey k first).2.keys.get? k = some key →
          truthy key = true → truthy (c.getKey k first).2.issuer = true →
          jose.decode token key (algOf headers)
              (c.getKey k first).2.issuer = .ok claims →
          ClaimsFit (acceptedClients clients) claims := by
  constructor
  · intro h
    exact (h headers hheaders hkid).2 k hk
  · intro h headers' hheaders' _
    obtain rfl := Except.ok.inj (hheaders.symm.trans hheaders')
    refine ⟨hasHash_of_hash hk, fun k' hk' => ?_⟩
    obtain rfl := Except.ok.inj (hk.symm.trans hk')
    exact h

theorem answered_verifyToken_iff (jose : Jose) (clients : Text) (c : Cache)
    (first second : Visit) (token : Text) :
    Answered (verifyToken jose clients c first second token).1 ↔
      TypesFit jose clients c first token := by
  cases hheaders : jose.headers token with
  | error e =>
      refine iff_of_true ?_ fun headers h => ?_
      · simp only [verifyToken, hheaders]
        exact Or.inl rfl
      · rw [hheaders] at h
        cases h
  | ok headers =>
      cases hkid : truthy (get headers "kid") with
      | false =>
          refine iff_of_true ?_ fun headers' h htrue => ?_
          · simp only [verifyToken, hheaders, hkid, Bool.false_eq_true,
              if_false]
            exact Or.inl rfl
          · obtain rfl := Except.ok.inj (hheaders.symm.trans h)
            rw [hkid] at htrue
            cases htrue
      | true =>
          cases hk : hash (get headers "kid") with
          | error f =>
              refine iff_of_false ?_ fun h => ?_
              · simp only [verifyToken, hheaders, hkid, if_true, hk]
                exact not_false
              · obtain ⟨k, hk'⟩ := hash_of_hasHash (h headers hheaders hkid).1
                rw [hk] at hk'
                cases hk'
          | ok k =>
              rw [typesFit_iff_of_hash hheaders hkid hk,
                ← getKey_ok_iff c k first]
              cases hget : c.getKey k first with
              | mk r c' =>
                  cases r with
                  | error f =>
                      refine iff_of_false ?_ ?_
                      · simp only [verifyToken, hheaders, hkid, if_true, hk,
                          hget]
                        exact not_false
                      · rintro ⟨⟨key, h⟩, -⟩
                        cases h
                  | ok key =>
                      have hkeys := getKey_eq_ok hget
                      cases key with
                      | none =>
                          refine iff_of_true ?_ ⟨⟨_, rfl⟩, ?_⟩
                          · simp only [verifyToken, hheaders, hkid, if_true,
                              hk, hget, Option.getD_none, truthy_null,
                              Bool.false_eq_true, if_false]
                            exact Or.inl rfl
                          · intro key claims hkey
                            rw [hkeys] at hkey
                            cases hkey
                      | some key =>
                          cases htruthy : truthy key with
                          | false =>
                              refine iff_of_true ?_ ⟨⟨_, rfl⟩, ?_⟩
                              · simp only [verifyToken, hheaders, hkid,
                                  if_true, hk, hget, Option.getD_some,
                                  htruthy, Bool.false_eq_true, if_false]
                                exact Or.inl rfl
                              · intro key' claims hkey htrue
                                rw [hkeys] at hkey
                                obtain rfl := Option.some.inj hkey
                                rw [htruthy] at htrue
                                cases htrue
                          | true =>
                              rw [verifyToken_of_key hheaders hkid hk hget
                                htruthy, answered_verifyWith_iff]
                              constructor
                              · intro h
                                refine ⟨⟨_, rfl⟩, ?_⟩
                                intro key' claims hkey _ hissuer hdecode
                                rw [hkeys] at hkey
                                obtain rfl := Option.some.inj hkey
                                exact h hissuer claims hdecode
                              · rintro ⟨-, h⟩ hissuer claims hdecode
                                exact h key claims hkeys htruthy hissuer
                                  hdecode

/-- `_verify_token` answers, or raises 401 or 503, and returns a principal for a
verified token only, exactly when the values it comes to use have the types it
deals with. -/
theorem verifyToken_sound_iff (jose : Jose) (clients : Text) (c : Cache)
    (first second : Visit) (token : Text) :
    (Answered (verifyToken jose clients c first second token).1 ∧
        ∀ p, (verifyToken jose clients c first second token).1 = .ok p →
          Verified jose (acceptedClients clients)
            (verifyToken jose clients c first second token).2 token) ↔
      TypesFit jose clients c first token := by
  rw [← answered_verifyToken_iff jose clients c first second token]
  exact and_iff_left fun p hp => verified_of_verifyToken hp

/-- A token whose header has a list for its `kid`. -/
def listedKid : Jose where
  headers := fun _ =>
    .ok [("alg".toList, .str "RS256".toList), (kid, .arr [.str "a".toList])]
  decode := fun _ _ _ _ => .error "Signature verification failed.".toList
  claims := fun _ => .ok []

def noVisit : Visit :=
  ⟨0, .httpError, .httpError, 0⟩

/-- It ends in a `TypeError`. -/
theorem not_verifyToken_sound_listedKid :
    ¬ ∀ (jose : Jose) (clients : Text) (c : Cache) (first second : Visit)
        (token : Text),
      Answered (verifyToken jose clients c first second token).1 ∧
        ∀ p, (verifyToken jose clients c first second token).1 = .ok p →
          Verified jose (acceptedClients clients)
            (verifyToken jose clients c first second token).2 token := by
  intro h
  exact (h listedKid [] .init noVisit noVisit
    "eyJhbGciOiJSUzI1NiIsImtpZCI6WyJhIl19.e30.AA".toList).1

end Token

end Auth
end Kelt
