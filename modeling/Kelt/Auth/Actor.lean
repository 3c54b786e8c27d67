import Kelt.Auth.Token

/-!
# The caller in the audit record

The dependencies of a route verify the caller (`get_principal`), and the
middleware names it for the audit record (`ActorMiddleware`), before the token
is verified and on its own. The first takes the token from the header or from
the query, the second from the header only; and without any name in the claims
the first has an empty text where the second has none
(`actor_eq_username_iff`).
-/

namespace Kelt
namespace Auth

section Actor

structure Settings where
  skipAuth : Bool
  clients : Text

/-- The `Authorization` header and the query parameter `access_token`. -/
structure Request where
  authorization : Option Text
  accessToken : Option Text

/-- `header.lower().startswith("bearer ")`. -/
def isBearer (header : Text) : Bool :=
  (header.take 7).map Char.toLower == "bearer ".toList

def bearerToken (header : Text) : Text :=
  strip (header.drop 7)

def queryToken (r : Request) : Option Text :=
  (r.accessToken.filter (fun t => !t.isEmpty)).map strip

/-- The token came in the header. -/
def Request.byHeader (r : Request) : Bool :=
  isBearer (r.authorization.getD [])

def Request.token (r : Request) : Option Text :=
  if r.byHeader then some (bearerToken (r.authorization.getD []))
  else queryToken r

def skipAuthName : Value :=
  .str "skip-auth".toList

def syntheticAdmin : Principal where
  subject := skipAuthName
  username := skipAuthName
  clientId := skipAuthName
  roles := [.str "dashboard-admin".toList, .str "dashboard-viewer".toList]

/-- `get_principal` -/
def getPrincipal (jose : Jose) (settings : Settings) (c : Cache)
    (first second : Visit) (r : Request) : Except Raised Principal :=
  if settings.skipAuth then .ok syntheticAdmin
  else
    match r.token with
    | some (ch :: token) =>
        (verifyToken jose settings.clients c first second (ch :: token)).1
    | _ => .error (.http 401 "Missing Bearer token".toList)

def Principal.hasRole (p : Principal) (role : Text) : Bool :=
  p.roles.contains (.str role)

/-- The dependency of a route: the principal has one of the roles. -/
def requireOneOf (detail : Text) (roles : List Text)
    (p : Except Raised Principal) : Except Raised Principal :=
  p >>= fun p =>
    if roles.any p.hasRole then .ok p else .error (.http 403 detail)

/-- `require_role` -/
def requireRole (role : Text) :
    Except Raised Principal → Except Raised Principal :=
  requireOneOf ("Missing role: ".toList ++ role) [role]

/-- `require_any_role` -/
def requireAnyRole (roles : List Text) :
    Except Raised Principal → Except Raised Principal :=
  requireOneOf ("Missing any of: ".toList ++ [','].intercalate roles) roles

/-- The actor that `ActorMiddleware` sets for the request. -/
def dispatch (jose : Jose) (settings : Settings) (r : Request) : Value :=
  if settings.skipAuth then skipAuthName
  else if r.byHeader then
    match jose.claims (bearerToken (r.authorization.getD [])) with
    | .ok claims => nameOr claims (get claims "sub")
    | .error _ => .null
  else
    .null

/-- An entry of the audit record, with details of any type. -/
structure Written (δ : Type) where
  event : Text
  actor : Value
  details : δ

/-- `write_audit`, with the actor that is set for the request. -/
def writeAudit {δ : Type} (actor : Value) (event : Text) (details : δ) :
    Written δ :=
  ⟨event, actor, details⟩

/-- A request through the middleware and its role dependency to the route, which
writes an entry: the principal of the dependency and the entry. -/
def serve {δ : Type} (jose : Jose) (settings : Settings) (c : Cache)
    (first second : Visit) (detail : Text) (roles : List Text) (event : Text)
    (details : δ) (r : Request) : Except Raised (Principal × Written δ) :=
  let actor := dispatch jose settings r
  (requireOneOf detail roles
    (getPrincipal jose settings c first second r)).map
      (fun p => (p, writeAudit actor event details))

/-- The claims have a name for the caller. -/
def Named (claims : Json.Members Rat) : Prop :=
  truthy (get claims "preferred_username") = true ∨
    truthy (get claims "email") = true ∨
      (Dict.getItem "sub".toList claims).isSome = true

/-- The only name in the claims is a `sub` that is `null`. -/
def NullNamed (claims : Json.Members Rat) : Prop :=
  truthy (get claims "preferred_username") = false ∧
    truthy (get claims "email") = false ∧
      Dict.getItem "sub".toList claims = some .null

/-- The token comes in the header and its claims name the caller, or the token
comes in the query and they name nobody, with a `sub` that is `null`. -/
def Request.Agrees (jose : Jose) (r : Request) : Prop :=
  ∃ token claims, r.token = some token ∧ jose.claims token = .ok claims ∧
    if r.byHeader then Named claims else NullNamed claims

/-- Reading the claims without verifying the token gives those that verifying
it gives. -/
def Jose.SameClaims (jose : Jose) : Prop :=
  ∀ token key alg issuer claims,
    jose.decode token key alg issuer = .ok claims →
      jose.claims token = .ok claims

theorem orElse_of_truthy {v : Value} (h : truthy v = true) (w : Value) :
    orElse v w = v := by
  rw [orElse, if_pos h]

theorem orElse_of_not_truthy {v : Value} (h : truthy v = false) (w : Value) :
    orElse v w = w := by
  rw [orElse, if_neg (by rw [h]; exact Bool.false_ne_true)]

/-- `sub` counts when the claims have no other name. -/
theorem nameOr_cases (claims : Json.Members Rat) :
    (∃ v, truthy v = true ∧ (∀ sub, nameOr claims sub = v) ∧
        (truthy (get claims "preferred_username") = true ∨
          truthy (get claims "email") = true)) ∨
      ((∀ sub, nameOr claims sub = sub) ∧
        truthy (get claims "preferred_username") = false ∧
          truthy (get claims "email") = false) := by
  unfold nameOr
  cases hname : truthy (get claims "preferred_username") with
  | true =>
      exact Or.inl ⟨_, hname, fun _ => orElse_of_truthy hname _, Or.inl rfl⟩
  | false =>
      cases hemail : truthy (get claims "email") with
      | true =>
          refine Or.inl ⟨_, hemail, fun sub => ?_, Or.inr rfl⟩
          rw [orElse_of_not_truthy hname, orElse_of_truthy hemail]
      | false =>
          refine Or.inr ⟨fun sub => ?_, rfl, rfl⟩
          rw [orElse_of_not_truthy hname, orElse_of_not_truthy hemail]

theorem get_sub_eq_subject_iff (claims : Json.Members Rat) :
    get claims "sub" = subject claims ↔
      (Dict.getItem "sub".toList claims).isSome = true := by
  unfold get subject
  cases Dict.getItem "sub".toList claims <;> simp

/-- The middleware and the verified principal agree on the name. -/
theorem nameOr_sub_iff (claims : Json.Members Rat) :
    nameOr claims (get claims "sub") = nameOr claims (subject claims) ↔
      Named claims := by
  unfold Named
  obtain ⟨v, -, hv, hname | hemail⟩ | ⟨hsub, hname, hemail⟩ :=
    nameOr_cases claims
  · exact iff_of_true (by rw [hv, hv]) (Or.inl hname)
  · exact iff_of_true (by rw [hv, hv]) (Or.inr (Or.inl hemail))
  · rw [hsub, hsub, get_sub_eq_subject_iff, hname, hemail]
    simp

theorem null_eq_nameOr_iff (claims : Json.Members Rat) :
    .null = nameOr claims (subject claims) ↔ NullNamed claims := by
  unfold NullNamed
  obtain ⟨v, htruthy, hv, hname⟩ | ⟨hsub, hname, hemail⟩ :=
    nameOr_cases claims
  · refine iff_of_false ?_ ?_
    · rw [hv]
      rintro rfl
      cases htruthy
    · rintro ⟨hno, hno', -⟩
      obtain h | h := hname
      · rw [hno] at h
        cases h
      · rw [hno'] at h
        cases h
  · rw [hsub, hname, hemail]
    unfold subject
    cases Dict.getItem "sub".toList claims <;> simp [eq_comm]

/-- A request that is let in has a principal that its token verifies to. -/
theorem principal_of_getPrincipal {jose : Jose} {settings : Settings}
    {c : Cache} {first second : Visit} {r : Request} {p : Principal}
    (hauth : settings.skipAuth = false)
    (h : getPrincipal jose settings c first second r = .ok p) :
    ∃ token key alg issuer claims, r.token = some token ∧
      jose.decode token key alg issuer = .ok claims ∧
        p.username = nameOr claims (subject claims) := by
  unfold getPrincipal at h
  rw [hauth] at h
  cases htoken : r.token with
  | none => simp [htoken] at h
  | some token =>
      cases token with
      | nil => simp [htoken] at h
      | cons ch token =>
          simp only [htoken, Bool.false_eq_true, if_false] at h
          obtain ⟨headers, k, key, claims, -, -, -, -, hdecode, hp⟩ :=
            claims_of_verifyToken h
          exact ⟨ch :: token, key, algOf headers, _, claims, rfl, hdecode,
            username_of_principalOf hp⟩

theorem serve_eq_ok {δ : Type} {jose : Jose} {settings : Settings} {c : Cache}
    {first second : Visit} {detail : Text} {roles : List Text} {event : Text}
    {details : δ} {r : Request} {p : Principal} {w : Written δ}
    (h : serve jose settings c first second detail roles event details r =
      .ok (p, w)) :
    getPrincipal jose settings c first second r = .ok p ∧
      w = writeAudit (dispatch jose settings r) event details := by
  unfold serve requireOneOf at h
  cases hp : getPrincipal jose settings c first second r with
  | error e =>
      rw [hp] at h
      cases h
  | ok q =>
      rw [hp] at h
      simp only [bind, Except.bind] at h
      split_ifs at h
      · obtain ⟨rfl, rfl⟩ := Prod.mk.inj (Except.ok.inj h)
        exact ⟨rfl, rfl⟩
      · cases h

/-- With authentication on, a request that is let in and writes an entry is
recorded under the name of its principal exactly when its token comes in the
header and names the caller, or comes in the query and names nobody. -/
theorem actor_eq_username_iff {δ : Type} (jose : Jose) (settings : Settings)
    (c : Cache) (first second : Visit) (detail : Text) (roles : List Text)
    (event : Text) (details : δ) (r : Request) (p : Principal) (w : Written δ)
    (hjose : jose.SameClaims) (hauth : settings.skipAuth = false)
    (h : serve jose settings c first second detail roles event details r =
      .ok (p, w)) :
    w.actor = p.username ↔ r.Agrees jose := by
  obtain ⟨hp, rfl⟩ := serve_eq_ok h
  obtain ⟨token, key, alg, issuer, claims, htoken, hdecode, hname⟩ :=
    principal_of_getPrincipal hauth hp
  have hclaims := hjose token key alg issuer claims hdecode
  have hagrees : r.Agrees jose ↔
      if r.byHeader then Named claims else NullNamed claims := by
    constructor
    · rintro ⟨token', claims', htoken', hclaims', hnamed⟩
      obtain rfl := Option.some.inj (htoken.symm.trans htoken')
      obtain rfl := Except.ok.inj (hclaims.symm.trans hclaims')
      exact hnamed
    · exact fun hnamed => ⟨token, claims, htoken, hclaims, hnamed⟩
  rw [hagrees, hname]
  unfold writeAudit dispatch
  rw [hauth]
  cases hheader : r.byHeader with
  | true =>
      have hbearer : bearerToken (r.authorization.getD []) = token := by
        unfold Request.token at htoken
        rw [hheader] at htoken
        exact Option.some.inj htoken
      simp only [Bool.false_eq_true, if_false, if_true, hbearer, hclaims]
      exact nameOr_sub_iff claims
  | false =>
      simp only [Bool.false_eq_true, if_false]
      exact null_eq_nameOr_iff claims

def adaClaims : Json.Members Rat :=
  [("sub".toList, .str "5f0c".toList),
    ("preferred_username".toList, .str "ada".toList),
    ("azp".toList, .str "dashboard".toList),
    ("realm_access".toList,
      .obj [("roles".toList, .arr [.str "dashboard-admin".toList])])]

/-- A library that verifies every token to the claims of one user. -/
def adaJose : Jose where
  headers := fun _ =>
    .ok [("alg".toList, .str "RS256".toList), (kid, .str "a".toList)]
  decode := fun _ _ _ _ => .ok adaClaims
  claims := fun _ => .ok adaClaims

theorem adaJose_sameClaims : adaJose.SameClaims :=
  fun _ _ _ _ _ h => h

/-- The key of the tokens and the issuer are in the cache. -/
def adaCache : Cache where
  keys := Dict.single (.str "a".toList) (.obj [(kid, .str "a".toList)])
  issuer := .str "http://keycloak/realms/kelt".toList
  lastRefresh := 0

def dashboardSettings : Settings :=
  ⟨false, "dashboard, camara-gateway".toList⟩

def adaHeader : Request :=
  ⟨some "bearer eyJ.eyJ.c2ln".toList, none⟩

def adaQuery : Request :=
  ⟨none, some "eyJ.eyJ.c2ln".toList⟩

/-- `require_admin` lets the request in and its route restarts the backend. -/
def adaServed (r : Request) : Except Raised (Principal × Written Unit) :=
  serve adaJose dashboardSettings adaCache noVisit noVisit
    "Missing role: dashboard-admin".toList ["dashboard-admin".toList]
    "admin.restart_backend".toList () r

/-- With the token in the header the entry names the user. -/
theorem actor_eq_username_iff_adaHeader :
    ∃ p w, adaServed adaHeader = .ok (p, w) ∧
      w.actor = .str "ada".toList ∧
      (w.actor = p.username ↔ adaHeader.Agrees adaJose) :=
  ⟨_, _, rfl, rfl,
    actor_eq_username_iff adaJose dashboardSettings adaCache noVisit noVisit _
      _ _ () adaHeader _ _ adaJose_sameClaims rfl
      (show adaServed adaHeader = .ok (_, _) from rfl)⟩

/-- With the token in the query the entry names nobody. -/
theorem not_actor_eq_username_adaQuery :
    ¬ ∀ (jose : Jose) (settings : Settings) (c : Cache)
        (first second : Visit) (detail : Text) (roles : List Text)
        (event : Text) (details : Unit) (r : Request) (p : Principal)
        (w : Written Unit),
      jose.SameClaims → settings.skipAuth = false →
      serve jose settings c first second detail roles event details r =
        .ok (p, w) →
      w.actor = p.username := by
  intro h
  have hname := h adaJose dashboardSettings adaCache noVisit noVisit _ _ _ ()
    adaQuery _ _ adaJose_sameClaims rfl
    (show adaServed adaQuery = .ok (_, _) from rfl)
  cases hname

end Actor

end Auth
end Kelt
