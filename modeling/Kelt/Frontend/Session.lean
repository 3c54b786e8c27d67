import Kelt.Lib.PyText
import Kelt.Lib.Runs

/-!
# Sign-in in a browser tab

The dashboard is one page behind a gate (`lib/authFlow.js`): what the gate shows
depends on the backend, on Keycloak and on the session, and two of its screens
start a sign-in by themselves, the first visit and the callback that has failed.
A run of a tab goes over any number of page loads, with the answers of the OIDC
client, of the probes and of the API in any order. The sign-ins of every run are
polite (`polite_of_reach`): the gate starts at most one for each load, none once
the shell has opened in it and none after a logout; the callback's own restarts
are apart by `RETRY_WINDOW_MS`; and a sign-in ends on a page of the tab, never on
an auth route.
-/

namespace Kelt
namespace Frontend
namespace Session

section Gate

def callbackRoute : Text :=
  "/auth/callback".toList

def loggedOutRoute : Text :=
  "/logged-out".toList

def authRoutes : List Text :=
  [callbackRoute, loggedOutRoute]

def root : Text :=
  ['/']

def retryWindowMs : Nat :=
  15000

/-- `path.split("?")[0]` -/
def pathname (page : Text) : Text :=
  page.takeWhile (· ≠ '?')

def isAuthRoute (page : Text) : Bool :=
  authRoutes.contains (pathname page)

/-- What the probes of the backend and of Keycloak say. -/
inductive Health where
  | unknown
  | up
  | down
  | accessExpired
  deriving DecidableEq

inductive View where
  | insecure
  | accessExpired
  | signingOut
  | ended
  | signedOut
  | backendLost
  | app
  | callback
  | starting
  | redirecting
  deriving DecidableEq

/-- What is fixed for a deployment and an origin, and `URLSearchParams.get`. -/
structure Site where
  enabled : Bool
  insecureOrigin : Bool
  getParam : Text → Text → Option Text

/-- Why a sign-in is started; the callback's restart remembers its mount and the
failure it is about. -/
inductive Cause where
  | gate
  | click
  | reauth
  | restart (mount : Nat) (reason : Text)
  | retry
  deriving DecidableEq

/-- A call of `signinRedirect` that has not left the page yet. -/
structure Signin where
  cause : Cause
  state : Option Text
  deriving DecidableEq

/-- A mount of `CallbackPage` with its error. -/
structure Callback where
  mount : Nat
  error : Option Text

/-- One load of the page. `exchanges` are the mounts of the callback whose
`signinRedirectCallback` is not answered. -/
structure Page where
  path : Text
  search : Text
  backend : Health
  iam : Health
  loading : Bool
  user : Bool
  loggingOut : Bool
  ended : Bool
  appShown : Bool
  redirected : Bool
  reauthing : Bool
  mounts : Nat
  callback : Option Callback
  exchanges : List Nat
  outgoing : List Signin

def Page.load (site : Site) (path search : Text) : Page where
  path := path
  search := search
  backend := .unknown
  iam := if site.enabled then .unknown else .up
  loading := site.enabled && !site.insecureOrigin
  user := false
  loggingOut := false
  ended := false
  appShown := false
  redirected := false
  reauthing := false
  mounts := 0
  callback := none
  exchanges := []
  outgoing := []

/-- `window.location.pathname + window.location.search` -/
def Page.here (p : Page) : Text :=
  p.path ++ p.search

def gateView (site : Site) (p : Page) : View :=
  if site.enabled && site.insecureOrigin then .insecure
  else if p.backend = .accessExpired ∨
      (!p.appShown && site.enabled) ∧ p.iam = .accessExpired then
    .accessExpired
  else if p.appShown then
    if site.enabled && p.loggingOut then .signingOut
    else if site.enabled && !p.user then
      if p.ended then .ended else .signedOut
    else if p.backend = .down then .backendLost
    else .app
  else if site.enabled ∧ p.path = callbackRoute then .callback
  else if site.enabled && p.loggingOut then .signingOut
  else if p.backend ≠ .up ∨ site.enabled ∧ (p.iam ≠ .up ∨ p.loading) then
    .starting
  else if site.enabled && !p.user then
    if p.path = loggedOutRoute then .signedOut
    else if p.ended then .ended
    else .redirecting
  else .app

def returnPath (page : Text) (stored : Option Text) : Text :=
  if page ≠ [] ∧ isAuthRoute page = false then page
  else
    match stored with
    | some left => if left ≠ [] ∧ isAuthRoute left = false then left else root
    | none => root

/-- The gate starts a sign-in before the shell has opened in this load, and not
after a logout. -/
theorem of_redirecting {site : Site} {p : Page}
    (h : gateView site p = .redirecting) :
    p.appShown = false ∧ p.path ≠ loggedOutRoute := by
  unfold gateView at h
  split at h
  · cases h
  split at h
  · cases h
  split at h
  · repeat' split at h
    all_goals cases h
  rename_i hshown
  split at h
  · cases h
  split at h
  · cases h
  split at h
  · cases h
  split at h
  · split at h
    · cases h
    rename_i hloggedOut
    exact ⟨by simpa using hshown, hloggedOut⟩
  · cases h

theorem of_callback {site : Site} {p : Page}
    (h : gateView site p = .callback) :
    p.appShown = false ∧ p.path = callbackRoute := by
  unfold gateView at h
  split at h
  · cases h
  split at h
  · cases h
  split at h
  · repeat' split at h
    all_goals cases h
  rename_i hshown
  split at h
  · rename_i hcallback
    exact ⟨by simpa using hshown, hcallback.2⟩
  · repeat' split at h
    all_goals cases h

end Gate

section Tab

/-- Where the browser is when it is on no page of the dashboard. -/
inductive Away where
  | nowhere
  | signin
  | logout
  deriving DecidableEq

/-- What has happened in a tab, with the page where it matters. -/
inductive Event where
  | opened (page : Text)
  | arrived (page : Text)
  | navigated (page : Text)
  | routed (page : Text)
  | redeemed (page : Text)
  | shown
  | clicked
  | retried
  | loggedOut (page : Text)
  | left
  | started (s : Signin) (time : Nat) (page : Text)

/-- A tab: its page, the keys of `sessionStorage` (`RETRY_KEY`, `RETURN_KEY`, the
states of the sign-ins that went out), the clock, and what has happened, the
latest first. -/
structure Tab where
  page : Option Page
  away : Away
  retryAt : Option Nat
  returnTo : Option Text
  saved : List (Option Text)
  now : Nat
  log : List Event

def Tab.init : Tab where
  page := none
  away := .nowhere
  retryAt := none
  returnTo := none
  saved := []
  now := 0
  log := []

inductive Act where
  | tick (now : Nat)
  | opened (path search : Text)
  | arrived (search : Text)
  | returned
  | stored (expired : Option Bool)
  | unread
  | userLoaded
  | userUnloaded
  | tokenExpired
  | backend (h : Health)
  | iam (h : Health)
  | navigate (path search : Text)
  | route (path : Text)
  | login
  | logout
  | assigned
  | unauthorized
  | leave (s : Signin)
  | failed (s : Signin) (message : Option Text)
  | redeemed (mount : Nat) (state : Option Text)
  | refused (mount : Nat) (message : Text)
  | retry

def Page.setError (p : Page) (mount : Nat) (error : Text) : Page :=
  { p with callback := p.callback.map fun c =>
      if c.mount = mount then { c with error := some error } else c }

/-- `navigate(target, { replace: true })` -/
def Page.goTo (p : Page) (target : Text) : Page :=
  { p with path := pathname target, search := target.dropWhile (· ≠ '?') }

/-- `um.signinRedirect`, up to where it waits. -/
def Tab.start (t : Tab) (p : Page) (s : Signin) : Tab :=
  { t with
    page := some { p with outgoing := s :: p.outgoing }
    log := .started s t.now p.here :: t.log }

/-- `login` -/
def Tab.login (site : Site) (t : Tab) (p : Page) (cause : Cause) : Tab :=
  if site.insecureOrigin then { t with page := some p }
  else
    { t.start p ⟨cause, some (returnPath p.here t.returnTo)⟩ with
      returnTo := none }

/-- `restart` of `CallbackPage`. -/
def Tab.restart (t : Tab) (p : Page) (mount : Nat) (reason : Text) : Tab :=
  if t.now < t.retryAt.getD 0 + retryWindowMs then
    { t with page := some (p.setError mount reason) }
  else
    { t.start p ⟨.restart mount reason, none⟩ with retryAt := some t.now }

/-- The first render of `CallbackPage`. -/
def Tab.mount (site : Site) (t : Tab) (p : Page) : Tab :=
  let p' : Page :=
    { p with
      mounts := p.mounts + 1
      callback := some ⟨p.mounts, none⟩ }
  match (site.getParam p.search "error".toList).filter (· ≠ []) with
  | some error =>
      let description :=
        (site.getParam p.search "error_description".toList).filter (· ≠ [])
      t.restart p' p.mounts (description.getD error)
  | none =>
      { t with page := some { p' with exchanges := p.mounts :: p.exchanges } }

/-- What is rendered and the effects that follow (`AppInner`). -/
def Tab.render (site : Site) (t : Tab) : Tab :=
  match t.page with
  | none => t
  | some p =>
      if gateView site p = .callback then
        match p.callback with
        | some _ => t
        | none => t.mount site p
      else
        let p' : Page := { p with callback := none }
        if gateView site p = .app ∧ p.appShown = false then
          { t with
            page := some { p' with appShown := true }
            log := .shown :: t.log }
        else if gateView site p = .redirecting ∧ p.redirected = false then
          t.login site { p' with redirected := true } .gate
        else { t with page := some p' }

/-- A new load of the page. -/
def Tab.open (site : Site) (t : Tab) (path search : Text) (e : Text → Event) :
    Tab :=
  { t with
    page := some (Page.load site path search)
    away := .nowhere
    log := e (path ++ search) :: t.log }

/-- `RECOVERABLE.test` -/
def recoverable (message : Text) : Bool :=
  message.any fun c => decide (c ∉ ['\n', '\r', '\u2028', '\u2029'])

/-- The shell is there, covered or not. -/
def Page.mounted (site : Site) (p : Page) : Bool :=
  p.appShown && (gateView site p = .app || gateView site p = .backendLost)

/-- The call has thrown before it left the page. -/
def Tab.failed (site : Site) (t : Tab) (p : Page) (s : Signin)
    (message : Option Text) : Tab :=
  let p' : Page := { p with outgoing := p.outgoing.erase s }
  match s.cause with
  | .gate | .click => { t with page := some p' }
  | .reauth => { t with page := some { p' with reauthing := false } }
  | .restart mount reason =>
      let error := (message.filter (· ≠ [])).getD reason
      { t with page := some (p'.setError mount error) }
  | .retry => t.open site root [] .opened

/-- The pages are mounted only with a session. -/
theorem Page.user_of_mounted {site : Site} {p : Page}
    (henabled : site.enabled = true) (h : p.mounted site = true) :
    p.user = true := by
  by_contra huser
  rw [Bool.not_eq_true] at huser
  unfold Page.mounted gateView at h
  simp only [henabled, huser, Bool.not_false, Bool.and_self, if_true] at h
  repeat' split at h
  all_goals simp at h

/-- `logout`, up to where it waits. -/
def Tab.logout (t : Tab) (p : Page) : Tab :=
  { t with
    page := some { p with loggingOut := true }
    returnTo := some p.here
    log := .loggedOut p.here :: t.log }

/-- The browser goes to Keycloak. -/
def Tab.leave (t : Tab) (s : Signin) : Tab :=
  { t with
    page := none
    away := .signin
    saved := s.state :: t.saved
    log := .left :: t.log }

/-- `signinRedirectCallback` has given a user. -/
def Tab.redeem (t : Tab) (p : Page) (mount : Nat) (state : Option Text) : Tab :=
  let target := (state.filter (· ≠ [])).getD root
  let p' : Page :=
    { p with
      user := true
      ended := false
      exchanges := p.exchanges.erase mount }
  { t with
    page := some (p'.goTo target)
    retryAt := none
    log := .redeemed target :: t.log }

/-- The button of the callback that has failed. -/
def Tab.retry (t : Tab) (p : Page) : Tab :=
  { t with retryAt := none, log := .retried :: t.log }.start p ⟨.retry, none⟩

/-- What happens to a page, without the render. -/
def Tab.onPage (site : Site) (t : Tab) (p : Page) : Act → Option Tab
  | .stored expired =>
      if p.loading then
        some { t with
          page := some
            { p with
              user := expired = some false
              ended := p.ended || expired = some true
              loading := false } }
      else none
  | .unread => some { t with page := some { p with loading := false } }
  | .userLoaded =>
      some { t with page := some { p with user := true, ended := false } }
  | .userUnloaded => some { t with page := some { p with user := false } }
  | .tokenExpired =>
      some { t with page := some { p with user := false, ended := true } }
  | .backend h => some { t with page := some { p with backend := h } }
  | .iam h => some { t with page := some { p with iam := h } }
  | .navigate path search =>
      some { t with
        page := some { p with path := path, search := search }
        log := .navigated (path ++ search) :: t.log }
  | .route path =>
      if p.mounted site then
        some { t with
          page := some { p with path := path, search := [] }
          log := .routed path :: t.log }
      else none
  | .login =>
      if gateView site p = .ended ∨ gateView site p = .signedOut then
        some ({ t with log := .clicked :: t.log }.login site p .click)
      else none
  | .logout =>
      if site.enabled ∧ p.mounted site then some (t.logout p) else none
  | .assigned =>
      if p.loggingOut then some { t with page := none, away := .logout }
      else none
  | .unauthorized =>
      if site.enabled ∧ p.reauthing = false then
        some (t.start { p with reauthing := true } ⟨.reauth, none⟩)
      else some t
  | .leave s =>
      if s ∈ p.outgoing then some (t.leave s) else none
  | .failed s message =>
      if s ∈ p.outgoing then some (t.failed site p s message) else none
  | .redeemed mount state =>
      if mount ∈ p.exchanges ∧ state ∈ t.saved then
        some (t.redeem p mount state)
      else none
  | .refused mount message =>
      if mount ∈ p.exchanges then
        let p' : Page := { p with exchanges := p.exchanges.erase mount }
        if recoverable message then some (t.restart p' mount message)
        else some { t with page := some (p'.setError mount message) }
      else none
  | .retry =>
      if ((p.callback.bind Callback.error).filter (· ≠ [])).isSome then
        some (t.retry p)
      else none
  | _ => none

def Tab.act (site : Site) (t : Tab) : Act → Option Tab
  | .tick now => some { t with now := now }
  | .opened path search => some (t.open site path search .opened)
  | .arrived search =>
      if t.page.isNone ∧ t.away = .signin then
        some (t.open site callbackRoute search .arrived)
      else none
  | .returned =>
      if t.page.isNone ∧ t.away = .logout then
        some (t.open site loggedOutRoute [] .arrived)
      else none
  | a => t.page.bind fun p => t.onPage site p a

def Tab.step (site : Site) (t : Tab) (a : Act) : Option Tab :=
  (t.act site a).map (Tab.render site)

end Tab

section History

def Event.page? : Event → Option Text
  | .opened page | .arrived page | .navigated page | .routed page
  | .redeemed page => some page
  | _ => none

/-- A new load of the page. -/
def Event.isLoad : Event → Bool
  | .opened _ | .arrived _ => true
  | _ => false

def Event.isShown : Event → Bool
  | .shown => true
  | _ => false

def Event.isGate : Event → Bool
  | .started s _ _ => s.cause = .gate
  | _ => false

/-- What the user does, or a sign-in that leaves the page. -/
def Event.ends : Event → Bool
  | .opened _ | .navigated _ | .clicked | .retried | .left => true
  | _ => false

/-- The pages the tab has been on. -/
def visited (log : List Event) : List Text :=
  log.filterMap Event.page?

/-- What has happened in the current load. -/
def thisLoad (log : List Event) : List Event :=
  log.takeWhile fun e => !e.isLoad

def Event.isLogout : Event → Bool
  | .loggedOut _ => true
  | _ => false

/-- Whether nothing has ended the last logout. -/
def afterLogout : List Event → Bool
  | [] => false
  | e :: older => e.isLogout || !e.ends && afterLogout older

/-- What an event leaves in `RETRY_KEY`, if it writes it. -/
def Event.retryAt? : Event → Option (Option Nat)
  | .started ⟨.restart _ _, _⟩ time _ => some (some time)
  | .redeemed _ | .retried => some none
  | _ => none

/-- What an event leaves in `RETURN_KEY`, if it writes it. -/
def Event.returnTo? : Event → Option (Option Text)
  | .loggedOut page => some (some page)
  | .started ⟨_, some _⟩ _ _ => some none
  | _ => none

/-- The time of the last restart, if there was no success and no click since. -/
def lastRestart : List Event → Option Nat
  | [] => none
  | e :: older => e.retryAt?.getD (lastRestart older)

/-- The page left at the last logout, if there was no sign-in with a page to come
back to since. -/
def leftPage : List Event → Option Text
  | [] => none
  | e :: older => e.returnTo?.getD (leftPage older)

/-- A page to come back to: the root or one of the pages, no auth route. -/
def Lands (pages : List Text) (target : Text) : Prop :=
  isAuthRoute target = false ∧ (target = root ∨ target ∈ pages)

/-- What may happen after what has happened. -/
def Event.Polite (older : List Event) : Event → Prop
  | .started s time page =>
      match s.cause with
      | .gate =>
          (∀ e ∈ thisLoad older, e.isShown = false ∧ e.isGate = false) ∧
            afterLogout older = false ∧
            s.state = some (returnPath page (leftPage older))
      | .click => s.state = some (returnPath page (leftPage older))
      | .restart _ _ =>
          ∀ last, lastRestart older = some last → last + retryWindowMs ≤ time
      | .reauth | .retry => True
  | .redeemed page => Lands (visited older) page
  | _ => True

def Polite : List Event → Prop
  | [] => True
  | e :: older => e.Polite older ∧ Polite older

end History

section Invariant

@[simp] theorem visited_cons (e : Event) (log : List Event) :
    visited (e :: log) = e.page?.toList ++ visited log := by
  unfold visited
  cases h : e.page? <;> simp [h]

theorem mem_visited_cons {e : Event} {log : List Event} {page : Text}
    (h : page ∈ visited log) : page ∈ visited (e :: log) := by
  rw [visited_cons]
  exact List.mem_append_right _ h

theorem Lands.cons {e : Event} {log : List Event} {target : Text}
    (h : Lands (visited log) target) : Lands (visited (e :: log)) target :=
  ⟨h.1, h.2.imp_right mem_visited_cons⟩

theorem lands_root (pages : List Text) : Lands pages root :=
  ⟨by decide, .inl rfl⟩

theorem thisLoad_cons {e : Event} {log : List Event} (h : e.isLoad = false) :
    thisLoad (e :: log) = e :: thisLoad log := by
  unfold thisLoad
  rw [List.takeWhile_cons, h]
  rfl

theorem thisLoad_load {e : Event} {log : List Event} (h : e.isLoad = true) :
    thisLoad (e :: log) = [] := by
  unfold thisLoad
  rw [List.takeWhile_cons, h]
  rfl

/-- The page a sign-in comes back to is one the tab has been on. -/
theorem lands_returnPath {pages : List Text} {page : Text}
    {stored : Option Text} (hpage : page ∈ pages)
    (hstored : ∀ left, stored = some left → left ∈ pages) :
    Lands pages (returnPath page stored) := by
  unfold returnPath
  split
  · rename_i h
    exact ⟨h.2, .inr hpage⟩
  · cases stored with
    | none => exact lands_root pages
    | some left =>
        dsimp only
        split
        · rename_i h
          exact ⟨h.2, .inr (hstored left rfl)⟩
        · exact lands_root pages

/-- What a page has of the history of its tab. -/
structure Page.Fits (log : List Event) (p : Page) : Prop where
  shown : ∀ e ∈ thisLoad log, e.isShown = true → p.appShown = true
  gate : ∀ e ∈ thisLoad log, e.isGate = true → p.redirected = true
  quiet : afterLogout log = true →
    p.appShown = true ∨ p.path = loggedOutRoute ∧ p.exchanges = []
  here : p.here ∈ visited log
  states : ∀ s ∈ p.outgoing, ∀ target, s.state = some target →
    Lands (visited log) target

/-- The storage keys are what the history says. -/
structure Tab.Inv (t : Tab) : Prop where
  retry : t.retryAt = lastRestart t.log
  left : t.returnTo = leftPage t.log
  leftPage : ∀ page, t.returnTo = some page → page ∈ visited t.log
  polite : Polite t.log
  page : ∀ p, t.page = some p → p.Fits t.log
  away : t.page = none → t.away = .signin → afterLogout t.log = false
  saved : ∀ target, some target ∈ t.saved → Lands (visited t.log) target

theorem Tab.inv_init : Tab.init.Inv where
  retry := rfl
  left := rfl
  leftPage := nofun
  polite := trivial
  page _ hsome := (Option.some_ne_none _ hsome.symm).elim
  away := fun _ => nofun
  saved := nofun

/-- A page that keeps its place and what it has shown. -/
theorem Page.Fits.keep {log : List Event} {p p' : Page} (h : p.Fits log)
    (hpath : p'.path = p.path) (hsearch : p'.search = p.search)
    (hshown : p.appShown = true → p'.appShown = true)
    (hredirected : p.redirected = true → p'.redirected = true)
    (hexchanges : p'.exchanges ⊆ p.exchanges)
    (houtgoing : p'.outgoing ⊆ p.outgoing) : p'.Fits log where
  shown e he hse := hshown (h.shown e he hse)
  gate e he hge := hredirected (h.gate e he hge)
  quiet hlog := by
    rcases h.quiet hlog with happ | ⟨hloggedOut, hnone⟩
    · exact .inl (hshown happ)
    · refine .inr ⟨hpath.trans hloggedOut, ?_⟩
      rw [hnone] at hexchanges
      exact List.subset_nil.1 hexchanges
  here := by
    unfold Page.here
    rw [hpath, hsearch]
    exact h.here
  states s hs := h.states s (houtgoing hs)

/-- What happens on a page. -/
theorem Page.Fits.push {log : List Event} {p : Page} (h : p.Fits log)
    {e : Event} (hload : e.isLoad = false)
    (hshown : e.isShown = true → p.appShown = true)
    (hgate : e.isGate = true → p.redirected = true)
    (hquiet : afterLogout (e :: log) = true →
      afterLogout log = true ∨ p.appShown = true) : p.Fits (e :: log) where
  shown e' he' hse' := by
    rw [thisLoad_cons hload] at he'
    rcases List.mem_cons.1 he' with rfl | he'
    · exact hshown hse'
    · exact h.shown e' he' hse'
  gate e' he' hge' := by
    rw [thisLoad_cons hload] at he'
    rcases List.mem_cons.1 he' with rfl | he'
    · exact hgate hge'
    · exact h.gate e' he' hge'
  quiet hlog := (hquiet hlog).elim h.quiet .inl
  here := mem_visited_cons h.here
  states s hs target ht := (h.states s hs target ht).cons

/-- The page moves on to another one. -/
theorem Page.Fits.move {log : List Event} {p p' : Page} (h : p.Fits log)
    {e : Event} (hload : e.isLoad = false) (hshown : e.isShown = false)
    (hgate : e.isGate = false) (hpage : e.page? = some p'.here)
    (happ : p'.appShown = p.appShown) (hred : p'.redirected = p.redirected)
    (hout : p'.outgoing = p.outgoing)
    (hquiet : afterLogout (e :: log) = true → p.appShown = true) :
    p'.Fits (e :: log) where
  shown e' he' hse' := by
    rw [thisLoad_cons hload] at he'
    rcases List.mem_cons.1 he' with rfl | he'
    · rw [hshown] at hse'
      cases hse'
    · exact happ ▸ h.shown e' he' hse'
  gate e' he' hge' := by
    rw [thisLoad_cons hload] at he'
    rcases List.mem_cons.1 he' with rfl | he'
    · rw [hgate] at hge'
      cases hge'
    · exact hred ▸ h.gate e' he' hge'
  quiet hlog := .inl (happ ▸ hquiet hlog)
  here := by simp [hpage]
  states s hs target ht := (h.states s (hout ▸ hs) target ht).cons

theorem Tab.Inv.setPage {t : Tab} (h : t.Inv) {p : Page} (hp : p.Fits t.log) :
    ({ t with page := some p } : Tab).Inv where
  retry := h.retry
  left := h.left
  leftPage := h.leftPage
  polite := h.polite
  page _ hp' := Option.some.inj hp' ▸ hp
  away := nofun
  saved := h.saved

/-- Something happens on the page that leaves the storage alone. -/
theorem Tab.Inv.push {t : Tab} (h : t.Inv) {p : Page} {e : Event}
    (hretry : lastRestart (e :: t.log) = lastRestart t.log)
    (hleft : Session.leftPage (e :: t.log) = Session.leftPage t.log)
    (hpolite : e.Polite t.log) (hp : p.Fits (e :: t.log)) :
    ({ t with page := some p, log := e :: t.log } : Tab).Inv where
  retry := h.retry.trans hretry.symm
  left := h.left.trans hleft.symm
  leftPage page hpage := mem_visited_cons (h.leftPage page hpage)
  polite := ⟨hpolite, h.polite⟩
  page _ hp' := Option.some.inj hp' ▸ hp
  away := nofun
  saved target ht := (h.saved target ht).cons

theorem Page.Fits.start {log : List Event} {p : Page} (h : p.Fits log)
    {s : Signin} {time : Nat} {page : Text}
    (hgate : s.cause = .gate → p.redirected = true)
    (hstate : ∀ target, s.state = some target → Lands (visited log) target) :
    ({ p with outgoing := s :: p.outgoing } : Page).Fits
      (.started s time page :: log) := by
  have hpush : p.Fits (.started s time page :: log) := by
    refine h.push rfl nofun ?_ .inl
    intro hcause
    exact hgate (of_decide_eq_true hcause)
  refine { hpush with states := ?_ }
  intro s' hs'
  rcases List.mem_cons.1 hs' with rfl | hs'
  · exact fun target ht => (hstate target ht).cons
  · exact hpush.states s' hs'

/-- A sign-in without a page to come back to. -/
theorem Tab.Inv.start {t : Tab} (h : t.Inv) {p : Page} (hp : p.Fits t.log)
    {cause : Cause} (hcause : cause = .reauth ∨ cause = .retry) :
    (t.start p ⟨cause, none⟩).Inv := by
  refine h.push ?_ rfl ?_ (hp.start ?_ nofun)
  · rcases hcause with rfl | rfl <;> rfl
  · rcases hcause with rfl | rfl <;> exact trivial
  · rcases hcause with rfl | rfl <;> exact nofun

theorem Tab.Inv.restart {t : Tab} (h : t.Inv) {p : Page} (hp : p.Fits t.log)
    (mount : Nat) (reason : Text) : (t.restart p mount reason).Inv := by
  unfold Tab.restart
  split
  · exact h.setPage (hp.keep rfl rfl id id (List.Subset.refl _)
      (List.Subset.refl _))
  · rename_i hlate
    exact
      { retry := rfl
        left := h.left
        leftPage := fun page hpage => mem_visited_cons (h.leftPage page hpage)
        polite := by
          refine ⟨fun last hlast => ?_, h.polite⟩
          rw [← h.retry] at hlast
          rw [hlast] at hlate
          exact Nat.le_of_not_lt hlate
        page := fun _ hp' => Option.some.inj hp' ▸ hp.start nofun nofun
        away := nofun
        saved := fun target ht => (h.saved target ht).cons }

/-- A sign-in of the gate or of a click. -/
theorem Tab.Inv.login {site : Site} {t : Tab} (h : t.Inv) {p : Page}
    (hp : p.Fits t.log) {cause : Cause}
    (hcause : cause = .click ∨ cause = .gate ∧ p.redirected = true ∧
      (∀ e ∈ thisLoad t.log, e.isShown = false ∧ e.isGate = false) ∧
      afterLogout t.log = false) : (t.login site p cause).Inv := by
  unfold Tab.login
  split
  · exact h.setPage hp
  have hlands : Lands (visited t.log) (returnPath p.here t.returnTo) :=
    lands_returnPath hp.here h.leftPage
  exact
    { retry := by
        rcases hcause with rfl | ⟨rfl, -⟩ <;> exact h.retry
      left := rfl
      leftPage := nofun
      polite := by
        refine ⟨?_, h.polite⟩
        rw [h.left]
        rcases hcause with rfl | ⟨rfl, -, hload, hquiet⟩
        · rfl
        · exact ⟨hload, hquiet, rfl⟩
      page := by
        intro _ hp'
        obtain rfl := Option.some.inj hp'
        refine hp.start ?_ fun target ht => Option.some.inj ht ▸ hlands
        rintro rfl
        rcases hcause with hclick | ⟨-, hredirected, -⟩
        · cases hclick
        · exact hredirected
      away := nofun
      saved := fun target ht => (h.saved target ht).cons }

theorem Page.fits_load {site : Site} {path search : Text} {e : Event}
    {log : List Event} (hload : e.isLoad = true)
    (hpage : e.page? = some (path ++ search))
    (hquiet : afterLogout (e :: log) = true → path = loggedOutRoute) :
    (Page.load site path search).Fits (e :: log) where
  shown := by
    rw [thisLoad_load hload]
    exact nofun
  gate := by
    rw [thisLoad_load hload]
    exact nofun
  quiet hlog := .inr ⟨hquiet hlog, rfl⟩
  here := by
    rw [visited_cons, hpage]
    exact List.mem_cons_self
  states := nofun

theorem Tab.Inv.load {site : Site} {t : Tab} (h : t.Inv) {path search : Text}
    {e : Text → Event}
    (he : e = .opened ∨ e = .arrived ∧
      (afterLogout t.log = true → path = loggedOutRoute)) :
    (t.open site path search e).Inv where
  retry := by
    rcases he with rfl | ⟨rfl, -⟩ <;> exact h.retry
  left := by
    rcases he with rfl | ⟨rfl, -⟩ <;> exact h.left
  leftPage page hpage := mem_visited_cons (h.leftPage page hpage)
  polite := by
    rcases he with rfl | ⟨rfl, -⟩ <;> exact ⟨trivial, h.polite⟩
  page _ hp := by
    obtain rfl := Option.some.inj hp
    rcases he with rfl | ⟨rfl, hquiet⟩
    · exact Page.fits_load rfl rfl nofun
    · exact Page.fits_load rfl rfl hquiet
  away := nofun
  saved target ht := (h.saved target ht).cons

theorem Page.Fits.setError {log : List Event} {p : Page} (h : p.Fits log)
    (mount : Nat) (error : Text) : (p.setError mount error).Fits log :=
  h.keep rfl rfl id id (List.Subset.refl _) (List.Subset.refl _)

theorem Tab.Inv.mount {site : Site} {t : Tab} (h : t.Inv) {p : Page}
    (hp : p.Fits t.log) (hview : gateView site p = .callback) :
    (t.mount site p).Inv := by
  have hmounted : ({ p with
      mounts := p.mounts + 1
      callback := some ⟨p.mounts, none⟩ } : Page).Fits t.log :=
    hp.keep rfl rfl id id (List.Subset.refl _) (List.Subset.refl _)
  unfold Tab.mount
  split
  · exact h.restart hmounted _ _
  · refine h.setPage { hmounted with quiet := fun hlog => .inl ?_ }
    obtain ⟨-, hpath⟩ := of_callback hview
    rcases hp.quiet hlog with happ | ⟨hloggedOut, -⟩
    · exact happ
    · exact absurd (hpath.symm.trans hloggedOut) (by decide)

/-- The effects of a render. -/
theorem Tab.Inv.render {site : Site} {t : Tab} (h : t.Inv) :
    (t.render site).Inv := by
  unfold Tab.render
  split
  · exact h
  rename_i p hpage
  have hp := h.page p hpage
  split
  · rename_i hview
    split
    · exact h
    · exact h.mount hp hview
  have hp' : ({ p with callback := none } : Page).Fits t.log :=
    hp.keep rfl rfl id id (List.Subset.refl _) (List.Subset.refl _)
  dsimp only
  split
  · have hshown : ({ p with callback := none, appShown := true } : Page).Fits
        t.log :=
      hp.keep rfl rfl (fun _ => rfl) id (List.Subset.refl _)
        (List.Subset.refl _)
    exact h.push rfl rfl trivial (hshown.push rfl (fun _ => rfl) nofun .inl)
  split
  · rename_i hview
    obtain ⟨happ, hpath⟩ := of_redirecting hview.1
    have hredirected : ({ p with callback := none, redirected := true } :
        Page).Fits t.log :=
      hp.keep rfl rfl id (fun _ => rfl) (List.Subset.refl _)
        (List.Subset.refl _)
    refine h.login hredirected
      (.inr ⟨rfl, rfl, fun e he => ⟨?_, ?_⟩, ?_⟩)
    · refine Bool.not_eq_true _ ▸ fun hshown => ?_
      exact Bool.false_ne_true (happ.symm.trans (hp.shown e he hshown))
    · refine Bool.not_eq_true _ ▸ fun hgate => ?_
      exact Bool.false_ne_true (hview.2.symm.trans (hp.gate e he hgate))
    · refine Bool.not_eq_true _ ▸ fun hlog => ?_
      rcases hp.quiet hlog with hshown | ⟨hloggedOut, -⟩
      · exact Bool.false_ne_true (happ.symm.trans hshown)
      · exact hpath hloggedOut
  · exact h.setPage hp'

theorem Tab.Inv.failed {site : Site} {t : Tab} (h : t.Inv) {p : Page}
    (hp : p.Fits t.log) (s : Signin) (message : Option Text) :
    (t.failed site p s message).Inv := by
  have hp' : ({ p with outgoing := p.outgoing.erase s } : Page).Fits t.log :=
    hp.keep rfl rfl id id (List.Subset.refl _) List.erase_subset
  unfold Tab.failed
  split
  · exact h.setPage hp'
  · exact h.setPage hp'
  · exact h.setPage (hp'.keep rfl rfl id id (List.Subset.refl _)
      (List.Subset.refl _))
  · exact h.setPage (hp'.setError _ _)
  · exact h.load (.inl rfl)

theorem Page.appShown_of_mounted {site : Site} {p : Page}
    (h : p.mounted site = true) : p.appShown = true :=
  (Bool.and_eq_true_iff.1 h).1

@[simp] theorem Page.here_goTo (p : Page) (target : Text) :
    (p.goTo target).here = target :=
  List.takeWhile_append_dropWhile

theorem Tab.Inv.logout {t : Tab} (h : t.Inv) {p : Page} (hp : p.Fits t.log)
    (happ : p.appShown = true) : (t.logout p).Inv := by
  have hp' : p.Fits (.loggedOut p.here :: t.log) :=
    hp.push rfl nofun nofun fun _ => .inr happ
  have hout : ({ p with loggingOut := true } : Page).Fits
      (.loggedOut p.here :: t.log) :=
    hp'.keep rfl rfl id id (List.Subset.refl _) (List.Subset.refl _)
  exact
    { retry := h.retry
      left := rfl
      leftPage := fun _ hleft => Option.some.inj hleft ▸ hp'.here
      polite := ⟨trivial, h.polite⟩
      page := fun _ hsome => Option.some.inj hsome ▸ hout
      away := nofun
      saved := fun target ht => (h.saved target ht).cons }

theorem Tab.Inv.leave {t : Tab} (h : t.Inv) {s : Signin}
    (hs : ∀ target, s.state = some target → Lands (visited t.log) target) :
    (t.leave s).Inv where
  retry := h.retry
  left := h.left
  leftPage page hleft := mem_visited_cons (h.leftPage page hleft)
  polite := ⟨trivial, h.polite⟩
  page _ hsome := (Option.some_ne_none _ hsome.symm).elim
  away _ _ := rfl
  saved target ht := by
    rcases List.mem_cons.1 ht with heq | ht
    · exact (hs target heq.symm).cons
    · exact (h.saved target ht).cons

theorem Tab.Inv.redeem {t : Tab} (h : t.Inv) {p : Page} (hp : p.Fits t.log)
    {mount : Nat} {state : Option Text} (hmount : mount ∈ p.exchanges)
    (hstate : state ∈ t.saved) : (t.redeem p mount state).Inv := by
  have hlands : Lands (visited t.log)
      ((state.filter (· ≠ [])).getD root) := by
    cases hfilter : state.filter (· ≠ []) with
    | none => exact lands_root _
    | some target =>
        rw [(Option.filter_eq_some_iff.1 hfilter).1] at hstate
        exact h.saved target hstate
  have happ : afterLogout t.log = true → p.appShown = true := fun hlog =>
    (hp.quiet hlog).resolve_right fun hquiet => by
      rw [hquiet.2] at hmount
      cases hmount
  exact
    { retry := rfl
      left := h.left
      leftPage := fun page hleft => mem_visited_cons (h.leftPage page hleft)
      polite := ⟨hlands, h.polite⟩
      page := fun _ hsome => Option.some.inj hsome ▸
        hp.move rfl rfl rfl (congrArg some (Page.here_goTo _ _).symm) rfl rfl
          rfl happ
      away := nofun
      saved := fun target ht => (h.saved target ht).cons }

theorem Tab.Inv.retried {t : Tab} (h : t.Inv) {p : Page}
    (hpage : t.page = some p) : (t.retry p).Inv := by
  have hp' : p.Fits (.retried :: t.log) :=
    (h.page p hpage).push rfl nofun nofun nofun
  have hretried : ({ t with
      retryAt := none, log := .retried :: t.log } : Tab).Inv :=
    { retry := rfl
      left := h.left
      leftPage := fun page hleft => mem_visited_cons (h.leftPage page hleft)
      polite := ⟨trivial, h.polite⟩
      page := fun _ hsome => Option.some.inj (hpage.symm.trans hsome) ▸ hp'
      away := fun hnone => nomatch hpage.symm.trans hnone
      saved := fun target ht => (h.saved target ht).cons }
  exact hretried.start hp' (.inr rfl)

theorem Tab.Inv.onPage {site : Site} {t t' : Tab} (h : t.Inv) {p : Page}
    {a : Act} (hpage : t.page = some p) (hact : t.onPage site p a = some t') :
    t'.Inv := by
  have hp := h.page p hpage
  -- what changes neither the place nor what has been shown
  have hkeep : ∀ p' : Page, p'.path = p.path → p'.search = p.search →
      p'.appShown = p.appShown → p'.redirected = p.redirected →
      p'.exchanges ⊆ p.exchanges → p'.outgoing ⊆ p.outgoing →
      p'.Fits t.log := fun p' hpath hsearch happ hred =>
    hp.keep hpath hsearch (fun h => happ.trans h) (fun h => hred.trans h)
  have hrefl : ∀ {α : Type} (l : List α), l ⊆ l := fun l => List.Subset.refl l
  cases a with
  | tick => cases hact
  | opened => cases hact
  | arrived => cases hact
  | returned => cases hact
  | stored expired =>
      simp only [Tab.onPage, Option.ite_none_right_eq_some,
        Option.some.injEq] at hact
      obtain ⟨-, rfl⟩ := hact
      exact h.setPage (hkeep _ rfl rfl rfl rfl (hrefl _) (hrefl _))
  | unread =>
      obtain rfl := Option.some.inj hact
      exact h.setPage (hkeep _ rfl rfl rfl rfl (hrefl _) (hrefl _))
  | userLoaded =>
      obtain rfl := Option.some.inj hact
      exact h.setPage (hkeep _ rfl rfl rfl rfl (hrefl _) (hrefl _))
  | userUnloaded =>
      obtain rfl := Option.some.inj hact
      exact h.setPage (hkeep _ rfl rfl rfl rfl (hrefl _) (hrefl _))
  | tokenExpired =>
      obtain rfl := Option.some.inj hact
      exact h.setPage (hkeep _ rfl rfl rfl rfl (hrefl _) (hrefl _))
  | backend =>
      obtain rfl := Option.some.inj hact
      exact h.setPage (hkeep _ rfl rfl rfl rfl (hrefl _) (hrefl _))
  | iam =>
      obtain rfl := Option.some.inj hact
      exact h.setPage (hkeep _ rfl rfl rfl rfl (hrefl _) (hrefl _))
  | navigate path search =>
      obtain rfl := Option.some.inj hact
      exact h.push rfl rfl trivial (hp.move rfl rfl rfl rfl rfl rfl rfl nofun)
  | route path =>
      simp only [Tab.onPage, Option.ite_none_right_eq_some,
        Option.some.injEq] at hact
      obtain ⟨hmounted, rfl⟩ := hact
      have happ := Page.appShown_of_mounted hmounted
      refine h.push rfl rfl trivial
        (hp.move rfl rfl rfl ?_ rfl rfl rfl fun _ => happ)
      simp [Event.page?, Page.here]
  | login =>
      simp only [Tab.onPage, Option.ite_none_right_eq_some,
        Option.some.injEq] at hact
      obtain ⟨-, rfl⟩ := hact
      have hp' : p.Fits (.clicked :: t.log) := hp.push rfl nofun nofun nofun
      have hclicked := h.push (e := .clicked) rfl rfl trivial hp'
      rw [← hpage] at hclicked
      exact hclicked.login hp' (.inl rfl)
  | logout =>
      simp only [Tab.onPage, Option.ite_none_right_eq_some,
        Option.some.injEq] at hact
      obtain ⟨⟨-, hmounted⟩, rfl⟩ := hact
      exact h.logout hp (Page.appShown_of_mounted hmounted)
  | assigned =>
      simp only [Tab.onPage, Option.ite_none_right_eq_some,
        Option.some.injEq] at hact
      obtain ⟨-, rfl⟩ := hact
      exact
        { h with
          page := fun _ hsome => (Option.some_ne_none _ hsome.symm).elim
          away := fun _ => nofun }
  | unauthorized =>
      simp only [Tab.onPage] at hact
      split at hact
      · obtain rfl := Option.some.inj hact
        have hp' : ({ p with reauthing := true } : Page).Fits t.log :=
          hkeep _ rfl rfl rfl rfl (hrefl _) (hrefl _)
        exact h.start hp' (.inl rfl)
      · exact Option.some.inj hact ▸ h
  | leave s =>
      simp only [Tab.onPage, Option.ite_none_right_eq_some,
        Option.some.injEq] at hact
      obtain ⟨hs, rfl⟩ := hact
      exact h.leave (hp.states s hs)
  | failed s message =>
      simp only [Tab.onPage, Option.ite_none_right_eq_some,
        Option.some.injEq] at hact
      obtain ⟨-, rfl⟩ := hact
      exact h.failed hp s message
  | redeemed mount state =>
      simp only [Tab.onPage, Option.ite_none_right_eq_some,
        Option.some.injEq] at hact
      obtain ⟨⟨hmount, hstate⟩, rfl⟩ := hact
      exact h.redeem hp hmount hstate
  | refused mount message =>
      simp only [Tab.onPage, Option.ite_none_right_eq_some] at hact
      obtain ⟨-, hact⟩ := hact
      have hp' : ({ p with exchanges := p.exchanges.erase mount } : Page).Fits
          t.log :=
        hkeep _ rfl rfl rfl rfl List.erase_subset (hrefl _)
      split at hact
      · obtain rfl := Option.some.inj hact
        exact h.restart hp' mount message
      · obtain rfl := Option.some.inj hact
        exact h.setPage (hp'.setError mount message)
  | retry =>
      simp only [Tab.onPage, Option.ite_none_right_eq_some,
        Option.some.injEq] at hact
      obtain ⟨-, rfl⟩ := hact
      exact h.retried hpage

theorem Tab.Inv.act {site : Site} {t t' : Tab} (h : t.Inv) {a : Act}
    (hact : t.act site a = some t') : t'.Inv := by
  have honPage : ∀ {a : Act}, t.page.bind (fun p => t.onPage site p a) =
      some t' → t'.Inv := fun hbind => by
    obtain ⟨p, hpage, honPage⟩ := Option.bind_eq_some_iff.1 hbind
    exact h.onPage hpage honPage
  cases a with
  | tick now =>
      obtain rfl := Option.some.inj hact
      exact { h with }
  | opened path search =>
      obtain rfl := Option.some.inj hact
      exact h.load (.inl rfl)
  | arrived search =>
      simp only [Tab.act, Option.ite_none_right_eq_some,
        Option.some.injEq] at hact
      obtain ⟨⟨hnone, haway⟩, rfl⟩ := hact
      have hquiet := h.away (Option.isNone_iff_eq_none.1 hnone) haway
      exact h.load (.inr ⟨rfl, fun hlog => by rw [hquiet] at hlog; cases hlog⟩)
  | returned =>
      simp only [Tab.act, Option.ite_none_right_eq_some,
        Option.some.injEq] at hact
      obtain ⟨-, rfl⟩ := hact
      exact h.load (.inr ⟨rfl, fun _ => rfl⟩)
  | _ => exact honPage hact

/-- The HTTPS address, with a callback that has no error. -/
def secureSite : Site where
  enabled := true
  insecureOrigin := false
  getParam := fun _ _ => none

def rootSignin : Signin :=
  ⟨.gate, some root⟩

/-- A first visit whose sign-in is refused, which is started again. -/
def firstVisit : List Act :=
  [.tick retryWindowMs, .opened root [], .stored none, .backend .up, .iam .up,
    .leave rootSignin, .arrived [], .refused 0 "invalid_grant".toList]

end Invariant

end Session
end Frontend
end Kelt
