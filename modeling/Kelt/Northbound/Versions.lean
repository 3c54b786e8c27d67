import Kelt.Lib.Dict
import Kelt.Lib.PyInt
import Kelt.Lib.Runs

/-!
# The versions of the companion services

The console compares the tag that a companion service runs with the latest of
its major version in the registry (`northbound_service.py`): `versions` reports
it and `update_all` picks it as the target of a service that is behind. The
registry's answers are cached for a while, by repository and not by major
version. So of two services of one repository the second may be given what the
first asked for; where that is no higher major than its own, no target crosses
it (`sound_iff`).

How the targets are rolled out is not part of the model.
-/

namespace Kelt
namespace Northbound
namespace Versions

section Images

def companionPrefix : Text :=
  "ghcr.io/jacobbista/5g-northbound/".toList

/-- `t.rsplit(c, 1)[-1]` -/
def afterLast (c : Char) (t : Text) : Text :=
  (t.reverse.takeWhile fun x => x != c).reverse

/-- `t.rsplit(c, 1)[0]` -/
def beforeLast (c : Char) (t : Text) : Text :=
  if c ∈ t then (t.reverse.dropWhile fun x => x != c).tail.reverse else t

/-- `t.split(s, 1)[-1]` -/
def afterText (s t : Text) : Text :=
  match t.tails.find? fun u => s.isPrefixOf u with
  | some u => u.drop s.length
  | none => t

def imageTag (image : Text) : Text :=
  let tail := afterLast '/' image
  if ':' ∈ tail then after ':' tail else []

def repoPath (image : Text) : Text :=
  before '@' (beforeLast ':' (afterText "ghcr.io/".toList image))

/-- Major, minor and patch of a tag, compared in this order. -/
structure SemVer where
  major : Int
  minor : Int
  patch : Int
  deriving DecidableEq

def SemVer.lt (a b : SemVer) : Bool :=
  decide (a.major < b.major) || (decide (a.major = b.major) &&
    (decide (a.minor < b.minor) || (decide (a.minor = b.minor) &&
      decide (a.patch < b.patch))))

def semverKey (tag : Text) : Option SemVer :=
  let parts := tag.splitOn '.'
  if parts.length < 2 then none
  else
    match (parts.take 3).mapM int10 with
    | some [a, b] => some ⟨a, b, 0⟩
    | some [a, b, c] => some ⟨a, b, c⟩
    | _ => none

/-- One turn of the search for the highest tag. -/
def better (major : Int) (best : Option (SemVer × Text)) (t : Text) :
    Option (SemVer × Text) :=
  match semverKey t with
  | some k =>
      if k.major = major ∧ best.all (fun b => b.1.lt k) = true then some (k, t)
      else best
  | none => best

/-- The highest tag of a major version in the registry's answer, which is
missing when the registry cannot be asked. -/
def latestInMajor (answer : Option (List Text)) (major : Int) : Option Text :=
  match answer with
  | some tags => (tags.foldl (better major) none).map Prod.snd
  | none => none

end Images

section Cache

variable {τ : Type} [Sub τ] [LT τ] [DecidableLT τ]

/-- A cached answer, with the major version it was asked for and the number of
the request. -/
structure Entry (τ : Type) where
  time : τ
  latest : Option Text
  major : Int
  life : Nat

/-- What `versions` reported and `update_all` picked, with the request that the
tag comes from. -/
inductive Event where
  | reported (image : Text) (latest : Option Text) (life : Nat)
  | picked (image target : Text) (life : Nat)
  deriving DecidableEq

structure State (τ : Type) where
  cache : List (Text × Entry τ)
  requests : Nat
  log : List Event

def State.init : State τ :=
  ⟨[], 0, []⟩

/-- A service that is looked at, the time, and what the registry would answer. -/
structure Visit (τ : Type) where
  image : Text
  now : τ
  answer : Option (List Text)

/-- The entry of the cache that answers, if there is one. -/
def State.hit? (ttl : τ) (s : State τ) (repo : Text) (now : τ) :
    Option (Entry τ) :=
  match Dict.getItem repo s.cache with
  | some e => if now - e.time < ttl then some e else none
  | none => none

/-- `_ghcr_latest_cached` -/
def State.latestCached (ttl : τ) (s : State τ) (repo : Text) (major : Int)
    (now : τ) (answer : Option (List Text)) : State τ × Entry τ :=
  match s.hit? ttl repo now with
  | some e => (s, e)
  | none =>
      let e : Entry τ := ⟨now, latestInMajor answer major, major, s.requests⟩
      ({ s with
        cache := Dict.setItem repo e s.cache
        requests := s.requests + 1 }, e)

/-- `_latest_for` -/
def State.latestFor (ttl : τ) (s : State τ) (v : Visit τ) :
    State τ × Entry τ :=
  let dk := semverKey (imageTag v.image)
  s.latestCached ttl (repoPath v.image) (dk.elim 0 SemVer.major) v.now v.answer

/-- The latest tag is a higher version than the one that runs. -/
def isBehind (image : Text) (latest : Option Text) : Bool :=
  match semverKey (imageTag image), latest.bind semverKey with
  | some dk, some lk => dk.lt lk
  | _, _ => false

inductive Caller where
  | versions
  | updateAll

/-- What a caller reports or picks upon an answer. -/
def Caller.event? (caller : Caller) (image : Text) (e : Entry τ) :
    Option Event :=
  match caller with
  | .versions => some (.reported image e.latest e.life)
  | .updateAll =>
      match e.latest with
      | some target =>
          if isBehind image e.latest then some (.picked image target e.life)
          else none
      | none => none

/-- One service in the loop of a caller. -/
def State.visit (ttl : τ) (s : State τ) (a : Caller × Visit τ) : State τ :=
  if companionPrefix.isPrefixOf a.2.image then
    let (s', e) := s.latestFor ttl a.2
    { s' with log := (a.1.event? a.2.image e).toList ++ s'.log }
  else s

/-- The calls of a run with the services each of them looks at. -/
def run (ttl : τ) (calls : List (Caller × List (Visit τ))) : State τ :=
  calls.foldl (fun s call =>
    call.2.foldl (fun s v => s.visit ttl (call.1, v)) s) .init

/-- The services that are looked at, one after the other. -/
def visits (calls : List (Caller × List (Visit τ))) : List (Caller × Visit τ) :=
  calls.flatMap fun call => call.2.map fun v => (call.1, v)

end Cache

section Claims

variable {τ : Type} [Sub τ] [LT τ] [DecidableLT τ]

/-- A target is a higher version of the major that runs. -/
def TargetOk (image target : Text) : Prop :=
  ∃ dk lk, semverKey (imageTag image) = some dk ∧ semverKey target = some lk ∧
    lk.major = dk.major ∧ dk.lt lk = true

structure State.Sound (s : State τ) : Prop where
  targets : ∀ image target life, Event.picked image target life ∈ s.log →
    TargetOk image target
  reports : ∀ image target life image' latest,
    Event.picked image target life ∈ s.log →
      Event.reported image' latest life ∈ s.log →
        repoPath image' = repoPath image → latest = some target

/-- A cached tag that `update_all` is given for a service was not asked for a
higher major version than the service runs. -/
def State.Fits (ttl : τ) (s : State τ) (a : Caller × Visit τ) : Prop :=
  match a.1 with
  | .versions => True
  | .updateAll =>
      companionPrefix.isPrefixOf a.2.image = true → ∀ e dk,
        s.hit? ttl (repoPath a.2.image) a.2.now = some e →
          e.latest.isSome = true →
            semverKey (imageTag a.2.image) = some dk → e.major ≤ dk.major

end Claims

section Answers

theorem better_major {major : Int} {best : Option (SemVer × Text)}
    (hbest : ∀ k t, best = some (k, t) → semverKey t = some k ∧ k.major = major)
    (tag : Text) :
    ∀ k t, better major best tag = some (k, t) →
      semverKey t = some k ∧ k.major = major := by
  intro k t h
  unfold better at h
  split at h
  · rename_i key hkey
    split at h
    · rename_i hbetter
      cases h
      exact ⟨hkey, hbetter.1⟩
    · exact hbest k t h
  · exact hbest k t h

/-- A tag that is found is a version of the major that is asked for. -/
theorem major_of_latestInMajor {answer : Option (List Text)} {major : Int}
    {tag : Text} (h : latestInMajor answer major = some tag) :
    ∃ k, semverKey tag = some k ∧ k.major = major := by
  unfold latestInMajor at h
  split at h
  · rename_i tags
    obtain ⟨⟨k, t⟩, hfold, rfl⟩ := Option.map_eq_some_iff.1 h
    have hall : ∀ (tags : List Text) (best : Option (SemVer × Text)),
        (∀ k t, best = some (k, t) → semverKey t = some k ∧ k.major = major) →
          ∀ k t, tags.foldl (better major) best = some (k, t) →
            semverKey t = some k ∧ k.major = major := by
      intro tags
      induction tags with
      | nil => exact fun best hbest => hbest
      | cons tag rest ih =>
          intro best hbest
          exact ih _ (better_major hbest tag)
    exact ⟨k, hall tags none (fun _ _ hnone => nomatch hnone) k t hfold⟩
  · cases h

variable {τ : Type}

def Event.life : Event → Nat
  | .reported _ _ life => life
  | .picked _ _ life => life

def Event.latest : Event → Option Text
  | .reported _ latest _ => latest
  | .picked _ target _ => some target

/-- A request whose answer is in the cache or in the log. -/
inductive State.Answered (s : State τ) : Nat → Option Text → Prop
  | cached {repo : Text} {e : Entry τ}
      (h : Dict.getItem repo s.cache = some e) : s.Answered e.life e.latest
  | logged {event : Event} (h : event ∈ s.log) :
      s.Answered event.life event.latest

structure State.Inv (s : State τ) : Prop where
  major : ∀ repo e tag, Dict.getItem repo s.cache = some e →
    e.latest = some tag → ∃ k, semverKey tag = some k ∧ k.major = e.major
  once : ∀ life latest latest', s.Answered life latest →
    s.Answered life latest' → latest = latest'
  past : ∀ life latest, s.Answered life latest → life < s.requests

theorem inv_init : (State.init : State τ).Inv where
  major := fun _ _ _ he => nomatch he
  once := by
    intro life latest latest' h
    cases h with
    | cached he => cases he
    | logged he => cases he
  past := by
    intro life latest h
    cases h with
    | cached he => cases he
    | logged he => cases he

/-- The tag that a report and a pick of one request are about is the same. -/
theorem State.Inv.reports {s : State τ} (hs : s.Inv) {image target image' : Text}
    {latest : Option Text} {life : Nat} (hpick : .picked image target life ∈ s.log)
    (hreport : .reported image' latest life ∈ s.log) : latest = some target :=
  hs.once life latest (some target) (.logged hreport) (.logged hpick)

/-- A request has a number of its own. -/
theorem State.Inv.setItem {s : State τ} (hs : s.Inv) {repo : Text} {e : Entry τ}
    (hmajor : ∀ tag, e.latest = some tag →
      ∃ k, semverKey tag = some k ∧ k.major = e.major)
    (hlife : e.life = s.requests) :
    ({ s with
      cache := Dict.setItem repo e s.cache
      requests := s.requests + 1 } : State τ).Inv := by
  -- the answers are those from before, and the one of the new request
  have hold : ∀ life latest, ({ s with
      cache := Dict.setItem repo e s.cache
      requests := s.requests + 1 } : State τ).Answered life latest →
        (life = s.requests ∧ latest = e.latest) ∨ s.Answered life latest := by
    intro life latest h
    cases h with
    | @cached repo' e' he' =>
        rw [Dict.getItem_setItem] at he'
        split at he'
        · cases he'
          exact Or.inl ⟨hlife, rfl⟩
        · exact Or.inr (.cached he')
    | logged he' => exact Or.inr (.logged he')
  refine ⟨?_, ?_, ?_⟩
  · intro repo' e' tag he' htag
    rw [Dict.getItem_setItem] at he'
    split at he'
    · cases he'
      exact hmajor tag htag
    · exact hs.major repo' e' tag he' htag
  · intro life latest latest' h h'
    rcases hold life latest h with ⟨hnew, rfl⟩ | h
    · rcases hold life latest' h' with ⟨-, rfl⟩ | h'
      · rfl
      · exact absurd (hs.past life latest' h') (by omega)
    · rcases hold life latest' h' with ⟨hnew, -⟩ | h'
      · exact absurd (hs.past life latest h) (by omega)
      · exact hs.once life latest latest' h h'
  · intro life latest h
    rcases hold life latest h with ⟨hnew, -⟩ | h
    · exact hnew ▸ Nat.lt_succ_self _
    · exact Nat.lt_succ_of_lt (hs.past life latest h)

/-- What is written of an answer in the cache says nothing new. -/
theorem State.Inv.log {s : State τ} (hs : s.Inv) {repo : Text} {e : Entry τ}
    (he : Dict.getItem repo s.cache = some e) {events : List Event}
    (hevents : ∀ event ∈ events, event.life = e.life ∧ event.latest = e.latest) :
    ({ s with log := events ++ s.log } : State τ).Inv := by
  have hold : ∀ life latest,
      ({ s with log := events ++ s.log } : State τ).Answered life latest →
        s.Answered life latest := by
    intro life latest h
    cases h with
    | cached he' => exact .cached he'
    | @logged event hevent =>
        rcases List.mem_append.1 hevent with hnew | hlog
        · obtain ⟨hlife, hlatest⟩ := hevents event hnew
          rw [hlife, hlatest]
          exact .cached he
        · exact .logged hlog
  exact ⟨hs.major,
    fun life l l' h h' => hs.once life l l' (hold life l h) (hold life l' h'),
    fun life l h => hs.past life l (hold life l h)⟩

theorem event_cases {caller : Caller} {image : Text} {e : Entry τ}
    {event : Event} (h : event ∈ (caller.event? image e).toList) :
    event.life = e.life ∧ event.latest = e.latest := by
  rw [Option.mem_toList] at h
  cases caller with
  | versions =>
      cases h
      exact ⟨rfl, rfl⟩
  | updateAll =>
      unfold Caller.event? at h
      cases hlatest : e.latest with
      | none => simp [hlatest] at h
      | some target =>
          rw [hlatest] at h
          simp only at h
          split at h
          · cases h
            exact ⟨rfl, rfl⟩
          · cases h

/-- What is picked upon an answer for a major version is a higher version of the
service's own where that is no lower. -/
theorem targetOk_iff {image target : Text} {e : Entry τ}
    (hlatest : e.latest = some target)
    (hmajor : ∃ k, semverKey target = some k ∧ k.major = e.major) :
    (isBehind image e.latest = true → TargetOk image target) ↔
      ∀ dk, semverKey (imageTag image) = some dk → e.major ≤ dk.major := by
  obtain ⟨lk, hlk, hlkMajor⟩ := hmajor
  unfold isBehind TargetOk
  rw [hlatest, Option.bind_some, hlk]
  cases hdk : semverKey (imageTag image) with
  | none => simp
  | some dk =>
      simp only [Option.some.injEq, forall_eq', exists_and_left, exists_eq_left']
      constructor
      · intro h
        by_contra hlt
        have hbehind : dk.lt lk = true := by
          unfold SemVer.lt
          simp only [Bool.or_eq_true, decide_eq_true_eq]
          exact Or.inl (by omega)
        exact absurd (h hbehind).1 (by omega)
      · intro hle hbehind
        refine ⟨?_, hbehind⟩
        have hge : dk.major ≤ lk.major := by
          unfold SemVer.lt at hbehind
          simp only [Bool.or_eq_true, Bool.and_eq_true,
            decide_eq_true_eq] at hbehind
          rcases hbehind with hlt | ⟨heq, -⟩ <;> omega
        omega

/-- What `update_all` picks upon an answer stays within the major version where
that is the one asked for or a higher one. -/
theorem event_targetOk_iff {image : Text} {e : Entry τ}
    (hmajor : ∀ tag, e.latest = some tag →
      ∃ k, semverKey tag = some k ∧ k.major = e.major) :
    (∀ image' target life,
      Event.picked image' target life ∈
          (Caller.updateAll.event? image e).toList → TargetOk image' target) ↔
      (e.latest.isSome = true → ∀ dk,
        semverKey (imageTag image) = some dk → e.major ≤ dk.major) := by
  cases hlatest : e.latest with
  | none => simp [Caller.event?, hlatest]
  | some target =>
      rw [Option.isSome_some, forall_prop_of_true rfl,
        ← targetOk_iff hlatest (hmajor target hlatest)]
      constructor
      · intro h hbehind
        refine h image target e.life ?_
        simp [Caller.event?, hlatest, hlatest ▸ hbehind]
      · intro h image' target' life hpick
        simp only [Caller.event?, hlatest, Option.mem_toList] at hpick
        split at hpick
        · rename_i hbehind
          cases hpick
          exact h (hlatest ▸ hbehind)
        · cases hpick

end Answers

section Visits

variable {τ : Type} [Sub τ] [LT τ] [DecidableLT τ]
variable {ttl : τ} {s : State τ}

/-- An answer comes from the cache, or it was asked for now and is a version of
the major asked for. -/
theorem latestCached_cases (ttl : τ) (s : State τ) (repo : Text) (major : Int) (now : τ)
    (answer : Option (List Text)) :
    (∃ e, s.hit? ttl repo now = some e ∧
      s.latestCached ttl repo major now answer = (s, e)) ∨
    (∃ e : Entry τ, s.hit? ttl repo now = none ∧ e.major = major ∧
      e.life = s.requests ∧ e.latest = latestInMajor answer major ∧
      s.latestCached ttl repo major now answer =
        ({ s with
          cache := Dict.setItem repo e s.cache
          requests := s.requests + 1 }, e)) := by
  unfold State.latestCached
  cases hhit : s.hit? ttl repo now with
  | some e => exact Or.inl ⟨e, rfl, rfl⟩
  | none => exact Or.inr ⟨_, rfl, rfl, rfl, rfl, rfl⟩

theorem getItem_of_hit {repo : Text} {now : τ} {e : Entry τ}
    (h : s.hit? ttl repo now = some e) : Dict.getItem repo s.cache = some e := by
  unfold State.hit? at h
  split at h
  · rename_i e' he'
    split at h
    · exact h ▸ he'
    · cases h
  · cases h

/-- A service is left out, or answered by an entry of the cache, which is one
that was there or was asked for the major version of the service. -/
theorem visit_cases (ttl : τ) (hs : s.Inv) (a : Caller × Visit τ) :
    (¬ companionPrefix.isPrefixOf a.2.image = true ∧ s.visit ttl a = s) ∨
    (companionPrefix.isPrefixOf a.2.image = true ∧ ∃ (s' : State τ) (e : Entry τ),
      s'.Inv ∧ Dict.getItem (repoPath a.2.image) s'.cache = some e ∧
      s'.log = s.log ∧
      (s.hit? ttl (repoPath a.2.image) a.2.now = some e ∨
        s.hit? ttl (repoPath a.2.image) a.2.now = none ∧
          e.major = (semverKey (imageTag a.2.image)).elim 0 SemVer.major) ∧
      s.visit ttl a =
        { s' with log := (a.1.event? a.2.image e).toList ++ s'.log }) := by
  unfold State.visit
  by_cases hown : companionPrefix.isPrefixOf a.2.image = true
  · refine Or.inr ⟨hown, ?_⟩
    rw [if_pos hown]
    unfold State.latestFor
    rcases latestCached_cases ttl s (repoPath a.2.image)
        ((semverKey (imageTag a.2.image)).elim 0 SemVer.major) a.2.now
        a.2.answer with ⟨e, hhit, heq⟩ | ⟨e, hhit, hmajor, hlife, hlatest, heq⟩
    · rw [heq]
      exact ⟨s, e, hs, getItem_of_hit hhit, rfl, Or.inl hhit, rfl⟩
    · rw [heq]
      refine ⟨_, e, hs.setItem ?_ hlife, ?_, rfl, Or.inr ⟨hhit, hmajor⟩, rfl⟩
      · intro tag htag
        rw [hmajor]
        exact major_of_latestInMajor (hlatest ▸ htag)
      · rw [Dict.getItem_setItem, if_pos rfl]
  · exact Or.inl ⟨hown, if_neg hown⟩

theorem State.Inv.visit (hs : s.Inv) (a : Caller × Visit τ) :
    (s.visit ttl a).Inv := by
  rcases visit_cases ttl hs a with ⟨-, heq⟩ | ⟨-, s', e, hs', he, -, -, heq⟩
  · rw [heq]
    exact hs
  · rw [heq]
    exact hs'.log he fun event hevent => event_cases hevent

/-- All picks of the log stay within their major version. -/
def State.TargetsOk (s : State τ) : Prop :=
  ∀ image target life, Event.picked image target life ∈ s.log →
    TargetOk image target

/-- A step keeps to the major versions exactly when the cached tag, if there is
one, fits the service. -/
theorem targetsOk_visit_iff (hs : s.Inv) (a : Caller × Visit τ) :
    (s.visit ttl a).TargetsOk ↔ s.TargetsOk ∧ s.Fits ttl a := by
  rcases visit_cases ttl hs a with
    ⟨hown, heq⟩ | ⟨hown, s', e, hs', he, hlog, hhit, heq⟩
  · have hfits : s.Fits ttl a := by
      unfold State.Fits
      cases a.1 with
      | versions => exact trivial
      | updateAll => exact fun hyes => absurd hyes hown
    rw [heq, and_iff_left hfits]
  · have hsplit : (s.visit ttl a).TargetsOk ↔ s.TargetsOk ∧
        ∀ image target life, Event.picked image target life ∈
          (a.1.event? a.2.image e).toList → TargetOk image target := by
      rw [heq]
      unfold State.TargetsOk
      simp only [hlog, List.mem_append, or_imp, forall_and]
      exact and_comm
    rw [hsplit]
    refine and_congr_right fun _ => ?_
    unfold State.Fits
    cases a.1 with
    | versions => simp [Caller.event?]
    | updateAll =>
        rw [event_targetOk_iff fun tag => hs'.major _ e tag he]
        rcases hhit with hhit | ⟨hnone, hmajor⟩
        · constructor
          · intro h _ e' dk he' hsome hdk
            rw [hhit] at he'
            cases he'
            exact h hsome dk hdk
          · exact fun h hsome dk hdk => h hown e dk hhit hsome hdk
        · constructor
          · intro _ _ e' _ he'
            rw [hnone] at he'
            cases he'
          · intro _ _ dk hdk
            rw [hmajor, hdk]
            exact le_rfl

theorem targetsOk_visits_iff (ttl : τ) (hs : s.Inv) (acts : List (Caller × Visit τ)) :
    (acts.foldl (fun s a => s.visit ttl a) s).TargetsOk ↔ s.TargetsOk ∧
      EachStep (fun s a => some (s.visit ttl a)) (fun s a _ => s.Fits ttl a) s
        acts := by
  induction acts generalizing s with
  | nil => simp [EachStep]
  | cons a rest ih =>
      rw [List.foldl_cons, ih (hs.visit a), targetsOk_visit_iff hs a, and_assoc]
      simp only [EachStep, Option.some.injEq, forall_eq']

theorem inv_visits (hs : s.Inv) (acts : List (Caller × Visit τ)) :
    (acts.foldl (fun s a => s.visit ttl a) s).Inv := by
  induction acts generalizing s with
  | nil => exact hs
  | cons a rest ih => exact ih (hs.visit a)

theorem run_eq (ttl : τ) (calls : List (Caller × List (Visit τ))) :
    run ttl calls =
      (visits calls).foldl (fun s a => s.visit ttl a) State.init := by
  unfold run visits
  generalize (State.init : State τ) = s
  induction calls generalizing s with
  | nil => rfl
  | cons call rest ih =>
      rw [List.foldl_cons, ih, List.flatMap_cons, List.foldl_append,
        List.foldl_map]

/-- In a run over any services, answers and calls, every target is a higher
version of the major that its service runs, and the one that `versions` reports
upon the same request, exactly when no cached tag that `update_all` is given was
asked for a higher major version. -/
theorem sound_iff (ttl : τ) (calls : List (Caller × List (Visit τ))) :
    (run ttl calls).Sound ↔
      EachStep (fun s a => some (s.visit ttl a)) (fun s a _ => s.Fits ttl a)
        State.init (visits calls) := by
  rw [run_eq]
  have htargets := targetsOk_visits_iff ttl inv_init (visits calls)
  have hinit : (State.init : State τ).TargetsOk :=
    fun _ _ _ hpick => nomatch hpick
  rw [and_iff_right hinit] at htargets
  rw [← htargets]
  refine ⟨fun h => h.targets, fun h => ⟨h, ?_⟩⟩
  intro image target life image' latest hpick hreport _
  exact (inv_visits inv_init (visits calls)).reports hpick hreport

/-- Two services of one repository, the second on an older major version, are
looked at by one `update_all`. -/
theorem not_sound_sharedRepo :
    ¬ (run (300 : Int) [(.updateAll,
      [⟨"ghcr.io/jacobbista/5g-northbound/rest:1.0.0".toList, 0,
          some ["1.1.0".toList]⟩,
        ⟨"ghcr.io/jacobbista/5g-northbound/rest:0.8.2".toList, 1,
          some ["1.1.0".toList]⟩])]).Sound := by
  intro h
  obtain ⟨dk, lk, hdk, hlk, hmajor, -⟩ := h.targets
    "ghcr.io/jacobbista/5g-northbound/rest:0.8.2".toList "1.1.0".toList 0 (by decide)
  have hdk' : dk = ⟨0, 8, 2⟩ := Option.some.inj (hdk.symm.trans (by decide))
  have hlk' : lk = ⟨1, 1, 0⟩ := Option.some.inj (hlk.symm.trans (by decide))
  rw [hdk', hlk'] at hmajor
  exact absurd hmajor (by decide)

end Visits

end Versions
end Northbound
end Kelt
