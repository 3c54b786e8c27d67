import Kelt.Lib.Json
import Kelt.Lib.Runs
import Mathlib.Data.List.Infix
import Mathlib.Data.Rat.Defs

/-!
# The cache of Keycloak's signing keys

`_JwksCache` of `app/auth.py`. A thread that misses its key reads the clock,
takes the lock and, when the last attempt is past the cooldown, fetches the
keys and the configuration of the realm. The cache notes the time of an attempt
when Keycloak failed and when both documents were read. Any other exception
leaves the attempt on the way: the lock is released and the time of the attempt
is not noted.

`Sys` are the threads with the cache; `starts` are the times at which an attempt
has started, the last one first, and `attempts` what each that has ended found
and left behind. Times are in microseconds.
-/

namespace Kelt
namespace Auth

section Jwks

/-- A value as `json` reads it. -/
abbrev Value := Json Rat

/-- A key of a dictionary. `True` and `False` are the keys 1 and 0. -/
inductive Key where
  | none
  | num (n : Rat)
  | str (t : Text)
deriving DecidableEq

/-- A built-in exception that the code can meet. -/
inductive Fault where
  | attributeError
  | typeError
  | valueError
deriving DecidableEq, Repr

/-- `hash(v)`: lists and dictionaries have none. -/
def hash : Value → Except Fault Key
  | .null => .ok .none
  | .bool b => .ok (.num (if b then 1 else 0))
  | .num n => .ok (.num n)
  | .str t => .ok (.str t)
  | .arr _ => .error .typeError
  | .obj _ => .error .typeError

/-- What Keycloak answers a request with: an error of the HTTP client, a body
that is no JSON, or a document. -/
inductive Reply where
  | httpError
  | text
  | json (v : Value)

abbrev Keys := Dict Key Value

def kid : Text :=
  "kid".toList

/-- `v == "kid"`. -/
def isKid : Value → Bool
  | .str t => decide (t = kid)
  | _ => false

/-- One round of the comprehension over the keys: `"kid" in k`, `k["kid"]`. -/
def addKey (keys : Keys) (k : Value) : Except Fault Keys :=
  match k with
  | .obj fields =>
      match Dict.getItem kid fields with
      | none => .ok keys
      | some v => (hash v).map (fun name => keys.set name k)
  | .arr items => if items.any isKid then .error .typeError else .ok keys
  | .str t => if kid <:+: t then .error .typeError else .ok keys
  | _ => .error .typeError

def addKeys (keys : Keys) : List Value → Except Fault Keys
  | [] => .ok keys
  | k :: rest => addKey keys k >>= fun keys => addKeys keys rest

/-- The values that a `for` loop goes through. -/
def iterate : Value → Except Fault (List Value)
  | .arr items => .ok items
  | .str t => .ok (t.map (fun c => .str [c]))
  | .obj fields => .ok (fields.map (fun kv => .str kv.1))
  | _ => .error .typeError

/-- `{k["kid"]: k for k in certs.get("keys", []) if "kid" in k}`. -/
def keysOf : Value → Except Fault Keys
  | .obj fields =>
      iterate ((Dict.getItem "keys".toList fields).getD (.arr [])) >>=
        addKeys Dict.empty
  | _ => .error .attributeError

/-- `config.get("issuer")`; `None` is `null`. -/
def issuerOf : Value → Except Fault Value
  | .obj fields => .ok ((Dict.getItem "issuer".toList fields).getD .null)
  | _ => .error .attributeError

structure Cache where
  keys : Keys
  issuer : Value
  lastRefresh : Int

def Cache.init : Cache :=
  ⟨Dict.empty, .null, 0⟩

/-- `_refresh_cooldown` -/
def cooldown : Int :=
  30 * 1000000

/-- What an attempt must not mix. -/
def Cache.pair (c : Cache) : Keys × Value :=
  (c.keys, c.issuer)

/-- Where a call of `get_key` stands. -/
inductive Call where
  | idle
  | missed (k : Key)
  | waiting (k : Key) (now : Int)
  | locked (k : Key) (now : Int)
  | fetching (k : Key)
  | fetched (k : Key) (certs : Value)
  | replied (k : Key) (certs config : Value)
  | keyed (k : Key) (certs config : Value)
  | noting (k : Key) (documents : Option (Value × Value))
  | noted (k : Key) (documents : Option (Value × Value))
  | leaving (k : Key)
  | returned (key : Option Value)
  | raised (f : Fault)

/-- The call has the lock. -/
def Call.holds : Call → Bool
  | .idle => false
  | .missed _ => false
  | .waiting _ _ => false
  | .leaving _ => false
  | .returned _ => false
  | .raised _ => false
  | _ => true

/-- An attempt that has ended: the documents it read, when it read both, and
the cache before and after it. -/
structure Attempt where
  documents : Option (Value × Value)
  before : Keys × Value
  after : Keys × Value

structure Sys where
  clock : Int
  cache : Cache
  holder : Option Nat
  calls : Nat → Call
  before : Keys × Value
  starts : List Int
  attempts : List Attempt

inductive Act where
  | tick (d : Nat)
  | call (i : Nat) (k : Key)
  | go (i : Nat)
  | reply (i : Nat) (r : Reply)

def Sys.put (s : Sys) (i : Nat) (c : Call) : Sys :=
  { s with calls := Function.update s.calls i c }

/-- The attempt of the call that has the lock is over. -/
def Sys.over (s : Sys) (documents : Option (Value × Value)) : Sys :=
  { s with
    holder := none
    attempts := ⟨documents, s.before, s.cache.pair⟩ :: s.attempts }

/-- The next step of a call that waits for no reply. -/
def Sys.go (s : Sys) (i : Nat) : Option Sys :=
  match s.calls i with
  | .missed k => some (s.put i (.waiting k s.clock))
  | .waiting k now =>
      match s.holder with
      | none => some ({ s with holder := some i }.put i (.locked k now))
      | some _ => none
  | .locked k now =>
      if now - s.cache.lastRefresh < cooldown then
        some ({ s with holder := none }.put i
          (.returned (s.cache.keys.get? k)))
      else
        some ({ s with
          before := s.cache.pair
          starts := s.clock :: s.starts }.put i (.fetching k))
  | .replied k certs config =>
      match keysOf certs with
      | .error f => some ((s.over (some (certs, config))).put i (.raised f))
      | .ok keys =>
          some ({ s with cache := { s.cache with keys := keys } }.put i
            (.keyed k certs config))
  | .keyed k certs config =>
      match issuerOf config with
      | .error f => some ((s.over (some (certs, config))).put i (.raised f))
      | .ok issuer =>
          some ({ s with cache := { s.cache with issuer := issuer } }.put i
            (.noting k (some (certs, config))))
  | .noting k documents =>
      some ({ s with cache := { s.cache with lastRefresh := s.clock } }.put i
        (.noted k documents))
  | .noted k documents => some ((s.over documents).put i (.leaving k))
  | .leaving k => some (s.put i (.returned (s.cache.keys.get? k)))
  | _ => none

/-- A step: the clock goes on, a call begins, takes its next step, or gets the
reply to the request it has sent. -/
def Sys.step (s : Sys) : Act → Option Sys
  | .tick d => some { s with clock := s.clock + d }
  | .call i k =>
      match s.calls i with
      | .idle =>
          match s.cache.keys.get? k with
          | some key => some (s.put i (.returned (some key)))
          | none => some (s.put i (.missed k))
      | _ => none
  | .go i => s.go i
  | .reply i r =>
      match s.calls i with
      | .fetching k =>
          match r with
          | .httpError => some (s.put i (.noting k none))
          | .text => some ((s.over none).put i (.raised .valueError))
          | .json certs => some (s.put i (.fetched k certs))
      | .fetched k certs =>
          match r with
          | .httpError => some (s.put i (.noting k none))
          | .text => some ((s.over none).put i (.raised .valueError))
          | .json config => some (s.put i (.replied k certs config))
      | _ => none

def Sys.init (clock : Int) : Sys where
  clock := clock
  cache := .init
  holder := none
  calls := fun _ => .idle
  before := Cache.init.pair
  starts := []
  attempts := []

/-- The cache after the attempt is the one before it, or both parts are from
its documents. -/
def Attempt.AllOrNothing (a : Attempt) : Prop :=
  a.after = a.before ∨
    ∃ certs config keys issuer, a.documents = some (certs, config) ∧
      keysOf certs = .ok keys ∧ issuerOf config = .ok issuer ∧
        a.after = (keys, issuer)

/-- Two attempts start a cooldown apart, and each is all or nothing. -/
structure Sys.Bounded (s : Sys) : Prop where
  apart : s.starts.Pairwise (fun later earlier => earlier + cooldown ≤ later)
  whole : ∀ a ∈ s.attempts, a.AllOrNothing

/-- Keycloak answers no request with a body that is not JSON, and when both
documents are there they have the shape the cache reads. -/
def Sys.Readable (s : Sys) : Act → Prop
  | .reply i r =>
      match r with
      | .httpError => True
      | .text => False
      | .json v =>
          match s.calls i with
          | .fetched _ certs =>
              (∃ keys, keysOf certs = .ok keys) ∧ ∃ issuer, issuerOf v = .ok issuer
          | _ => True
  | _ => True

/-- The call has started an attempt whose time is not noted. -/
def Call.attempting : Call → Bool
  | .fetching _ => true
  | .fetched _ _ => true
  | .replied _ _ _ => true
  | .keyed _ _ _ => true
  | .noting _ _ => true
  | _ => false

/-- The call has read the clock at this time. -/
def Call.asked : Call → Option Int
  | .waiting _ now => some now
  | .locked _ now => some now
  | _ => none

/-- What the attempt of a call has done to the cache. -/
def Progress (s : Sys) : Call → Prop
  | .fetching _ => s.cache.pair = s.before
  | .fetched _ _ => s.cache.pair = s.before
  | .replied _ certs config =>
      s.cache.pair = s.before ∧ (∃ keys, keysOf certs = .ok keys) ∧
        ∃ issuer, issuerOf config = .ok issuer
  | .keyed _ certs config =>
      (∃ keys, keysOf certs = .ok keys ∧ s.cache.keys = keys) ∧
        ∃ issuer, issuerOf config = .ok issuer
  | .noting _ documents =>
      Attempt.AllOrNothing ⟨documents, s.before, s.cache.pair⟩
  | .noted _ documents =>
      Attempt.AllOrNothing ⟨documents, s.before, s.cache.pair⟩
  | _ => True

theorem put_calls_self (s : Sys) (i : Nat) (c : Call) :
    (s.put i c).calls i = c :=
  Function.update_self ..

theorem put_calls_of_ne {i j : Nat} (s : Sys) (c : Call) (h : j ≠ i) :
    (s.put i c).calls j = s.calls j :=
  Function.update_of_ne h ..

theorem put_cache (s : Sys) (i : Nat) (c : Call) :
    (s.put i c).cache = s.cache :=
  rfl

theorem attempting_of_not_holds {c : Call} (h : c.holds = false) :
    c.attempting = false := by
  cases c <;> first | rfl | cases h

theorem progress_of_not_holds (s : Sys) {c : Call} (h : c.holds = false) :
    Progress s c := by
  cases c <;> trivial

/-- Holds as long as Keycloak's documents can be read. Once no attempt is under
way its start is not after the last refresh. -/
structure Inv (s : Sys) : Prop where
  holder : ∀ i, (s.calls i).holds = true → s.holder = some i
  bounded : s.Bounded
  past : ∀ t ∈ s.starts, t ≤ s.clock
  rest : (∀ i, (s.calls i).attempting = false) →
    ∀ t ∈ s.starts, t ≤ s.cache.lastRefresh
  asked : ∀ i now, (s.calls i).asked = some now → now ≤ s.clock
  progress : ∀ i, Progress s (s.calls i)

theorem inv_init (clock : Int) : Inv (Sys.init clock) where
  holder := by
    intro i h
    cases h
  bounded := ⟨List.Pairwise.nil, by simp [Sys.init]⟩
  past := by simp [Sys.init]
  rest := by simp [Sys.init]
  asked := by
    intro i now h
    cases h
  progress := fun _ => trivial

variable {s s' : Sys}

/-- One call has the lock. -/
theorem Inv.others {i : Nat} (h : Inv s) (hi : (s.calls i).holds = true) :
    ∀ j, j ≠ i → (s.calls j).holds = false := by
  intro j hj
  by_contra hin
  have hjh := h.holder j (Bool.of_not_eq_false hin)
  rw [h.holder i hi] at hjh
  exact hj (Option.some.inj hjh).symm

/-- A call that has not got the lock and does not get it. -/
theorem Inv.put_free {i : Nat} {c : Call} (h : Inv s)
    (hi : (s.calls i).holds = false) (hc : c.holds = false)
    (hasked : ∀ now, c.asked = some now → now ≤ s.clock) :
    Inv (s.put i c) where
  holder := by
    intro j hj
    by_cases hji : j = i
    · rw [hji, put_calls_self, hc] at hj
      cases hj
    · rw [put_calls_of_ne s c hji] at hj
      exact h.holder j hj
  bounded := ⟨h.bounded.apart, h.bounded.whole⟩
  past := h.past
  rest := by
    intro hno
    refine h.rest fun j => ?_
    by_cases hji : j = i
    · rw [hji]
      exact attempting_of_not_holds hi
    · rw [← put_calls_of_ne s c hji]
      exact hno j
  asked := by
    intro j now hj
    by_cases hji : j = i
    · rw [hji, put_calls_self] at hj
      exact hasked now hj
    · rw [put_calls_of_ne s c hji] at hj
      exact h.asked j now hj
  progress := by
    intro j
    by_cases hji : j = i
    · rw [hji, put_calls_self]
      exact progress_of_not_holds _ hc
    · rw [put_calls_of_ne s c hji]
      exact h.progress j

/-- A step of a call while no other one has the lock. -/
theorem Inv.put_alone {i : Nat} {c : Call} (h : Inv s)
    (hothers : ∀ j, j ≠ i → (s.calls j).holds = false)
    (hcalls : s'.calls = Function.update s.calls i c)
    (hclock : s'.clock = s.clock)
    (hholder : c.holds = true → s'.holder = some i) (hbounded : s'.Bounded)
    (hpast : ∀ t ∈ s'.starts, t ≤ s.clock)
    (hrest : c.attempting = false →
      ∀ t ∈ s'.starts, t ≤ s'.cache.lastRefresh)
    (hasked : ∀ now, c.asked = some now → now ≤ s.clock)
    (hprogress : Progress s' c) : Inv s' := by
  have hself : s'.calls i = c := by rw [hcalls, Function.update_self]
  have hother : ∀ j, j ≠ i → s'.calls j = s.calls j := by
    intro j hj
    rw [hcalls, Function.update_of_ne hj]
  refine
    { holder := ?_
      bounded := hbounded
      past := by rw [hclock]; exact hpast
      rest := fun hno => hrest (hself ▸ hno i)
      asked := ?_
      progress := ?_ }
  · intro j hj
    by_cases hji : j = i
    · rw [hji, hself] at hj
      rw [hji]
      exact hholder hj
    · rw [hother j hji, hothers j hji] at hj
      cases hj
  · intro j now hj
    rw [hclock]
    by_cases hji : j = i
    · rw [hji, hself] at hj
      exact hasked now hj
    · rw [hother j hji] at hj
      exact h.asked j now hj
  · intro j
    by_cases hji : j = i
    · rw [hji, hself]
      exact hprogress
    · rw [hother j hji]
      exact progress_of_not_holds s' (hothers j hji)

/-- With the lock free, no call has it. -/
theorem Inv.none_holds (h : Inv s) (hfree : s.holder = none) (j : Nat) :
    (s.calls j).holds = false := by
  by_contra hin
  have hj := h.holder j (Bool.of_not_eq_false hin)
  rw [hfree] at hj
  cases hj

theorem Bounded.add (h : s.Bounded) {a : Attempt} (ha : a.AllOrNothing) :
    ∀ b ∈ a :: s.attempts, b.AllOrNothing := by
  intro b hb
  cases hb with
  | head => exact ha
  | tail _ hb => exact h.whole b hb

/-- An attempt that starts now starts a cooldown after every earlier one: they
were over by the last refresh, which the call has found to be past. -/
theorem Inv.apart_cons {i : Nat} {k : Key} {now : Int} (h : Inv s)
    (hi : s.calls i = .locked k now)
    (hpast : ¬ now - s.cache.lastRefresh < cooldown) :
    (s.clock :: s.starts).Pairwise
      (fun later earlier => earlier + cooldown ≤ later) := by
  refine List.Pairwise.cons (fun t ht => ?_) h.bounded.apart
  have hholds : (s.calls i).holds = true := by rw [hi]; rfl
  have hno : ∀ j, (s.calls j).attempting = false := by
    intro j
    by_cases hji : j = i
    · rw [hji, hi]
      rfl
    · exact attempting_of_not_holds (h.others hholds j hji)
  have hlast := h.rest hno t ht
  have hnow : now ≤ s.clock := h.asked i now (by rw [hi]; rfl)
  omega

theorem Inv.step_go {i : Nat} (h : Inv s) (hs : s.go i = some s') :
    Inv s' := by
  unfold Sys.go at hs
  cases hi : s.calls i with
  | missed k =>
      simp only [hi] at hs
      obtain rfl := Option.some.inj hs
      refine h.put_free (by rw [hi]; rfl) rfl ?_
      rintro now ⟨⟩
      exact le_rfl
  | waiting k now =>
      simp only [hi] at hs
      cases hfree : s.holder with
      | some j => simp [hfree] at hs
      | none =>
          simp only [hfree] at hs
          obtain rfl := Option.some.inj hs
          refine h.put_alone (fun j _ => h.none_holds hfree j) rfl rfl
            (fun _ => rfl) ⟨h.bounded.apart, h.bounded.whole⟩ h.past ?_ ?_
            trivial
          · exact fun _ => h.rest fun j =>
              attempting_of_not_holds (h.none_holds hfree j)
          · rintro t ⟨⟩
            exact h.asked i now (by rw [hi]; rfl)
  | locked k now =>
      have hin : (s.calls i).holds = true := by rw [hi]; rfl
      simp only [hi] at hs
      split_ifs at hs with hcool
      · obtain rfl := Option.some.inj hs
        refine h.put_alone (h.others hin) rfl rfl (by rintro ⟨⟩)
          ⟨h.bounded.apart, h.bounded.whole⟩ h.past ?_ (by rintro t ⟨⟩)
          trivial
        refine fun _ => h.rest fun j => ?_
        by_cases hji : j = i
        · rw [hji, hi]
          rfl
        · exact attempting_of_not_holds (h.others hin j hji)
      · obtain rfl := Option.some.inj hs
        refine h.put_alone (h.others hin) rfl rfl
          (fun _ => h.holder i hin) ⟨h.apart_cons hi hcool, h.bounded.whole⟩
          ?_ (by rintro ⟨⟩) (by rintro t ⟨⟩) rfl
        intro t ht
        cases ht with
        | head => exact le_rfl
        | tail _ ht => exact h.past t ht
  | replied k certs config =>
      have hin : (s.calls i).holds = true := by rw [hi]; rfl
      obtain ⟨hpair, ⟨keys, hkeys⟩, hissuer⟩ : Progress s
          (.replied k certs config) := hi ▸ h.progress i
      simp only [hi, hkeys] at hs
      obtain rfl := Option.some.inj hs
      exact h.put_alone (h.others hin) rfl rfl (fun _ => h.holder i hin)
        ⟨h.bounded.apart, h.bounded.whole⟩ h.past (by rintro ⟨⟩)
        (by rintro t ⟨⟩) ⟨⟨keys, hkeys, rfl⟩, hissuer⟩
  | keyed k certs config =>
      have hin : (s.calls i).holds = true := by rw [hi]; rfl
      obtain ⟨⟨keys, hkeys, hcache⟩, issuer, hissuer⟩ : Progress s
          (.keyed k certs config) := hi ▸ h.progress i
      simp only [hi, hissuer] at hs
      obtain rfl := Option.some.inj hs
      refine h.put_alone (h.others hin) rfl rfl (fun _ => h.holder i hin)
        ⟨h.bounded.apart, h.bounded.whole⟩ h.past (by rintro ⟨⟩)
        (by rintro t ⟨⟩) (Or.inr ⟨certs, config, keys, issuer, rfl, hkeys,
          hissuer, ?_⟩)
      rw [← hcache]
      rfl
  | noting k documents =>
      have hin : (s.calls i).holds = true := by rw [hi]; rfl
      have hwhole : Progress s (.noting k documents) := hi ▸ h.progress i
      simp only [hi] at hs
      obtain rfl := Option.some.inj hs
      exact h.put_alone (h.others hin) rfl rfl (fun _ => h.holder i hin)
        ⟨h.bounded.apart, h.bounded.whole⟩ h.past (fun _ => h.past)
        (by rintro t ⟨⟩) hwhole
  | noted k documents =>
      have hin : (s.calls i).holds = true := by rw [hi]; rfl
      have hwhole : Progress s (.noted k documents) := hi ▸ h.progress i
      simp only [hi] at hs
      obtain rfl := Option.some.inj hs
      refine h.put_alone (h.others hin) rfl rfl (by rintro ⟨⟩)
        ⟨h.bounded.apart, Bounded.add h.bounded hwhole⟩ h.past ?_
        (by rintro t ⟨⟩) trivial
      refine fun _ => h.rest fun j => ?_
      by_cases hji : j = i
      · rw [hji, hi]
        rfl
      · exact attempting_of_not_holds (h.others hin j hji)
  | leaving k =>
      simp only [hi] at hs
      obtain rfl := Option.some.inj hs
      exact h.put_free (by rw [hi]; rfl) rfl (by rintro t ⟨⟩)
  | _ => simp [hi] at hs

theorem Inv.step_reply {i : Nat} {r : Reply} (h : Inv s)
    (hok : s.Readable (.reply i r)) (hs : s.step (.reply i r) = some s') :
    Inv s' := by
  unfold Sys.step at hs
  have hnothing : ∀ documents, s.cache.pair = s.before →
      Attempt.AllOrNothing ⟨documents, s.before, s.cache.pair⟩ :=
    fun _ h => Or.inl h
  cases hi : s.calls i with
  | fetching k =>
      have hin : (s.calls i).holds = true := by rw [hi]; rfl
      have hpair : Progress s (.fetching k) := hi ▸ h.progress i
      simp only [hi] at hs
      cases r with
      | httpError =>
          obtain rfl := Option.some.inj hs
          exact h.put_alone (h.others hin) rfl rfl (fun _ => h.holder i hin)
            ⟨h.bounded.apart, h.bounded.whole⟩ h.past (by rintro ⟨⟩)
            (by rintro t ⟨⟩) (hnothing none hpair)
      | text => exact hok.elim
      | json certs =>
          obtain rfl := Option.some.inj hs
          exact h.put_alone (h.others hin) rfl rfl (fun _ => h.holder i hin)
            ⟨h.bounded.apart, h.bounded.whole⟩ h.past (by rintro ⟨⟩)
            (by rintro t ⟨⟩) hpair
  | fetched k certs =>
      have hin : (s.calls i).holds = true := by rw [hi]; rfl
      have hpair : Progress s (.fetched k certs) := hi ▸ h.progress i
      simp only [hi] at hs
      cases r with
      | httpError =>
          obtain rfl := Option.some.inj hs
          exact h.put_alone (h.others hin) rfl rfl (fun _ => h.holder i hin)
            ⟨h.bounded.apart, h.bounded.whole⟩ h.past (by rintro ⟨⟩)
            (by rintro t ⟨⟩) (hnothing none hpair)
      | text => exact hok.elim
      | json config =>
          unfold Sys.Readable at hok
          simp only [hi] at hok
          obtain rfl := Option.some.inj hs
          exact h.put_alone (h.others hin) rfl rfl (fun _ => h.holder i hin)
            ⟨h.bounded.apart, h.bounded.whole⟩ h.past (by rintro ⟨⟩)
            (by rintro t ⟨⟩) ⟨hpair, hok⟩
  | _ => simp [hi] at hs

theorem Inv.step {act : Act} (h : Inv s) (hok : s.Readable act)
    (hs : s.step act = some s') : Inv s' := by
  cases act with
  | tick d =>
      obtain rfl := Option.some.inj hs
      have hlater : s.clock ≤ s.clock + d := by omega
      exact
        { holder := h.holder
          bounded := ⟨h.bounded.apart, h.bounded.whole⟩
          past := fun t ht => (h.past t ht).trans hlater
          rest := h.rest
          asked := fun i now hi => (h.asked i now hi).trans hlater
          progress := h.progress }
  | call i k =>
      unfold Sys.step at hs
      cases hi : s.calls i with
      | idle =>
          simp only [hi] at hs
          cases hkey : s.cache.keys.get? k with
          | some key =>
              simp only [hkey] at hs
              obtain rfl := Option.some.inj hs
              exact h.put_free (by rw [hi]; rfl) rfl (by rintro t ⟨⟩)
          | none =>
              simp only [hkey] at hs
              obtain rfl := Option.some.inj hs
              exact h.put_free (by rw [hi]; rfl) rfl (by rintro t ⟨⟩)
      | _ => simp [hi] at hs
  | go i => exact h.step_go hs
  | reply i r => exact h.step_reply hok hs

/-- As long as Keycloak's replies can be read, two attempts never start within
one cooldown and each is all or nothing. -/
theorem bounded_of_readable (clock : Int) (s : Sys)
    (h : Reach Sys.step Sys.Readable (Sys.init clock) s) : s.Bounded :=
  (h.inv (inv_init clock) fun _ _ _ hinv hok hs => hinv.step hok hs).bounded

def certsOfA : Value :=
  .obj [("keys".toList, .arr [.obj [(kid, .str "a".toList)]])]

def realmConfig : Value :=
  .obj [("issuer".toList, .str "http://keycloak/realms/kelt".toList)]

/-- An attempt that fails, and one after the cooldown that reads both
documents. -/
theorem bounded_of_readable_twoAttempts :
    ∃ s, Reach Sys.step Sys.Readable (Sys.init 100000000) s ∧
      s.starts = [131000000, 100000000] ∧ s.cache.lastRefresh = 131000000 ∧
      s.Bounded := by
  have hstart : Reach Sys.step Sys.Readable (Sys.init 100000000)
      (Sys.init 100000000) := .refl
  have hfailed :=
    ((((((((hstart.step (a := Act.call 0 (.str "a".toList)) trivial rfl).step
      (a := Act.go 0) trivial rfl).step
      (a := Act.go 0) trivial rfl).step
      (a := Act.go 0) trivial rfl).step
      (a := Act.reply 0 .httpError) trivial rfl).step
      (a := Act.go 0) trivial rfl).step
      (a := Act.go 0) trivial rfl).step
      (a := Act.tick 31000000) trivial rfl)
  have hread :=
    (((((((((hfailed.step
      (a := Act.call 1 (.str "a".toList)) trivial rfl).step
      (a := Act.go 1) trivial rfl).step
      (a := Act.go 1) trivial rfl).step
      (a := Act.go 1) trivial rfl).step
      (a := Act.reply 1 (.json certsOfA)) trivial rfl).step
      (a := Act.reply 1 (.json realmConfig)) ⟨⟨_, rfl⟩, _, rfl⟩ rfl).step
      (a := Act.go 1) trivial rfl).step
      (a := Act.go 1) trivial rfl).step
      (a := Act.go 1) trivial rfl)
  exact ⟨_, hread, rfl, rfl, bounded_of_readable _ _ hread⟩

/-- A body that is not JSON ends the first attempt; the second call starts the
next one at once. -/
def unreadable : List Act :=
  let key := Key.str "a".toList
  [.call 0 key, .go 0, .go 0, .go 0, .reply 0 .text,
    .call 1 key, .go 1, .go 1, .go 1]

theorem not_bounded_unreadable :
    ¬ ∀ (clock : Int) (s : Sys),
      ReachAny Sys.step (Sys.init clock) s → s.Bounded := by
  intro h
  cases hrun : exec Sys.step (Sys.init 100000000) unreadable with
  | none => cases hrun
  | some s =>
      have hbounded := h 100000000 s (Reach.refl.exec hrun)
      obtain rfl := Option.some.inj hrun
      have hapart : ([100000000, 100000000] : List Int).Pairwise
          (fun later earlier => earlier + cooldown ≤ later) := hbounded.apart
      revert hapart
      decide

/-- What a call meets on its way: the time at which it misses, the replies to
the requests of its attempt, and the time at which the attempt is noted. -/
structure Visit where
  now : Int
  certs : Reply
  config : Reply
  noted : Int

/-- `_refresh_locked` -/
def Cache.refresh (c : Cache) (v : Visit) : Except Fault Unit × Cache :=
  match v.certs with
  | .httpError => (.ok (), { c with lastRefresh := v.noted })
  | .text => (.error .valueError, c)
  | .json certs =>
      match v.config with
      | .httpError => (.ok (), { c with lastRefresh := v.noted })
      | .text => (.error .valueError, c)
      | .json config =>
          match keysOf certs with
          | .error f => (.error f, c)
          | .ok keys =>
              match issuerOf config with
              | .error f => (.error f, { c with keys := keys })
              | .ok issuer => (.ok (), ⟨keys, issuer, v.noted⟩)

/-- The end of `get_key` after an attempt. -/
def Cache.afterRefresh (c : Cache) (k : Key) (v : Visit) :
    Except Fault (Option Value) × Cache :=
  match c.refresh v with
  | (.error f, c') => (.error f, c')
  | (.ok _, c') => (.ok (c'.keys.get? k), c')

/-- `get_key` while no other thread uses the cache. -/
def Cache.getKey (c : Cache) (k : Key) (v : Visit) :
    Except Fault (Option Value) × Cache :=
  match c.keys.get? k with
  | some key => (.ok (some key), c)
  | none =>
      if v.now - c.lastRefresh < cooldown then
        (.ok (c.keys.get? k), c)
      else
        c.afterRefresh k v

/-- How a call has ended. -/
def Call.ofResult : Except Fault (Option Value) → Call
  | .ok key => .returned key
  | .error f => .raised f

/-- Some steps of the call lead from the state to its end, with this result and
this cache. -/
def EndsWith (s : Sys) (i : Nat)
    (r : Except Fault (Option Value) × Cache) : Prop :=
  ∃ acts s', exec Sys.step s acts = some s' ∧ s'.cache = r.2 ∧
    s'.calls i = Call.ofResult r.1

theorem EndsWith.step {i : Nat} {r : Except Fault (Option Value) × Cache}
    {act : Act} (h : s.step act = some s') (hr : EndsWith s' i r) :
    EndsWith s i r := by
  obtain ⟨acts, s'', hexec, hcache, hcall⟩ := hr
  refine ⟨act :: acts, s'', ?_, hcache, hcall⟩
  rw [exec, h]
  exact hexec

theorem endsWith_returned (s : Sys) (i : Nat) (key : Option Value) :
    EndsWith (s.put i (.returned key)) i (.ok key, s.cache) :=
  ⟨[], _, rfl, rfl, put_calls_self ..⟩

theorem endsWith_raised (s : Sys) (i : Nat) (f : Fault) :
    EndsWith (s.put i (.raised f)) i (.error f, s.cache) :=
  ⟨[], _, rfl, rfl, put_calls_self ..⟩

/-- The lock is released and the key is read. -/
theorem endsWith_noted (s : Sys) (i : Nat) (k : Key)
    (documents : Option (Value × Value)) :
    EndsWith (s.put i (.noted k documents)) i
      (.ok (s.cache.keys.get? k), s.cache) := by
  have hrelease : (s.put i (.noted k documents)).step (.go i) =
      some (((s.put i (.noted k documents)).over documents).put i
        (.leaving k)) := by
    simp only [Sys.step, Sys.go, put_calls_self]
  have hreturn : (((s.put i (.noted k documents)).over documents).put i
      (.leaving k)).step (.go i) =
      some ((((s.put i (.noted k documents)).over documents).put i
        (.leaving k)).put i (.returned (s.cache.keys.get? k))) := by
    simp only [Sys.step, Sys.go, put_calls_self]
    rfl
  exact ((endsWith_returned _ i _).step hreturn).step hrelease

/-- The attempt is noted at a time not before now. -/
theorem endsWith_noting (s : Sys) (i : Nat) (k : Key)
    (documents : Option (Value × Value)) {noted : Int}
    (hnoted : s.clock ≤ noted) :
    EndsWith (s.put i (.noting k documents)) i
      (.ok (s.cache.keys.get? k), { s.cache with lastRefresh := noted }) := by
  have htick : (s.put i (.noting k documents)).step
      (.tick (noted - s.clock).toNat) =
      some ({ s with clock := noted }.put i (.noting k documents)) := by
    have hclock : s.clock + ((noted - s.clock).toNat : Int) = noted := by
      omega
    have hput : (s.put i (.noting k documents)).clock = s.clock := rfl
    simp only [Sys.step, hput, hclock]
    rfl
  have hnote : ({ s with clock := noted }.put i
      (.noting k documents)).step (.go i) =
      some ((({ s with
        clock := noted
        cache := { s.cache with lastRefresh := noted } } : Sys).put i
          (.noting k documents)).put i (.noted k documents)) := by
    simp only [Sys.step, Sys.go, put_calls_self]
    rfl
  exact ((endsWith_noted _ i k documents).step hnote).step htick

/-- Both documents are there. -/
theorem endsWith_replied (s : Sys) (i : Nat) (k : Key) {certs config : Value}
    {v : Visit} (hcerts : v.certs = .json certs)
    (hconfig : v.config = .json config) (hnoted : s.clock ≤ v.noted) :
    EndsWith (s.put i (.replied k certs config)) i
      (s.cache.afterRefresh k v) := by
  unfold Cache.afterRefresh Cache.refresh
  simp only [hcerts, hconfig]
  cases hkeys : keysOf certs with
  | error f =>
      have hraise : (s.put i (.replied k certs config)).step (.go i) =
          some (((s.put i (.replied k certs config)).over
            (some (certs, config))).put i (.raised f)) := by
        simp only [Sys.step, Sys.go, put_calls_self, hkeys]
      exact (endsWith_raised _ i f).step hraise
  | ok keys =>
      have hset : (s.put i (.replied k certs config)).step (.go i) =
          some ((({ s with
            cache := { s.cache with keys := keys } } : Sys).put i
              (.replied k certs config)).put i (.keyed k certs config)) := by
        simp only [Sys.step, Sys.go, put_calls_self, hkeys]
        rfl
      refine EndsWith.step hset ?_
      generalize hs₁ : (({ s with
        cache := { s.cache with keys := keys } } : Sys).put i
          (.replied k certs config)) = s₁
      have hcache : s₁.cache = { s.cache with keys := keys } := by
        rw [← hs₁]
        rfl
      have hclock : s₁.clock ≤ v.noted := by
        rw [← hs₁]
        exact hnoted
      cases hissuer : issuerOf config with
      | error f =>
          have hraise : (s₁.put i (.keyed k certs config)).step (.go i) =
              some (((s₁.put i (.keyed k certs config)).over
                (some (certs, config))).put i (.raised f)) := by
            simp only [Sys.step, Sys.go, put_calls_self, hissuer]
          have hend := endsWith_raised
            ((s₁.put i (.keyed k certs config)).over (some (certs, config))) i f
          rw [show ((s₁.put i (.keyed k certs config)).over
            (some (certs, config))).cache = s₁.cache from rfl, hcache] at hend
          exact hend.step hraise
      | ok issuer =>
          have hset' : (s₁.put i (.keyed k certs config)).step (.go i) =
              some ((({ s₁ with
                cache := { s₁.cache with issuer := issuer } } : Sys).put i
                  (.keyed k certs config)).put i
                    (.noting k (some (certs, config)))) := by
            simp only [Sys.step, Sys.go, put_calls_self, hissuer]
            rfl
          have hend := endsWith_noting (({ s₁ with
            cache := { s₁.cache with issuer := issuer } } : Sys).put i
              (.keyed k certs config)) i k (some (certs, config)) hclock
          refine EndsWith.step hset' ?_
          convert hend using 2 <;> simp [Sys.put, hcache]

/-- The attempt has started. -/
theorem endsWith_fetching (s : Sys) (i : Nat) (k : Key) (v : Visit)
    (hnoted : s.clock ≤ v.noted) :
    EndsWith (s.put i (.fetching k)) i (s.cache.afterRefresh k v) := by
  cases hcerts : v.certs with
  | httpError =>
      have hfail : (s.put i (.fetching k)).step (.reply i .httpError) =
          some ((s.put i (.fetching k)).put i (.noting k none)) := by
        simp only [Sys.step, put_calls_self]
      unfold Cache.afterRefresh Cache.refresh
      simp only [hcerts]
      exact (endsWith_noting (s.put i (.fetching k)) i k none hnoted).step hfail
  | text =>
      have hraise : (s.put i (.fetching k)).step (.reply i .text) =
          some (((s.put i (.fetching k)).over none).put i
            (.raised .valueError)) := by
        simp only [Sys.step, put_calls_self]
      unfold Cache.afterRefresh Cache.refresh
      simp only [hcerts]
      exact (endsWith_raised _ i .valueError).step hraise
  | json certs =>
      have hread : (s.put i (.fetching k)).step (.reply i (.json certs)) =
          some ((s.put i (.fetching k)).put i (.fetched k certs)) := by
        simp only [Sys.step, put_calls_self]
      refine EndsWith.step hread ?_
      generalize hs₁ : s.put i (.fetching k) = s₁
      have hcache : s.cache = s₁.cache := by rw [← hs₁]; rfl
      have hclock : s₁.clock ≤ v.noted := by rw [← hs₁]; exact hnoted
      rw [hcache]
      cases hconfig : v.config with
      | httpError =>
          have hfail : (s₁.put i (.fetched k certs)).step
              (.reply i .httpError) =
              some ((s₁.put i (.fetched k certs)).put i (.noting k none)) := by
            simp only [Sys.step, put_calls_self]
          unfold Cache.afterRefresh Cache.refresh
          simp only [hcerts, hconfig]
          exact (endsWith_noting (s₁.put i (.fetched k certs)) i k none
            hclock).step hfail
      | text =>
          have hraise : (s₁.put i (.fetched k certs)).step (.reply i .text) =
              some (((s₁.put i (.fetched k certs)).over none).put i
                (.raised .valueError)) := by
            simp only [Sys.step, put_calls_self]
          unfold Cache.afterRefresh Cache.refresh
          simp only [hcerts, hconfig]
          exact (endsWith_raised _ i .valueError).step hraise
      | json config =>
          have hread' : (s₁.put i (.fetched k certs)).step
              (.reply i (.json config)) =
              some ((s₁.put i (.fetched k certs)).put i
                (.replied k certs config)) := by
            simp only [Sys.step, put_calls_self]
          exact (endsWith_replied (s₁.put i (.fetched k certs)) i k hcerts
            hconfig hclock).step hread'

end Jwks

end Auth
end Kelt
