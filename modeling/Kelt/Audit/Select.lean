import Kelt.Lib.IsoTime
import Kelt.Lib.Json
import Mathlib.Data.List.Sort

/-!
# What the audit page shows

The rows are the lines of the dashboard's own record and the events of Keycloak,
as one list. `select` filters them, drops what is older than the cutoff, sorts
the texts of the timestamps and takes the first. The texts of `isoformat` are
in the order of the times, but one row that passes the filter and has no
timestamp that `fromisoformat` reads ends the call (`shown_iff`).

What `json.loads` and `str` make of a text and of a value is left open, and so
is what `fromisoformat` makes of a text that `isoformat` does not write. Times
are in microseconds.
-/

namespace Kelt
namespace Audit

universe u

section Rows

inductive RowKind where
  | access
  | change
deriving DecidableEq

inductive Outcome where
  | ok
  | failed
deriving DecidableEq

inductive Source where
  | keycloak
  | dashboard
deriving DecidableEq

/-- A row of the page. -/
structure Row (ν : Type u) where
  ts : Json ν
  who : Json ν
  kind : RowKind
  action : Json ν
  outcome : Outcome
  source : Source
  ip : Json ν
  detail : Text
  metadata : Json.Members ν

variable {ν : Type u} [Zero ν] [DecidableEq ν]

/-- `read_local`: the lines that can be parsed. -/
def readLocal (loads : Text → Option (Json ν)) (file : Option Text) :
    List (Json ν) :=
  match file with
  | none => []
  | some text => (splitlines (universalNewlines text)).filterMap loads

/-- `x or {}`, of which an object is needed. -/
def orEmpty : Option (Json ν) → Option (Json.Members ν)
  | none => some []
  | some (.obj fields) => some fields
  | some v => if v.pyTrue then none else some []

/-- `entry.get(name)`, where it counts as true. -/
def got (name : String) (fields : Json.Members ν) : Option (Json ν) :=
  (Dict.getItem name.toList fields).filter Json.pyTrue

/-- `from_local`; it raises when the entry, its details or its request is no
object. -/
def fromLocal (str : Json ν → Text) : Json ν → Option (Row ν)
  | .obj entry =>
      match orEmpty (Dict.getItem "details".toList entry),
        orEmpty (Dict.getItem "request".toList entry) with
      | some details, some req =>
          let withRequest :=
            match got "method" req, got "path" req with
            | some method, some path =>
                Dict.setItem "request".toList
                  (.str (str method ++ ' ' :: str path)) details
            | _, _ => details
          let withBrowser :=
            match got "user_agent" req with
            | some agent => Dict.setItem "browser".toList agent withRequest
            | none => withRequest
          some
            { ts := (Dict.getItem "ts".toList entry).getD (.str [])
              who := (got "actor" entry).getD (.str "unknown".toList)
              kind := .change
              action := (Dict.getItem "event".toList entry).getD (.str [])
              outcome := .ok
              source := .dashboard
              ip := (Dict.getItem "ip".toList req).getD .null
              detail := List.intercalate [' ']
                (details.map fun kv => kv.1 ++ '=' :: str kv.2)
              metadata := withBrowser }
      | _, _ => none
  | _ => none

end Rows

section Select

variable {ν : Type u}

/-- `FILTERS` -/
inductive Filter where
  | all
  | access
  | changes
  | failures
deriving DecidableEq

def Filter.keep : Filter → Row ν → Bool
  | .all, _ => true
  | .access, r => r.kind = .access
  | .changes, r => r.kind = .change
  | .failures, r => r.outcome = .failed

/-- `datetime.fromisoformat`; `other` is what it makes of other texts. -/
def fromisoformat (other : Text → Option Int) (t : Text) : Option Int :=
  match DateTime.ofText? t with
  | some d => some d.timestamp
  | none => other t

/-- `datetime.fromisoformat(r["ts"]).timestamp()` -/
def Row.time (other : Text → Option Int) (r : Row ν) : Option Int :=
  match r.ts with
  | .str t => fromisoformat other t
  | _ => none

/-- `r["ts"]`, of a row whose timestamp has been read. -/
def Row.tsText (r : Row ν) : Text :=
  match r.ts with
  | .str t => t
  | _ => []

/-- The comprehension of `select`; a timestamp that cannot be read raises. -/
def picked (other : Text → Option Int) (kind : Filter) (cutoff : Int) :
    List (Row ν) → Option (List (Row ν))
  | [] => some []
  | r :: rest =>
      if kind.keep r then
        match r.time other with
        | none => none
        | some t =>
            (picked other kind cutoff rest).map fun rows =>
              if cutoff ≤ t then r :: rows else rows
      else picked other kind cutoff rest

/-- `select` -/
def select (other : Text → Option Int) (rows : List (Row ν)) (kind : Filter)
    (since : Int) (limit : Nat) : Option (List (Row ν)) :=
  (picked other kind since rows).map fun rows =>
    (rows.insertionSort fun r r' => r'.tsText ≤ r.tsText).take limit

variable [Zero ν] [DecidableEq ν]

/-- What `list_audit` shows of the record and of Keycloak's events. -/
def shown (loads : Text → Option (Json ν)) (str : Json ν → Text)
    (other : Text → Option Int) (file : Option Text) (keycloak : List (Row ν))
    (kind : Filter) (since : Int) (limit : Nat) : Option (List (Row ν)) :=
  ((readLocal loads file).mapM (fromLocal str)).bind fun rows =>
    select other (rows ++ keycloak) kind since limit

end Select

section Shown

variable {ν : Type u}

/-- An entry of the record: an object, and so are its details and its request
unless they count as false. -/
def IsEntry [Zero ν] [DecidableEq ν] (v : Json ν) : Prop :=
  ∃ entry, v = .obj entry ∧ ∀ name ∈ ["details", "request"], ∀ w,
    Dict.getItem name.toList entry = some w → w.pyTrue = true →
      ∃ fields, w = .obj fields

/-- If the timestamp can be read, `isoformat` has written it. -/
def Row.Written (other : Text → Option Int) (r : Row ν) : Prop :=
  (r.time other).isSome → ∃ d : DateTime, r.ts = .str d.isoformat

/-- The entry is one of the kind, at or after the cutoff. -/
def Row.matching (other : Text → Option Int) (kind : Filter) (since : Int)
    (r : Row ν) : Bool :=
  kind.keep r && (r.time other).any fun t => decide (since ≤ t)

/-- The newest of the matching entries, the newest first. -/
structure Newest (other : Text → Option Int) (entries : List (Row ν))
    (kind : Filter) (since : Int) (limit : Nat) (out : List (Row ν)) :
    Prop where
  length : out.length =
    min limit (entries.filter (Row.matching other kind since)).length
  rest : ∃ rest,
    (out ++ rest).Perm (entries.filter (Row.matching other kind since)) ∧
    (out ++ rest).Pairwise fun r r' => ∀ t t', r.time other = some t →
      r'.time other = some t' → t' ≤ t

end Shown

section Lemmas

variable {ν : Type u} {other : Text → Option Int} {kind : Filter} {since : Int}

theorem fromisoformat_isoformat (other : Text → Option Int) (d : DateTime) :
    fromisoformat other d.isoformat = some d.timestamp := by
  rw [fromisoformat, d.ofText?_isoformat]

/-- All that pass the filter are read, or the call ends. -/
theorem picked_eq (rows : List (Row ν)) :
    picked other kind since rows =
      if ∀ r ∈ rows, kind.keep r = true → (r.time other).isSome then
        some (rows.filter (Row.matching other kind since))
      else none := by
  induction rows with
  | nil => rfl
  | cons r rest ih =>
      rw [picked, ih]
      simp only [List.forall_mem_cons]
      by_cases hkeep : kind.keep r = true
      · rw [if_pos hkeep]
        cases htime : r.time other with
        | none => simp [hkeep]
        | some t =>
            have hmatching : r.matching other kind since =
                decide (since ≤ t) := by
              rw [Row.matching, hkeep, htime]
              rfl
            by_cases hrest : ∀ r ∈ rest, kind.keep r = true →
                (r.time other).isSome
            · by_cases hle : since ≤ t
              · simp [hmatching, hle]
              · simp [hmatching, hle]
            · simp [hrest]
      · have hmatching : r.matching other kind since = false := by
          rw [Row.matching, Bool.eq_false_iff.2 hkeep, Bool.false_and]
        simp [hkeep, hmatching]

/-- The order of the texts is the order of the times. -/
theorem time_le_of_tsText_le {r r' : Row ν} (h : r.Written other)
    (h' : r'.Written other) (hle : r'.tsText ≤ r.tsText) {t t' : Int}
    (ht : r.time other = some t) (ht' : r'.time other = some t') : t' ≤ t := by
  obtain ⟨d, hd⟩ := h (by rw [ht]; rfl)
  obtain ⟨d', hd'⟩ := h' (by rw [ht']; rfl)
  rw [Row.time, hd] at ht
  rw [Row.time, hd'] at ht'
  obtain rfl := Option.some.inj ((fromisoformat_isoformat other d).symm.trans ht)
  obtain rfl :=
    Option.some.inj ((fromisoformat_isoformat other d').symm.trans ht')
  rw [Row.tsText, Row.tsText, hd, hd'] at hle
  by_contra hlt
  exact absurd (DateTime.isoformat_lt (not_le.1 hlt)) (not_lt.2 hle)

theorem newest_take (rows : List (Row ν))
    (hwritten : ∀ r ∈ rows, r.Written other) (limit : Nat) :
    Newest other rows kind since limit
      (((rows.filter (Row.matching other kind since)).insertionSort
        fun r r' => r'.tsText ≤ r.tsText).take limit) := by
  generalize hsort : (rows.filter (Row.matching other kind since)).insertionSort
    (fun r r' => r'.tsText ≤ r.tsText) = sorted
  have hperm : sorted.Perm (rows.filter (Row.matching other kind since)) := by
    rw [← hsort]
    exact List.perm_insertionSort _ _
  have hsorted : sorted.Pairwise fun r r' => r'.tsText ≤ r.tsText := by
    rw [← hsort]
    exact List.pairwise_insertionSort _ _
  have hmem : ∀ r ∈ sorted, r.Written other := fun r hr =>
    hwritten r (List.mem_of_mem_filter (hperm.mem_iff.1 hr))
  refine ⟨?_, sorted.drop limit, ?_, ?_⟩
  · rw [List.length_take, hperm.length_eq]
  · rw [List.take_append_drop]
    exact hperm
  · rw [List.take_append_drop]
    refine hsorted.imp_of_mem fun {r r'} hr hr' hle t t' ht ht' => ?_
    exact time_le_of_tsText_le (hmem r hr) (hmem r' hr') hle ht ht'

theorem orEmpty_isSome [Zero ν] [DecidableEq ν] (x : Option (Json ν)) :
    (orEmpty x).isSome ↔ ∀ w, x = some w → w.pyTrue = true →
      ∃ fields, w = .obj fields := by
  unfold orEmpty
  split
  · simp
  · rename_i fields
    simp
  · rename_i v hobj
    by_cases htrue : v.pyTrue = true
    · have hnot : ∀ fields, v ≠ .obj fields := hobj
      simp [htrue, hnot]
    · simp [htrue]

theorem fromLocal_isSome [Zero ν] [DecidableEq ν] (str : Json ν → Text)
    (v : Json ν) : (fromLocal str v).isSome ↔ IsEntry v := by
  cases v with
  | obj entry =>
      have hentry : IsEntry (.obj entry) ↔
          (orEmpty (Dict.getItem "details".toList entry)).isSome ∧
            (orEmpty (Dict.getItem "request".toList entry)).isSome := by
        rw [orEmpty_isSome, orEmpty_isSome]
        constructor
        · rintro ⟨entry', heq, h⟩
          obtain rfl := Json.obj.inj heq
          exact ⟨h "details" (by decide), h "request" (by decide)⟩
        · rintro ⟨hdetails, hrequest⟩
          refine ⟨entry, rfl, fun name hname => ?_⟩
          rcases List.mem_cons.1 hname with rfl | hname
          · exact hdetails
          · rw [List.mem_singleton.1 hname]
            exact hrequest
      rw [hentry, fromLocal]
      cases orEmpty (Dict.getItem "details".toList entry) with
      | none => simp
      | some details =>
          cases orEmpty (Dict.getItem "request".toList entry) with
          | none => simp
          | some req => simp
  | _ =>
      refine iff_of_false (by simp [fromLocal]) ?_
      rintro ⟨entry, h, -⟩
      cases h

theorem mapM_eq {α β : Type*} (f : α → Option β) (l : List α) :
    l.mapM f = if ∀ a ∈ l, (f a).isSome then some (l.filterMap f) else none := by
  induction l with
  | nil => rfl
  | cons a l ih =>
      rw [List.mapM_cons, ih]
      simp only [List.forall_mem_cons]
      cases ha : f a with
      | none => simp
      | some b =>
          by_cases hrest : ∀ a ∈ l, (f a).isSome
          · simp [if_pos hrest, ha]
          · simp [if_neg hrest]

end Lemmas

section Claim

variable {ν : Type u} [Zero ν] [DecidableEq ν]

/-- The entries of the record and of Keycloak. -/
def entries (loads : Text → Option (Json ν)) (str : Json ν → Text)
    (file : Option Text) (keycloak : List (Row ν)) : List (Row ν) :=
  (readLocal loads file).filterMap (fromLocal str) ++ keycloak

/-- The page shows the newest of the matching entries exactly when all lines
that can be parsed are entries and all entries of the kind have a timestamp that
can be read. -/
theorem shown_iff (loads : Text → Option (Json ν)) (str : Json ν → Text)
    (other : Text → Option Int) (file : Option Text) (keycloak : List (Row ν))
    (kind : Filter) (since : Int) (limit : Nat)
    (hwritten : ∀ r ∈ entries loads str file keycloak, r.Written other) :
    (∃ out, shown loads str other file keycloak kind since limit = some out ∧
        Newest other (entries loads str file keycloak) kind since limit out) ↔
      (∀ v ∈ readLocal loads file, IsEntry v) ∧
        ∀ r ∈ entries loads str file keycloak, kind.keep r = true →
          (r.time other).isSome := by
  have hlines : (∀ v ∈ readLocal loads file, IsEntry v) ↔
      ∀ v ∈ readLocal loads file, (fromLocal str v).isSome := by
    simp only [fromLocal_isSome]
  rw [hlines, shown, mapM_eq]
  by_cases hentry : ∀ v ∈ readLocal loads file, (fromLocal str v).isSome
  · rw [if_pos hentry, Option.bind_some, select, picked_eq]
    change (∃ out, Option.map _ (if ∀ r ∈ entries loads str file keycloak, _
      then _ else _) = _ ∧ _) ↔ _
    by_cases hread : ∀ r ∈ entries loads str file keycloak,
        kind.keep r = true → (r.time other).isSome
    · rw [if_pos hread]
      exact iff_of_true ⟨_, rfl, newest_take _ hwritten limit⟩ ⟨hentry, hread⟩
    · rw [if_neg hread]
      refine iff_of_false ?_ fun h => hread h.2
      rintro ⟨out, hout, -⟩
      cases hout
  · rw [if_neg hentry]
    refine iff_of_false ?_ fun h => hentry h.1
    rintro ⟨out, hout, -⟩
    cases hout

/-- An entry of the record, and one that lacks the timestamp. -/
def wholeLine : Text :=
  "\x7b\"ts\":\"2026-05-01T10:00:09+00:00\",\"event\":\"deploy\"\x7d".toList

def bareLine : Text :=
  "\x7b\"event\":\"deploy\"\x7d".toList

/-- What `json.loads` makes of the two. -/
def loadsLine (line : Text) : Option (Json Int) :=
  if line = wholeLine then
    some (.obj [("ts".toList, .str "2026-05-01T10:00:09+00:00".toList),
      ("event".toList, .str "deploy".toList)])
  else if line = bareLine then
    some (.obj [("event".toList, .str "deploy".toList)])
  else none

/-- The time of the entry. -/
def wholeTime : DateTime :=
  ⟨⟨2026, 5, 1, 10, 0, 9, 0⟩, by decide⟩

theorem not_shown_bareLine :
    (∀ r ∈ entries loadsLine (fun _ => []) (some (unlines [wholeLine, bareLine]))
      [], r.Written fun _ => none) ∧
    ¬ ∃ out, shown loadsLine (fun _ => []) (fun _ => none)
        (some (unlines [wholeLine, bareLine])) [] .all 0 500 = some out ∧
      Newest (fun _ => none) (entries loadsLine (fun _ => [])
        (some (unlines [wholeLine, bareLine])) []) .all 0 500 out := by
  constructor
  · intro r hr htime
    rcases List.mem_cons.1 hr with rfl | hr
    · exact ⟨wholeTime, rfl⟩
    · rw [List.mem_singleton.1 hr] at htime
      cases htime
  · rintro ⟨out, hout, -⟩
    have hnone : shown loadsLine (fun _ => []) (fun _ => none)
        (some (unlines [wholeLine, bareLine])) [] .all 0 500 = none := rfl
    rw [hnone] at hout
    cases hout

theorem shown_iff_wholeLine :
    (∀ r ∈ entries loadsLine (fun _ => []) (some (unlines [wholeLine])) [],
      r.Written fun _ => none) ∧
    ((∃ out, shown loadsLine (fun _ => []) (fun _ => none)
          (some (unlines [wholeLine])) [] .all 0 500 = some out ∧
        Newest (fun _ => none) (entries loadsLine (fun _ => [])
          (some (unlines [wholeLine])) []) .all 0 500 out) ↔
      (∀ v ∈ readLocal loadsLine (some (unlines [wholeLine])), IsEntry v) ∧
        ∀ r ∈ entries loadsLine (fun _ => []) (some (unlines [wholeLine])) [],
          Filter.all.keep r = true → (r.time fun _ => none).isSome) := by
  have hwritten : ∀ r ∈ entries loadsLine (fun _ => [])
      (some (unlines [wholeLine])) [], r.Written fun _ => none := by
    intro r hr _
    obtain rfl := List.mem_singleton.1 hr
    exact ⟨wholeTime, rfl⟩
  exact ⟨hwritten, shown_iff loadsLine (fun _ => []) (fun _ => none)
    (some (unlines [wholeLine])) [] .all 0 500 hwritten⟩

end Claim

end Audit
end Kelt
