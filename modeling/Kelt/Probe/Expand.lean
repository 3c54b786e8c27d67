import Kelt.Lib.Json
import Kelt.Lib.PyInt
import Mathlib.Data.Rat.Floor

/-!
# The experiments of a plan

`_expand_experiments` makes the entries of a plan from templates: one entry for
a template, or one for each bandwidth of its range. The loop over a range goes
on by the whole part of the step, so it need not end; `fuel` bounds its rounds,
and what it makes for enough fuel is what the code makes. Numbers are rational,
as JSON writes them.

The Unicode tables of `title` and `upper` are left open, and so is the value of
a text that is a number but none that `int` reads.
-/

namespace Kelt
namespace Probe

section Expand

/-- How far the code comes: it is still at work, raises, or returns. -/
inductive Course (α : Type) where
  | running
  | raised
  | done (a : α)

def Course.bind {α β : Type} : Course α → (α → Course β) → Course β
  | .running, _ => .running
  | .raised, _ => .raised
  | .done a, f => f a

abbrev ExpEntry := Json.Members ℚ

/-- The whole part, towards zero. -/
def trunc (q : ℚ) : Int :=
  if 0 ≤ q then ⌊q⌋ else ⌈q⌉

/-- `int(v)`, where it does not raise. -/
def pyInt : Json ℚ → Option Int
  | .num q => some (trunc q)
  | .bool b => some (if b then 1 else 0)
  | .str t => int10 t
  | _ => none

/-- `e.get(name, "")`, where it is a text. -/
def textField (name : String) (e : ExpEntry) : Option Text :=
  match Dict.getItem name.toList e with
  | none => some []
  | some (.str t) => some t
  | some _ => none

/-- `e.setdefault(name, value)` -/
def setDefault (e : ExpEntry) (field : Text × Json ℚ) : ExpEntry :=
  match Dict.getItem field.1 e with
  | none => Dict.setItem field.1 field.2 e
  | some _ => e

def withDefaults (e : ExpEntry) : ExpEntry :=
  [("state".toList, .str "pending".toList), ("result_path".toList, .null),
    ("error".toList, .null), ("started_at".toList, .null),
    ("completed_at".toList, .null)].foldl setDefault e

/-- `f"exp_{idx:03d}"` -/
def expId (idx : Nat) : Text :=
  "exp_".toList ++ (List.replicate (3 - (Nat.toDigits 10 idx).length) '0' ++
    Nat.toDigits 10 idx)

def bandwidthText (bw : Int) : Text :=
  intText bw ++ ['M']

/-- The template without the fields of the range. -/
def popRange (tmpl : ExpEntry) : ExpEntry :=
  Dict.eraseItem "bandwidth_step".toList
    (Dict.eraseItem "bandwidth_end".toList
      (Dict.eraseItem "bandwidth_start".toList tmpl))

def isNotNone : Json ℚ → Bool
  | .null => false
  | _ => true

/-- `bw_start`, `bw_end` and `bw_step`, when there is a range. -/
def rangeOf (tmpl : ExpEntry) : Option (Json ℚ × Json ℚ × Json ℚ) :=
  match Dict.getItem "bandwidth_start".toList tmpl,
    Dict.getItem "bandwidth_end".toList tmpl,
    Dict.getItem "bandwidth_step".toList tmpl with
  | some start, some stop, some step =>
      if isNotNone start && isNotNone stop && step.pyTrue then
        some (start, stop, step)
      else none
  | _, _, _ => none

variable (title upper : Text → Text)

def rangeLabel (e : ExpEntry) (bw : Int) : Option Text :=
  match textField "type" e, textField "direction" e, textField "protocol" e with
  | some type, some direction, some protocol =>
      some (strip (title type ++ ' ' :: upper direction ++
        ' ' :: upper protocol ++ ' ' :: bandwidthText bw))
  | _, _, _ => none

/-- The entry of a range for one bandwidth. -/
def rangeEntry (tmpl : ExpEntry) (bw : Int) (idx : Nat) : Option ExpEntry :=
  let e := Dict.setItem "id".toList (.str (expId idx))
    (Dict.setItem "bandwidth".toList (.str (bandwidthText bw)) tmpl)
  (rangeLabel title upper e bw).map fun label =>
    withDefaults (Dict.setItem "label".toList (.str label) e)

def asText : Json ℚ → Option Text
  | .str t => some t
  | _ => none

/-- `" ".join(p for p in parts if p).title()` -/
def singleLabel (e : ExpEntry) : Option Text :=
  (((["type", "direction", "protocol", "bandwidth"].filterMap fun name =>
    Dict.getItem name.toList e).filter Json.pyTrue).mapM asText).map fun parts =>
      title (List.intercalate [' '] parts)

/-- The entry of a template without a range. -/
def singleEntry (tmpl : ExpEntry) (idx : Nat) : Option ExpEntry :=
  let e := Dict.setItem "id".toList (.str (expId idx)) tmpl
  if (Dict.getItem "label".toList e).any Json.pyTrue then
    some (withDefaults e)
  else
    (singleLabel title e).map fun label =>
      withDefaults (Dict.setItem "label".toList (.str label) e)

/-- `while bw <= int(bw_end)`, with `result` and `idx`. -/
def rangeLoop (tmpl : ExpEntry) (stop step : Json ℚ) :
    Nat → Int → List ExpEntry × Nat → Course (List ExpEntry × Nat)
  | 0, _, _ => .running
  | fuel + 1, bw, (result, idx) =>
      match pyInt stop with
      | none => .raised
      | some last =>
          if bw ≤ last then
            match rangeEntry title upper tmpl bw idx, pyInt step with
            | some e, some by_ =>
                rangeLoop tmpl stop step fuel (bw + by_) (result ++ [e], idx + 1)
            | _, _ => .raised
          else .done (result, idx)

/-- A round of the loop over the templates. -/
def expandTemplate (fuel : Nat) (s : List ExpEntry × Nat) :
    Json ℚ → Course (List ExpEntry × Nat)
  | .obj tmpl =>
      match rangeOf tmpl with
      | some (start, stop, step) =>
          match pyInt start with
          | none => .raised
          | some bw => rangeLoop title upper (popRange tmpl) stop step fuel bw s
      | none =>
          match singleEntry title (popRange tmpl) s.2 with
          | none => .raised
          | some e => .done (s.1 ++ [e], s.2 + 1)
  | _ => .raised

def expandFrom (fuel : Nat) :
    List (Json ℚ) → List ExpEntry × Nat → Course (List ExpEntry)
  | [], s => .done s.1
  | tmpl :: rest, s =>
      (expandTemplate title upper fuel s tmpl).bind (expandFrom fuel rest)

/-- `_expand_experiments` -/
def expandExperiments (fuel : Nat) (raw : List (Json ℚ)) :
    Course (List ExpEntry) :=
  expandFrom title upper fuel raw ([], 1)

end Expand

section Expanded

/-- The value of a number, or of a text that is one. -/
def number (decimal : Text → Option ℚ) : Json ℚ → Option ℚ
  | .num q => some q
  | .bool b => some (if b then 1 else 0)
  | .str t =>
      match int10 t with
      | some n => some n
      | none => decimal t
  | _ => none

/-- The entry is for this bandwidth. -/
def Names (decimal : Text → Option ℚ) (e : ExpEntry) (v : ℚ) : Prop :=
  ∃ t, Dict.getItem "bandwidth".toList e = some (.str (t ++ ['M'])) ∧
    number decimal (.str t) = some v

/-- One entry for each value from `a` on in steps of `s` that is not above `b`,
in order. -/
def Covers (decimal : Text → Option ℚ) (part : List ExpEntry) (a b s : ℚ) :
    Prop :=
  ∀ k : Nat, (part[k]?.isSome ↔ a + k * s ≤ b) ∧
    ∀ e, part[k]? = some e → Names decimal e (a + k * s)

/-- The entry has the fields of the template that are not set for each. -/
def Keeps (tmpl e : ExpEntry) : Prop :=
  ∀ name v, name ∉ ["bandwidth_start", "bandwidth_end", "bandwidth_step",
      "bandwidth", "id", "label"].map String.toList →
    Dict.getItem name tmpl = some v → Dict.getItem name e = some v

/-- What a template should yield. -/
def PartOf (decimal : Text → Option ℚ) (part : List ExpEntry) :
    Json ℚ → Prop
  | .obj tmpl =>
      (∀ e ∈ part, Keeps tmpl e) ∧
        match rangeOf tmpl with
        | some (start, stop, step) =>
            ∀ a b s, number decimal start = some a →
              number decimal stop = some b → number decimal step = some s →
                Covers decimal part a b s
        | none => part.length = 1
  | _ => part.length = 1

variable (title upper : Text → Text)

/-- The code returns these entries. -/
def Yields (raw : List (Json ℚ)) (result : List ExpEntry) : Prop :=
  ∃ fuel, expandExperiments title upper fuel raw = .done result

/-- Each template adds what it should, and no two ids are the same. -/
structure Expanded (decimal : Text → Option ℚ) (raw : List (Json ℚ)) :
    Prop where
  whole : ∃ result, Yields title upper raw result ∧
    (result.map fun e => Dict.getItem "id".toList e).Nodup
  parts : ∀ before tmpl after, raw = before ++ tmpl :: after →
    ∃ result part, Yields title upper before result ∧
      Yields title upper (before ++ [tmpl]) (result ++ part) ∧
      PartOf decimal part tmpl

/-- All numbers of a range are numbers. -/
def NumericRange (decimal : Text → Option ℚ) : Json ℚ → Prop
  | .obj tmpl => ∀ start stop step, rangeOf tmpl = some (start, stop, step) →
      (number decimal start).isSome ∧ (number decimal stop).isSome ∧
        (number decimal step).isSome
  | _ => True

/-- What goes into the label of an entry of a range is a text. -/
def RangeLabelled (tmpl : ExpEntry) : Prop :=
  ∀ name ∈ ["type", "direction", "protocol"], ∀ v,
    Dict.getItem name.toList tmpl = some v → ∃ t, v = .str t

/-- There is a label, or what goes into it is a text. -/
def SingleLabelled (tmpl : ExpEntry) : Prop :=
  (∃ v, Dict.getItem "label".toList tmpl = some v ∧ v.pyTrue = true) ∨
    ∀ name ∈ ["type", "direction", "protocol", "bandwidth"], ∀ v,
      Dict.getItem name.toList tmpl = some v → v.pyTrue = true →
        ∃ t, v = .str t

/-- The whole numbers of the range make the same values as its numbers. -/
def RangeFits (tmpl : ExpEntry) (start stop step : Json ℚ) (a b s : ℚ) :
    Prop :=
  ∃ first last, pyInt start = some first ∧ pyInt stop = some last ∧
    ((0 ≤ s ∧ b < a ∧ last < first) ∨
      ((first : ℚ) = a ∧ a ≤ b ∧ RangeLabelled tmpl ∧
        ∃ by_, pyInt step = some by_ ∧ 1 ≤ by_ ∧
          (((by_ : ℚ) = s ∧ ((last : ℚ) ≤ b ∨ ¬ by_ ∣ last - first)) ∨
            (b < a + s ∧ last < first + by_))))

/-- The templates of which the code makes what it should. -/
def TemplateFits (decimal : Text → Option ℚ) : Json ℚ → Prop
  | .obj tmpl =>
      match rangeOf tmpl with
      | some (start, stop, step) =>
          ∀ a b s, number decimal start = some a →
            number decimal stop = some b → number decimal step = some s →
              RangeFits tmpl start stop step a b s
      | none => SingleLabelled tmpl
  | _ => False

end Expanded

section Numbers

theorem le_trunc {n : Int} {q : ℚ} (h : (n : ℚ) ≤ q) : n ≤ trunc q := by
  unfold trunc
  split
  · exact Int.le_floor.2 h
  · exact Int.cast_le.1 (h.trans (Int.le_ceil q))

theorem trunc_lt_add_one (q : ℚ) : (trunc q : ℚ) < q + 1 := by
  unfold trunc
  split
  · exact (Int.floor_le q).trans_lt (lt_add_one q)
  · exact Int.ceil_lt_add_one q

theorem pos_of_one_le_trunc {q : ℚ} (h : 1 ≤ trunc q) : 0 < q := by
  have hlt := trunc_lt_add_one q
  have hone : (1 : ℚ) ≤ trunc q := by exact_mod_cast h
  linarith

theorem trunc_intCast (n : Int) : trunc (n : ℚ) = n := by
  unfold trunc
  rw [Int.floor_intCast, Int.ceil_intCast, ite_self]

theorem pyInt_eq {decimal : Text → Option ℚ} {v : Json ℚ} {n : Int} {q : ℚ}
    (hint : pyInt v = some n) (hq : number decimal v = some q) :
    n = trunc q := by
  cases v with
  | num r =>
      obtain rfl := Option.some.inj hq
      exact (Option.some.inj hint).symm
  | bool b =>
      obtain rfl := Option.some.inj hq
      obtain rfl := Option.some.inj hint
      cases b
      · exact (trunc_intCast 0).symm
      · exact (trunc_intCast 1).symm
  | str t =>
      have hread : int10 t = some n := hint
      rw [number, hread] at hq
      obtain rfl := Option.some.inj hq
      exact (trunc_intCast n).symm
  | null => cases hint
  | arr items => cases hint
  | obj fields => cases hint

/-- A descending range has values that are not above its end. -/
theorem forall_not_le_iff (a b s : ℚ) :
    (∀ k : Nat, ¬ a + k * s ≤ b) ↔ 0 ≤ s ∧ b < a := by
  constructor
  · intro h
    have hfirst := h 0
    rw [Nat.cast_zero, zero_mul, add_zero] at hfirst
    refine ⟨?_, not_le.1 hfirst⟩
    by_contra hneg
    obtain ⟨k, hk⟩ := exists_nat_ge ((a - b) / -s)
    have hpos : 0 < -s := by linarith
    rw [div_le_iff₀ hpos] at hk
    exact h k (by linarith)
  · rintro ⟨hs, hab⟩ k hk
    have hmul : 0 ≤ (k : ℚ) * s := mul_nonneg (Nat.cast_nonneg k) hs
    linarith

variable {a b s : ℚ} {first last by_ : Int} {n : Nat}

/-- The rounds of the loop are the values up to the last. -/
theorem lt_rounds_iff (hby : 0 ≤ by_) (hin : ∀ k < n, first + k * by_ ≤ last)
    (hout : last < first + n * by_) (k : Nat) :
    k < n ↔ first + k * by_ ≤ last := by
  refine ⟨hin k, fun hle => ?_⟩
  by_contra hnot
  have hmul : (n : Int) * by_ ≤ k * by_ :=
    Int.mul_le_mul_of_nonneg_right (by exact_mod_cast Nat.not_lt.1 hnot) hby
  omega

theorem one_le_of_rounds (hn : 0 < n) (hin : ∀ k < n, first + k * by_ ≤ last)
    (hout : last < first + n * by_) : 1 ≤ by_ := by
  have hfirst := hin 0 hn
  by_contra hnot
  have hmul : (n : Int) * by_ ≤ 0 :=
    Int.mul_nonpos_of_nonneg_of_nonpos (Int.natCast_nonneg n) (by omega)
  rw [Nat.cast_zero, Int.zero_mul, Int.add_zero] at hfirst
  omega

/-- The same values, when the loop has a round at all. -/
theorem rounds_iff (hn : 0 < n) (hin : ∀ k < n, first + k * by_ ≤ last)
    (hout : last < first + n * by_) (hlast : last = trunc b)
    (hstep : by_ = trunc s) :
    (∀ k : Nat, (k < n ↔ a + k * s ≤ b) ∧
        (k < n → ((first + k * by_ : Int) : ℚ) = a + k * s)) ↔
      (first : ℚ) = a ∧ a ≤ b ∧
        (((by_ : ℚ) = s ∧ ((last : ℚ) ≤ b ∨ ¬ by_ ∣ last - first)) ∨
          (b < a + s ∧ last < first + by_)) := by
  have hby := one_le_of_rounds hn hin hout
  have hrounds := lt_rounds_iff (by omega) hin hout
  constructor
  · intro h
    obtain ⟨hzero, hval⟩ := h 0
    rw [Nat.cast_zero, zero_mul, add_zero] at hzero
    have hfirst : (first : ℚ) = a := by
      have hval' := hval hn
      push_cast at hval'
      linarith
    refine ⟨hfirst, hzero.1 hn, ?_⟩
    by_cases hone : n = 1
    · subst hone
      right
      have hnext := mt (h 1).1.2 (lt_irrefl 1)
      push_cast at hnext hout
      constructor
      · linarith
      · omega
    · left
      have hnext := (h 1).2 (by omega)
      push_cast at hnext
      have hs : (by_ : ℚ) = s := by linarith
      refine ⟨hs, ?_⟩
      by_contra hnot
      rw [not_or, not_le, not_not] at hnot
      obtain ⟨hlt, d, hd⟩ := hnot
      -- the last whole number is a value of the loop, but above the end
      have hfl := hin 0 hn
      rw [Nat.cast_zero, Int.zero_mul, Int.add_zero] at hfl
      have hdpos : 0 ≤ d := by
        by_contra hneg
        have hmul : by_ * d ≤ by_ * (-1) :=
          Int.mul_le_mul_of_nonneg_left (by omega) (by omega)
        omega
      obtain ⟨k, rfl⟩ := Int.eq_ofNat_of_zero_le hdpos
      have hk : first + (k : Int) * by_ = last := by
        rw [Int.mul_comm]
        omega
      have hkn : k < n := (hrounds k).2 (le_of_eq hk)
      have hle := (h k).1.1 hkn
      rw [← (h k).2 hkn, hk] at hle
      linarith
  · rintro ⟨hfirst, hab, ⟨hs, hend⟩ | ⟨hab', hlast'⟩⟩ k
    · have hval : ((first + k * by_ : Int) : ℚ) = a + k * s := by
        push_cast
        rw [hfirst, hs]
      refine ⟨?_, fun _ => hval⟩
      rw [hrounds, ← hval]
      constructor
      · intro hle
        rcases hend with hend | hend
        · exact le_trans (by exact_mod_cast hle) hend
        · have hne : first + k * by_ ≠ last := by
            intro heq
            exact hend ⟨k, by rw [Int.mul_comm]; omega⟩
          have hlt : first + k * by_ ≤ last - 1 := by omega
          have hb := trunc_lt_add_one b
          rw [← hlast] at hb
          have hcast : ((first + k * by_ : Int) : ℚ) ≤ last - 1 := by
            exact_mod_cast hlt
          linarith
      · intro hle
        rw [hlast]
        exact le_trunc hle
    · have hspos : 0 < s := pos_of_one_le_trunc (hstep ▸ hby)
      have hone : n = 1 := by
        have hlt := (hrounds 1).not.2 (by push_cast; omega)
        omega
      subst hone
      constructor
      · constructor
        · intro hk
          obtain rfl : k = 0 := by omega
          rw [Nat.cast_zero, zero_mul, add_zero]
          exact hab
        · intro hle
          by_contra hk
          have hcast : (1 : ℚ) ≤ k := by exact_mod_cast Nat.not_lt.1 hk
          have hmul : 1 * s ≤ k * s := mul_le_mul_of_nonneg_right hcast hspos.le
          linarith
      · intro hk
        obtain rfl : k = 0 := by omega
        push_cast
        rw [hfirst]
        ring

end Numbers

section Entries

variable (title upper : Text → Text) {tmpl e : ExpEntry} {bw : Int} {idx : Nat}

theorem getItem_withDefaults {name : Text} {v : Json ℚ}
    (h : Dict.getItem name e = some v) :
    Dict.getItem name (withDefaults e) = some v := by
  unfold withDefaults
  generalize [("state".toList, Json.str "pending".toList),
    ("result_path".toList, .null), ("error".toList, .null),
    ("started_at".toList, .null), ("completed_at".toList, .null)] = fields
  induction fields generalizing e with
  | nil => exact h
  | cons field fields ih =>
      refine ih ?_
      unfold setDefault
      split
      · rename_i hnone
        rw [Dict.getItem_setItem, if_neg, h]
        rintro rfl
        rw [hnone] at h
        cases h
      · exact h

theorem getItem_popRange {name : Text}
    (h : name ∉ ["bandwidth_start", "bandwidth_end", "bandwidth_step"].map
      String.toList) :
    Dict.getItem name (popRange tmpl) = Dict.getItem name tmpl := by
  simp only [List.map_cons, List.map_nil, List.mem_cons, List.not_mem_nil,
    or_false, not_or] at h
  obtain ⟨hstart, hend, hstep⟩ := h
  rw [popRange, Dict.getItem_eraseItem, if_neg (Ne.symm hstep),
    Dict.getItem_eraseItem, if_neg (Ne.symm hend), Dict.getItem_eraseItem,
    if_neg (Ne.symm hstart)]

theorem mapM_asText_isSome (vs : List (Json ℚ)) :
    (vs.mapM asText).isSome ↔ ∀ v ∈ vs, ∃ t, v = .str t := by
  induction vs with
  | nil => simp
  | cons v vs ih =>
      rw [List.mapM_cons, List.forall_mem_cons, ← ih]
      cases v with
      | str t => cases vs.mapM asText <;> simp [asText]
      | _ => simp [asText]

theorem singleLabel_isSome (e : ExpEntry) :
    (singleLabel title e).isSome ↔
      ∀ name ∈ ["type", "direction", "protocol", "bandwidth"], ∀ v,
        Dict.getItem name.toList e = some v → v.pyTrue = true →
          ∃ t, v = .str t := by
  rw [singleLabel, Option.isSome_map, mapM_asText_isSome]
  simp only [List.mem_filter, List.mem_filterMap]
  constructor
  · intro h name hname v hv htrue
    exact h v ⟨⟨name, hname, hv⟩, htrue⟩
  · rintro h v ⟨⟨name, hname, hv⟩, htrue⟩
    exact h name hname v hv htrue

theorem textField_isSome (name : String) (e : ExpEntry) :
    (textField name e).isSome ↔
      ∀ v, Dict.getItem name.toList e = some v → ∃ t, v = .str t := by
  unfold textField
  cases Dict.getItem name.toList e with
  | none => simp
  | some v =>
      cases v with
      | str t => simp
      | _ => simp

theorem rangeLabel_isSome (e : ExpEntry) (bw : Int) :
    (rangeLabel title upper e bw).isSome ↔ RangeLabelled e := by
  have hfields : RangeLabelled e ↔ (textField "type" e).isSome ∧
      (textField "direction" e).isSome ∧ (textField "protocol" e).isSome := by
    simp only [textField_isSome, RangeLabelled, List.mem_cons,
      List.not_mem_nil, or_false, forall_eq_or_imp, forall_eq]
  rw [hfields, rangeLabel]
  cases textField "type" e with
  | none => simp
  | some type =>
      cases textField "direction" e with
      | none => simp
      | some direction => cases textField "protocol" e <;> simp

theorem rangeEntry_isSome :
    (rangeEntry title upper (popRange tmpl) bw idx).isSome ↔
      RangeLabelled tmpl := by
  rw [rangeEntry, Option.isSome_map, rangeLabel_isSome]
  have hsame : ∀ name ∈ ["type", "direction", "protocol"],
      Dict.getItem name.toList (Dict.setItem "id".toList (.str (expId idx))
        (Dict.setItem "bandwidth".toList (.str (bandwidthText bw))
          (popRange tmpl))) = Dict.getItem name.toList tmpl := by
    intro name hname
    have hne : "id".toList ≠ name.toList ∧ "bandwidth".toList ≠ name.toList ∧
        name.toList ∉ ["bandwidth_start", "bandwidth_end",
          "bandwidth_step"].map String.toList := by
      simp only [List.mem_cons, List.not_mem_nil, or_false] at hname
      rcases hname with rfl | rfl | rfl
      all_goals decide
    rw [Dict.getItem_setItem, if_neg hne.1, Dict.getItem_setItem,
      if_neg hne.2.1, getItem_popRange hne.2.2]
  unfold RangeLabelled
  refine forall₂_congr fun name hname => ?_
  rw [hsame name hname]

/-- The id, the bandwidth and the template of an entry of a range. -/
theorem of_rangeEntry
    (h : rangeEntry title upper (popRange tmpl) bw idx = some e) :
    Dict.getItem "id".toList e = some (.str (expId idx)) ∧
      Dict.getItem "bandwidth".toList e = some (.str (bandwidthText bw)) ∧
      Keeps tmpl e := by
  obtain ⟨label, -, rfl⟩ := Option.map_eq_some_iff.1 h
  refine ⟨getItem_withDefaults ?_, getItem_withDefaults ?_,
    fun name v hname hv => getItem_withDefaults ?_⟩
  · rw [Dict.getItem_setItem, if_neg (by decide), Dict.getItem_setItem,
      if_pos rfl]
  · rw [Dict.getItem_setItem, if_neg (by decide), Dict.getItem_setItem,
      if_neg (by decide), Dict.getItem_setItem, if_pos rfl]
  · have hrange : name ∉ ["bandwidth_start", "bandwidth_end",
        "bandwidth_step"].map String.toList := by
      simp only [List.map_cons, List.map_nil, List.mem_cons, List.not_mem_nil,
        or_false, not_or] at hname ⊢
      exact ⟨hname.1, hname.2.1, hname.2.2.1⟩
    simp only [List.map_cons, List.map_nil, List.mem_cons, List.not_mem_nil,
      or_false, not_or] at hname
    obtain ⟨-, -, -, hbandwidth, hid, hlabel⟩ := hname
    rw [Dict.getItem_setItem, if_neg (Ne.symm hlabel), Dict.getItem_setItem,
      if_neg (Ne.symm hid), Dict.getItem_setItem, if_neg (Ne.symm hbandwidth),
      getItem_popRange hrange, hv]

theorem getItem_id_popRange {name : Text} (hid : "id".toList ≠ name)
    (h : name ∉ ["bandwidth_start", "bandwidth_end", "bandwidth_step"].map
      String.toList) :
    Dict.getItem name (Dict.setItem "id".toList (.str (expId idx))
      (popRange tmpl)) = Dict.getItem name tmpl := by
  rw [Dict.getItem_setItem, if_neg hid, getItem_popRange h]

theorem singleEntry_isSome :
    (singleEntry title (popRange tmpl) idx).isSome ↔ SingleLabelled tmpl := by
  have hlabel : (∃ v, Dict.getItem "label".toList tmpl = some v ∧
      v.pyTrue = true) ↔ (Dict.getItem "label".toList tmpl).any Json.pyTrue := by
    rw [Option.any_eq_true]
  rw [singleEntry, getItem_id_popRange (by decide) (by decide), SingleLabelled,
    hlabel]
  by_cases htrue : (Dict.getItem "label".toList tmpl).any Json.pyTrue = true
  · rw [if_pos htrue]
    exact iff_of_true rfl (.inl htrue)
  · rw [if_neg htrue, Option.isSome_map, singleLabel_isSome, or_iff_right htrue]
    refine forall₂_congr fun name hname => ?_
    have hne : "id".toList ≠ name.toList ∧ name.toList ∉ ["bandwidth_start",
        "bandwidth_end", "bandwidth_step"].map String.toList := by
      simp only [List.mem_cons, List.not_mem_nil, or_false] at hname
      rcases hname with rfl | rfl | rfl | rfl
      all_goals decide
    rw [getItem_id_popRange hne.1 hne.2]

/-- The id and the template of an entry of its own. -/
theorem of_singleEntry
    (h : singleEntry title (popRange tmpl) idx = some e) :
    Dict.getItem "id".toList e = some (.str (expId idx)) ∧ Keeps tmpl e := by
  have hid : Dict.getItem "id".toList (Dict.setItem "id".toList
      (.str (expId idx)) (popRange tmpl)) = some (.str (expId idx)) := by
    rw [Dict.getItem_setItem, if_pos rfl]
  have hkeeps : ∀ name v, name ∉ ["bandwidth_start", "bandwidth_end",
      "bandwidth_step", "bandwidth", "id", "label"].map String.toList →
      Dict.getItem name tmpl = some v → "label".toList ≠ name ∧
        Dict.getItem name (Dict.setItem "id".toList (.str (expId idx))
          (popRange tmpl)) = some v := by
    intro name v hname hv
    simp only [List.map_cons, List.map_nil, List.mem_cons, List.not_mem_nil,
      or_false, not_or] at hname
    obtain ⟨hstart, hend, hstep, -, hid, hlabel⟩ := hname
    refine ⟨Ne.symm hlabel, ?_⟩
    rw [getItem_id_popRange (Ne.symm hid), hv]
    simp only [List.map_cons, List.map_nil, List.mem_cons, List.not_mem_nil,
      or_false, not_or]
    exact ⟨hstart, hend, hstep⟩
  unfold singleEntry at h
  simp only at h
  split at h
  · obtain rfl := Option.some.inj h
    exact ⟨getItem_withDefaults hid, fun name v hname hv =>
      getItem_withDefaults (hkeeps name v hname hv).2⟩
  · obtain ⟨label, -, rfl⟩ := Option.map_eq_some_iff.1 h
    refine ⟨getItem_withDefaults ?_, fun name v hname hv =>
      getItem_withDefaults ?_⟩
    · rw [Dict.getItem_setItem, if_neg (by decide), hid]
    · obtain ⟨hlabel, hv⟩ := hkeeps name v hname hv
      rw [Dict.getItem_setItem, if_neg hlabel, hv]

theorem expId_injective : Function.Injective expId := by
  intro i j h
  have hpad := congrArg (fun t => Nat.ofDigitChars 10 t 0)
    (List.append_cancel_left h)
  simpa [Nat.ofDigitChars_append, Nat.ofDigitChars_replicate_zero,
    Nat.ofDigitChars_ten_toDigits] using hpad

end Entries

section Loops

variable (title upper : Text → Text)

/-- The rounds that the loop over a range makes, and their entries. -/
inductive Rounds (tmpl : ExpEntry) (stop step : Json ℚ) :
    Int → Nat → List ExpEntry → Prop
  | past {bw last : Int} {idx : Nat}
      (hlast : pyInt stop = some last) (hlt : last < bw) :
      Rounds tmpl stop step bw idx []
  | round {bw last by_ : Int} {idx : Nat} {e : ExpEntry}
      {part : List ExpEntry}
      (hlast : pyInt stop = some last) (hle : bw ≤ last)
      (he : rangeEntry title upper tmpl bw idx = some e)
      (hby : pyInt step = some by_)
      (hrest : Rounds tmpl stop step (bw + by_) (idx + 1) part) :
      Rounds tmpl stop step bw idx (e :: part)

/-- What a template adds to the entries. -/
inductive Adds : Json ℚ → Nat → List ExpEntry → Prop
  | range {tmpl : ExpEntry} {start stop step : Json ℚ} {bw : Int} {idx : Nat}
      {part : List ExpEntry}
      (hrange : rangeOf tmpl = some (start, stop, step))
      (hstart : pyInt start = some bw)
      (hrounds : Rounds title upper (popRange tmpl) stop step bw idx part) :
      Adds (.obj tmpl) idx part
  | single {tmpl e : ExpEntry} {idx : Nat} (hrange : rangeOf tmpl = none)
      (he : singleEntry title (popRange tmpl) idx = some e) :
      Adds (.obj tmpl) idx [e]

inductive Makes : List (Json ℚ) → Nat → List ExpEntry → Prop
  | nil (idx : Nat) : Makes [] idx []
  | cons {tmpl : Json ℚ} {raw : List (Json ℚ)} {idx : Nat}
      {part more : List ExpEntry} (hadds : Adds title upper tmpl idx part)
      (hmore : Makes raw (idx + part.length) more) :
      Makes (tmpl :: raw) idx (part ++ more)

variable {title upper : Text → Text} {tmpl : ExpEntry} {stop step : Json ℚ}
  {bw : Int} {idx fuel : Nat} {part result : List ExpEntry}

theorem rangeLoop_of_rounds (h : Rounds title upper tmpl stop step bw idx part)
    (hfuel : part.length < fuel) :
    rangeLoop title upper tmpl stop step fuel bw (result, idx) =
      .done (result ++ part, idx + part.length) := by
  induction h generalizing fuel result with
  | past hlast hlt =>
      cases fuel with
      | zero => cases hfuel
      | succ fuel =>
          simp only [rangeLoop, hlast, if_neg (Int.not_le.2 hlt),
            List.append_nil]
          rfl
  | @round bw last by_ idx e part hlast hle he hby hrest ih =>
      cases fuel with
      | zero => cases hfuel
      | succ fuel =>
          simp only [rangeLoop, hlast, if_pos hle, he, hby]
          rw [ih (Nat.lt_of_succ_lt_succ hfuel), List.append_assoc,
            List.length_cons, Nat.add_assoc, Nat.add_comm 1]
          rfl

theorem rounds_of_rangeLoop {s : List ExpEntry × Nat}
    (h : rangeLoop title upper tmpl stop step fuel bw (result, idx) =
      .done s) :
    ∃ part, Rounds title upper tmpl stop step bw idx part ∧
      s = (result ++ part, idx + part.length) := by
  induction fuel generalizing bw idx result with
  | zero => cases h
  | succ fuel ih =>
      rw [rangeLoop] at h
      cases hlast : pyInt stop with
      | none =>
          rw [hlast] at h
          cases h
      | some last =>
          simp only [hlast] at h
          by_cases hle : bw ≤ last
          · rw [if_pos hle] at h
            cases he : rangeEntry title upper tmpl bw idx with
            | none =>
                rw [he] at h
                cases h
            | some e =>
                cases hby : pyInt step with
                | none =>
                    rw [he, hby] at h
                    cases h
                | some by_ =>
                    simp only [he, hby] at h
                    obtain ⟨part, hrest, rfl⟩ := ih h
                    refine ⟨e :: part, .round hlast hle he hby hrest, ?_⟩
                    rw [List.append_assoc, List.length_cons, Nat.add_assoc,
                      Nat.add_comm 1]
                    rfl
          · rw [if_neg hle] at h
            cases h
            refine ⟨[], .past hlast (Int.not_le.1 hle), ?_⟩
            rw [List.append_nil]
            rfl

theorem expandTemplate_of_adds {t : Json ℚ}
    (h : Adds title upper t idx part) (hfuel : part.length < fuel) :
    expandTemplate title upper fuel (result, idx) t =
      .done (result ++ part, idx + part.length) := by
  cases h with
  | range hrange hstart hrounds =>
      simp only [expandTemplate, hrange, hstart]
      exact rangeLoop_of_rounds hrounds hfuel
  | single hrange he => simp only [expandTemplate, hrange, he]; rfl

theorem adds_of_expandTemplate {t : Json ℚ} {s : List ExpEntry × Nat}
    (h : expandTemplate title upper fuel (result, idx) t = .done s) :
    ∃ part, Adds title upper t idx part ∧
      s = (result ++ part, idx + part.length) := by
  cases t with
  | obj tmpl =>
      cases hrange : rangeOf tmpl with
      | none =>
          cases he : singleEntry title (popRange tmpl) idx with
          | none =>
              simp only [expandTemplate, hrange, he] at h
              cases h
          | some e =>
              simp only [expandTemplate, hrange, he] at h
              cases h
              exact ⟨[e], .single hrange he, rfl⟩
      | some range =>
          obtain ⟨start, stop, step⟩ := range
          cases hstart : pyInt start with
          | none =>
              simp only [expandTemplate, hrange, hstart] at h
              cases h
          | some bw =>
              simp only [expandTemplate, hrange, hstart] at h
              obtain ⟨part, hrounds, hs⟩ := rounds_of_rangeLoop h
              exact ⟨part, .range hrange hstart hrounds, hs⟩
  | _ => cases h

theorem expandFrom_of_makes {raw : List (Json ℚ)} {more : List ExpEntry}
    (h : Makes title upper raw idx more) (hfuel : more.length < fuel) :
    expandFrom title upper fuel raw (result, idx) = .done (result ++ more) := by
  induction h generalizing result with
  | nil idx => rw [List.append_nil]; rfl
  | @cons tmpl raw idx part more hadds hmore ih =>
      rw [List.length_append] at hfuel
      rw [expandFrom, expandTemplate_of_adds hadds (by omega), Course.bind,
        ih (by omega), List.append_assoc]

theorem makes_of_expandFrom {raw : List (Json ℚ)} {r : List ExpEntry}
    (h : expandFrom title upper fuel raw (result, idx) = .done r) :
    ∃ more, Makes title upper raw idx more ∧ r = result ++ more := by
  induction raw generalizing result idx with
  | nil =>
      cases h
      exact ⟨[], .nil idx, (List.append_nil _).symm⟩
  | cons t raw ih =>
      rw [expandFrom] at h
      cases ht : expandTemplate title upper fuel (result, idx) t with
      | running =>
          rw [ht] at h
          cases h
      | raised =>
          rw [ht] at h
          cases h
      | done s =>
          rw [ht] at h
          obtain ⟨part, hadds, rfl⟩ := adds_of_expandTemplate ht
          obtain ⟨more, hmore, rfl⟩ := ih h
          exact ⟨part ++ more, .cons hadds hmore, List.append_assoc _ _ _⟩

/-- What the code returns. -/
theorem yields_iff {raw : List (Json ℚ)} {r : List ExpEntry} :
    Yields title upper raw r ↔ Makes title upper raw 1 r := by
  constructor
  · rintro ⟨fuel, h⟩
    obtain ⟨more, hmore, rfl⟩ := makes_of_expandFrom h
    exact hmore
  · intro h
    exact ⟨r.length + 1, expandFrom_of_makes h (Nat.lt_succ_self _)⟩

theorem Makes.eq {raw : List (Json ℚ)} {r r' : List ExpEntry}
    (h : Makes title upper raw idx r) (h' : Makes title upper raw idx r') :
    r = r' := by
  have hdone : expandFrom title upper (max r.length r'.length + 1) raw
      ([], idx) = .done ([] ++ r) :=
    expandFrom_of_makes h (Nat.lt_succ_of_le (Nat.le_max_left _ _))
  rw [expandFrom_of_makes h'
    (Nat.lt_succ_of_le (Nat.le_max_right _ _))] at hdone
  cases hdone
  rfl

/-- After the templates that come first, a template adds what it adds. -/
theorem makes_concat_iff {before : List (Json ℚ)} {t : Json ℚ}
    {r : List ExpEntry} :
    Makes title upper (before ++ [t]) idx r ↔
      ∃ r₀ part, Makes title upper before idx r₀ ∧
        Adds title upper t (idx + r₀.length) part ∧ r = r₀ ++ part := by
  induction before generalizing idx r with
  | nil =>
      constructor
      · rintro (_ | ⟨hadds, hmore⟩)
        cases hmore
        exact ⟨[], _, .nil idx, hadds, List.append_nil _⟩
      · rintro ⟨r₀, part, hbefore, hadds, rfl⟩
        cases hbefore
        have hmakes := Makes.cons hadds (.nil _)
        rwa [List.append_nil] at hmakes
  | cons t₀ before ih =>
      constructor
      · rintro (_ | ⟨hfirst, hmore⟩)
        obtain ⟨r₀, part, hbefore, hadds, rfl⟩ := ih.1 hmore
        refine ⟨_, part, .cons hfirst hbefore, ?_,
          (List.append_assoc _ _ _).symm⟩
        rwa [List.length_append, ← Nat.add_assoc]
      · rintro ⟨r₀, part, hbefore, hadds, rfl⟩
        cases hbefore with
        | cons hfirst hmore =>
            rw [List.append_assoc]
            refine .cons hfirst (ih.2 ⟨_, part, hmore, ?_, rfl⟩)
            rwa [List.length_append, ← Nat.add_assoc] at hadds

end Loops

section Claim

variable {title upper : Text → Text} {decimal : Text → Option ℚ}
  {tmpl : ExpEntry} {start stop step : Json ℚ} {bw last by_ : Int}
  {idx : Nat} {part : List ExpEntry} {a b s : ℚ}

theorem next_value (bw by_ : Int) (k : Nat) :
    bw + by_ + k * by_ = bw + (k + 1 : Nat) * by_ := by
  push_cast
  ring

/-- The entries of a range, each at its place. -/
theorem Rounds.getElem? (h : Rounds title upper tmpl stop step bw idx part)
    (hby : part ≠ [] → pyInt step = some by_) {k : Nat} {e : ExpEntry}
    (hk : part[k]? = some e) :
    rangeEntry title upper tmpl (bw + k * by_) (idx + k) = some e := by
  induction h generalizing k with
  | past hlast hlt => cases hk
  | @round bw last by' idx e' part hlast hle he hby' hrest ih =>
      obtain rfl := Option.some.inj (hby'.symm.trans (hby (List.cons_ne_nil _ _)))
      cases k with
      | zero =>
          obtain rfl := Option.some.inj hk
          rw [Nat.cast_zero, Int.zero_mul, Int.add_zero]
          exact he
      | succ k =>
          have hentry := ih (fun _ => hby') hk
          rwa [next_value, Nat.add_assoc, Nat.add_comm 1] at hentry

/-- The loop ends behind the last value that is not above the end. -/
theorem Rounds.bounds (h : Rounds title upper tmpl stop step bw idx part)
    (hlast : pyInt stop = some last)
    (hby : part ≠ [] → pyInt step = some by_) :
    (∀ k < part.length, bw + k * by_ ≤ last) ∧
      last < bw + part.length * by_ := by
  induction h with
  | past hlast' hlt =>
      obtain rfl := Option.some.inj (hlast.symm.trans hlast')
      refine ⟨fun k hk => absurd hk (Nat.not_lt_zero k), ?_⟩
      rwa [List.length_nil, Nat.cast_zero, Int.zero_mul, Int.add_zero]
  | @round bw last' by' idx e part hlast' hle he hby' hrest ih =>
      obtain rfl := Option.some.inj (hlast.symm.trans hlast')
      obtain rfl := Option.some.inj (hby'.symm.trans (hby (List.cons_ne_nil _ _)))
      obtain ⟨hin, hout⟩ := ih fun _ => hby'
      constructor
      · intro k hk
        cases k with
        | zero => rwa [Nat.cast_zero, Int.zero_mul, Int.add_zero]
        | succ k =>
            rw [← next_value]
            exact hin k (Nat.lt_of_succ_lt_succ hk)
      · rwa [List.length_cons, ← next_value]

/-- A loop that goes up comes to its end. -/
theorem exists_rounds (title upper : Text → Text)
    (hlast : pyInt stop = some last) (hstep : pyInt step = some by_)
    (hby : 1 ≤ by_) (hlabel : RangeLabelled tmpl) (n : Nat) (bw : Int)
    (idx : Nat) (hn : last < bw + n) :
    ∃ part, Rounds title upper (popRange tmpl) stop step bw idx part := by
  induction n generalizing bw idx with
  | zero =>
      refine ⟨[], .past hlast ?_⟩
      omega
  | succ n ih =>
      by_cases hle : bw ≤ last
      · obtain ⟨part, hrest⟩ := ih (bw + by_) (idx + 1) (by omega)
        have hsome : (rangeEntry title upper (popRange tmpl) bw idx).isSome :=
          (rangeEntry_isSome title upper).2 hlabel
        obtain ⟨e, he⟩ := Option.isSome_iff_exists.1 hsome
        exact ⟨e :: part, .round hlast hle he hstep hrest⟩
      · exact ⟨[], .past hlast (Int.not_le.1 hle)⟩

theorem names_iff {e : ExpEntry} {n : Int} {v : ℚ}
    (h : Dict.getItem "bandwidth".toList e = some (.str (bandwidthText n))) :
    Names decimal e v ↔ (n : ℚ) = v := by
  have hnumber : number decimal (.str (intText n)) = some (n : ℚ) := by
    rw [number, int10_intText]
  constructor
  · rintro ⟨t, ht, hv⟩
    rw [h] at ht
    obtain rfl : intText n = t :=
      List.append_cancel_right (Json.str.inj (Option.some.inj ht))
    exact Option.some.inj (hnumber.symm.trans hv)
  · rintro rfl
    exact ⟨intText n, h, hnumber⟩

theorem Rounds.keeps (h : Rounds title upper (popRange tmpl) stop step bw idx
    part) : ∀ e ∈ part, Keeps tmpl e := by
  induction h with
  | past hlast hlt => exact List.forall_mem_nil _
  | round hlast hle he hby hrest ih =>
      exact List.forall_mem_cons.2 ⟨(of_rangeEntry title upper he).2.2, ih⟩

/-- What the loop makes covers the range exactly when the range fits. -/
theorem Rounds.covers_iff
    (h : Rounds title upper (popRange tmpl) stop step bw idx part)
    (hstart : pyInt start = some bw) (hb : number decimal stop = some b)
    (hs : number decimal step = some s) :
    Covers decimal part a b s ↔ RangeFits tmpl start stop step a b s := by
  cases hcases : h with
  | @past _ last _ hlast hlt =>
      have hcovers : Covers decimal [] a b s ↔ ∀ k : Nat, ¬ a + k * s ≤ b := by
        refine forall_congr' fun k => ?_
        simp
      rw [hcovers, forall_not_le_iff]
      constructor
      · rintro ⟨hs0, hab⟩
        exact ⟨bw, last, hstart, hlast, .inl ⟨hs0, hab, hlt⟩⟩
      · rintro ⟨first', last', hstart', hlast', ⟨hs0, hab, -⟩ |
          ⟨heq, hab, -⟩⟩
        · exact ⟨hs0, hab⟩
        · obtain rfl := Option.some.inj (hstart.symm.trans hstart')
          rw [pyInt_eq hlast hb] at hlt
          exact absurd (le_trunc (heq.le.trans hab)) (Int.not_le.2 hlt)
  | @round _ last by_ _ e part hlast hle he hby hrest =>
      obtain ⟨hin, hout⟩ := h.bounds hlast fun _ => hby
      have hentry := fun (k : Nat) e => h.getElem? (k := k) (e := e) fun _ => hby
      have hnames : Covers decimal (e :: part) a b s ↔
          ∀ k : Nat, (k < (e :: part).length ↔ a + k * s ≤ b) ∧
            (k < (e :: part).length →
              ((bw + k * by_ : Int) : ℚ) = a + k * s) := by
        refine forall_congr' fun k => ?_
        have hsome : (e :: part)[k]?.isSome ↔ k < (e :: part).length := by
          simp
        rw [hsome]
        refine and_congr_right fun _ => ?_
        constructor
        · intro hall hk
          have hget := List.getElem?_eq_getElem hk
          exact (names_iff (of_rangeEntry title upper (hentry k _ hget)).2.1).1
            (hall _ hget)
        · intro hval e' he'
          exact (names_iff (of_rangeEntry title upper (hentry k _ he')).2.1).2
            (hval (List.getElem?_eq_some_iff.1 he').1)
      have hlabel := (rangeEntry_isSome title upper).1 (Option.isSome_of_eq_some he)
      have hpos : 0 < (e :: part).length := Nat.succ_pos _
      have hone := one_le_of_rounds hpos hin hout
      rw [hnames, rounds_iff hpos hin hout (pyInt_eq hlast hb)
        (pyInt_eq hby hs)]
      constructor
      · rintro ⟨heq, hab, hfits⟩
        exact ⟨bw, last, hstart, hlast, .inr ⟨heq, hab, hlabel, by_, hby, hone,
          hfits⟩⟩
      · rintro ⟨first', last', hstart', hlast', h⟩
        obtain rfl := Option.some.inj (hstart.symm.trans hstart')
        obtain rfl := Option.some.inj (hlast.symm.trans hlast')
        rcases h with ⟨-, -, hlt⟩ | ⟨heq, hab, -, by', hby', -, hfits⟩
        · exact absurd hle (Int.not_le.2 hlt)
        · obtain rfl := Option.some.inj (hby.symm.trans hby')
          exact ⟨heq, hab, hfits⟩

theorem adds_partOf_iff {t : Json ℚ} (h : Adds title upper t idx part)
    (hnumeric : NumericRange decimal t) :
    PartOf decimal part t ↔ TemplateFits decimal t := by
  cases h with
  | @range tmpl start stop step bw _ _ hrange hstart hrounds =>
      obtain ⟨ha, hb, hs⟩ := hnumeric start stop step hrange
      obtain ⟨a, ha⟩ := Option.isSome_iff_exists.1 ha
      obtain ⟨b, hb⟩ := Option.isSome_iff_exists.1 hb
      obtain ⟨s, hs⟩ := Option.isSome_iff_exists.1 hs
      have hcovers := hrounds.covers_iff (a := a) hstart hb hs
      simp only [PartOf, TemplateFits, hrange]
      constructor
      · rintro ⟨-, hall⟩ a' b' s' ha' hb' hs'
        obtain rfl := Option.some.inj (ha.symm.trans ha')
        obtain rfl := Option.some.inj (hb.symm.trans hb')
        obtain rfl := Option.some.inj (hs.symm.trans hs')
        exact hcovers.1 (hall a b s ha hb hs)
      · refine fun hall => ⟨hrounds.keeps, fun a' b' s' ha' hb' hs' => ?_⟩
        exact (hrounds.covers_iff hstart hb' hs').2 (hall a' b' s' ha' hb' hs')
  | @single tmpl e _ hrange he =>
      simp only [PartOf, TemplateFits, hrange]
      refine iff_of_true ⟨?_, rfl⟩
        ((singleEntry_isSome title).1 (Option.isSome_of_eq_some he))
      exact List.forall_mem_singleton.2 (of_singleEntry title he).2

theorem exists_adds (title upper : Text → Text) {t : Json ℚ}
    (hnumeric : NumericRange decimal t)
    (hfits : TemplateFits decimal t) (idx : Nat) :
    ∃ part, Adds title upper t idx part := by
  cases t with
  | obj tmpl =>
      cases hrange : rangeOf tmpl with
      | none =>
          simp only [TemplateFits, hrange] at hfits
          have hsome : (singleEntry title (popRange tmpl) idx).isSome :=
            (singleEntry_isSome title).2 hfits
          obtain ⟨e, he⟩ := Option.isSome_iff_exists.1 hsome
          exact ⟨[e], .single hrange he⟩
      | some range =>
          obtain ⟨start, stop, step⟩ := range
          obtain ⟨ha, hb, hs⟩ := hnumeric start stop step hrange
          obtain ⟨a, ha⟩ := Option.isSome_iff_exists.1 ha
          obtain ⟨b, hb⟩ := Option.isSome_iff_exists.1 hb
          obtain ⟨s, hs⟩ := Option.isSome_iff_exists.1 hs
          simp only [TemplateFits, hrange] at hfits
          obtain ⟨first, last, hfirst, hlast, ⟨-, -, hlt⟩ |
            ⟨-, -, hlabel, by_, hby, hone, -⟩⟩ := hfits a b s ha hb hs
          · exact ⟨[], .range hrange hfirst (.past hlast hlt)⟩
          · obtain ⟨part, hrounds⟩ := exists_rounds title upper hlast hby hone
              hlabel ((last - first).toNat + 1) first idx (by omega)
            exact ⟨part, .range hrange hfirst hrounds⟩
  | _ => exact absurd hfits id

theorem exists_makes (title upper : Text → Text) {raw : List (Json ℚ)}
    (hnumeric : ∀ t ∈ raw, NumericRange decimal t)
    (hfits : ∀ t ∈ raw, TemplateFits decimal t) (idx : Nat) :
    ∃ r, Makes title upper raw idx r := by
  induction raw generalizing idx with
  | nil => exact ⟨[], .nil idx⟩
  | cons t raw ih =>
      rw [List.forall_mem_cons] at hnumeric hfits
      obtain ⟨part, hadds⟩ := exists_adds title upper hnumeric.1 hfits.1 idx
      obtain ⟨more, hmore⟩ := ih hnumeric.2 hfits.2 (idx + part.length)
      exact ⟨part ++ more, .cons hadds hmore⟩

/-- The entries are numbered. -/
theorem Rounds.ids (h : Rounds title upper (popRange tmpl) stop step bw idx
    part) : part.map (fun e => Dict.getItem "id".toList e) =
      (List.range' idx part.length).map fun i => some (.str (expId i)) := by
  induction h with
  | past hlast hlt => rfl
  | round hlast hle he hby hrest ih =>
      rw [List.map_cons, ih, (of_rangeEntry title upper he).1]
      rfl

theorem Adds.ids {t : Json ℚ} (h : Adds title upper t idx part) :
    part.map (fun e => Dict.getItem "id".toList e) =
      (List.range' idx part.length).map fun i => some (.str (expId i)) := by
  cases h with
  | range hrange hstart hrounds => exact hrounds.ids
  | single hrange he =>
      rw [List.map_singleton, (of_singleEntry title he).1]
      rfl

theorem Makes.ids {raw : List (Json ℚ)} {r : List ExpEntry}
    (h : Makes title upper raw idx r) :
    r.map (fun e => Dict.getItem "id".toList e) =
      (List.range' idx r.length).map fun i => some (.str (expId i)) := by
  induction h with
  | nil idx => rfl
  | cons hadds hmore ih =>
      rw [List.map_append, hadds.ids, ih, List.length_append,
        ← List.map_append, List.range'_append_1]

/-- The code makes what it should exactly of the templates that fit. -/
theorem expanded_iff (title upper : Text → Text) (decimal : Text → Option ℚ)
    (raw : List (Json ℚ)) (hnumeric : ∀ t ∈ raw, NumericRange decimal t) :
    Expanded title upper decimal raw ↔ ∀ t ∈ raw, TemplateFits decimal t := by
  constructor
  · intro h t ht
    obtain ⟨before, after, hsplit⟩ := List.append_of_mem ht
    obtain ⟨r, part, hbefore, hmore, hpart⟩ := h.parts before t after hsplit
    rw [yields_iff] at hbefore hmore
    obtain ⟨r', part', hbefore', hadds, heq⟩ := makes_concat_iff.1 hmore
    obtain rfl := hbefore.eq hbefore'
    obtain rfl := List.append_cancel_left heq
    exact (adds_partOf_iff hadds (hnumeric t ht)).1 hpart
  · intro hfits
    obtain ⟨r, hmakes⟩ := exists_makes title upper hnumeric hfits 1
    refine ⟨⟨r, yields_iff.2 hmakes, ?_⟩, ?_⟩
    · rw [hmakes.ids]
      have hrange : (List.range' 1 r.length).Nodup := List.nodup_range'
      exact hrange.map fun i j hij =>
        expId_injective (Json.str.inj (Option.some.inj hij))
    · rintro before t after rfl
      have hmem : t ∈ before ++ t :: after := by simp
      obtain ⟨r₀, hbefore⟩ := exists_makes title upper
        (fun t ht => hnumeric t (List.mem_append_left _ ht))
        (fun t ht => hfits t (List.mem_append_left _ ht)) 1
      obtain ⟨part, hadds⟩ := exists_adds title upper (hnumeric t hmem) (hfits t hmem) (1 + r₀.length)
      refine ⟨r₀, part, yields_iff.2 hbefore, yields_iff.2 ?_, ?_⟩
      · exact makes_concat_iff.2 ⟨r₀, part, hbefore, hadds, rfl⟩
      · exact (adds_partOf_iff hadds (hnumeric t hmem)).2 (hfits t hmem)

/-- A loop that does not go up never ends. -/
theorem not_rounds (hlast : pyInt stop = some last)
    (hstep : pyInt step = some by_) (hle : bw ≤ last) (hby : by_ < 1) :
    ¬ Rounds title upper tmpl stop step bw idx part := by
  intro h
  cases hcases : h with
  | past hlast' hlt =>
      obtain rfl := Option.some.inj (hlast.symm.trans hlast')
      exact absurd hle (Int.not_le.2 hlt)
  | @round _ _ _ _ e part _ _ _ _ _ =>
      obtain ⟨hin, hout⟩ := h.bounds hlast fun _ => hstep
      have hpos : 0 < (e :: part).length := Nat.succ_pos _
      have hone := one_le_of_rounds hpos hin hout
      exact absurd hone (Int.not_le.2 hby)

/-- An upload test over the bandwidths from 1 to 2. -/
def udpRange (step : ℚ) : ExpEntry :=
  [("type".toList, .str "throughput".toList),
    ("direction".toList, .str "ul".toList),
    ("protocol".toList, .str "udp".toList), ("bandwidth_start".toList, .num 1),
    ("bandwidth_end".toList, .num 2), ("bandwidth_step".toList, .num step)]

theorem rangeOf_udpRange {step : ℚ} (h : step ≠ 0) :
    rangeOf (udpRange step) = some (.num 1, .num 2, .num step) := by
  have hstep : Dict.getItem "bandwidth_step".toList (udpRange step) =
      some (.num step) := rfl
  have htrue : (isNotNone (.num 1) && isNotNone (.num 2) &&
      Json.pyTrue (.num step)) = true := decide_eq_true h
  rw [rangeOf, hstep]
  exact if_pos htrue

def titleOf (t : Text) : Text :=
  if t = "throughput".toList then "Throughput".toList else t

def upperOf (t : Text) : Text :=
  if t = "ul".toList then "UL".toList
  else if t = "udp".toList then "UDP".toList
  else t

theorem not_expanded_halfStep :
    ¬ Expanded titleOf upperOf (fun _ => none) [.obj (udpRange (1 / 2))] := by
  rintro ⟨⟨r, hyields, -⟩, -⟩
  have hrangeOf := rangeOf_udpRange (show (1 / 2 : ℚ) ≠ 0 by norm_num)
  cases yields_iff.1 hyields with
  | cons hadds hmore =>
      cases hadds with
      | range hrange hstart hrounds =>
          rw [hrangeOf] at hrange
          cases hrange
          have hstep : trunc (1 / 2) = 0 := by norm_num [trunc]
          have hone : trunc 1 = 1 := trunc_intCast 1
          have htwo : trunc 2 = 2 := trunc_intCast 2
          obtain rfl := Option.some.inj hstart
          refine not_rounds (by rw [pyInt, htwo]) (by rw [pyInt, hstep]) ?_ ?_
            hrounds
          · rw [hone]
            decide
          · decide
      | single hrange he =>
          rw [hrangeOf] at hrange
          cases hrange

theorem expanded_iff_wholeStep :
    (∀ t ∈ [Json.obj (udpRange 1)], NumericRange (fun _ => none) t) ∧
      (Expanded titleOf upperOf (fun _ => none) [.obj (udpRange 1)] ↔
        ∀ t ∈ [Json.obj (udpRange 1)], TemplateFits (fun _ => none) t) := by
  have hnumeric : ∀ t ∈ [Json.obj (udpRange 1)],
      NumericRange (fun _ => none) t := by
    rw [List.forall_mem_singleton]
    intro start stop step hrange
    rw [rangeOf_udpRange one_ne_zero] at hrange
    cases hrange
    exact ⟨rfl, rfl, rfl⟩
  exact ⟨hnumeric,
    expanded_iff titleOf upperOf (fun _ => none) [.obj (udpRange 1)] hnumeric⟩

end Claim

end Probe
end Kelt
