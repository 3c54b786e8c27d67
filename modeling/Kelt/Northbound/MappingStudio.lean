import Kelt.Lib.JsConvert
import Kelt.Northbound.SchemaMigration

/-!
# The Mapping Studio

The editor of a mapping schema (`MappingStudio.jsx`) reads a document into rows
when it opens (`seed`) and writes the document again from the rows when it is
saved (`assemble`). A row is the state of one field: a constant, which is kept
as the text of an input, or a path with its options. There is a row for every
target of the adapter's grammar, for every diagnostic of the vocabulary's core,
and for every other member of the document's diagnostics.

`mapping` and `diagnostics` are written from the rows alone, so what has no row
is gone. This module has the two functions and what a single row gives back
(`saveSpec_kept_iff`).
-/

namespace Kelt
namespace Northbound
namespace MappingStudio

open Json SchemaMigration

section Names

def pathName : Text := "path".toList
def transformName : Text := "transform".toList
def formatName : Text := "format".toList
def defaultName : Text := "default".toList
def listPathName : Text := "listPath".toList
def pathVarsName : Text := "pathVars".toList
def xName : Text := "x".toList
def latitudeName : Text := "latitude".toList
def longitudeName : Text := "longitude".toList
def verticalAccuracyName : Text := "verticalAccuracy".toList

def payloadText : Text := "payload".toList

end Names

section Layout

structure Layout where
  visible : List Text
  required : List Text

def pairs : List (Text × List Text) :=
  [(wgs84Text, [latitudeName, longitudeName]), (venueText, [xName, yName])]

/-- What every object inherits is no pair, but is found under its name. -/
def mappingLayout (keys required : List Text) (frame : Text) (height : Bool) :
    Except JsError Layout :=
  let other := (pairs.filter fun p => !decide (p.1 = frame)).flatMap Prod.snd
  if frame ∈ inheritedNames then .error .typeError
  else
    let pair := Dict.getItem frame pairs
    let hidden := frameName :: ((if pair.isSome then other else []) ++
      if height then [] else [zName, verticalAccuracyName])
    let visible := keys.filter fun k => !decide (k ∈ hidden)
    let req := required ++ pair.getD [] ++ if height then [zName] else []
    .ok ⟨visible, visible.filter fun k => decide (k ∈ req)⟩

end Layout

section Rows

variable {ν : Type} [Zero ν] [DecidableEq ν] (N : Numerals ν)

/-- The state of a row. -/
inductive FieldState (ν : Type) where
  | const (value : Text)
  | path (path transform format default : Json ν)

/-- `v || d` -/
def orElse (v : Option (Json ν)) (d : Json ν) : Json ν :=
  match v with
  | some x => if x.isTruthy then x else d
  | none => d

/-- `v ?? d` -/
def nullish (v : Option (Json ν)) (d : Json ν) : Json ν :=
  match v with
  | some .null => d
  | some x => x
  | none => d

def unset : FieldState ν :=
  .path (.str []) .null .null (.str [])

def specToState (spec : Option (Json ν)) : Except JsError (FieldState ν) :=
  match spec with
  | some (.obj fields) =>
      match Dict.getItem constName fields with
      | some c => (textOf N (nullish (some c) (.str []))).map .const
      | none =>
          .ok (.path (orElse (Dict.getItem pathName fields) (.str []))
            (orElse (Dict.getItem transformName fields) .null)
            (orElse (Dict.getItem formatName fields) .null)
            (nullish (Dict.getItem defaultName fields) (.str [])))
  | _ => .ok unset

/-- `p.trim()`, which only a text has. -/
def trimPath : Json ν → Except JsError Text
  | .str t => .ok (trim t)
  | _ => .error .typeError

/-- The member of an object literal that is there on a condition. -/
def optional (b : Bool) (name : Text) (v : Json ν) : Members ν :=
  if b then [(name, v)] else []

/-- `default !== "" && default != null` -/
def isDefault : Json ν → Bool
  | .null => false
  | .str t => !t.isEmpty
  | _ => true

/-- The number of a constant that reads as one. In the saved text an infinite
one is null. -/
def constOf (value : Text) : Json ν :=
  if value = [] then .str value
  else
    match N.number value with
    | .nan => .str value
    | .infinite => .null
    | .finite n => .num n

def stateToSpec : FieldState ν → Except JsError (Json ν)
  | .const value => .ok (.obj [(constName, constOf N value)])
  | .path p transform format d =>
      (trimPath p).map fun t =>
        .obj ((pathName, .str t) :: (optional format.isTruthy formatName format ++
          optional transform.isTruthy transformName transform ++
          optional (isDefault d) defaultName d))

omit [Zero ν] [DecidableEq ν] in
def isSet : FieldState ν → Except JsError Bool
  | .const value => .ok (!(trim value).isEmpty)
  | .path p _ _ _ => (trimPath p).map fun t => !t.isEmpty

/-- `if (isSet(s)) … = stateToSpec(s)` -/
def save (s : FieldState ν) : Except JsError (Option (Json ν)) :=
  isSet s >>= fun b => if b then (stateToSpec N s).map some else .ok none

end Rows

section Studio

variable {ν : Type} [Zero ν] [DecidableEq ν] (N : Numerals ν)

/-- Whether `tierDefault` is `"stream"`. -/
inductive Tier where
  | stream
  | onDemand
  deriving DecidableEq

/-- What the adapter and the gateway publish: the keys of the mapping grammar,
the vocabulary's core with the tier of each, and the declared capabilities. -/
structure Contract (ν : Type) where
  mapKeys : List Text
  required : List Text
  core : Dict Text Tier
  caps : Option (Json ν)

structure XRow (ν : Type) where
  key : Text
  tier : Tier
  state : FieldState ν

abbrev Binds (ν : Type) := List (Text × FieldState ν)

structure Studio (ν : Type) where
  doc : Json ν
  binds : Binds ν
  xrows : List (XRow ν)
  frameSel : Text
  height : Bool

/-- `k in core`, and `core[k]`, whose own members are objects. -/
def inCore (core : Dict Text Tier) (k : Text) : Bool :=
  (core.get? k).isSome || decide (k ∈ inheritedNames)

/-- `fc && "const" in fc ? String(fc.const) : fc?.path ? "payload" : "wgs84"` -/
def frameOf (fc : Option (Json ν)) : Except JsError Text :=
  if truthy fc then
    hasIn constName (fc.getD .null) >>= fun constant =>
      if constant then textOf N ((prop fc constName).getD .null)
      else .ok (if truthy (prop fc pathName) then payloadText else wgs84Text)
  else .ok wgs84Text

def heightOf (caps : Option (Json ν)) (doc : Json ν) : Bool :=
  match prop caps zName with
  | some (.bool b) => b
  | _ => truthy (prop (field? mappingName doc) zName)

/-- The first entry of `onDemand`. -/
def firstEntry (doc : Json ν) : Option (Json ν) :=
  index (prop (field? diagnosticsName doc) onDemandName) ['0']

/-- `stream` and `onDemand` of the seeding. -/
def tierObject (doc : Json ν) : Tier → Json ν
  | .stream => orElse (prop (field? diagnosticsName doc) streamName) (.obj [])
  | .onDemand => orElse (prop (firstEntry doc) mappingName) (.obj [])

/-- `for (const k of ks) b[k] = specToState(read(k))` -/
def bindAll {κ : Type} (key : κ → Text) (read : κ → Option (Json ν)) :
    List κ → Binds ν → Except JsError (Binds ν)
  | [], b => .ok b
  | k :: ks, b =>
      specToState N (read k) >>= fun s =>
        bindAll key read ks (Dict.setItem (key k) s b)

def rowsOf (core : Dict Text Tier) (tier : Tier) :
    Members ν → Except JsError (List (XRow ν))
  | [] => .ok []
  | (k, v) :: rest =>
      if inCore core k then rowsOf core tier rest
      else
        specToState N (some v) >>= fun s =>
          (rowsOf core tier rest).map fun rows => ⟨k, tier, s⟩ :: rows

/-- The rows of a migrated document. -/
def seedFrom (c : Contract ν) (doc : Json ν) : Except JsError (Studio ν) :=
  frameOf N (prop (field? mappingName doc) frameName) >>= fun fs =>
    bindAll N id (index (field? mappingName doc)) c.mapKeys [] >>= fun b =>
      bindAll N Prod.fst (fun p => index (some (tierObject doc p.2)) p.1)
          c.core.items b >>= fun b =>
        rowsOf N c.core .stream (entries (tierObject doc .stream)) >>= fun xs =>
          (rowsOf N c.core .onDemand
            (entries (tierObject doc .onDemand))).map fun ys =>
              ⟨doc, b, xs ++ ys, fs, heightOf c.caps doc⟩

/-- The Studio opens on the migrated copy of what is stored. -/
def seed (c : Contract ν) (parsed : Json ν) : Except JsError (Studio ν) :=
  schemaFieldMigrations parsed >>= fun _ =>
    migratedSchema parsed >>= fun doc => seedFrom N c doc

/-- A frame that is read from the payload is a row like the others. -/
def shownKeys (frameSel : Text) (layout : Layout) : List Text :=
  if frameSel = payloadText then frameName :: layout.visible
  else layout.visible

/-- A loop that writes what is saved of each item. -/
def writeEach {α σ : Type} (save : α → Except JsError (Option (Json ν)))
    (put : α → Json ν → σ → σ) : List α → σ → Except JsError σ
  | [], s => .ok s
  | a :: as, s =>
      save a >>= fun o =>
        writeEach save put as (match o with | some w => put a w s | none => s)

def saveBind (binds : Binds ν) (k : Text) :
    Except JsError (Option (Json ν)) :=
  match Dict.getItem k binds with
  | some s => save N s
  | none => .ok none

structure Tiers (ν : Type) where
  stream : Members ν
  demand : Members ν

/-- `(tier === "stream" ? stream : demand)[k] = w` -/
def Tiers.put (tier : Tier) (k : Text) (w : Json ν) (t : Tiers ν) : Tiers ν :=
  match tier with
  | .stream => { t with stream := assign k w t.stream }
  | .onDemand => { t with demand := assign k w t.demand }

def saveRow (core : Dict Text Tier) (r : XRow ν) :
    Except JsError (Option (Json ν)) :=
  let key := trim r.key
  if key = [] then .ok none
  else
    isSet r.state >>= fun b =>
      if !b || inCore core key then .ok none else (stateToSpec N r.state).map some

/-- The only entry of `onDemand` that is written. -/
def demandEntry (doc : Json ν) (demand : Members ν) : Json ν :=
  let existing := orElse (firstEntry doc) (.obj [])
  let listPath := orElse (field? listPathName existing) .null
  let pathVars := orElse (field? pathVarsName existing)
    (orElse (field? pathVarsName doc) .null)
  .obj ((pathName, orElse (field? pathName existing)
      (orElse (field? pathName doc) (.str []))) ::
    (optional listPath.isTruthy listPathName listPath ++
      optional pathVars.isTruthy pathVarsName pathVars ++
      [(mappingName, .obj demand)]))

def diagnosticsOf (doc : Json ν) (t : Tiers ν) : Json ν :=
  .obj (optional (!t.stream.isEmpty) streamName (.obj t.stream) ++
    optional (!t.demand.isEmpty) onDemandName
      (.arr [demandEntry doc t.demand]))

/-- The document that is saved. Only objects and arrays admit members. -/
def assemble (c : Contract ν) (st : Studio ν) : Except JsError (Json ν) :=
  let next := if st.doc.isTruthy then st.doc else .obj []
  let frame : Members ν :=
    if st.frameSel = payloadText then []
    else [(frameName, .obj [(constName, .str st.frameSel)])]
  mappingLayout c.mapKeys c.required st.frameSel st.height >>= fun layout =>
    if next.isContainer then
      writeEach (saveBind N st.binds) assign (shownKeys st.frameSel layout)
          frame >>= fun mapping =>
        writeEach (fun p => saveBind N st.binds p.1)
            (fun p => Tiers.put p.2 p.1) c.core.items ⟨[], []⟩ >>= fun t =>
          (writeEach (saveRow N c.core)
            (fun r => Tiers.put r.tier (trim r.key)) st.xrows t).map fun t =>
              setField diagnosticsName (diagnosticsOf st.doc t)
                (setField mappingName (.obj mapping) next)
    else .error .typeError

end Studio

section OneRow

variable {ν : Type} [Zero ν] [DecidableEq ν] (N : Numerals ν)

/-- A spec read into a row and written again, where the row is set. -/
def saveSpec (spec : Option (Json ν)) : Except JsError (Option (Json ν)) :=
  specToState N spec >>= save N

omit [Zero ν] [DecidableEq ν] in
/-- Only these members. -/
def OnlyNames (names : List Text) (v : Json ν) : Prop :=
  ∀ name, name ∉ names → field? name v = none

/-- A constant that is a number, or a text that is not blank and reads as no
number. -/
structure ConstKept (v : Json ν) : Prop where
  others : OnlyNames [constName] v
  value : (∃ n, field? constName v = some (.num n)) ∨
    ∃ t, field? constName v = some (.str t) ∧ trim t ≠ [] ∧
      N.number t = .nan

/-- A path without blanks around it, and no option that is set to nothing. -/
structure PathKept (v : Json ν) : Prop where
  others : OnlyNames [pathName, formatName, transformName, defaultName] v
  path : ∃ t, field? pathName v = some (.str t) ∧ trim t = t ∧ t ≠ []
  format : ∀ x, field? formatName v = some x → x.isTruthy = true
  transform : ∀ x, field? transformName v = some x → x.isTruthy = true
  default : ∀ x, field? defaultName v = some x → isDefault x = true

/-- The specs that a row gives back. -/
def SpecKept (v : Json ν) : Prop :=
  ConstKept N v ∨ PathKept v

@[simp] theorem saveSpec_none : saveSpec N (none : Option (Json ν)) = .ok none :=
  rfl

theorem save_const (value : Text) :
    save N (.const value) = .ok (if trim value = [] then none
      else some (.obj [(constName, constOf N value)])) := by
  simp only [save, isSet]
  by_cases h : trim value = []
  · rw [if_pos h, h]
    rfl
  · have hempty : (trim value).isEmpty = false := by simpa using h
    rw [if_neg h, hempty]
    rfl

omit [Zero ν] [DecidableEq ν] in
/-- What a constant's text is read as. -/
theorem constOf_cases (value : Text) :
    (constOf N value = .str value ∧ (value = [] ∨ N.number value = .nan)) ∨
      constOf N value = .null ∨
      ∃ n, constOf N value = .num n ∧ N.number value = .finite n := by
  unfold constOf
  by_cases h : value = []
  · rw [if_pos h]
    exact Or.inl ⟨rfl, Or.inl h⟩
  · rw [if_neg h]
    cases hnum : N.number value with
    | nan => exact Or.inl ⟨rfl, Or.inr rfl⟩
    | infinite => exact Or.inr (Or.inl rfl)
    | finite n => exact Or.inr (Or.inr ⟨n, rfl, rfl⟩)

theorem trim_nil : trim [] = [] :=
  rfl

omit [Zero ν] [DecidableEq ν] in
/-- A constant comes back as it was when it is a number or no number's text. -/
theorem same_constOf_iff {c : Json ν} {value : Text}
    (hvalue : textOf N (nullish (some c) (.str [])) = .ok value)
    (hset : trim value ≠ []) :
    Same (constOf N value) c ↔
      (∃ n, c = .num n) ∨ ∃ t, c = .str t ∧ trim t ≠ [] ∧ N.number t = .nan := by
  have hne : value ≠ [] := fun h => hset (h ▸ trim_nil)
  cases c with
  | null =>
      obtain rfl := Except.ok.inj hvalue
      exact absurd rfl hne
  | num n =>
      obtain rfl := Except.ok.inj hvalue
      refine iff_of_true ?_ (Or.inl ⟨n, rfl⟩)
      rw [constOf, if_neg hne, N.number_toText]
      exact .num n
  | str t =>
      obtain rfl := Except.ok.inj hvalue
      constructor
      · intro h
        refine Or.inr ⟨_, rfl, hset, ?_⟩
        obtain ⟨-, hnil | hnan⟩ | hnull | ⟨n, hn, -⟩ := constOf_cases N t
        · exact absurd hnil hne
        · exact hnan
        · rw [hnull] at h
          cases h
        · rw [hn] at h
          cases h
      · rintro (⟨n, hn⟩ | ⟨t', ht, -, hnan⟩)
        · cases hn
        · obtain rfl := str.inj ht
          rw [constOf, if_neg hne, hnan]
          exact .str t
  | _ =>
      refine iff_of_false (fun h => ?_) ?_
      · obtain ⟨hstr, -⟩ | hnull | ⟨n, hn, -⟩ := constOf_cases N value
        · rw [hstr] at h
          cases h
        · rw [hnull] at h
          cases h
        · rw [hn] at h
          cases h
      · rintro (⟨n, hn⟩ | ⟨t, ht, -⟩)
        · cases hn
        · cases ht

omit [Zero ν] [DecidableEq ν] in
theorem sameMember_filter_iff {p : Json ν → Bool} {o : Option (Json ν)} :
    SameMember (o.filter p) o ↔ ∀ x, o = some x → p x = true := by
  cases o with
  | none => exact iff_of_true .none nofun
  | some v =>
      constructor
      · intro h x hx
        obtain rfl := Option.some.inj hx
        by_contra hp
        rw [Option.filter_some, if_neg hp, sameMember_none_iff] at h
        cases h
      · intro h
        rw [Option.filter_some, if_pos (h v rfl)]
        exact SameMember.refl _

omit [Zero ν] [DecidableEq ν] in
theorem getItem_optional (b : Bool) (name other : Text) (v : Json ν)
    (rest : Members ν) :
    Dict.getItem other (optional b name v ++ rest) =
      if name = other ∧ b = true then some v else Dict.getItem other rest := by
  cases b with
  | false => simp [optional]
  | true => simp [optional, Dict.getItem]

omit [Zero ν] [DecidableEq ν] in
theorem getItem_optional_self (b : Bool) {name : Text} (v : Json ν)
    {rest : Members ν} (hrest : Dict.getItem name rest = none) :
    Dict.getItem name (optional b name v ++ rest) =
      if b then some v else none := by
  rw [getItem_optional, hrest]
  cases b with
  | false => simp
  | true => simp

/-- `v || null` is written when it counts as true. -/
theorem optional_orElse (o : Option (Json ν)) :
    (if (orElse o .null).isTruthy then some (orElse o .null) else none) =
      o.filter isTruthy := by
  cases o with
  | none => rfl
  | some v =>
      cases hv : v.isTruthy with
      | true => simp [orElse, hv, Option.filter_some]
      | false =>
          have hnull : (Json.null : Json ν).isTruthy = false := rfl
          simp [orElse, hv, hnull, Option.filter_some]

omit [Zero ν] [DecidableEq ν] in
theorem optional_nullish (o : Option (Json ν)) :
    (if isDefault (nullish o (.str [])) then some (nullish o (.str []))
      else none) = o.filter isDefault := by
  cases o with
  | none => rfl
  | some v =>
      cases v with
      | null => rfl
      | str t =>
          cases t with
          | nil => rfl
          | cons c t => rfl
      | _ => rfl

omit [Zero ν] [DecidableEq ν] in
theorem getItem_optional_of_ne {name other : Text} (h : name ≠ other)
    (b : Bool) (v : Json ν) (rest : Members ν) :
    Dict.getItem other (optional b name v ++ rest) =
      Dict.getItem other rest := by
  rw [getItem_optional, if_neg fun hname => h hname.1]

theorem save_path (p transform format d : Json ν) :
    save N (.path p transform format d) = (trimPath p).map fun t =>
      if t = [] then none
      else some (.obj ((pathName, .str t) ::
        (optional format.isTruthy formatName format ++
          optional transform.isTruthy transformName transform ++
          optional (isDefault d) defaultName d))) := by
  simp only [save, isSet, stateToSpec]
  cases hp : trimPath p with
  | error e => rfl
  | ok t =>
      cases t with
      | nil => rfl
      | cons c t => rfl

/-- The members of a path spec that was written from a row. -/
def written (t : Text) (fields : Members ν) : Members ν :=
  (pathName, .str t) ::
    (optional (orElse (Dict.getItem formatName fields) .null).isTruthy
        formatName (orElse (Dict.getItem formatName fields) .null) ++
      optional (orElse (Dict.getItem transformName fields) .null).isTruthy
        transformName (orElse (Dict.getItem transformName fields) .null) ++
      optional (isDefault (nullish (Dict.getItem defaultName fields) (.str [])))
        defaultName (nullish (Dict.getItem defaultName fields) (.str [])))

theorem spec_names_apart :
    pathName ≠ formatName ∧ pathName ≠ transformName ∧
      pathName ≠ defaultName ∧ formatName ≠ transformName ∧
      formatName ≠ defaultName ∧ transformName ≠ defaultName := by
  decide

theorem getItem_written (t : Text) (fields : Members ν) :
    Dict.getItem pathName (written t fields) = some (.str t) ∧
      Dict.getItem formatName (written t fields) =
        (Dict.getItem formatName fields).filter isTruthy ∧
      Dict.getItem transformName (written t fields) =
        (Dict.getItem transformName fields).filter isTruthy ∧
      Dict.getItem defaultName (written t fields) =
        (Dict.getItem defaultName fields).filter isDefault ∧
      ∀ name, name ∉ [pathName, formatName, transformName, defaultName] →
        Dict.getItem name (written t fields) = none := by
  obtain ⟨hpf, hpt, hpd, hft, hfd, htd⟩ := spec_names_apart
  unfold written
  rw [List.append_assoc, ← List.append_nil (optional (isDefault _) _ _)]
  refine ⟨if_pos rfl, ?_, ?_, ?_, fun name hname => ?_⟩
  · rw [Dict.getItem, if_neg hpf]
    rw [getItem_optional_self, optional_orElse]
    rw [getItem_optional_of_ne hft.symm, getItem_optional_of_ne hfd.symm]
    rfl
  · rw [Dict.getItem, if_neg hpt, getItem_optional_of_ne hft]
    rw [getItem_optional_self, optional_orElse]
    rw [getItem_optional_of_ne htd.symm]
    rfl
  · rw [Dict.getItem, if_neg hpd, getItem_optional_of_ne hfd,
      getItem_optional_of_ne htd, getItem_optional_self, optional_nullish]
    rfl
  · simp only [List.mem_cons, List.not_mem_nil, or_false, not_or] at hname
    obtain ⟨hp, hf, ht, hd⟩ := hname
    rw [Dict.getItem, if_neg (Ne.symm hp),
      getItem_optional_of_ne (Ne.symm hf), getItem_optional_of_ne (Ne.symm ht),
      getItem_optional_of_ne (Ne.symm hd)]
    rfl

/-- A path spec is written as it was, if nothing in it is left out or
trimmed. -/
theorem same_written_iff {t : Text} {fields : Members ν} (hset : t ≠ [])
    (htrim : trim t = t) :
    Same (.obj (written t fields)) (.obj fields) ↔
      PathKept (.obj fields) ∧ Dict.getItem pathName fields = some (.str t) := by
  obtain ⟨hpath, hformat, htransform, hdefault, hothers⟩ :=
    getItem_written t fields
  have hsame : Same (.obj (written t fields)) (.obj fields) ↔ ∀ name,
      SameMember (Dict.getItem name (written t fields))
        (Dict.getItem name fields) := by
    rw [same_obj_iff]
    constructor
    · rintro ⟨gs, hgs, h⟩
      obtain rfl := obj.inj hgs
      exact h
    · exact fun h => ⟨fields, rfl, h⟩
  rw [hsame, sameMembers_iff hothers]
  simp only [List.forall_mem_cons, hpath, hformat, htransform, hdefault,
    sameMember_filter_iff]
  constructor
  · rintro ⟨⟨hp, hf, ht, hd, -⟩, hrest⟩
    obtain ⟨w, hw, hstr⟩ := sameMember_some_iff.1 hp
    cases hstr
    exact ⟨⟨hrest, ⟨t, hw, htrim, hset⟩, hf, ht, hd⟩, hw⟩
  · rintro ⟨⟨hrest, -, hf, ht, hd⟩, hp⟩
    refine ⟨⟨?_, hf, ht, hd, fun _ hname => by cases hname⟩, hrest⟩
    rw [hp]
    exact SameMember.refl _

theorem saveSpec_const {fields : Members ν} {c : Json ν}
    (h : Dict.getItem constName fields = some c) :
    saveSpec N (some (.obj fields)) =
      (textOf N (nullish (some c) (.str []))).map fun value =>
        if trim value = [] then none
        else some (.obj [(constName, constOf N value)]) := by
  unfold saveSpec specToState
  simp only [h]
  cases textOf N (nullish (some c) (.str [])) with
  | error e => rfl
  | ok value => exact save_const N value

theorem saveSpec_path {fields : Members ν}
    (h : Dict.getItem constName fields = none) :
    saveSpec N (some (.obj fields)) =
      (trimPath (orElse (Dict.getItem pathName fields) (.str []))).map fun t =>
        if t = [] then none else some (.obj (written t fields)) := by
  unfold saveSpec specToState
  simp only [h]
  exact save_path N _ _ _ _

theorem constKept_iff {fields : Members ν} {c : Json ν}
    (h : Dict.getItem constName fields = some c) :
    (∃ w, saveSpec N (some (.obj fields)) = .ok (some w) ∧
      Same w (.obj fields)) ↔ ConstKept N (.obj fields) := by
  rw [saveSpec_const N h]
  constructor
  · rintro ⟨w, hw, hsame⟩
    obtain ⟨value, hvalue, hset⟩ := except_map_eq_ok_iff.1 hw
    split at hset
    · cases hset
    · rename_i htrim
      obtain rfl := Option.some.inj hset
      obtain ⟨gs, hgs, hall⟩ := same_obj_iff.1 hsame
      obtain rfl := obj.inj hgs
      refine ⟨fun name hname => ?_, ?_⟩
      · have hnone := hall name
        rw [List.mem_singleton] at hname
        rwa [Dict.getItem, if_neg (Ne.symm hname), Dict.getItem,
          sameMember_none_iff] at hnone
      · have hconst := hall constName
        rw [Dict.getItem, if_pos rfl, h, sameMember_some_iff] at hconst
        obtain ⟨c', hc', hsame'⟩ := hconst
        obtain rfl := Option.some.inj hc'
        obtain ⟨n, rfl⟩ | ⟨t, rfl, ht⟩ :=
          (same_constOf_iff N hvalue htrim).1 hsame'
        · exact Or.inl ⟨n, h⟩
        · exact Or.inr ⟨t, h, ht⟩
  · rintro ⟨hothers, hkept⟩
    have hc : (∃ n, c = .num n) ∨
        ∃ t, c = .str t ∧ trim t ≠ [] ∧ N.number t = .nan := by
      obtain ⟨n, hn⟩ | ⟨t, ht, hrest⟩ := hkept
      · exact Or.inl ⟨n, Option.some.inj (h.symm.trans hn)⟩
      · exact Or.inr ⟨t, Option.some.inj (h.symm.trans ht), hrest⟩
    obtain ⟨value, hvalue, hset⟩ : ∃ value,
        textOf N (nullish (some c) (.str [])) = .ok value ∧
          trim value ≠ [] := by
      obtain ⟨n, rfl⟩ | ⟨t, rfl, ht, -⟩ := hc
      · exact ⟨N.toText n, rfl, N.trim_toText n⟩
      · exact ⟨t, rfl, ht⟩
    refine ⟨.obj [(constName, constOf N value)],
      except_map_eq_ok_iff.2 ⟨value, hvalue, if_neg hset⟩, ?_⟩
    refine same_obj_iff.2 ⟨fields, rfl, fun name => ?_⟩
    by_cases hname : constName = name
    · subst hname
      rw [Dict.getItem, if_pos rfl, h]
      exact .some ((same_constOf_iff N hvalue hset).2 hc)
    · have hnone : Dict.getItem name fields = none :=
        hothers name (by simpa using Ne.symm hname)
      rw [Dict.getItem, if_neg hname, hnone]
      exact .none

theorem pathKept_iff {fields : Members ν}
    (h : Dict.getItem constName fields = none) :
    (∃ w, saveSpec N (some (.obj fields)) = .ok (some w) ∧
      Same w (.obj fields)) ↔ PathKept (.obj fields) := by
  rw [saveSpec_path N h]
  constructor
  · rintro ⟨w, hw, hsame⟩
    obtain ⟨t, ht, hset⟩ := except_map_eq_ok_iff.1 hw
    split at hset
    · cases hset
    · rename_i hne
      obtain rfl := Option.some.inj hset
      have htrim : trim t = t := by
        cases hp : orElse (Dict.getItem pathName fields) (.str []) with
        | str t' =>
            rw [hp] at ht
            obtain rfl := Except.ok.inj ht
            exact trim_trim t'
        | _ =>
            rw [hp] at ht
            cases ht
      exact ((same_written_iff hne htrim).1 hsame).1
  · intro hkept
    obtain ⟨t, hp, htrim, hne⟩ := hkept.path
    have hp' : Dict.getItem pathName fields = some (.str t) := hp
    have htruthy : (Json.str t : Json ν).isTruthy = true := by
      simpa [isTruthy] using hne
    refine ⟨.obj (written t fields),
      except_map_eq_ok_iff.2 ⟨t, ?_, if_neg hne⟩,
      (same_written_iff hne htrim).2 ⟨hkept, hp⟩⟩
    rw [hp', orElse, if_pos htruthy]
    exact congrArg Except.ok htrim

/-- A row gives a spec back exactly when it is one of the editor's own. -/
theorem saveSpec_kept_iff (v : Json ν) :
    (∃ w, saveSpec N (some v) = .ok (some w) ∧ Same w v) ↔ SpecKept N v := by
  have hconst : constName ∉
      [pathName, formatName, transformName, defaultName] := by decide
  cases v with
  | obj fields =>
      cases h : Dict.getItem constName fields with
      | some c =>
          rw [constKept_iff N h]
          refine ⟨Or.inl, fun hkept => hkept.resolve_right fun hpath => ?_⟩
          have hnone : Dict.getItem constName fields = none :=
            hpath.others constName hconst
          rw [h] at hnone
          cases hnone
      | none =>
          rw [pathKept_iff N h]
          refine ⟨Or.inr, fun hkept => hkept.resolve_left fun hc => ?_⟩
          obtain ⟨n, hn⟩ | ⟨t, ht, -⟩ := hc.value
          · exact absurd (h.symm.trans hn) nofun
          · exact absurd (h.symm.trans ht) nofun
  | _ =>
      refine iff_of_false ?_ ?_
      · rintro ⟨w, hw, -⟩
        cases hw
      · rintro (⟨-, ⟨n, hn⟩ | ⟨t, ht, -⟩⟩ | ⟨-, ⟨t, ht, -⟩, -⟩)
        · cases hn
        · cases ht
        · cases ht

end OneRow

section Loops

variable {ν : Type} {α σ : Type}
  {save : α → Except JsError (Option (Json ν))} {put : α → Json ν → σ → σ}

variable (save put) in
theorem exists_writeEach {as : List α} (h : ∀ a ∈ as, ∃ o, save a = .ok o)
    (s : σ) : ∃ out, writeEach save put as s = .ok out := by
  induction as generalizing s with
  | nil => exact ⟨s, rfl⟩
  | cons a as ih =>
      obtain ⟨o, ho⟩ := h a List.mem_cons_self
      rw [writeEach, ho]
      exact ih (fun b hb => h b (List.mem_cons_of_mem _ hb)) _

theorem writeEach_cons {a : α} {as : List α} {s out : σ}
    (h : writeEach save put (a :: as) s = .ok out) :
    ∃ o, save a = .ok o ∧ writeEach save put as
      (match o with | some w => put a w s | none => s) = .ok out := by
  obtain ⟨o, ho, hrest⟩ := except_bind_eq_ok_iff.1 h
  exact ⟨o, ho, hrest⟩

theorem ok_of_writeEach {as : List α} {s out : σ}
    (h : writeEach save put as s = .ok out) :
    ∀ a ∈ as, ∃ o, save a = .ok o := by
  induction as generalizing s with
  | nil => exact nofun
  | cons a as ih =>
      obtain ⟨o, ho, hrest⟩ := writeEach_cons h
      exact List.forall_mem_cons.2 ⟨⟨o, ho⟩, ih hrest⟩

variable {r : σ → Option (Json ν)} {hits : α → Prop} [DecidablePred hits]

/-- What is read after a step of a loop. -/
theorem read_step
    (hput : ∀ a w s, r (put a w s) = if hits a then some w else r s)
    (a : α) (o : Option (Json ν)) (s : σ) :
    r (match o with | some w => put a w s | none => s) =
      if hits a then o.or (r s) else r s := by
  cases o with
  | none => simp
  | some w => rw [hput]; rfl

/-- A member that no item is written to stays. -/
theorem read_writeEach_of_not
    (hput : ∀ a w s, r (put a w s) = if hits a then some w else r s)
    {as : List α} {s out : σ} (h : writeEach save put as s = .ok out)
    (hnot : ∀ a ∈ as, ¬ hits a) : r out = r s := by
  induction as generalizing s with
  | nil =>
      obtain rfl := Except.ok.inj h
      rfl
  | cons a as ih =>
      obtain ⟨o, -, hrest⟩ := writeEach_cons h
      obtain ⟨ha, has⟩ := List.forall_mem_cons.1 hnot
      rw [ih hrest has, read_step hput, if_neg ha]

/-- A member that items with one value are written to has this value. -/
theorem read_writeEach
    (hput : ∀ a w s, r (put a w s) = if hits a then some w else r s)
    {as : List α} {s out : σ} (h : writeEach save put as s = .ok out)
    {o : Option (Json ν)} (hsave : ∀ a ∈ as, hits a → save a = .ok o)
    (hex : ∃ a ∈ as, hits a) : r out = o.or (r s) := by
  induction as generalizing s with
  | nil =>
      obtain ⟨a, ha, -⟩ := hex
      cases ha
  | cons a as ih =>
      obtain ⟨o', ho', hrest⟩ := writeEach_cons h
      obtain ⟨hsaveA, hsaveAs⟩ := List.forall_mem_cons.1 hsave
      by_cases hlater : ∃ b ∈ as, hits b
      · rw [ih hrest hsaveAs hlater, read_step hput]
        by_cases ha : hits a
        · have hsame := Except.ok.inj (ho'.symm.trans (hsaveA ha))
          rw [if_pos ha, hsame, ← Option.or_assoc, Option.or_self]
        · rw [if_neg ha]
      · have hnot : ∀ b ∈ as, ¬ hits b :=
          fun b hb hhit => hlater ⟨b, hb, hhit⟩
        have ha : hits a := by
          obtain ⟨b, hb, hhit⟩ := hex
          rcases List.mem_cons.1 hb with rfl | hb
          · exact hhit
          · exact absurd hhit (hnot b hb)
        have hsame := Except.ok.inj (ho'.symm.trans (hsaveA ha))
        rw [read_writeEach_of_not hput hrest hnot, read_step hput, if_pos ha,
          hsame]

/-- Where a member comes from. -/
theorem origin_of_writeEach
    (hput : ∀ a w s, r (put a w s) = if hits a then some w else r s)
    {as : List α} {s out : σ} (h : writeEach save put as s = .ok out)
    {w : Json ν} (hw : r out = some w) :
    r s = some w ∨ ∃ a ∈ as, hits a ∧ save a = .ok (some w) := by
  induction as generalizing s with
  | nil =>
      obtain rfl := Except.ok.inj h
      exact Or.inl hw
  | cons a as ih =>
      obtain ⟨o, ho, hrest⟩ := writeEach_cons h
      rcases ih hrest with hr | ⟨b, hb, hhit, hsave⟩
      · rw [read_step hput] at hr
        split at hr
        · rename_i ha
          cases o with
          | none => exact Or.inl hr
          | some w' =>
              obtain rfl := Option.some.inj hr
              exact Or.inr ⟨a, List.mem_cons_self, ha, ho⟩
        · exact Or.inl hr
      · exact Or.inr ⟨b, List.mem_cons_of_mem _ hb, hhit, hsave⟩

end Loops

section Seeding

variable {ν : Type} [Zero ν] [DecidableEq ν] {N : Numerals ν}

theorem exists_bindAll {κ : Type} (key : κ → Text)
    {read : κ → Option (Json ν)} {ks : List κ}
    (h : ∀ k ∈ ks, ∃ s, specToState N (read k) = .ok s) (b : Binds ν) :
    ∃ b', bindAll N key read ks b = .ok b' := by
  induction ks generalizing b with
  | nil => exact ⟨b, rfl⟩
  | cons k ks ih =>
      obtain ⟨s, hs⟩ := h k List.mem_cons_self
      rw [bindAll, hs]
      exact ih (fun k' hk' => h k' (List.mem_cons_of_mem _ hk')) _

/-- A row that is not among the read ones stays. -/
theorem getItem_bindAll_of_not {κ : Type} {key : κ → Text}
    {read : κ → Option (Json ν)} {ks : List κ} {b b' : Binds ν} {name : Text}
    (h : bindAll N key read ks b = .ok b') (hnot : ∀ k ∈ ks, key k ≠ name) :
    Dict.getItem name b' = Dict.getItem name b := by
  induction ks generalizing b with
  | nil =>
      obtain rfl := Except.ok.inj h
      rfl
  | cons k ks ih =>
      obtain ⟨s, -, hrest⟩ := except_bind_eq_ok_iff.1 h
      obtain ⟨hk, hks⟩ := List.forall_mem_cons.1 hnot
      rw [ih hrest hks, Dict.getItem_setItem, if_neg hk]

/-- A row has the state of the spec that was read for it. -/
theorem getItem_bindAll {κ : Type} {key : κ → Text}
    {read : κ → Option (Json ν)} {ks : List κ} {b b' : Binds ν} {name : Text}
    {o : Option (Json ν)} (h : bindAll N key read ks b = .ok b')
    (hread : ∀ k ∈ ks, key k = name → read k = o)
    (hex : ∃ k ∈ ks, key k = name) :
    ∃ s, specToState N o = .ok s ∧ Dict.getItem name b' = some s := by
  induction ks generalizing b with
  | nil =>
      obtain ⟨k, hk, -⟩ := hex
      cases hk
  | cons k ks ih =>
      obtain ⟨s, hs, hrest⟩ := except_bind_eq_ok_iff.1 h
      obtain ⟨hk, hks⟩ := List.forall_mem_cons.1 hread
      by_cases hlater : ∃ k' ∈ ks, key k' = name
      · exact ih hrest hks hlater
      · have hname : key k = name := by
          obtain ⟨k', hk', hkey⟩ := hex
          rcases List.mem_cons.1 hk' with rfl | hk'
          · exact hkey
          · exact absurd ⟨k', hk', hkey⟩ hlater
        refine ⟨s, hk hname ▸ hs, ?_⟩
        rw [getItem_bindAll_of_not hrest fun k' hk' hkey =>
          hlater ⟨k', hk', hkey⟩, Dict.getItem_setItem, if_pos hname]

theorem exists_rowsOf (core : Dict Text Tier) (tier : Tier) {ms : Members ν}
    (h : ∀ p ∈ ms, inCore core p.1 = false →
      ∃ s, specToState N (some p.2) = .ok s) :
    ∃ rows, rowsOf N core tier ms = .ok rows := by
  induction ms with
  | nil => exact ⟨[], rfl⟩
  | cons p rest ih =>
      obtain ⟨k, v⟩ := p
      obtain ⟨hp, hrest⟩ := List.forall_mem_cons.1 h
      obtain ⟨rows, hrows⟩ := ih hrest
      rw [rowsOf]
      cases hcore : inCore core k with
      | true => exact ⟨rows, hrows⟩
      | false =>
          obtain ⟨s, hs⟩ := hp hcore
          rw [hs, hrows]
          exact ⟨_, rfl⟩

/-- The extra rows are those of the members that are not in the core. -/
theorem mem_rowsOf {core : Dict Text Tier} {tier : Tier} {ms : Members ν}
    {rows : List (XRow ν)} (h : rowsOf N core tier ms = .ok rows)
    (r : XRow ν) :
    r ∈ rows ↔ r.tier = tier ∧ ∃ v, (r.key, v) ∈ ms ∧
      inCore core r.key = false ∧ specToState N (some v) = .ok r.state := by
  induction ms generalizing rows with
  | nil =>
      obtain rfl := Except.ok.inj h
      simp
  | cons p rest ih =>
      obtain ⟨k, v⟩ := p
      rw [rowsOf] at h
      split at h
      · rename_i hcore
        rw [ih h]
        refine and_congr_right fun _ => exists_congr fun v' => ?_
        refine and_congr_left fun hr => ?_
        rw [List.mem_cons]
        refine (or_iff_right ?_).symm
        rintro heq
        obtain ⟨hk, -⟩ := Prod.mk.inj heq
        rw [hk, hcore] at hr
        cases hr.1
      · rename_i hcore
        obtain ⟨s, hs, hrest⟩ := except_bind_eq_ok_iff.1 h
        obtain ⟨rows', hrows', rfl⟩ := except_map_eq_ok_iff.1 hrest
        rw [List.mem_cons, ih hrows']
        constructor
        · rintro (rfl | ⟨htier, v', hv', hr⟩)
          · exact ⟨rfl, v, List.mem_cons_self, Bool.eq_false_iff.2 hcore, hs⟩
          · exact ⟨htier, v', List.mem_cons_of_mem _ hv', hr⟩
        · rintro ⟨htier, v', hv', hr, hstate⟩
          rcases List.mem_cons.1 hv' with heq | hv'
          · obtain ⟨hk, rfl⟩ := Prod.mk.inj heq
            have hsame := Except.ok.inj (hs.symm.trans hstate)
            left
            cases r with
            | mk key tier' state =>
                simp only at hk htier hsame
                rw [hk, htier, hsame]
          · exact Or.inr ⟨htier, v', hv', hr, hstate⟩

end Seeding

end MappingStudio
end Northbound
end Kelt
