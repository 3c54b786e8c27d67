import Kelt.Lib.JsValue

/-!
# The migration of the mapping schemas

A vendor-adapter schema written for 0.18 is migrated when the Mapping Studio
opens it (`northboundCaps.js`): the frame `local` becomes `venue`, the height
moves from `y` to `z`, and `lastSeen` becomes `lastCommunicationTime`. What is
listed for the operator (`schemaFieldMigrations`) and what is done
(`migratedSchema`) are two passes over the document.

The rename of `y` is for a mapping without `z`; the other two write over what
stands under the new name. And a `lastSeen` that is there but does not count as
true is renamed though it is not listed. What is claimed of the migration holds
of the other documents, if it does not throw (`preserving_iff`).
-/

namespace Kelt
namespace Northbound
namespace SchemaMigration

open Json

section Names

def mappingName : Text := "mapping".toList
def discoverName : Text := "discover".toList
def diagnosticsName : Text := "diagnostics".toList
def streamName : Text := "stream".toList
def onDemandName : Text := "onDemand".toList
def frameName : Text := "frame".toList
def constName : Text := "const".toList
def yName : Text := "y".toList
def zName : Text := "z".toList
def heightName : Text := "height".toList
def lastSeenName : Text := "lastSeen".toList
def lastCommunicationTimeName : Text := "lastCommunicationTime".toList

def localText : Text := "local".toList
def venueText : Text := "venue".toList
def wgs84Text : Text := "wgs84".toList

end Names

section Migration

variable {ν : Type} [Zero ν] [DecidableEq ν]

/-- `v === text` -/
def isText (text : Text) : Option (Json ν) → Bool
  | some (.str t) => decide (t = text)
  | _ => false

/-- `frame?.const` of a mapping. -/
def frameConst (mapping : Json ν) : Option (Json ν) :=
  prop (field? frameName mapping) constName

def heightAsY (mapping : Json ν) : Bool :=
  let f := frameConst mapping
  truthy (field? yName mapping) && !truthy (field? zName mapping) &&
    (isText wgs84Text f || isText localText f)

def isLocal (mapping : Json ν) : Bool :=
  isText localText (frameConst mapping)

structure Migration where
  path : String
  source : String
  target : String

def seenPath (i : Nat) : String :=
  s!"diagnostics.onDemand[{i}].mapping.lastSeen"

/-- `mapping?.lastSeen` of an entry, which must not be null. -/
def entryMigrations (i : Nat) (d : Json ν) : Except JsError (List Migration) :=
  match d with
  | .null => .error .typeError
  | d =>
      if truthy (prop (field? mappingName d) lastSeenName) then
        .ok [⟨seenPath i, "lastSeen", "lastCommunicationTime"⟩]
      else .ok []

def allEntryMigrations : Nat → List (Json ν) → Except JsError (List Migration)
  | _, [] => .ok []
  | i, d :: rest =>
      entryMigrations i d >>= fun ms =>
        (allEntryMigrations (i + 1) rest).map fun more => ms ++ more

/-- `(onDemand || []).forEach` -/
def onDemandMigrations : Option (Json ν) → Except JsError (List Migration)
  | some (.arr items) => allEntryMigrations 0 items
  | v => if truthy v then .error .typeError else .ok []

def heightMigrations : Option (Json ν) → Except JsError (List Migration)
  | some h =>
      if h.isTruthy then
        (hasIn constName h).map fun measured =>
          [⟨"discover.mapping.height", "height",
            if measured then "remove (no measured source)" else "z"⟩]
      else .ok []
  | none => .ok []

def schemaFieldMigrations (schema : Json ν) : Except JsError (List Migration) :=
  let m := field? mappingName schema
  let frame : List Migration :=
    if m.any isLocal then [⟨"mapping.frame", "local", "venue"⟩] else []
  let y : List Migration :=
    if m.any heightAsY then [⟨"mapping.y", "y", "z"⟩] else []
  let dm := prop (field? discoverName schema) mappingName
  let diagnostics := field? diagnosticsName schema
  let stream : List Migration :=
    if truthy (prop (prop diagnostics streamName) lastSeenName) then
      [⟨"diagnostics.stream.lastSeen", "lastSeen", "lastCommunicationTime"⟩]
    else []
  heightMigrations (prop dm heightName) >>= fun height =>
    (onDemandMigrations (prop diagnostics onDemandName)).map fun onDemand =>
      frame ++ y ++ height ++ stream ++ onDemand

/-- `rename` of an object that is there. -/
def rename (old new : Text) (v : Json ν) : Except JsError (Json ν) :=
  if v.isTruthy then
    match v with
    | .obj fields =>
        match Dict.getItem old fields with
        | some x => .ok (.obj (Dict.setItem new x (Dict.eraseItem old fields)))
        | none => .ok v
    | .arr _ => .ok v
    | _ => .error .typeError
  else .ok v

/-- `{ const: "venue" }` -/
def venueFrame : Json ν :=
  .obj [(constName, .str venueText)]

def migrateMapping (m : Json ν) : Except JsError (Json ν) :=
  if m.isTruthy then
    (if heightAsY m then rename yName zName m else .ok m).map fun m =>
      if isLocal m then setField frameName venueFrame m else m
  else .ok m

def migrateHeight (dm : Json ν) : Except JsError (Json ν) :=
  match field? heightName dm with
  | some h =>
      if h.isTruthy then
        hasIn constName h >>= fun measured =>
          if measured then .ok (eraseField heightName dm)
          else rename heightName zName dm
      else .ok dm
  | none => .ok dm

def migrateSeen (v : Json ν) : Except JsError (Json ν) :=
  rename lastSeenName lastCommunicationTimeName v

/-- An entry of `onDemand`: where it has no mapping, the assigned undefined is
not part of a document. -/
def migrateEntry (d : Json ν) : Except JsError (Json ν) :=
  if d.isContainer then onField mappingName migrateSeen d
  else .error .typeError

def migrateEntries : List (Json ν) → Except JsError (List (Json ν))
  | [] => .ok []
  | d :: rest =>
      migrateEntry d >>= fun d' =>
        (migrateEntries rest).map fun rest' => d' :: rest'

def migrateOnDemand : Json ν → Except JsError (Json ν)
  | .arr items => (migrateEntries items).map .arr
  | v => if v.isTruthy then .error .typeError else .ok v

def migratedSchema (schema : Json ν) : Except JsError (Json ν) :=
  let s := if schema.isTruthy then schema else .obj []
  onField mappingName migrateMapping s >>= fun s =>
    onField discoverName (onField mappingName migrateHeight) s >>= fun s =>
      onField diagnosticsName (onField streamName migrateSeen) s >>= fun s =>
        onField diagnosticsName (onField onDemandName migrateOnDemand) s

end Migration

section Claims

variable {ν : Type} [Zero ν] [DecidableEq ν]

/-- Every field spec is there afterwards, under its name or, for the old name,
under the new one. A spec is a value that counts as true. -/
def Renamed (old new : Text) (o o' : Option (Json ν)) : Prop :=
  ∀ name v, prop o name = some v → v.isTruthy = true →
    prop o' name = some v ∨ (name = old ∧ prop o' new = some v)

/-- In a mapping the local frame becomes that of the venue. -/
def MappingKept (o o' : Option (Json ν)) : Prop :=
  ∀ name v, prop o name = some v → v.isTruthy = true →
    prop o' name = some v ∨ (name = yName ∧ prop o' zName = some v) ∨
      (name = frameName ∧ isText localText (field? constName v) = true ∧
        prop o' frameName = some venueFrame)

/-- In the discovery a constant height is removed. -/
def HeightKept (o o' : Option (Json ν)) : Prop :=
  ∀ name v, prop o name = some v → v.isTruthy = true →
    prop o' name = some v ∨ (name = heightName ∧ prop o' zName = some v) ∨
      (name = heightName ∧ (field? constName v).isSome = true)

/-- All members but these are as they were. -/
def SameBut (names : List Text) (o o' : Option (Json ν)) : Prop :=
  ∀ name, name ∉ names → prop o' name = prop o name

structure EntryKept (d d' : Json ν) : Prop where
  others : SameBut [mappingName] (some d) (some d')
  specs : Renamed lastSeenName lastCommunicationTimeName
    (field? mappingName d) (field? mappingName d')

/-- The documents differ in the renamed specs only, and none is lost. -/
structure NothingLost (schema doc : Json ν) : Prop where
  others : SameBut [mappingName, discoverName, diagnosticsName] (some schema)
    (some doc)
  mapping : MappingKept (field? mappingName schema) (field? mappingName doc)
  discover : SameBut [mappingName] (field? discoverName schema)
    (field? discoverName doc)
  height : HeightKept (prop (field? discoverName schema) mappingName)
    (prop (field? discoverName doc) mappingName)
  diagnostics : SameBut [streamName, onDemandName]
    (field? diagnosticsName schema) (field? diagnosticsName doc)
  stream : Renamed lastSeenName lastCommunicationTimeName
    (prop (field? diagnosticsName schema) streamName)
    (prop (field? diagnosticsName doc) streamName)
  onDemand : ∀ items,
    prop (field? diagnosticsName schema) onDemandName = some (.arr items) →
      ∃ items', prop (field? diagnosticsName doc) onDemandName =
        some (.arr items') ∧ List.Forall₂ EntryKept items items'

/-- What the migration is to do with a document. -/
def Preserving (schema : Json ν) : Prop :=
  ∃ doc, migratedSchema schema = .ok doc ∧
    schemaFieldMigrations doc = .ok [] ∧ migratedSchema doc = .ok doc ∧
    (schemaFieldMigrations schema = .ok [] → doc = schema) ∧
    NothingLost schema doc

/-- Where `rename` can look for a name. -/
def Searchable (o : Option (Json ν)) : Prop :=
  ∀ v, o = some v → v.isTruthy = true → v.isContainer = true

/-- The migration does not throw. -/
structure Shaped (schema : Json ν) : Prop where
  height : Searchable
    (prop (prop (field? discoverName schema) mappingName) heightName)
  stream : Searchable (prop (field? diagnosticsName schema) streamName)
  onDemand : ∀ v, prop (field? diagnosticsName schema) onDemandName = some v →
    v.isTruthy = true → ∃ items, v = .arr items ∧ ∀ d ∈ items,
      d.isContainer = true ∧ Searchable (field? mappingName d)

/-- There is no `lastSeen`, whatever its value. -/
structure NoSeen (schema : Json ν) : Prop where
  stream : prop (prop (field? diagnosticsName schema) streamName)
    lastSeenName = none
  onDemand : ∀ items,
    prop (field? diagnosticsName schema) onDemandName = some (.arr items) →
      ∀ d ∈ items, prop (field? mappingName d) lastSeenName = none

/-- What stands under the new name is no spec, or the same as under the old. -/
def Unoccupied (old new : Text) (o : Option (Json ν)) : Prop :=
  ∀ v w, prop o old = some v → prop o new = some w → w.isTruthy = true → w = v

structure Free (schema : Json ν) : Prop where
  height : ∀ h w,
    prop (prop (field? discoverName schema) mappingName) heightName = some h →
      h.isTruthy = true → field? constName h = none →
        prop (prop (field? discoverName schema) mappingName) zName = some w →
          w.isTruthy = true → w = h
  stream : Unoccupied lastSeenName lastCommunicationTimeName
    (prop (field? diagnosticsName schema) streamName)
  onDemand : ∀ items,
    prop (field? diagnosticsName schema) onDemandName = some (.arr items) →
      ∀ d ∈ items, Unoccupied lastSeenName lastCommunicationTimeName
        (field? mappingName d)

end Claims

section Rename

variable {ν : Type} [Zero ν] [DecidableEq ν]

theorem exists_rename_iff (old new : Text) (v : Json ν) :
    (∃ v', rename old new v = .ok v') ↔
      (v.isTruthy = true → v.isContainer = true) := by
  unfold rename
  cases htruthy : v.isTruthy with
  | false => exact iff_of_true ⟨v, rfl⟩ nofun
  | true =>
      cases v with
      | obj fields =>
          refine iff_of_true ?_ fun _ => rfl
          simp only [if_true]
          split
          · exact ⟨_, rfl⟩
          · exact ⟨_, rfl⟩
      | arr items => exact iff_of_true ⟨_, rfl⟩ fun _ => rfl
      | _ =>
          refine iff_of_false ?_ fun h => by cases h rfl
          rintro ⟨v', h⟩
          cases h

/-- A rename leaves a value without the old name; else it moves what stands
there. -/
theorem rename_spec {old new : Text} {v v' : Json ν}
    (h : rename old new v = .ok v') :
    (field? old v = none ∧ v' = v) ∨
      ∃ x, field? old v = some x ∧ ∀ name, field? name v' =
        if new = name then some x
        else if old = name then none else field? name v := by
  unfold rename at h
  split at h
  · split at h
    · rename_i fields _
      split at h
      · rename_i x hx
        obtain rfl := Except.ok.inj h
        refine Or.inr ⟨x, hx, fun name => ?_⟩
        simp only [field?, Dict.getItem_setItem, Dict.getItem_eraseItem]
      · rename_i hx
        obtain rfl := Except.ok.inj h
        exact Or.inl ⟨hx, rfl⟩
    · obtain rfl := Except.ok.inj h
      exact Or.inl ⟨rfl, rfl⟩
    · cases h
  · rename_i hfalsy
    obtain rfl := Except.ok.inj h
    refine Or.inl ⟨?_, rfl⟩
    cases v with
    | obj fields => exact absurd rfl hfalsy
    | _ => rfl

theorem rename_eq_self {old new : Text} {v v' : Json ν}
    (h : rename old new v = .ok v') (hold : field? old v = none) : v' = v := by
  obtain ⟨-, hsame⟩ | ⟨x, hx, -⟩ := rename_spec h
  · exact hsame
  · rw [hold] at hx
    cases hx

theorem field?_old_rename {old new : Text} (hne : new ≠ old) {v v' : Json ν}
    (h : rename old new v = .ok v') : field? old v' = none := by
  obtain ⟨hold, rfl⟩ | ⟨x, -, hget⟩ := rename_spec h
  · exact hold
  · rw [hget, if_neg hne, if_pos rfl]

/-- A rename changes a value exactly when the old name is there. -/
theorem rename_eq_iff {old new : Text} (hne : new ≠ old) {v v' : Json ν}
    (h : rename old new v = .ok v') : v' = v ↔ field? old v = none :=
  ⟨fun hsame => hsame ▸ field?_old_rename hne h, rename_eq_self h⟩

theorem rename_rename {old new : Text} (hne : new ≠ old) {v v' : Json ν}
    (h : rename old new v = .ok v') : rename old new v' = .ok v' := by
  have hold := field?_old_rename hne h
  have hok : ∃ v'', rename old new v' = .ok v'' := by
    refine (exists_rename_iff old new v').2 ?_
    obtain ⟨-, rfl⟩ | ⟨x, -, hget⟩ := rename_spec h
    · exact (exists_rename_iff old new v').1 ⟨_, h⟩
    · intro _
      have hnew := hget new
      rw [if_pos rfl] at hnew
      cases v' with
      | obj fields => rfl
      | _ => cases hnew
  obtain ⟨v'', hv''⟩ := hok
  rw [hv'', rename_eq_self hv'' hold]

/-- A rename loses nothing exactly when the new name is free. -/
theorem renamed_iff {old new : Text} (hne : new ≠ old) {v v' : Json ν}
    (h : rename old new v = .ok v') :
    Renamed old new (some v) (some v') ↔ Unoccupied old new (some v) := by
  unfold Renamed Unoccupied
  simp only [prop_some]
  obtain ⟨hold, rfl⟩ | ⟨x, hx, hget⟩ := rename_spec h
  · refine iff_of_true (fun name w hw _ => Or.inl hw) fun u w hu => ?_
    rw [hold] at hu
    cases hu
  · constructor
    · intro hkept u w hu hw hwt
      rw [hx] at hu
      obtain rfl := Option.some.inj hu
      rcases hkept new w hw hwt with hnew | ⟨hnew, -⟩
      · rw [hget, if_pos rfl] at hnew
        exact (Option.some.inj hnew).symm
      · exact absurd hnew hne
    · intro hfree name w hw hwt
      rw [hget, hget]
      by_cases hnew : new = name
      · subst hnew
        rw [if_pos rfl, hfree x w hx hw hwt]
        exact Or.inl rfl
      · by_cases hold : old = name
        · subst hold
          rw [hx] at hw
          obtain rfl := Option.some.inj hw
          exact Or.inr ⟨rfl, by rw [if_pos rfl]⟩
        · rw [if_neg hnew, if_neg hold]
          exact Or.inl hw

end Rename

section Stages

variable {ν : Type} [Zero ν] [DecidableEq ν]

/-- Two names that a migration tells apart. -/
theorem zName_ne_yName : zName ≠ yName := by
  decide

theorem zName_ne_heightName : zName ≠ heightName := by
  decide

theorem communication_ne_seen :
    lastCommunicationTimeName ≠ lastSeenName := by
  decide

theorem frameName_ne : zName ≠ frameName ∧ yName ≠ frameName := by
  decide

theorem isLocal_setField_venue {m w : Json ν}
    (h : field? frameName m = some w) :
    isLocal (setField frameName venueFrame m) = false ∧
      heightAsY (setField frameName venueFrame m) = false := by
  have hframe : frameConst (setField frameName venueFrame m) =
      some (.str venueText) := by
    rw [frameConst, field?_setField_self venueFrame h]
    rfl
  have hne : venueText ≠ localText ∧ venueText ≠ wgs84Text := by decide
  have hlocal : isText localText (some (.str venueText : Json ν)) = false := by
    simp [isText, hne.1]
  have hwgs84 : isText wgs84Text (some (.str venueText : Json ν)) = false := by
    simp [isText, hne.2]
  constructor
  · rw [isLocal, hframe, hlocal]
  · simp [heightAsY, hframe, hlocal, hwgs84]

/-- A mapping after the first step of its migration. -/
theorem raised_spec {m m' : Json ν}
    (h : (if heightAsY m then rename yName zName m else .ok m) = .ok m') :
    heightAsY m' = false ∧ frameConst m' = frameConst m ∧
      (field? frameName m' = field? frameName m) ∧
      (heightAsY m = false → m' = m) := by
  split at h
  · rename_i hheight
    have hframe : field? frameName m' = field? frameName m := by
      obtain ⟨-, rfl⟩ | ⟨x, -, hget⟩ := rename_spec h
      · rfl
      · rw [hget, if_neg frameName_ne.1, if_neg frameName_ne.2]
    refine ⟨?_, by rw [frameConst, frameConst, hframe], hframe, fun hnot => ?_⟩
    · rw [heightAsY, field?_old_rename zName_ne_yName h]
      rfl
    · rw [hheight] at hnot
      cases hnot
  · rename_i hheight
    obtain rfl := Except.ok.inj h
    exact ⟨Bool.eq_false_iff.2 hheight, rfl, rfl, fun _ => rfl⟩

omit [Zero ν] [DecidableEq ν] in
theorem field?_of_isLocal {m : Json ν} (h : isLocal m = true) :
    ∃ w, field? frameName m = some w := by
  cases hw : field? frameName m with
  | some w => exact ⟨w, rfl⟩
  | none =>
      rw [isLocal, frameConst, hw] at h
      cases h

theorem not_isTruthy_frame {m : Json ν} (h : m.isTruthy = false) :
    isLocal m = false ∧ heightAsY m = false := by
  cases m with
  | obj fields => cases h
  | arr items => cases h
  | _ => exact ⟨rfl, rfl⟩

/-- What a migrated mapping is: nothing is left to be done, and it is the same
when there was nothing. -/
theorem migrateMapping_spec {m m' : Json ν}
    (h : migrateMapping m = .ok m') :
    isLocal m' = false ∧ heightAsY m' = false ∧
      (isLocal m = false → heightAsY m = false → m' = m) := by
  unfold migrateMapping at h
  split at h
  · obtain ⟨m₁, h₁, hm'⟩ := except_map_eq_ok_iff.1 h
    obtain ⟨hheight, hframe, hfield, hsame⟩ := raised_spec h₁
    have hlocal : isLocal m₁ = isLocal m := by rw [isLocal, isLocal, hframe]
    split at hm'
    · rename_i hloc
      subst hm'
      obtain ⟨w, hw⟩ := field?_of_isLocal hloc
      obtain ⟨h₂, h₃⟩ := isLocal_setField_venue hw
      refine ⟨h₂, h₃, fun hnot => ?_⟩
      rw [hlocal] at hloc
      rw [hloc] at hnot
      cases hnot
    · rename_i hloc
      subst hm'
      exact ⟨Bool.eq_false_iff.2 hloc, hheight, fun _ hnot => hsame hnot⟩
  · rename_i hfalsy
    obtain rfl := Except.ok.inj h
    obtain ⟨h₁, h₂⟩ := not_isTruthy_frame (Bool.eq_false_iff.2 hfalsy)
    exact ⟨h₁, h₂, fun _ _ => rfl⟩

theorem migrateMapping_eq_self {m : Json ν} (hlocal : isLocal m = false)
    (hheight : heightAsY m = false) : migrateMapping m = .ok m := by
  unfold migrateMapping
  rw [hheight]
  split
  · exact except_map_eq_ok_iff.2 ⟨m, rfl, by rw [hlocal]; rfl⟩
  · rfl

theorem exists_migrateMapping (m : Json ν) :
    ∃ m', migrateMapping m = .ok m' := by
  unfold migrateMapping
  split
  · have hraised : ∃ m₁,
        (if heightAsY m then rename yName zName m else .ok m) = .ok m₁ := by
      split
      · rename_i hheight
        refine (exists_rename_iff _ _ _).2 fun _ => ?_
        cases hy : field? yName m with
        | none => simp [heightAsY, hy, truthy] at hheight
        | some y => exact isContainer_of_field? hy
      · exact ⟨m, rfl⟩
    obtain ⟨m₁, h₁⟩ := hraised
    exact ⟨_, except_map_eq_ok_iff.2 ⟨m₁, h₁, rfl⟩⟩
  · exact ⟨m, rfl⟩

/-- No spec of a mapping is lost: the height goes where there is no `z`. -/
theorem mappingKept {m m' : Json ν} (h : migrateMapping m = .ok m') :
    MappingKept (some m) (some m') := by
  intro name v hv hvt
  simp only [prop_some] at hv ⊢
  have hmt := isTruthy_of_field? hv
  unfold migrateMapping at h
  rw [if_pos hmt] at h
  obtain ⟨m₁, h₁, hm'⟩ := except_map_eq_ok_iff.1 h
  have hkept : field? name m₁ = some v ∨
      (name = yName ∧ field? zName m₁ = some v) := by
    split at h₁
    · rename_i hheight
      have hz : truthy (field? zName m) = false := by
        simp only [heightAsY, Bool.and_eq_true, Bool.not_eq_true'] at hheight
        exact hheight.1.2
      have hfree : Unoccupied yName zName (some m) := by
        intro u w _ hw hwt
        rw [prop_some] at hw
        simp [hw, truthy, hwt] at hz
      exact (renamed_iff zName_ne_yName h₁).2 hfree name v hv hvt
    · obtain rfl := Except.ok.inj h₁
      exact Or.inl hv
  have hframe : field? frameName m₁ = field? frameName m :=
    (raised_spec h₁).2.2.1
  split at hm'
  · rename_i hloc
    subst hm'
    obtain ⟨w, hw⟩ := field?_of_isLocal hloc
    by_cases hname : name = frameName
    · subst hname
      rw [hframe, hv] at hw
      refine Or.inr (Or.inr ⟨rfl, ?_, field?_setField_self _ (hframe.trans hv)⟩)
      rw [isLocal, frameConst, hframe, hv] at hloc
      exact hloc
    · rw [field?_setField_of_ne hname,
        field?_setField_of_ne frameName_ne.1]
      exact hkept.imp id Or.inl
  · subst hm'
    exact hkept.imp id Or.inl

end Stages

section Height

variable {ν : Type} [Zero ν] [DecidableEq ν]

omit [Zero ν] [DecidableEq ν] in
theorem hasIn_eq_ok {name : Text} {v : Json ν} {b : Bool}
    (h : hasIn name v = .ok b) : b = (field? name v).isSome := by
  cases v with
  | obj fields => exact (Except.ok.inj h).symm
  | arr items => exact (Except.ok.inj h).symm
  | _ => cases h

omit [Zero ν] [DecidableEq ν] in
theorem exists_hasIn_iff (name : Text) (v : Json ν) :
    (∃ b, hasIn name v = .ok b) ↔ v.isContainer = true := by
  cases v with
  | obj fields => exact iff_of_true ⟨_, rfl⟩ rfl
  | arr items => exact iff_of_true ⟨_, rfl⟩ rfl
  | _ => exact iff_of_false (fun ⟨_, h⟩ => nomatch h) nofun

theorem migrateHeight_eq_self {dm : Json ν}
    (h : truthy (field? heightName dm) = false) :
    migrateHeight dm = .ok dm := by
  unfold migrateHeight
  cases hh : field? heightName dm with
  | none => rfl
  | some height =>
      rw [hh] at h
      exact if_neg (Bool.eq_false_iff.1 h)

/-- The three ways in which the height of a discovery is migrated. -/
theorem migrateHeight_cases {dm dm' : Json ν}
    (h : migrateHeight dm = .ok dm') :
    (truthy (field? heightName dm) = false ∧ dm' = dm) ∨
      ∃ height, field? heightName dm = some height ∧
        height.isTruthy = true ∧
        (((field? constName height).isSome = true ∧
            dm' = eraseField heightName dm) ∨
          (field? constName height = none ∧
            rename heightName zName dm = .ok dm')) := by
  unfold migrateHeight at h
  cases hh : field? heightName dm with
  | none =>
      rw [hh] at h
      exact Or.inl ⟨rfl, (Except.ok.inj h).symm⟩
  | some height =>
      simp only [hh] at h
      split at h
      · rename_i htruthy
        refine Or.inr ⟨height, rfl, htruthy, ?_⟩
        cases hin : hasIn constName height with
        | error e =>
            rw [hin] at h
            cases h
        | ok measured =>
            have hmeasured := hasIn_eq_ok hin
            rw [hin] at h
            cases measured with
            | true => exact Or.inl ⟨hmeasured.symm, (Except.ok.inj h).symm⟩
            | false =>
                exact Or.inr ⟨Option.not_isSome_iff_eq_none.1
                  (Bool.eq_false_iff.1 hmeasured.symm), h⟩
      · rename_i hfalsy
        exact Or.inl ⟨Bool.eq_false_iff.2 hfalsy, (Except.ok.inj h).symm⟩

theorem height_of_migrateHeight {dm dm' : Json ν}
    (h : migrateHeight dm = .ok dm') :
    truthy (field? heightName dm') = false := by
  obtain ⟨hfalsy, rfl⟩ | ⟨height, -, -, ⟨-, rfl⟩ | ⟨-, hren⟩⟩ :=
    migrateHeight_cases h
  · exact hfalsy
  · rw [field?_eraseField, if_pos rfl]
    rfl
  · rw [field?_old_rename zName_ne_heightName hren]
    rfl

theorem exists_migrateHeight_iff (dm : Json ν) :
    (∃ dm', migrateHeight dm = .ok dm') ↔
      Searchable (field? heightName dm) := by
  constructor
  · rintro ⟨dm', h⟩ height hh htruthy
    unfold migrateHeight at h
    simp only [hh, htruthy, if_true] at h
    refine (exists_hasIn_iff constName height).1 ?_
    cases hin : hasIn constName height with
    | ok b => exact ⟨b, rfl⟩
    | error e =>
        rw [hin] at h
        cases h
  · intro hsearch
    cases htruthy : truthy (field? heightName dm) with
    | false => exact ⟨dm, migrateHeight_eq_self htruthy⟩
    | true =>
        cases hh : field? heightName dm with
        | none =>
            rw [hh] at htruthy
            cases htruthy
        | some height =>
            rw [hh] at htruthy
            have htruthy' : height.isTruthy = true := htruthy
            obtain ⟨b, hb⟩ := (exists_hasIn_iff constName height).2
              (hsearch height hh htruthy)
            unfold migrateHeight
            simp only [hh, htruthy', if_true, hb]
            cases b with
            | true => exact ⟨_, rfl⟩
            | false =>
                exact (exists_rename_iff _ _ _).2
                  fun _ => isContainer_of_field? hh

theorem heightKept_iff {dm dm' : Json ν} (h : migrateHeight dm = .ok dm') :
    HeightKept (some dm) (some dm') ↔ ∀ height w,
      field? heightName dm = some height → height.isTruthy = true →
        field? constName height = none → field? zName dm = some w →
          w.isTruthy = true → w = height := by
  unfold HeightKept
  simp only [prop_some]
  obtain ⟨hfalsy, rfl⟩ | ⟨height, hh, htruthy, ⟨hconst, rfl⟩ | ⟨hconst, hren⟩⟩ :=
    migrateHeight_cases h
  · refine iff_of_true (fun _ _ hv _ => Or.inl hv) ?_
    intro height w hh htruthy
    rw [hh] at hfalsy
    rw [show height.isTruthy = false from hfalsy] at htruthy
    cases htruthy
  · refine iff_of_true (fun name v hv _ => ?_) ?_
    · by_cases hname : heightName = name
      · subst hname
        rw [hh] at hv
        obtain rfl := Option.some.inj hv
        exact Or.inr (Or.inr ⟨rfl, hconst⟩)
      · rw [field?_eraseField, if_neg hname]
        exact Or.inl hv
    · intro height' w hh' _ hconst'
      rw [hh] at hh'
      obtain rfl := Option.some.inj hh'
      rw [hconst'] at hconst
      cases hconst
  · have hiff := renamed_iff zName_ne_heightName hren
    unfold Renamed Unoccupied at hiff
    simp only [prop_some] at hiff
    constructor
    · intro hkept height' w hh' _ _ hw hwt
      refine hiff.1 (fun name v hv hvt => ?_) height' w hh' hw hwt
      rcases hkept name v hv hvt with hsame | hmoved | ⟨rfl, hc⟩
      · exact Or.inl hsame
      · exact Or.inr hmoved
      · rw [hh] at hv
        obtain rfl := Option.some.inj hv
        rw [hconst] at hc
        cases hc
    · intro hfree name v hv hvt
      refine (hiff.2 (fun u w hu hw hwt => ?_) name v hv hvt).imp id Or.inl
      rw [hh] at hu
      obtain rfl := Option.some.inj hu
      exact hfree height w hh htruthy hconst hw hwt

end Height

section Entries

variable {ν : Type} [Zero ν] [DecidableEq ν]

theorem migrateEntry_spec {d d' : Json ν} (h : migrateEntry d = .ok d') :
    Along migrateSeen (field? mappingName d) (field? mappingName d') ∧
      SameBut [mappingName] (some d) (some d') ∧
      (field? mappingName d' = field? mappingName d → d' = d) := by
  unfold migrateEntry at h
  split at h
  · obtain ⟨halong, hothers, hsame⟩ := onField_spec h
    exact ⟨halong, fun name hname => hothers name (by simpa using hname), hsame⟩
  · cases h

theorem exists_migrateEntry_iff (d : Json ν) :
    (∃ d', migrateEntry d = .ok d') ↔
      d.isContainer = true ∧ Searchable (field? mappingName d) := by
  unfold migrateEntry
  cases d.isContainer with
  | false => exact iff_of_false (fun ⟨_, h⟩ => nomatch h) (fun h => nomatch h.1)
  | true =>
      simp only [if_true, true_and, exists_onField_iff]
      exact forall₂_congr fun x _ => exists_rename_iff _ _ x

/-- A migrated entry has no `lastSeen` in its mapping and is migrated. -/
theorem migrateEntry_done {d d' : Json ν} (h : migrateEntry d = .ok d') :
    prop (field? mappingName d') lastSeenName = none ∧
      migrateEntry d' = .ok d' := by
  obtain ⟨halong, -, -⟩ := migrateEntry_spec h
  have hcontainer : d'.isContainer = true := by
    unfold migrateEntry at h
    split at h
    · rename_i hd
      exact isContainer_onField h hd
    · cases h
  obtain ⟨-, hnone⟩ | ⟨m, m', -, hm', hren⟩ := halong
  · refine ⟨by rw [hnone]; rfl, ?_⟩
    unfold migrateEntry
    rw [if_pos hcontainer]
    refine onField_eq_self fun x hx => ?_
    rw [hnone] at hx
    cases hx
  · refine ⟨by rw [hm']; exact field?_old_rename communication_ne_seen hren, ?_⟩
    unfold migrateEntry
    rw [if_pos hcontainer]
    refine onField_eq_self fun x hx => ?_
    rw [hm'] at hx
    obtain rfl := Option.some.inj hx
    exact rename_rename communication_ne_seen hren

theorem migrateEntry_eq_iff {d d' : Json ν} (h : migrateEntry d = .ok d') :
    d' = d ↔ prop (field? mappingName d) lastSeenName = none := by
  obtain ⟨halong, -, hsame⟩ := migrateEntry_spec h
  obtain ⟨hm, hm'⟩ | ⟨m, m', hm, hm', hren⟩ := halong
  · exact iff_of_true (hsame (hm'.trans hm.symm)) (by rw [hm]; rfl)
  · have hiff := rename_eq_iff communication_ne_seen hren
    rw [hm, prop_some, ← hiff]
    constructor
    · rintro rfl
      rw [hm] at hm'
      exact (Option.some.inj hm').symm
    · rintro rfl
      exact hsame (hm'.trans hm.symm)

theorem entryKept_iff {d d' : Json ν} (h : migrateEntry d = .ok d') :
    EntryKept d d' ↔ Unoccupied lastSeenName lastCommunicationTimeName
      (field? mappingName d) := by
  obtain ⟨halong, hothers, -⟩ := migrateEntry_spec h
  have hiff : Renamed lastSeenName lastCommunicationTimeName
      (field? mappingName d) (field? mappingName d') ↔
        Unoccupied lastSeenName lastCommunicationTimeName
          (field? mappingName d) := by
    obtain ⟨hm, hm'⟩ | ⟨m, m', hm, hm', hren⟩ := halong
    · rw [hm, hm']
      exact iff_of_true (fun _ _ hv => by cases hv) (fun _ _ hv => by cases hv)
    · rw [hm, hm']
      exact renamed_iff communication_ne_seen hren
  exact ⟨fun hkept => hiff.1 hkept.specs, fun hfree => ⟨hothers, hiff.2 hfree⟩⟩

theorem migrateEntries_ok_iff {items items' : List (Json ν)} :
    migrateEntries items = .ok items' ↔
      List.Forall₂ (fun d d' => migrateEntry d = .ok d') items items' := by
  induction items generalizing items' with
  | nil =>
      constructor
      · intro h
        cases h
        exact .nil
      · intro h
        cases h
        rfl
  | cons d rest ih =>
      simp only [migrateEntries, List.forall₂_cons_left_iff]
      constructor
      · intro h
        cases hd : migrateEntry d with
        | error e =>
            rw [hd] at h
            cases h
        | ok d' =>
            rw [hd] at h
            obtain ⟨rest', hrest, rfl⟩ := except_map_eq_ok_iff.1 h
            exact ⟨d', rest', rfl, ih.1 hrest, rfl⟩
      · rintro ⟨d', rest', hd, hrest, rfl⟩
        rw [hd]
        exact except_map_eq_ok_iff.2 ⟨rest', ih.2 hrest, rfl⟩

/-- A relation of the entries that is decided by those before the step. -/
theorem forall₂_iff_forall_mem {α β : Type*} {R P : α → β → Prop} {Q : α → Prop}
    {xs : List α} {ys : List β} (h : List.Forall₂ R xs ys)
    (hPQ : ∀ x y, R x y → (P x y ↔ Q x)) :
    List.Forall₂ P xs ys ↔ ∀ x ∈ xs, Q x := by
  induction h with
  | nil => simp
  | cons hR _ ih =>
      rw [List.forall₂_cons, List.forall_mem_cons, ih, hPQ _ _ hR]

theorem exists_migrateEntries_iff (items : List (Json ν)) :
    (∃ items', migrateEntries items = .ok items') ↔
      ∀ d ∈ items, ∃ d', migrateEntry d = .ok d' := by
  simp only [migrateEntries_ok_iff]
  induction items with
  | nil => simp
  | cons d rest ih =>
      rw [List.forall_mem_cons, ← ih]
      constructor
      · rintro ⟨items', h⟩
        obtain ⟨d', rest', hd, hrest, -⟩ := List.forall₂_cons_left_iff.1 h
        exact ⟨⟨d', hd⟩, rest', hrest⟩
      · rintro ⟨⟨d', hd⟩, rest', hrest⟩
        exact ⟨d' :: rest', .cons hd hrest⟩

theorem migrateEntries_done {items items' : List (Json ν)}
    (h : migrateEntries items = .ok items') :
    (∀ d ∈ items', d ≠ .null ∧
        prop (field? mappingName d) lastSeenName = none) ∧
      migrateEntries items' = .ok items' := by
  rw [migrateEntries_ok_iff] at h ⊢
  induction h with
  | nil => exact ⟨nofun, .nil⟩
  | cons hd _ ih =>
      obtain ⟨hnone, hagain⟩ := migrateEntry_done hd
      refine ⟨List.forall_mem_cons.2 ⟨⟨?_, hnone⟩, ih.1⟩, .cons hagain ih.2⟩
      rintro rfl
      cases hagain

/-- `onDemand` is migrated as an array, or does not count as true. -/
theorem migrateOnDemand_cases {v v' : Json ν}
    (h : migrateOnDemand v = .ok v') :
    (∃ items items', v = .arr items ∧ v' = .arr items' ∧
        migrateEntries items = .ok items') ∨
      (v.isTruthy = false ∧ v' = v) := by
  unfold migrateOnDemand at h
  split at h
  · obtain ⟨items', hitems, rfl⟩ := except_map_eq_ok_iff.1 h
    exact Or.inl ⟨_, items', rfl, rfl, hitems⟩
  · split at h
    · cases h
    · rename_i hfalsy
      exact Or.inr ⟨Bool.eq_false_iff.2 hfalsy, (Except.ok.inj h).symm⟩

theorem exists_migrateOnDemand_iff (v : Json ν) :
    (∃ v', migrateOnDemand v = .ok v') ↔
      (v.isTruthy = true → ∃ items, v = .arr items ∧ ∀ d ∈ items,
        d.isContainer = true ∧ Searchable (field? mappingName d)) := by
  simp only [← exists_migrateEntry_iff, ← exists_migrateEntries_iff]
  constructor
  · rintro ⟨v', h⟩ htruthy
    obtain ⟨items, items', rfl, -, hitems⟩ | ⟨hfalsy, -⟩ :=
      migrateOnDemand_cases h
    · exact ⟨items, rfl, items', hitems⟩
    · rw [htruthy] at hfalsy
      cases hfalsy
  · intro h
    cases htruthy : v.isTruthy with
    | true =>
        obtain ⟨items, rfl, items', hitems⟩ := h htruthy
        exact ⟨_, except_map_eq_ok_iff.2 ⟨items', hitems, rfl⟩⟩
    | false =>
        refine ⟨v, ?_⟩
        cases v with
        | arr items => cases htruthy
        | _ => simp [migrateOnDemand, htruthy]

end Entries

section Listing

variable {ν : Type} [Zero ν] [DecidableEq ν]

theorem heightMigrations_eq_nil_iff (o : Option (Json ν)) :
    heightMigrations o = .ok [] ↔ truthy o = false := by
  cases o with
  | none => exact iff_of_true rfl rfl
  | some h =>
      cases htruthy : h.isTruthy with
      | false =>
          refine iff_of_true ?_ htruthy
          rw [heightMigrations, htruthy]
          rfl
      | true =>
          refine iff_of_false (fun hnil => ?_) (fun hfalsy => ?_)
          · rw [heightMigrations, htruthy] at hnil
            obtain ⟨b, -, hcons⟩ := except_map_eq_ok_iff.1 hnil
            cases hcons
          · rw [show truthy (some h) = h.isTruthy from rfl, htruthy] at hfalsy
            cases hfalsy

/-- An entry for which nothing is listed. -/
def Unlisted (d : Json ν) : Prop :=
  d ≠ .null ∧ truthy (prop (field? mappingName d) lastSeenName) = false

theorem entryMigrations_eq_nil_iff (i : Nat) (d : Json ν) :
    entryMigrations i d = .ok [] ↔ Unlisted d := by
  unfold entryMigrations Unlisted
  split
  · exact iff_of_false nofun (fun h => h.1 rfl)
  · rename_i hnull
    split
    · rename_i hseen
      exact iff_of_false nofun (fun h => by rw [hseen] at h; cases h.2)
    · rename_i hseen
      exact iff_of_true rfl ⟨hnull, Bool.eq_false_iff.2 hseen⟩

theorem allEntryMigrations_eq_nil_iff (i : Nat) (items : List (Json ν)) :
    allEntryMigrations i items = .ok [] ↔ ∀ d ∈ items, Unlisted d := by
  induction items generalizing i with
  | nil => exact iff_of_true rfl nofun
  | cons d rest ih =>
      rw [List.forall_mem_cons, ← ih (i + 1), ← entryMigrations_eq_nil_iff i,
        allEntryMigrations]
      cases hd : entryMigrations i d with
      | error e => exact iff_of_false nofun nofun
      | ok ms =>
          constructor
          · intro h
            obtain ⟨more, hmore, hnil⟩ := except_map_eq_ok_iff.1 h
            obtain ⟨rfl, rfl⟩ := List.append_eq_nil_iff.1 hnil
            exact ⟨rfl, hmore⟩
          · rintro ⟨hms, hrest⟩
            obtain rfl := Except.ok.inj hms
            exact except_map_eq_ok_iff.2 ⟨[], hrest, rfl⟩

/-- `onDemand` for which nothing is listed. -/
def AllUnlisted (o : Option (Json ν)) : Prop :=
  truthy o = false ∨ ∃ items, o = some (.arr items) ∧ ∀ d ∈ items, Unlisted d

theorem onDemandMigrations_eq_nil_iff (o : Option (Json ν)) :
    onDemandMigrations o = .ok [] ↔ AllUnlisted o := by
  unfold onDemandMigrations AllUnlisted
  split
  · rename_i items
    rw [allEntryMigrations_eq_nil_iff]
    constructor
    · exact fun h => Or.inr ⟨items, rfl, h⟩
    · rintro (hfalsy | ⟨items', heq, h⟩)
      · cases hfalsy
      · obtain rfl := arr.inj (Option.some.inj heq)
        exact h
  · rename_i hnot
    split
    · rename_i htruthy
      refine iff_of_false nofun ?_
      rintro (hfalsy | ⟨items, rfl, -⟩)
      · rw [htruthy] at hfalsy
        cases hfalsy
      · exact hnot items rfl
    · rename_i hfalsy
      exact iff_of_true rfl (Or.inl (Bool.eq_false_iff.2 hfalsy))

theorem schemaFieldMigrations_eq_nil_iff (schema : Json ν) :
    schemaFieldMigrations schema = .ok [] ↔
      (field? mappingName schema).any isLocal = false ∧
        (field? mappingName schema).any heightAsY = false ∧
        truthy (prop (prop (field? discoverName schema) mappingName)
          heightName) = false ∧
        truthy (prop (prop (field? diagnosticsName schema) streamName)
          lastSeenName) = false ∧
        AllUnlisted (prop (field? diagnosticsName schema) onDemandName) := by
  rw [← heightMigrations_eq_nil_iff, ← onDemandMigrations_eq_nil_iff]
  unfold schemaFieldMigrations
  dsimp only
  constructor
  · intro h
    cases hheight : heightMigrations
        (prop (prop (field? discoverName schema) mappingName) heightName) with
    | error e =>
        rw [hheight] at h
        cases h
    | ok height =>
        rw [hheight] at h
        obtain ⟨onDemand, honDemand, hnil⟩ := except_map_eq_ok_iff.1 h
        simp only [List.append_eq_nil_iff, ite_eq_right_iff, reduceCtorEq,
          imp_false, Bool.not_eq_true] at hnil
        obtain ⟨⟨⟨⟨hlocal, hy⟩, rfl⟩, hstream⟩, rfl⟩ := hnil
        exact ⟨hlocal, hy, rfl, hstream, honDemand⟩
  · rintro ⟨hlocal, hy, hheight, hstream, honDemand⟩
    rw [hheight]
    refine except_map_eq_ok_iff.2 ⟨[], honDemand, ?_⟩
    simp [hlocal, hy, hstream]

end Listing

section Documents

variable {ν : Type} [Zero ν] [DecidableEq ν]

omit [Zero ν] [DecidableEq ν] in
/-- The member of a member is changed and nothing else. -/
theorem onField_onField_spec {outer inner : Text}
    {f : Json ν → Except JsError (Json ν)} {v v' : Json ν}
    (h : onField outer (onField inner f) v = .ok v') :
    Along f (prop (field? outer v) inner) (prop (field? outer v') inner) ∧
      SameBut [inner] (field? outer v) (field? outer v') ∧
      SameBut [outer] (some v) (some v') ∧
      (prop (field? outer v') inner = prop (field? outer v) inner →
        v' = v) := by
  obtain ⟨halong, hothers, hsame⟩ := onField_spec h
  have houter : SameBut [outer] (some v) (some v') :=
    fun name hname => hothers name (by simpa using hname)
  obtain ⟨hx, hx'⟩ | ⟨x, y, hx, hy, hxy⟩ := halong
  · refine ⟨?_, ?_, houter, fun _ => hsame (hx'.trans hx.symm)⟩
    · rw [hx, hx']
      exact Or.inl ⟨rfl, rfl⟩
    · rw [hx, hx']
      exact fun _ _ => rfl
  · obtain ⟨hinner, hinnerOthers, hinnerSame⟩ := onField_spec hxy
    rw [hx, hy]
    refine ⟨hinner, fun name hname => hinnerOthers name (by simpa using hname),
      houter, fun heq => hsame ?_⟩
    rw [hx, hy, hinnerSame heq]

omit [Zero ν] [DecidableEq ν] in
theorem exists_onField_onField_iff (outer inner : Text)
    (f : Json ν → Except JsError (Json ν)) (v : Json ν) :
    (∃ v', onField outer (onField inner f) v = .ok v') ↔
      ∀ x, prop (field? outer v) inner = some x → ∃ y, f x = .ok y := by
  rw [exists_onField_iff]
  simp only [exists_onField_iff]
  cases field? outer v with
  | none => exact iff_of_true nofun nofun
  | some x => simp

/-- What the four steps of a migration do. -/
structure Migrated (schema doc : Json ν) : Prop where
  mapping : Along migrateMapping (field? mappingName schema)
    (field? mappingName doc)
  height : Along migrateHeight
    (prop (field? discoverName schema) mappingName)
    (prop (field? discoverName doc) mappingName)
  stream : Along migrateSeen (prop (field? diagnosticsName schema) streamName)
    (prop (field? diagnosticsName doc) streamName)
  onDemand : Along migrateOnDemand
    (prop (field? diagnosticsName schema) onDemandName)
    (prop (field? diagnosticsName doc) onDemandName)
  others : SameBut [mappingName, discoverName, diagnosticsName] (some schema)
    (some doc)
  discover : SameBut [mappingName] (field? discoverName schema)
    (field? discoverName doc)
  diagnostics : SameBut [streamName, onDemandName]
    (field? diagnosticsName schema) (field? diagnosticsName doc)
  same : field? mappingName doc = field? mappingName schema →
    prop (field? discoverName doc) mappingName =
      prop (field? discoverName schema) mappingName →
    prop (field? diagnosticsName doc) streamName =
      prop (field? diagnosticsName schema) streamName →
    prop (field? diagnosticsName doc) onDemandName =
      prop (field? diagnosticsName schema) onDemandName → doc = schema

theorem names_apart :
    mappingName ≠ discoverName ∧ mappingName ≠ diagnosticsName ∧
      discoverName ≠ mappingName ∧ discoverName ≠ diagnosticsName ∧
      diagnosticsName ≠ mappingName ∧ diagnosticsName ≠ discoverName ∧
      streamName ≠ onDemandName ∧ onDemandName ≠ streamName := by
  decide

theorem migratedSchema_steps {schema doc : Json ν}
    (htruthy : schema.isTruthy = true) :
    migratedSchema schema = .ok doc ↔ ∃ s₁ s₂ s₃,
      onField mappingName migrateMapping schema = .ok s₁ ∧
        onField discoverName (onField mappingName migrateHeight) s₁ = .ok s₂ ∧
        onField diagnosticsName (onField streamName migrateSeen) s₂ = .ok s₃ ∧
        onField diagnosticsName (onField onDemandName migrateOnDemand) s₃ =
          .ok doc := by
  unfold migratedSchema
  dsimp only
  rw [if_pos htruthy]
  simp only [except_bind_eq_ok_iff]
  constructor
  · rintro ⟨s₁, h₁, s₂, h₂, s₃, h₃, h₄⟩
    exact ⟨s₁, s₂, s₃, h₁, h₂, h₃, h₄⟩
  · rintro ⟨s₁, s₂, s₃, h₁, h₂, h₃, h₄⟩
    exact ⟨s₁, h₁, s₂, h₂, s₃, h₃, h₄⟩

theorem migrated_of_ok {schema doc : Json ν} (htruthy : schema.isTruthy = true)
    (h : migratedSchema schema = .ok doc) : Migrated schema doc := by
  obtain ⟨s₁, s₂, s₃, h₁, h₂, h₃, h₄⟩ := (migratedSchema_steps htruthy).1 h
  obtain ⟨hmapping, hothers₁, hsame₁⟩ := onField_spec h₁
  obtain ⟨hheight, hdiscover, hothers₂, hsame₂⟩ := onField_onField_spec h₂
  obtain ⟨hstream, hdiag₃, hothers₃, hsame₃⟩ := onField_onField_spec h₃
  obtain ⟨honDemand, hdiag₄, hothers₄, hsame₄⟩ := onField_onField_spec h₄
  simp only [SameBut, prop_some, List.mem_singleton] at *
  obtain ⟨hmd, hmg, hdm, hdg, hgm, hgd, hso, hos⟩ := names_apart
  -- what each document has in common with the next
  have hm : field? mappingName doc = field? mappingName s₁ := by
    rw [hothers₄ _ hmg, hothers₃ _ hmg, hothers₂ _ hmd]
  have hd₁ : field? discoverName s₁ = field? discoverName schema :=
    hothers₁ _ hdm
  have hd : field? discoverName doc = field? discoverName s₂ := by
    rw [hothers₄ _ hdg, hothers₃ _ hdg]
  have hg : field? diagnosticsName s₂ = field? diagnosticsName schema := by
    rw [hothers₂ _ hgd, hothers₁ _ hgm]
  have hst : prop (field? diagnosticsName doc) streamName =
      prop (field? diagnosticsName s₃) streamName := hdiag₄ _ hso
  have hod : prop (field? diagnosticsName s₃) onDemandName =
      prop (field? diagnosticsName schema) onDemandName := by
    rw [hdiag₃ _ hos, hg]
  refine ⟨hm ▸ hmapping, ?_, ?_, hod ▸ honDemand, ?_, ?_, ?_, ?_⟩
  · rw [hd, ← hd₁]
    exact hheight
  · rw [hst, ← hg]
    exact hstream
  · intro name hname
    simp only [List.mem_cons, List.not_mem_nil, or_false, not_or] at hname
    rw [prop_some, prop_some, hothers₄ _ hname.2.2, hothers₃ _ hname.2.2,
      hothers₂ _ hname.2.1, hothers₁ _ hname.1]
  · intro name hname
    rw [hd, ← hd₁]
    exact hdiscover name (by simpa using hname)
  · intro name hname
    simp only [List.mem_cons, List.not_mem_nil, or_false, not_or] at hname
    rw [hdiag₄ _ hname.2, hdiag₃ _ hname.1, hg]
  · intro hmsame hdsame hssame hosame
    have e₁ : s₁ = schema := hsame₁ (hm ▸ hmsame)
    have e₂ : s₂ = s₁ := hsame₂ (by rw [← hd, hd₁, hdsame])
    have e₃ : s₃ = s₂ := hsame₃ (by rw [← hst, hssame, hg])
    have e₄ : doc = s₃ := hsame₄ (by rw [hosame, hod])
    rw [e₄, e₃, e₂, e₁]

omit [Zero ν] [DecidableEq ν] in
theorem exists_of_along {f : Json ν → Except JsError (Json ν)}
    {o o' : Option (Json ν)} (h : Along f o o') {x : Json ν}
    (hx : o = some x) : ∃ y, f x = .ok y := by
  obtain ⟨hnone, -⟩ | ⟨x', y, hx', -, hxy⟩ := h
  · rw [hnone] at hx
    cases hx
  · rw [hx'] at hx
    obtain rfl := Option.some.inj hx
    exact ⟨y, hxy⟩

theorem exists_migrated_iff {schema : Json ν}
    (htruthy : schema.isTruthy = true) :
    (∃ doc, migratedSchema schema = .ok doc) ↔ Shaped schema := by
  constructor
  · rintro ⟨doc, h⟩
    have hmig := migrated_of_ok htruthy h
    refine ⟨?_, fun v hv => ?_, fun v hv => ?_⟩
    · cases hdm : prop (field? discoverName schema) mappingName with
      | none => exact nofun
      | some dm =>
          exact (exists_migrateHeight_iff dm).1
            (exists_of_along hmig.height hdm)
    · exact (exists_rename_iff _ _ v).1 (exists_of_along hmig.stream hv)
    · exact (exists_migrateOnDemand_iff v).1 (exists_of_along hmig.onDemand hv)
  · intro hshape
    obtain ⟨hmd, hmg, hdm, hdg, hgm, hgd, hso, hos⟩ := names_apart
    obtain ⟨s₁, h₁⟩ := (exists_onField_iff mappingName migrateMapping
      schema).2 fun x _ => exists_migrateMapping x
    obtain ⟨-, hothers₁, -⟩ := onField_spec h₁
    obtain ⟨s₂, h₂⟩ := (exists_onField_onField_iff discoverName mappingName
      migrateHeight s₁).2 fun dm hx => by
        rw [hothers₁ _ hdm] at hx
        have hheight := hshape.height
        rw [hx] at hheight
        exact (exists_migrateHeight_iff dm).2 hheight
    obtain ⟨-, -, hothers₂, -⟩ := onField_onField_spec h₂
    have hg : field? diagnosticsName s₂ = field? diagnosticsName schema := by
      have hsame := hothers₂ diagnosticsName (by simpa using hgd)
      exact hsame.trans (hothers₁ _ hgm)
    obtain ⟨s₃, h₃⟩ := (exists_onField_onField_iff diagnosticsName streamName
      migrateSeen s₂).2 fun st hx => by
        rw [hg] at hx
        exact (exists_rename_iff _ _ st).2 (hshape.stream st hx)
    obtain ⟨-, hdiag₃, -, -⟩ := onField_onField_spec h₃
    obtain ⟨doc, h₄⟩ := (exists_onField_onField_iff diagnosticsName
      onDemandName migrateOnDemand s₃).2 fun od hx => by
        rw [hdiag₃ _ (by simpa using hos), hg] at hx
        exact (exists_migrateOnDemand_iff od).2 (hshape.onDemand od hx)
    exact ⟨doc, (migratedSchema_steps htruthy).2 ⟨s₁, s₂, s₃, h₁, h₂, h₃, h₄⟩⟩

/-- Nothing is listed of a migrated document. -/
theorem Migrated.unlisted {schema doc : Json ν} (h : Migrated schema doc) :
    schemaFieldMigrations doc = .ok [] := by
  have hm : (field? mappingName doc).any isLocal = false ∧
      (field? mappingName doc).any heightAsY = false := by
    obtain ⟨-, hnone⟩ | ⟨m, m', -, hm', hmm⟩ := h.mapping
    · rw [hnone]
      exact ⟨rfl, rfl⟩
    · rw [hm']
      obtain ⟨hlocal, hheight, -⟩ := migrateMapping_spec hmm
      exact ⟨hlocal, hheight⟩
  refine (schemaFieldMigrations_eq_nil_iff doc).2 ⟨hm.1, hm.2, ?_, ?_, ?_⟩
  · obtain ⟨-, hnone⟩ | ⟨dm, dm', -, hdm', hdd⟩ := h.height
    · rw [hnone]
      rfl
    · rw [hdm']
      exact height_of_migrateHeight hdd
  · obtain ⟨-, hnone⟩ | ⟨st, st', -, hst', hss⟩ := h.stream
    · rw [hnone]
      rfl
    · rw [hst', prop_some, field?_old_rename communication_ne_seen hss]
      rfl
  · obtain ⟨-, hnone⟩ | ⟨od, od', -, hod', hoo⟩ := h.onDemand
    · exact Or.inl (by rw [hnone]; rfl)
    · rw [hod']
      obtain ⟨items, items', -, rfl, hitems⟩ | ⟨hfalsy, rfl⟩ :=
        migrateOnDemand_cases hoo
      · refine Or.inr ⟨items', rfl, fun d hd => ?_⟩
        obtain ⟨hnull, hnone⟩ := (migrateEntries_done hitems).1 d hd
        exact ⟨hnull, by rw [hnone]; rfl⟩
      · exact Or.inl hfalsy

/-- A document that has been migrated is left as it is. -/
theorem Migrated.again {schema doc : Json ν} (h : Migrated schema doc)
    (htruthy : doc.isTruthy = true) : migratedSchema doc = .ok doc := by
  refine (migratedSchema_steps htruthy).2 ⟨doc, doc, doc, ?_, ?_, ?_, ?_⟩
  · refine onField_eq_self fun x hx => ?_
    obtain ⟨-, hnone⟩ | ⟨m, m', -, hm', hmm⟩ := h.mapping
    · rw [hnone] at hx
      cases hx
    · rw [hm'] at hx
      obtain rfl := Option.some.inj hx
      obtain ⟨hlocal, hheight, -⟩ := migrateMapping_spec hmm
      exact migrateMapping_eq_self hlocal hheight
  · refine onField_onField_eq_self fun x hx => ?_
    obtain ⟨-, hnone⟩ | ⟨dm, dm', -, hdm', hdd⟩ := h.height
    · rw [hnone] at hx
      cases hx
    · rw [hdm'] at hx
      obtain rfl := Option.some.inj hx
      exact migrateHeight_eq_self (height_of_migrateHeight hdd)
  · refine onField_onField_eq_self fun x hx => ?_
    obtain ⟨-, hnone⟩ | ⟨st, st', -, hst', hss⟩ := h.stream
    · rw [hnone] at hx
      cases hx
    · rw [hst'] at hx
      obtain rfl := Option.some.inj hx
      exact rename_rename communication_ne_seen hss
  · refine onField_onField_eq_self fun x hx => ?_
    obtain ⟨-, hnone⟩ | ⟨od, od', -, hod', hoo⟩ := h.onDemand
    · rw [hnone] at hx
      cases hx
    · rw [hod'] at hx
      obtain rfl := Option.some.inj hx
      obtain ⟨items, items', -, rfl, hitems⟩ | ⟨-, rfl⟩ :=
        migrateOnDemand_cases hoo
      · exact except_map_eq_ok_iff.2 ⟨items', (migrateEntries_done hitems).2, rfl⟩
      · exact hoo

/-- Nothing is left to be done in a document. -/
structure Settled (schema : Json ν) : Prop where
  frame : (field? mappingName schema).any isLocal = false
  y : (field? mappingName schema).any heightAsY = false
  height : truthy (prop (prop (field? discoverName schema) mappingName)
    heightName) = false
  stream : truthy (prop (prop (field? diagnosticsName schema) streamName)
    lastSeenName) = false
  onDemand : AllUnlisted (prop (field? diagnosticsName schema) onDemandName)

theorem settled_iff (schema : Json ν) :
    schemaFieldMigrations schema = .ok [] ↔ Settled schema := by
  rw [schemaFieldMigrations_eq_nil_iff]
  constructor
  · rintro ⟨hframe, hy, hheight, hstream, honDemand⟩
    exact ⟨hframe, hy, hheight, hstream, honDemand⟩
  · rintro ⟨hframe, hy, hheight, hstream, honDemand⟩
    exact ⟨hframe, hy, hheight, hstream, honDemand⟩

omit [Zero ν] [DecidableEq ν] in
theorem eq_of_along {f : Json ν → Except JsError (Json ν)}
    {o o' : Option (Json ν)} (h : Along f o o')
    (hsame : ∀ x y, o = some x → f x = .ok y → y = x) : o' = o := by
  obtain ⟨hnone, hnone'⟩ | ⟨x, y, hx, hy, hxy⟩ := h
  · rw [hnone, hnone']
  · rw [hx, hy, hsame x y hx hxy]

theorem Migrated.mapping_eq {schema doc : Json ν} (h : Migrated schema doc)
    (hsettled : Settled schema) :
    field? mappingName doc = field? mappingName schema := by
  refine eq_of_along h.mapping fun m m' hm hmm => ?_
  have hframe := hsettled.frame
  have hy := hsettled.y
  rw [hm] at hframe hy
  exact (migrateMapping_spec hmm).2.2 hframe hy

theorem Migrated.height_eq {schema doc : Json ν} (h : Migrated schema doc)
    (hsettled : Settled schema) :
    prop (field? discoverName doc) mappingName =
      prop (field? discoverName schema) mappingName := by
  refine eq_of_along h.height fun dm dm' hdm hdd => ?_
  have hheight := hsettled.height
  rw [hdm] at hheight
  exact Except.ok.inj (hdd.symm.trans (migrateHeight_eq_self hheight))

/-- The steps for `lastSeen` leave a document exactly when it has none. -/
theorem Migrated.stream_eq_iff {schema doc : Json ν} (h : Migrated schema doc) :
    prop (field? diagnosticsName doc) streamName =
        prop (field? diagnosticsName schema) streamName ↔
      prop (prop (field? diagnosticsName schema) streamName) lastSeenName =
        none := by
  obtain ⟨hst, hst'⟩ | ⟨st, st', hst, hst', hss⟩ := h.stream
  · exact iff_of_true (hst'.trans hst.symm) (by rw [hst]; rfl)
  · rw [hst, hst', prop_some, ← rename_eq_iff communication_ne_seen hss]
    exact Option.some_inj

theorem migrateEntries_eq_iff {items items' : List (Json ν)}
    (h : migrateEntries items = .ok items') :
    items' = items ↔
      ∀ d ∈ items, prop (field? mappingName d) lastSeenName = none := by
  rw [eq_comm, ← List.forall₂_eq_eq_eq]
  refine forall₂_iff_forall_mem (migrateEntries_ok_iff.1 h) fun d d' hd => ?_
  rw [eq_comm]
  exact migrateEntry_eq_iff hd

theorem Migrated.onDemand_eq_iff {schema doc : Json ν}
    (h : Migrated schema doc) :
    prop (field? diagnosticsName doc) onDemandName =
        prop (field? diagnosticsName schema) onDemandName ↔
      ∀ items,
        prop (field? diagnosticsName schema) onDemandName = some (.arr items) →
          ∀ d ∈ items, prop (field? mappingName d) lastSeenName = none := by
  obtain ⟨hod, hod'⟩ | ⟨od, od', hod, hod', hoo⟩ := h.onDemand
  · refine iff_of_true (hod'.trans hod.symm) fun items hitems => ?_
    rw [hod] at hitems
    cases hitems
  · rw [hod, hod']
    obtain ⟨items, items', rfl, rfl, hitems⟩ | ⟨hfalsy, rfl⟩ :=
      migrateOnDemand_cases hoo
    · constructor
      · intro hsame items₁ h₁
        obtain rfl := arr.inj (Option.some.inj h₁)
        obtain rfl := arr.inj (Option.some.inj hsame)
        exact (migrateEntries_eq_iff hitems).1 rfl
      · intro hnone
        rw [(migrateEntries_eq_iff hitems).2 (hnone items rfl)]
    · refine iff_of_true rfl fun items hitems => ?_
      obtain rfl := Option.some.inj hitems
      cases hfalsy

/-- A document for which nothing is listed is the same afterwards exactly when
it has no `lastSeen` that does not count as true. -/
theorem Migrated.eq_iff {schema doc : Json ν} (h : Migrated schema doc)
    (hsettled : Settled schema) : doc = schema ↔ NoSeen schema := by
  constructor
  · rintro rfl
    exact ⟨h.stream_eq_iff.1 rfl, h.onDemand_eq_iff.1 rfl⟩
  · intro hseen
    exact h.same (h.mapping_eq hsettled) (h.height_eq hsettled)
      (h.stream_eq_iff.2 hseen.stream) (h.onDemand_eq_iff.2 hseen.onDemand)

theorem Migrated.heightKept_iff {schema doc : Json ν}
    (h : Migrated schema doc) :
    HeightKept (prop (field? discoverName schema) mappingName)
        (prop (field? discoverName doc) mappingName) ↔ ∀ height w,
      prop (prop (field? discoverName schema) mappingName) heightName =
          some height → height.isTruthy = true →
        field? constName height = none →
          prop (prop (field? discoverName schema) mappingName) zName = some w →
            w.isTruthy = true → w = height := by
  obtain ⟨hdm, hdm'⟩ | ⟨dm, dm', hdm, hdm', hdd⟩ := h.height
  · rw [hdm, hdm']
    exact iff_of_true (fun _ _ hv => by cases hv) (fun _ _ hv => by cases hv)
  · rw [hdm, hdm']
    exact SchemaMigration.heightKept_iff hdd

theorem Migrated.streamKept_iff {schema doc : Json ν}
    (h : Migrated schema doc) :
    Renamed lastSeenName lastCommunicationTimeName
        (prop (field? diagnosticsName schema) streamName)
        (prop (field? diagnosticsName doc) streamName) ↔
      Unoccupied lastSeenName lastCommunicationTimeName
        (prop (field? diagnosticsName schema) streamName) := by
  obtain ⟨hst, hst'⟩ | ⟨st, st', hst, hst', hss⟩ := h.stream
  · rw [hst, hst']
    exact iff_of_true (fun _ _ hv => by cases hv) (fun _ _ hv => by cases hv)
  · rw [hst, hst']
    exact renamed_iff communication_ne_seen hss

theorem Migrated.entriesKept_iff {schema doc : Json ν}
    (h : Migrated schema doc) {items : List (Json ν)}
    (hitems : prop (field? diagnosticsName schema) onDemandName =
      some (.arr items)) :
    (∃ items', prop (field? diagnosticsName doc) onDemandName =
        some (.arr items') ∧ List.Forall₂ EntryKept items items') ↔
      ∀ d ∈ items, Unoccupied lastSeenName lastCommunicationTimeName
        (field? mappingName d) := by
  obtain ⟨hod, -⟩ | ⟨od, od', hod, hod', hoo⟩ := h.onDemand
  · rw [hitems] at hod
    cases hod
  · rw [hitems] at hod
    obtain rfl := Option.some.inj hod
    obtain ⟨items₁, items', h₁, rfl, hmig⟩ | ⟨hfalsy, -⟩ :=
      migrateOnDemand_cases hoo
    · obtain rfl := arr.inj h₁
      have hiff : List.Forall₂ EntryKept items items' ↔ ∀ d ∈ items, _ :=
        forall₂_iff_forall_mem (migrateEntries_ok_iff.1 hmig)
          fun d d' hd => entryKept_iff hd
      rw [← hiff, hod']
      constructor
      · rintro ⟨items₂, h₂, hkept⟩
        obtain rfl := arr.inj (Option.some.inj h₂)
        exact hkept
      · exact fun hkept => ⟨items', rfl, hkept⟩
    · cases hfalsy

/-- No spec is lost exactly when no new name is occupied. -/
theorem Migrated.nothingLost_iff {schema doc : Json ν}
    (h : Migrated schema doc) : NothingLost schema doc ↔ Free schema := by
  constructor
  · intro hkept
    exact ⟨h.heightKept_iff.1 hkept.height, h.streamKept_iff.1 hkept.stream,
      fun items hitems =>
        (h.entriesKept_iff hitems).1 (hkept.onDemand items hitems)⟩
  · intro hfree
    refine ⟨h.others, ?_, h.discover, h.heightKept_iff.2 hfree.height,
      h.diagnostics, h.streamKept_iff.2 hfree.stream, fun items hitems =>
        (h.entriesKept_iff hitems).2 (hfree.onDemand items hitems)⟩
    obtain ⟨hm, hm'⟩ | ⟨m, m', hm, hm', hmm⟩ := h.mapping
    · rw [hm, hm']
      exact fun _ _ hv => by cases hv
    · rw [hm, hm']
      exact mappingKept hmm

theorem isTruthy_of_migrated {schema doc : Json ν}
    (htruthy : schema.isTruthy = true) (h : migratedSchema schema = .ok doc) :
    doc.isTruthy = true := by
  obtain ⟨s₁, s₂, s₃, h₁, h₂, h₃, h₄⟩ := (migratedSchema_steps htruthy).1 h
  have t₁ := isTruthy_onField h₁ htruthy
  have t₂ := isTruthy_onField h₂ t₁
  have t₃ := isTruthy_onField h₃ t₂
  exact isTruthy_onField h₄ t₃

/-- A value that does not count as true becomes the empty document, though
nothing is listed for it. -/
theorem not_preserving_of_falsy {schema : Json ν}
    (h : schema.isTruthy = false) : ¬ Preserving schema := by
  rintro ⟨doc, hdoc, -, -, hsame, -⟩
  have hlisted : schemaFieldMigrations schema = .ok [] := by
    cases schema with
    | obj fields => cases h
    | arr items => cases h
    | _ => rfl
  rw [hsame hlisted] at hdoc
  unfold migratedSchema at hdoc
  dsimp only at hdoc
  rw [h] at hdoc
  have hobj : schema = .obj [] := (Except.ok.inj hdoc).symm
  rw [hobj] at h
  cases h

theorem exists_allEntryMigrations (i : Nat) {items : List (Json ν)}
    (h : ∀ d ∈ items, d ≠ .null) :
    ∃ ms, allEntryMigrations i items = .ok ms := by
  induction items generalizing i with
  | nil => exact ⟨[], rfl⟩
  | cons d rest ih =>
      obtain ⟨hd, hrest⟩ := List.forall_mem_cons.1 h
      obtain ⟨more, hmore⟩ := ih (i + 1) hrest
      obtain ⟨ms, hms⟩ : ∃ ms, entryMigrations i d = .ok ms := by
        unfold entryMigrations
        split
        · exact absurd rfl hd
        · split
          · exact ⟨_, rfl⟩
          · exact ⟨_, rfl⟩
      exact ⟨_, except_bind_eq_ok_iff.2
        ⟨ms, hms, except_map_eq_ok_iff.2 ⟨more, hmore, rfl⟩⟩⟩

/-- The listing does not throw where the migration does not. -/
theorem exists_listed_of_shaped {schema : Json ν} (h : Shaped schema) :
    ∃ ms, schemaFieldMigrations schema = .ok ms := by
  obtain ⟨height, hheight⟩ : ∃ ms, heightMigrations
      (prop (prop (field? discoverName schema) mappingName) heightName) =
        .ok ms := by
    cases hh : prop (prop (field? discoverName schema) mappingName)
        heightName with
    | none => exact ⟨[], rfl⟩
    | some v =>
        rw [heightMigrations]
        split
        · rename_i htruthy
          obtain ⟨b, hb⟩ := (exists_hasIn_iff constName v).2
            (h.height v hh htruthy)
          exact ⟨_, except_map_eq_ok_iff.2 ⟨b, hb, rfl⟩⟩
        · exact ⟨[], rfl⟩
  obtain ⟨onDemand, honDemand⟩ : ∃ ms, onDemandMigrations
      (prop (field? diagnosticsName schema) onDemandName) = .ok ms := by
    cases hv : prop (field? diagnosticsName schema) onDemandName with
    | none => exact ⟨[], rfl⟩
    | some v =>
        cases htruthy : v.isTruthy with
        | true =>
            obtain ⟨items, rfl, hitems⟩ := h.onDemand v hv htruthy
            refine exists_allEntryMigrations 0 fun d hd => ?_
            rintro rfl
            cases (hitems _ hd).1
        | false =>
            refine ⟨[], ?_⟩
            have hfalsy : truthy (some v) = false := htruthy
            cases v with
            | arr items => cases htruthy
            | _ =>
                rw [onDemandMigrations, hfalsy]
                · rfl
                · intro items hitems
                  cases hitems
  exact ⟨_, except_bind_eq_ok_iff.2
    ⟨height, hheight, except_map_eq_ok_iff.2 ⟨onDemand, honDemand, rfl⟩⟩⟩

theorem exists_listed_of_migrated {schema doc : Json ν}
    (h : migratedSchema schema = .ok doc) :
    ∃ ms, schemaFieldMigrations schema = .ok ms := by
  cases htruthy : schema.isTruthy with
  | true =>
      exact exists_listed_of_shaped
        ((exists_migrated_iff htruthy).1 ⟨doc, h⟩)
  | false =>
      refine ⟨[], ?_⟩
      cases schema with
      | obj fields => cases htruthy
      | arr items => cases htruthy
      | _ => rfl

/-- The migration keeps what it promises for a document, if it does not throw,
if `lastSeen` is not there without being listed, and if no new name is taken by
another spec. -/
theorem preserving_iff (schema : Json ν) :
    Preserving schema ↔ schema.isTruthy = true ∧ Shaped schema ∧
      (Settled schema → NoSeen schema) ∧ Free schema := by
  cases htruthy : schema.isTruthy with
  | false =>
      exact iff_of_false (not_preserving_of_falsy htruthy) (fun h => nomatch h.1)
  | true =>
      constructor
      · rintro ⟨doc, hdoc, -, -, hsame, hkept⟩
        have hmig := migrated_of_ok htruthy hdoc
        refine ⟨rfl, (exists_migrated_iff htruthy).1 ⟨doc, hdoc⟩, ?_,
          hmig.nothingLost_iff.1 hkept⟩
        intro hsettled
        exact (hmig.eq_iff hsettled).1 (hsame ((settled_iff schema).2 hsettled))
      · rintro ⟨-, hshape, hseen, hfree⟩
        obtain ⟨doc, hdoc⟩ := (exists_migrated_iff htruthy).2 hshape
        have hmig := migrated_of_ok htruthy hdoc
        refine ⟨doc, hdoc, hmig.unlisted,
          hmig.again (isTruthy_of_migrated htruthy hdoc), ?_,
          hmig.nothingLost_iff.2 hfree⟩
        intro hlisted
        have hsettled := (settled_iff schema).1 hlisted
        exact (hmig.eq_iff hsettled).2 (hseen hsettled)

/-- A document with both names for the time of the last communication: the spec
under the new one is lost. -/
theorem not_preserving_bothNames :
    ¬ Preserving (.obj [(diagnosticsName, .obj [(streamName, .obj
      [(lastSeenName, .obj [("path".toList, .str ['a'])]),
        (lastCommunicationTimeName,
          .obj [("path".toList, .str ['b'])])])])] : Json Int) := by
  rintro ⟨doc, hdoc, -, -, -, hkept⟩
  have hfree := (migrated_of_ok rfl hdoc).nothingLost_iff.1 hkept
  have hsame := hfree.stream _ _ rfl rfl rfl
  have hne : ('b' : Char) ≠ 'a' := by decide
  simp [hne] at hsame

end Documents

end SchemaMigration
end Northbound
end Kelt
