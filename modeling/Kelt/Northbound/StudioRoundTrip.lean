import Kelt.Northbound.MappingStudio

/-!
# Opening a mapping document and saving it

A document that is opened in the Mapping Studio and saved without an edit is to
come out as it was migrated. `Kept` says of which documents this is so
(`reopened_iff`): every member has its row, every spec is one that a row gives
back, `onDemand` has one entry, and nothing is there that the writer leaves out
when it is empty.
-/

namespace Kelt
namespace Northbound
namespace MappingStudio

open Json SchemaMigration

section Conditions

variable {ν : Type} [Zero ν] [DecidableEq ν] (N : Numerals ν)

omit [Zero ν] [DecidableEq ν] in
/-- A constant frame and no more. -/
def ConstFrame (f : Option (Json ν)) (t : Text) : Prop :=
  ∃ v, f = some v ∧ OnlyNames [constName] v ∧
    field? constName v = some (.str t)

/-- The frame that is chosen for a document. One that reads as `payload` is
mapped in a row like the other fields. -/
inductive FrameIs (f : Option (Json ν)) : Text → Prop where
  | constant {t : Text} (hconst : ConstFrame f t) (hne : t ≠ payloadText) :
      FrameIs f t
  | text {x : Json ν} (hconst : prop f constName = some x)
      (htext : textOf N x = .ok payloadText) : FrameIs f payloadText
  | path (hconst : prop f constName = none)
      (hpath : truthy (prop f pathName) = true) : FrameIs f payloadText

/-- The members of the mapping: each has its row, and where a diagnostic of the
core has the same name, and so the same row, the two are the same. -/
structure MappingKept (c : Contract ν) (doc : Json ν) (t : Text)
    (shown : List Text) (mapping : Members ν) : Prop where
  named : ∀ name v, Dict.getItem name mapping = some v →
    (name ∈ shown ∧ name ≠ protoName) ∨ (name = frameName ∧ t ≠ payloadText)
  specs : ∀ name v, name ∈ shown → c.core.get? name = none →
    Dict.getItem name mapping = some v → name ∈ c.mapKeys ∧ SpecKept N v
  shared : ∀ name tier, name ∈ shown → name ≠ protoName →
    c.core.get? name = some tier →
      SameMember (index (some (tierObject doc tier)) name)
        (Dict.getItem name mapping)

omit [Zero ν] [DecidableEq ν] in
/-- A name with a row in a tier: one of the core's in its own tier, or one that
is not in the core, without blanks around it. -/
def NameKept (core : Dict Text Tier) (tier : Tier) (name : Text) : Prop :=
  (core.get? name = some tier ∧ name ≠ protoName) ∨
    (inCore core name = false ∧ trim name = name ∧ name ≠ [])

def RowsKept (core : Dict Text Tier) (tier : Tier) (fields : Members ν) :
    Prop :=
  ∀ name v, Dict.getItem name fields = some v →
    NameKept core tier name ∧ SpecKept N v

/-- The entry of `onDemand`: its paths are set, its mapping is not empty. -/
structure DemandKept (c : Contract ν) (doc d : Json ν) : Prop where
  others : OnlyNames [pathName, listPathName, pathVarsName, mappingName] d
  path : ∃ p, field? pathName d = some p ∧
    (p.isTruthy = true ∨
      (p = .str [] ∧ truthy (field? pathName doc) = false))
  listPath : ∀ x, field? listPathName d = some x → x.isTruthy = true
  pathVars : (∀ x, field? pathVarsName d = some x → x.isTruthy = true) ∧
    (field? pathVarsName d = none →
      truthy (field? pathVarsName doc) = false)
  mapping : ∃ fields, field? mappingName d = some (.obj fields) ∧
    fields ≠ [] ∧ RowsKept N c.core .onDemand fields

structure DiagnosticsKept (c : Contract ν) (doc : Json ν)
    (diagnostics : Members ν) : Prop where
  others : ∀ name, name ∉ [streamName, onDemandName] →
    Dict.getItem name diagnostics = none
  stream : ∀ v, Dict.getItem streamName diagnostics = some v →
    ∃ fields, v = .obj fields ∧ fields ≠ [] ∧ RowsKept N c.core .stream fields
  onDemand : ∀ v, Dict.getItem onDemandName diagnostics = some v →
    ∃ d, v = .arr [d] ∧ DemandKept N c doc d

/-- The documents that come out as they were. -/
structure Kept (c : Contract ν) (doc : Json ν) : Prop where
  mapping : ∃ mapping t layout, field? mappingName doc = some (.obj mapping) ∧
    FrameIs N (Dict.getItem frameName mapping) t ∧
    mappingLayout c.mapKeys c.required t (heightOf c.caps doc) = .ok layout ∧
    MappingKept N c doc t (shownKeys t layout) mapping
  diagnostics : ∃ diagnostics,
    field? diagnosticsName doc = some (.obj diagnostics) ∧
    DiagnosticsKept N c doc diagnostics

/-- What is saved of an opened document is what was migrated. -/
def Reopened (c : Contract ν) (schema : Json ν) : Prop :=
  ∃ doc st saved, migratedSchema schema = .ok doc ∧
    seed N c schema = .ok st ∧ assemble N c st = .ok saved ∧ Same saved doc

end Conditions

section Seeded

variable {ν : Type} [Zero ν] [DecidableEq ν] (N : Numerals ν)

/-- The spec that the row under a name is read from: the core's diagnostic has
the row, where the mapping has the same name. -/
def rowSource (c : Contract ν) (doc : Json ν) (name : Text) :
    Option (Json ν) :=
  match c.core.get? name with
  | some tier => index (some (tierObject doc tier)) name
  | none =>
      if name ∈ c.mapKeys then index (field? mappingName doc) name else none

structure Seeded (c : Contract ν) (doc : Json ν) (st : Studio ν) : Prop where
  opened : st.doc = doc
  height : st.height = heightOf c.caps doc
  frame : frameOf N (prop (field? mappingName doc) frameName) =
    .ok st.frameSel
  binds : ∀ name, saveBind N st.binds name = saveSpec N (rowSource c doc name)
  rows : ∀ r, r ∈ st.xrows ↔
    ∃ v, (r.key, v) ∈ entries (tierObject doc r.tier) ∧
      inCore c.core r.key = false ∧ specToState N (some v) = .ok r.state

variable {N}

theorem saveSpec_of_state {o : Option (Json ν)} {s : FieldState ν}
    (h : specToState N o = .ok s) : saveSpec N o = save N s := by
  unfold saveSpec
  rw [h]
  rfl

/-- The rows of the core are read over those of the mapping. -/
theorem saveBind_seeded {c : Contract ν} {doc : Json ν} {b b' : Binds ν}
    (hmapping : bindAll N id (index (field? mappingName doc)) c.mapKeys [] =
      .ok b)
    (hcore : bindAll N Prod.fst
      (fun p => index (some (tierObject doc p.2)) p.1) c.core.items b =
        .ok b') (name : Text) :
    saveBind N b' name = saveSpec N (rowSource c doc name) := by
  unfold saveBind rowSource
  cases htier : c.core.get? name with
  | some tier =>
      have hmem := (c.core.get?_eq_some_iff name tier).1 htier
      obtain ⟨s, hs, hb⟩ := getItem_bindAll (N := N) hcore
        (o := index (some (tierObject doc tier)) name) (fun p hp hname => by
          obtain ⟨k, tier'⟩ := p
          obtain rfl : k = name := hname
          have htier' := (c.core.get?_eq_some_iff k tier').2 hp
          rw [htier] at htier'
          rw [Option.some.inj htier']) ⟨(name, tier), hmem, rfl⟩
      rw [hb]
      exact (saveSpec_of_state hs).symm
  | none =>
      have hnot : ∀ p ∈ c.core.items, p.1 ≠ name := by
        rintro ⟨k, tier⟩ hp rfl
        rw [(c.core.get?_eq_some_iff k tier).2 hp] at htier
        cases htier
      rw [getItem_bindAll_of_not hcore hnot]
      by_cases hname : name ∈ c.mapKeys
      · obtain ⟨s, hs, hb⟩ := getItem_bindAll (N := N) hmapping
          (o := index (field? mappingName doc) name)
          (fun k _ hk => congrArg _ hk) ⟨name, hname, rfl⟩
        rw [hb, if_pos hname]
        exact (saveSpec_of_state hs).symm
      · rw [getItem_bindAll_of_not hmapping
          (fun k hk hkey => by subst hkey; exact hname hk), if_neg hname]
        rfl

theorem seeded_of_ok {c : Contract ν} {doc : Json ν} {st : Studio ν}
    (h : seedFrom N c doc = .ok st) : Seeded N c doc st := by
  obtain ⟨fs, hframe, h⟩ := except_bind_eq_ok_iff.1 h
  obtain ⟨b, hb, h⟩ := except_bind_eq_ok_iff.1 h
  obtain ⟨b', hb', h⟩ := except_bind_eq_ok_iff.1 h
  obtain ⟨xs, hxs, h⟩ := except_bind_eq_ok_iff.1 h
  obtain ⟨ys, hys, rfl⟩ := except_map_eq_ok_iff.1 h
  refine ⟨rfl, rfl, hframe, saveBind_seeded hb hb', fun r => ?_⟩
  rw [List.mem_append, mem_rowsOf hxs, mem_rowsOf hys]
  cases htier : r.tier with
  | stream => simp
  | onDemand => simp

theorem exists_seedFrom {c : Contract ν} {doc : Json ν} {t : Text}
    (hframe : frameOf N (prop (field? mappingName doc) frameName) = .ok t)
    (hmapping : ∀ name ∈ c.mapKeys,
      ∃ s, specToState N (index (field? mappingName doc) name) = .ok s)
    (hcore : ∀ p ∈ c.core.items,
      ∃ s, specToState N (index (some (tierObject doc p.2)) p.1) = .ok s)
    (hrows : ∀ tier, ∀ p ∈ entries (tierObject doc tier),
      ∃ s, specToState N (some p.2) = .ok s) :
    ∃ st, seedFrom N c doc = .ok st := by
  obtain ⟨b, hb⟩ := exists_bindAll id hmapping []
  obtain ⟨b', hb'⟩ := exists_bindAll Prod.fst hcore b
  obtain ⟨xs, hxs⟩ := exists_rowsOf c.core .stream
    fun p hp _ => hrows .stream p hp
  obtain ⟨ys, hys⟩ := exists_rowsOf c.core .onDemand
    fun p hp _ => hrows .onDemand p hp
  exact ⟨_, except_bind_eq_ok_iff.2 ⟨t, hframe,
    except_bind_eq_ok_iff.2 ⟨b, hb, except_bind_eq_ok_iff.2 ⟨b', hb',
      except_bind_eq_ok_iff.2 ⟨xs, hxs,
        except_map_eq_ok_iff.2 ⟨ys, hys, rfl⟩⟩⟩⟩⟩⟩

end Seeded

section Diagnostics

variable {ν : Type} [Zero ν] [DecidableEq ν] {N : Numerals ν}

/-- The object of a tier. -/
def Tiers.get (t : Tiers ν) : Tier → Members ν
  | .stream => t.stream
  | .onDemand => t.demand

omit [Zero ν] [DecidableEq ν] in
theorem getItem_put (tier tier' : Tier) (k name : Text) (w : Json ν)
    (t : Tiers ν) :
    Dict.getItem name ((t.put tier' k w).get tier) =
      if (tier' = tier ∧ k = name) ∧ name ≠ protoName then some w
      else Dict.getItem name (t.get tier) := by
  cases tier with
  | stream =>
      cases tier' with
      | stream => simp [Tiers.put, Tiers.get, getItem_assign]
      | onDemand => simp [Tiers.put, Tiers.get]
  | onDemand =>
      cases tier' with
      | stream => simp [Tiers.put, Tiers.get]
      | onDemand => simp [Tiers.put, Tiers.get, getItem_assign]

theorem saveRow_eq {core : Dict Text Tier} {r : XRow ν}
    (hkey : trim r.key ≠ []) (hcore : inCore core (trim r.key) = false) :
    saveRow N core r = save N r.state := by
  unfold saveRow save
  dsimp only
  rw [if_neg hkey, hcore]
  congr 1
  funext b
  cases b with
  | true => rfl
  | false => rfl

/-- A row that is saved has a name that is not in the core. -/
theorem saveRow_spec {core : Dict Text Tier} {r : XRow ν} {w : Json ν}
    (h : saveRow N core r = .ok (some w)) :
    trim r.key ≠ [] ∧ inCore core (trim r.key) = false ∧
      save N r.state = .ok (some w) := by
  have hkey : trim r.key ≠ [] := by
    intro hnil
    unfold saveRow at h
    dsimp only at h
    rw [if_pos hnil] at h
    cases h
  have hcore : inCore core (trim r.key) = false := by
    by_contra hin
    unfold saveRow at h
    dsimp only at h
    rw [if_neg hkey] at h
    obtain ⟨b, -, h⟩ := except_bind_eq_ok_iff.1 h
    rw [Bool.not_eq_false] at hin
    rw [hin, Bool.or_true, if_pos rfl] at h
    cases h
  rw [saveRow_eq hkey hcore] at h
  exact ⟨hkey, hcore, h⟩

omit [Zero ν] [DecidableEq ν] in
theorem inCore_of_tier {core : Dict Text Tier} {name : Text} {tier : Tier}
    (h : core.get? name = some tier) : inCore core name = true := by
  simp [inCore, h]

omit [Zero ν] [DecidableEq ν] in
theorem of_not_inCore {core : Dict Text Tier} {name : Text}
    (h : inCore core name = false) :
    core.get? name = none ∧ name ≠ protoName := by
  rw [inCore, Bool.or_eq_false_iff] at h
  refine ⟨Option.not_isSome_iff_eq_none.1 (Bool.eq_false_iff.1 h.1), ?_⟩
  rintro rfl
  exact of_decide_eq_false h.2 protoName_mem

/-- The two loops that write the diagnostics. -/
structure Written (N : Numerals ν) (c : Contract ν) (st : Studio ν)
    (t : Tiers ν) : Prop where
  loops : ∃ t₁,
    writeEach (fun p => saveBind N st.binds p.1)
      (fun p => Tiers.put p.2 p.1) c.core.items ⟨[], []⟩ = .ok t₁ ∧
    writeEach (saveRow N c.core)
      (fun r => Tiers.put r.tier (trim r.key)) st.xrows t₁ = .ok t

variable {c : Contract ν} {doc : Json ν} {st : Studio ν} {t : Tiers ν}

theorem Seeded.saveBind_core (hst : Seeded N c doc st) {name : Text}
    {tier : Tier} (htier : c.core.get? name = some tier) :
    saveBind N st.binds name =
      saveSpec N (index (some (tierObject doc tier)) name) := by
  rw [hst.binds, rowSource, htier]

/-- Where a member of a tier comes from: from the row of the core, or from an
extra one. -/
theorem Written.origin (h : Written N c st t) (hst : Seeded N c doc st)
    {tier : Tier} {name : Text} {w : Json ν}
    (hw : Dict.getItem name (t.get tier) = some w) :
    (c.core.get? name = some tier ∧ name ≠ protoName ∧
        saveSpec N (index (some (tierObject doc tier)) name) =
          .ok (some w)) ∨
      ∃ r ∈ st.xrows, r.tier = tier ∧ trim r.key = name ∧ name ≠ [] ∧
        inCore c.core name = false ∧ save N r.state = .ok (some w) := by
  obtain ⟨t₁, hcore, hrows⟩ := h.loops
  rcases origin_of_writeEach
    (r := fun t : Tiers ν => Dict.getItem name (t.get tier))
    (fun r w t => getItem_put tier r.tier (trim r.key) name w t) hrows hw with
    ht₁ | ⟨r, hr, ⟨⟨htier, hkey⟩, -⟩, hsave⟩
  · rcases origin_of_writeEach
      (r := fun t : Tiers ν => Dict.getItem name (t.get tier))
      (fun p w t => getItem_put tier p.2 p.1 name w t) hcore ht₁ with
      hnil | ⟨⟨k, tier'⟩, hp, ⟨⟨htier, hkey⟩, hproto⟩, hsave⟩
    · cases tier with
      | stream => cases hnil
      | onDemand => cases hnil
    · obtain rfl : tier' = tier := htier
      obtain rfl : k = name := hkey
      have htier := (c.core.get?_eq_some_iff k tier').2 hp
      rw [hst.saveBind_core htier] at hsave
      exact Or.inl ⟨htier, hproto, hsave⟩
  · obtain ⟨hne, hnot, hsave⟩ := saveRow_spec hsave
    subst hkey
    exact Or.inr ⟨r, hr, htier, rfl, hne, hnot, hsave⟩

/-- A diagnostic of the core is saved in its tier. -/
theorem Written.getItem_core (h : Written N c st t) (hst : Seeded N c doc st)
    {tier : Tier} {name : Text} (htier : c.core.get? name = some tier)
    (hproto : name ≠ protoName) {o : Option (Json ν)}
    (hsave : saveSpec N (index (some (tierObject doc tier)) name) = .ok o) :
    Dict.getItem name (t.get tier) = o := by
  obtain ⟨t₁, hcore, hrows⟩ := h.loops
  have ht₁ : Dict.getItem name (t₁.get tier) = o := by
    have hread := read_writeEach
      (r := fun t : Tiers ν => Dict.getItem name (t.get tier))
      (fun p w t => getItem_put tier p.2 p.1 name w t) hcore (o := o)
      (fun p _ hhit => by
        rw [hhit.1.2, hst.saveBind_core htier]
        exact hsave)
      ⟨(name, tier), (c.core.get?_eq_some_iff name tier).1 htier,
        ⟨rfl, rfl⟩, hproto⟩
    rw [hread]
    cases tier with
    | stream => exact Option.or_none
    | onDemand => exact Option.or_none
  rw [← ht₁]
  by_cases hex : ∃ r ∈ st.xrows, (r.tier = tier ∧ trim r.key = name) ∧
      name ≠ protoName
  · refine (read_writeEach
      (r := fun t : Tiers ν => Dict.getItem name (t.get tier))
      (fun r w t => getItem_put tier r.tier (trim r.key) name w t) hrows
      (o := none) (fun r hr hhit => ?_) hex).trans Option.none_or
    obtain ⟨o', ho'⟩ := ok_of_writeEach hrows r hr
    cases o' with
    | none => exact ho'
    | some w =>
        obtain ⟨-, hnot, -⟩ := saveRow_spec ho'
        rw [hhit.1.2, inCore_of_tier htier] at hnot
        cases hnot
  · exact read_writeEach_of_not
      (r := fun t : Tiers ν => Dict.getItem name (t.get tier))
      (fun r w t => getItem_put tier r.tier (trim r.key) name w t) hrows
      fun r hr hhit => hex ⟨r, hr, hhit⟩

/-- A member that is not in the core is saved from its row, if all rows with
its name are read from one spec. -/
theorem Written.getItem_row (h : Written N c st t)
    {tier : Tier} {name : Text} (hnot : inCore c.core name = false)
    (hne : name ≠ []) {o : Option (Json ν)}
    (hrow : ∀ r ∈ st.xrows, r.tier = tier → trim r.key = name →
      save N r.state = .ok o)
    (hex : ∃ r ∈ st.xrows, r.tier = tier ∧ trim r.key = name) :
    Dict.getItem name (t.get tier) = o := by
  obtain ⟨t₁, hcore, hrows⟩ := h.loops
  obtain ⟨hnone, hproto⟩ := of_not_inCore hnot
  have ht₁ : Dict.getItem name (t₁.get tier) = none := by
    refine (read_writeEach_of_not
      (r := fun t : Tiers ν => Dict.getItem name (t.get tier))
      (fun p w t => getItem_put tier p.2 p.1 name w t) hcore ?_).trans ?_
    · rintro ⟨k, tier'⟩ hp ⟨⟨-, hkey⟩, -⟩
      obtain rfl : k = name := hkey
      rw [(c.core.get?_eq_some_iff k tier').2 hp] at hnone
      cases hnone
    · cases tier with
      | stream => rfl
      | onDemand => rfl
  obtain ⟨r, hr, htier, hkey⟩ := hex
  have hread := read_writeEach
    (r := fun t : Tiers ν => Dict.getItem name (t.get tier))
    (fun r w t => getItem_put tier r.tier (trim r.key) name w t) hrows
    (o := o) (fun r' hr' hhit => by
      rw [saveRow_eq (hhit.1.2 ▸ hne) (hhit.1.2 ▸ hnot)]
      exact hrow r' hr' hhit.1.1 hhit.1.2) ⟨r, hr, ⟨htier, hkey⟩, hproto⟩
  rw [hread, ht₁, Option.or_none]

/-- A tier is saved as it was exactly when all its members have their rows. -/
theorem Written.same_iff (h : Written N c st t) (hst : Seeded N c doc st)
    {tier : Tier} {fields : Members ν}
    (hfields : tierObject doc tier = .obj fields) :
    (∀ name, SameMember (Dict.getItem name (t.get tier))
      (Dict.getItem name fields)) ↔ RowsKept N c.core tier fields := by
  have hindex : ∀ name, index (some (tierObject doc tier)) name =
      Dict.getItem name fields := fun name => by rw [hfields, index_obj]
  have hentry : ∀ name v, (name, v) ∈ entries (tierObject doc tier) ↔
      Dict.getItem name fields = some v := fun name v => by
    rw [hfields]
    exact mem_distinct_iff
  -- the spec of an extra row of this tier
  have hread : ∀ r ∈ st.xrows, r.tier = tier → ∃ v,
      Dict.getItem r.key fields = some v ∧ inCore c.core r.key = false ∧
        specToState N (some v) = .ok r.state := by
    intro r hr htier
    obtain ⟨v, hv, hnot, hstate⟩ := (hst.rows r).1 hr
    rw [htier, hentry] at hv
    exact ⟨v, hv, hnot, hstate⟩
  constructor
  · intro hsame
    -- the name of an extra row comes out trimmed
    have htrimmed : ∀ r ∈ st.xrows, r.tier = tier → trim r.key = r.key := by
      intro r hr htier
      obtain ⟨v, hv, hnot, -⟩ := hread r hr htier
      have hkey := hsame r.key
      rw [hv] at hkey
      obtain ⟨w, hw, -⟩ := sameMember_some_iff.1 hkey.symm
      obtain ⟨hcore, -⟩ | ⟨r', -, -, hkey', -⟩ := h.origin hst hw
      · rw [inCore_of_tier hcore] at hnot
        cases hnot
      · rw [← hkey', trim_trim]
    intro name v hv
    have hname := hsame name
    rw [hv] at hname
    obtain ⟨w, hw, hvw⟩ := sameMember_some_iff.1 hname.symm
    obtain ⟨hcore, hproto, hsave⟩ | ⟨r, hr, htier, hkey, hne, hnot, hsave⟩ :=
      h.origin hst hw
    · rw [hindex, hv] at hsave
      exact ⟨Or.inl ⟨hcore, hproto⟩,
        (saveSpec_kept_iff N v).1 ⟨w, hsave, hvw.symm⟩⟩
    · obtain ⟨v', hv', -, hstate⟩ := hread r hr htier
      have hself := htrimmed r hr htier
      rw [hkey] at hself
      rw [← hself, hv] at hv'
      obtain rfl := Option.some.inj hv'
      rw [← saveSpec_of_state hstate] at hsave
      refine ⟨Or.inr ⟨hnot, ?_, hne⟩,
        (saveSpec_kept_iff N v).1 ⟨w, hsave, hvw.symm⟩⟩
      rw [← hkey, trim_trim]
  · intro hkept name
    have htrimmed : ∀ r ∈ st.xrows, r.tier = tier → trim r.key = r.key := by
      intro r hr htier
      obtain ⟨v, hv, hnot, -⟩ := hread r hr htier
      obtain ⟨hcore, -⟩ | ⟨-, htrim, -⟩ := (hkept r.key v hv).1
      · rw [inCore_of_tier hcore] at hnot
        cases hnot
      · exact htrim
    cases hv : Dict.getItem name fields with
    | none =>
        cases hw : Dict.getItem name (t.get tier) with
        | none => exact .none
        | some w =>
            obtain ⟨-, -, hsave⟩ | ⟨r, hr, htier, hkey, -⟩ := h.origin hst hw
            · rw [hindex, hv] at hsave
              cases hsave
            · obtain ⟨v, hv', -⟩ := hread r hr htier
              rw [← htrimmed r hr htier, hkey, hv] at hv'
              cases hv'
    | some v =>
        obtain ⟨hnamed, hspec⟩ := hkept name v hv
        obtain ⟨w, hsave, hwv⟩ := (saveSpec_kept_iff N v).2 hspec
        obtain ⟨hcore, hproto⟩ | ⟨hnot, htrim, hne⟩ := hnamed
        · have hsave' := hsave
          rw [← hv, ← hindex] at hsave'
          rw [h.getItem_core hst hcore hproto hsave']
          exact .some hwv
        · obtain ⟨s, hs, -⟩ := except_bind_eq_ok_iff.1 hsave
          have hrow : ∀ r ∈ st.xrows, r.tier = tier → trim r.key = name →
              save N r.state = .ok (some w) := by
            intro r hr htier hkey
            obtain ⟨v', hv', -, hstate⟩ := hread r hr htier
            rw [← htrimmed r hr htier, hkey, hv] at hv'
            obtain rfl := Option.some.inj hv'
            rw [← saveSpec_of_state hstate, hsave]
          have hex : ∃ r ∈ st.xrows, r.tier = tier ∧ trim r.key = name :=
            ⟨⟨name, tier, s⟩,
              (hst.rows _).2 ⟨v, (hentry name v).2 hv, hnot, hs⟩, rfl, htrim⟩
          rw [h.getItem_row hnot hne hrow hex]
          exact .some hwv

end Diagnostics

section Mapping

variable {ν : Type} [Zero ν] [DecidableEq ν] {N : Numerals ν}
  {c : Contract ν} {doc : Json ν} {st : Studio ν}

omit [Zero ν] [DecidableEq ν] in
/-- What the frame is before the rows are written. -/
theorem getItem_frame (t name : Text) :
    Dict.getItem name (if t = payloadText then []
      else [(frameName, (.obj [(constName, .str t)] : Json ν))]) =
      if name = frameName ∧ t ≠ payloadText then
        some (.obj [(constName, .str t)])
      else none := by
  by_cases ht : t = payloadText
  · rw [if_pos ht, if_neg (fun h => h.2 ht)]
    rfl
  · rw [if_neg ht, Dict.getItem]
    by_cases hname : frameName = name
    · rw [if_pos hname, if_pos ⟨hname.symm, ht⟩]
    · rw [if_neg hname, if_neg (fun h => hname h.1.symm)]
      rfl

omit [Zero ν] [DecidableEq ν] in
theorem same_constFrame_iff {o : Option (Json ν)} {t : Text} :
    SameMember (some (.obj [(constName, .str t)])) o ↔ ConstFrame o t := by
  have hothers : ∀ name, name ∉ [constName] →
      Dict.getItem name [(constName, (.str t : Json ν))] = none := by
    intro name hname
    rw [Dict.getItem, if_neg (fun h => hname (by simp [h]))]
    rfl
  have hconst : Dict.getItem constName [(constName, (.str t : Json ν))] =
      some (.str t) := if_pos rfl
  rw [sameMember_some_iff]
  refine exists_congr fun v => and_congr_right fun _ => ?_
  constructor
  · intro h
    obtain ⟨gs, rfl, hall⟩ := same_obj_iff.1 h
    obtain ⟨hnames, hrest⟩ := (sameMembers_iff hothers).1 hall
    have hname := hnames constName List.mem_cons_self
    rw [hconst] at hname
    obtain ⟨w, hw, hstr⟩ := sameMember_some_iff.1 hname
    cases hstr
    exact ⟨hrest, hw⟩
  · rintro ⟨hrest, hc⟩
    cases v with
    | obj gs =>
        refine same_obj_iff.2 ⟨gs, rfl, (sameMembers_iff hothers).2
          ⟨List.forall_mem_singleton.2 ?_, hrest⟩⟩
        have hc' : Dict.getItem constName gs = some (.str t) := hc
        rw [hconst, hc']
        exact SameMember.refl _
    | _ => cases hc

/-- A shown name has the value of its row, another one that of the frame. -/
theorem getItem_mapping {shown : List Text} {t : Text} {m : Members ν}
    (hframe : t ≠ payloadText → frameName ∉ shown)
    (hst : Seeded N c doc st)
    (h : writeEach (saveBind N st.binds) assign shown
      (if t = payloadText then []
        else [(frameName, .obj [(constName, .str t)])]) = .ok m)
    (name : Text) :
    (name ∈ shown ∧ name ≠ protoName ∧
        saveSpec N (rowSource c doc name) = .ok (Dict.getItem name m)) ∨
      (¬ (name ∈ shown ∧ name ≠ protoName) ∧ Dict.getItem name m =
        if name = frameName ∧ t ≠ payloadText then
          some (.obj [(constName, .str t)]) else none) := by
  have hput : ∀ (k : Text) (w : Json ν) (o : Members ν),
      Dict.getItem name (assign k w o) =
        if k = name ∧ name ≠ protoName then some w
        else Dict.getItem name o :=
    fun k w o => getItem_assign k name w o
  by_cases hname : name ∈ shown ∧ name ≠ protoName
  · left
    refine ⟨hname.1, hname.2, ?_⟩
    obtain ⟨o, ho⟩ := ok_of_writeEach h name hname.1
    have hread := read_writeEach (r := Dict.getItem name) hput h (o := o)
      (fun k _ hhit => hhit.1 ▸ ho) ⟨name, hname.1, rfl, hname.2⟩
    have hnone : ¬ (name = frameName ∧ t ≠ payloadText) :=
      fun hf => hframe hf.2 (hf.1 ▸ hname.1)
    rw [getItem_frame, if_neg hnone, Option.or_none] at hread
    rw [hread, ← hst.binds, ho]
  · right
    refine ⟨hname, ?_⟩
    rw [read_writeEach_of_not (r := Dict.getItem name) hput h
      fun k hk hhit => hname ⟨hhit.1 ▸ hk, hhit.2⟩, getItem_frame]

/-- What a row gives back of a spec that is kept, or of none. -/
theorem same_of_saveSpec {o p : Option (Json ν)}
    (hkept : ∀ v, o = some v → SpecKept N v) (h : saveSpec N o = .ok p) :
    SameMember p o := by
  cases o with
  | none =>
      obtain rfl := Except.ok.inj h
      exact .none
  | some v =>
      obtain ⟨w, hw, hsame⟩ := (saveSpec_kept_iff N v).2 (hkept v rfl)
      obtain rfl := Except.ok.inj (hw.symm.trans h)
      exact .some hsame

/-- The mapping is saved as it was exactly when all its members have their
rows. -/
theorem mapping_same_iff {shown : List Text} {t : Text} {m ms : Members ν}
    (hframe : t ≠ payloadText → frameName ∉ shown)
    (hst : Seeded N c doc st)
    (h : writeEach (saveBind N st.binds) assign shown
      (if t = payloadText then []
        else [(frameName, .obj [(constName, .str t)])]) = .ok m)
    (hms : field? mappingName doc = some (.obj ms))
    (htiers : ∀ name tier v, c.core.get? name = some tier →
      name ≠ protoName → index (some (tierObject doc tier)) name = some v →
        SpecKept N v) :
    (∀ name, SameMember (Dict.getItem name m) (Dict.getItem name ms)) ↔
      (t ≠ payloadText → ConstFrame (Dict.getItem frameName ms) t) ∧
        MappingKept N c doc t shown ms := by
  have hlookup := getItem_mapping hframe hst h
  have hsource : ∀ name, c.core.get? name = none → rowSource c doc name =
      if name ∈ c.mapKeys then Dict.getItem name ms else none := by
    intro name hnone
    rw [rowSource, hnone, hms]
    exact if_congr Iff.rfl (index_obj ms name) rfl
  constructor
  · intro hall
    refine ⟨fun ht => ?_, fun name v hv => ?_, fun name v hshown hnone hv => ?_,
      fun name tier hshown hproto htier => ?_⟩
    · obtain ⟨hshown, -, -⟩ | ⟨-, hm⟩ := hlookup frameName
      · exact absurd hshown (hframe ht)
      · have hname := hall frameName
        rw [hm, if_pos ⟨rfl, ht⟩] at hname
        exact same_constFrame_iff.1 hname
    · obtain ⟨hshown, hproto, -⟩ | ⟨-, hm⟩ := hlookup name
      · exact Or.inl ⟨hshown, hproto⟩
      · by_cases hf : name = frameName ∧ t ≠ payloadText
        · exact Or.inr hf
        · have hname := hall name
          rw [hm, if_neg hf, sameMember_none_iff, hv] at hname
          cases hname
    · have hname := hall name
      rw [hv] at hname
      obtain ⟨w, hw, hvw⟩ := sameMember_some_iff.1 hname.symm
      obtain ⟨-, -, hsave⟩ | ⟨hnot, hm⟩ := hlookup name
      · rw [hsource name hnone, hw] at hsave
        by_cases hkey : name ∈ c.mapKeys
        · rw [if_pos hkey, hv] at hsave
          exact ⟨hkey, (saveSpec_kept_iff N v).1 ⟨w, hsave, hvw.symm⟩⟩
        · rw [if_neg hkey] at hsave
          cases hsave
      · rw [hw] at hm
        split at hm
        · rename_i hf
          exact absurd (hf.1 ▸ hshown) (hframe hf.2)
        · cases hm
    · obtain ⟨-, -, hsave⟩ | ⟨hnot, -⟩ := hlookup name
      · rw [rowSource, htier] at hsave
        have hsame := same_of_saveSpec
          (fun v hv => htiers name tier v htier hproto hv) hsave
        exact hsame.symm.trans (hall name)
      · exact absurd ⟨hshown, hproto⟩ hnot
  · rintro ⟨hconst, hnamed, hspecs, hshared⟩ name
    obtain ⟨hshown, hproto, hsave⟩ | ⟨hnot, hm⟩ := hlookup name
    · cases htier : c.core.get? name with
      | some tier =>
          rw [rowSource, htier] at hsave
          have hsame := same_of_saveSpec
            (fun v hv => htiers name tier v htier hproto hv) hsave
          exact hsame.trans (hshared name tier hshown hproto htier)
      | none =>
          rw [hsource name htier] at hsave
          cases hv : Dict.getItem name ms with
          | none =>
              rw [hv, ite_self] at hsave
              rw [← Except.ok.inj hsave]
              exact .none
          | some v =>
              obtain ⟨hkey, hspec⟩ := hspecs name v hshown htier hv
              rw [if_pos hkey, hv] at hsave
              refine same_of_saveSpec (fun v' hv' => ?_) hsave
              obtain rfl := Option.some.inj hv'
              exact hspec
    · rw [hm]
      by_cases hf : name = frameName ∧ t ≠ payloadText
      · rw [if_pos hf, hf.1]
        exact same_constFrame_iff.2 (hconst hf.2)
      · rw [if_neg hf, sameMember_none_iff]
        cases hv : Dict.getItem name ms with
        | none => rfl
        | some v => exact absurd (hnamed name v hv) (not_or_intro hnot hf)

end Mapping

section Entry

variable {ν : Type} [Zero ν] [DecidableEq ν] {N : Numerals ν}
  {c : Contract ν} {doc : Json ν}

omit [Zero ν] [DecidableEq ν] in
theorem entry_names_apart :
    pathName ≠ listPathName ∧ pathName ≠ pathVarsName ∧
      pathName ≠ mappingName ∧ listPathName ≠ pathVarsName ∧
      listPathName ≠ mappingName ∧ pathVarsName ≠ mappingName := by
  decide

theorem orElse_of_truthy {o : Option (Json ν)} (h : truthy o = true)
    (d : Json ν) : some (orElse o d) = o := by
  cases o with
  | none => cases h
  | some v =>
      have hv : v.isTruthy = true := h
      rw [orElse, if_pos hv]

theorem orElse_of_not_truthy {o : Option (Json ν)} (h : truthy o = false)
    (d : Json ν) : orElse o d = d := by
  cases o with
  | none => rfl
  | some v => exact if_neg (Bool.eq_false_iff.1 h)

theorem truthy_of_same {o p : Option (Json ν)} (h : SameMember o p) :
    truthy o = truthy p := by
  cases h with
  | none => rfl
  | some h => exact isTruthy_of_same h

theorem same_path_iff (o d : Option (Json ν)) :
    SameMember (some (orElse o (orElse d (.str [])))) o ↔ ∃ p, o = some p ∧
      (p.isTruthy = true ∨ (p = .str [] ∧ truthy d = false)) := by
  constructor
  · intro h
    cases o with
    | none => cases h
    | some p =>
        refine ⟨p, rfl, ?_⟩
        cases hp : p.isTruthy with
        | true => exact Or.inl rfl
        | false =>
            right
            rw [orElse_of_not_truthy (o := some p) hp] at h
            cases hd : truthy d with
            | true =>
                rw [orElse_of_truthy hd] at h
                have hsame := truthy_of_same h
                rw [hd] at hsame
                exact absurd (hsame.trans hp) nofun
            | false =>
                rw [orElse_of_not_truthy hd] at h
                cases h with
                | some h =>
                    cases h
                    exact ⟨rfl, rfl⟩
  · rintro ⟨p, rfl, hp | ⟨rfl, hd⟩⟩
    · rw [orElse_of_truthy (o := some p) hp]
      exact SameMember.refl _
    · rw [orElse_of_not_truthy (o := some (.str [])) rfl,
        orElse_of_not_truthy hd]
      exact SameMember.refl _

theorem same_pathVars_iff (o d : Option (Json ν)) :
    SameMember (if (orElse o (orElse d .null)).isTruthy then
        some (orElse o (orElse d .null)) else none) o ↔
      (∀ x, o = some x → x.isTruthy = true) ∧
        (o = none → truthy d = false) := by
  cases o with
  | none =>
      have hor : orElse none (orElse d .null) = orElse d .null := rfl
      rw [hor, optional_orElse]
      constructor
      · intro h
        refine ⟨fun _ hx => (by cases hx), fun _ => ?_⟩
        cases hd : truthy d with
        | false => rfl
        | true =>
            cases d with
            | none => cases hd
            | some x =>
                have hx : x.isTruthy = true := hd
                rw [Option.filter_some, if_pos hx] at h
                cases h
      · rintro ⟨-, hd⟩
        cases d with
        | none => exact .none
        | some x =>
            have hx : x.isTruthy = false := hd rfl
            rw [Option.filter_some, if_neg (Bool.eq_false_iff.1 hx)]
            exact .none
  | some x =>
      cases hx : x.isTruthy with
      | true =>
          have hor := orElse_of_truthy (o := some x) hx (orElse d .null)
          refine iff_of_true ?_ ⟨?_, fun h => by cases h⟩
          · rw [hor, Option.some.inj hor, if_pos hx]
            exact SameMember.refl _
          · intro y hy
            obtain rfl := Option.some.inj hy
            exact hx
      | false =>
          refine iff_of_false (fun h => ?_) fun h => ?_
          · split at h
            · rename_i htruthy
              have hsame := truthy_of_same h
              exact Bool.noConfusion (htruthy.symm.trans (hsame.trans hx))
            · cases h
          · exact Bool.noConfusion (hx.symm.trans (h.1 x rfl))

theorem getItem_demandEntry {d : Json ν} (hfirst : firstEntry doc = some d)
    (hd : d.isTruthy = true) (demand : Members ν) :
    ∃ es, demandEntry doc demand = .obj es ∧
      Dict.getItem pathName es = some (orElse (field? pathName d)
        (orElse (field? pathName doc) (.str []))) ∧
      Dict.getItem listPathName es =
        (field? listPathName d).filter isTruthy ∧
      Dict.getItem pathVarsName es =
        (if (orElse (field? pathVarsName d)
            (orElse (field? pathVarsName doc) .null)).isTruthy then
          some (orElse (field? pathVarsName d)
            (orElse (field? pathVarsName doc) .null)) else none) ∧
      Dict.getItem mappingName es = some (.obj demand) ∧
      ∀ name, name ∉ [pathName, listPathName, pathVarsName, mappingName] →
        Dict.getItem name es = none := by
  obtain ⟨hpl, hpv, hpm, hlv, hlm, hvm⟩ := entry_names_apart
  have hexisting : orElse (some d) (.obj []) = d :=
    Option.some.inj (orElse_of_truthy (o := some d) hd _)
  unfold demandEntry
  dsimp only
  rw [hfirst, hexisting]
  refine ⟨_, rfl, if_pos rfl, ?_, ?_, ?_, fun name hname => ?_⟩
  · rw [Dict.getItem, if_neg hpl, List.append_assoc, getItem_optional_self,
      optional_orElse]
    rw [getItem_optional_of_ne hlv.symm, Dict.getItem, if_neg hlm.symm]
    rfl
  · rw [Dict.getItem, if_neg hpv, List.append_assoc,
      getItem_optional_of_ne hlv, getItem_optional_self]
    rw [Dict.getItem, if_neg hvm.symm]
    rfl
  · rw [Dict.getItem, if_neg hpm, List.append_assoc,
      getItem_optional_of_ne hlm, getItem_optional_of_ne hvm]
    exact if_pos rfl
  · simp only [List.mem_cons, List.not_mem_nil, or_false, not_or] at hname
    obtain ⟨hp, hl, hv, hm⟩ := hname
    rw [Dict.getItem, if_neg (Ne.symm hp), List.append_assoc,
      getItem_optional_of_ne (Ne.symm hl), getItem_optional_of_ne (Ne.symm hv),
      Dict.getItem, if_neg (Ne.symm hm)]
    rfl

/-- The entry is saved as it was, but for its mapping, when its paths are
set. -/
theorem same_demandEntry_iff {d : Json ν} (hfirst : firstEntry doc = some d)
    (hd : d.isTruthy = true) {demand : Members ν} (hne : demand ≠ [])
    (hrows : ∀ fields, field? mappingName d = some (.obj fields) →
      ((∀ name, SameMember (Dict.getItem name demand)
        (Dict.getItem name fields)) ↔ RowsKept N c.core .onDemand fields)) :
    Same (demandEntry doc demand) d ↔ DemandKept N c doc d := by
  obtain ⟨es, hes, hpath, hlist, hvars, hmapping, hothers⟩ :=
    getItem_demandEntry hfirst hd demand
  rw [hes]
  have hsame : Same (.obj es) d ↔ ∃ gs, d = .obj gs ∧
      (∀ name ∈ [pathName, listPathName, pathVarsName, mappingName],
        SameMember (Dict.getItem name es) (Dict.getItem name gs)) ∧
      ∀ name, name ∉ [pathName, listPathName, pathVarsName, mappingName] →
        Dict.getItem name gs = none := by
    rw [same_obj_iff]
    exact exists_congr fun gs => and_congr_right fun _ =>
      sameMembers_iff hothers
  rw [hsame]
  constructor
  · rintro ⟨gs, rfl, hnames, hrest⟩
    simp only [List.forall_mem_cons, hpath, hlist, hvars, hmapping] at hnames
    obtain ⟨hp, hl, hv, hm, -⟩ := hnames
    obtain ⟨v, hv', hobj⟩ := sameMember_some_iff.1 hm
    obtain ⟨fields, rfl, hall⟩ := same_obj_iff.1 hobj
    refine ⟨hrest, (same_path_iff _ _).1 hp, sameMember_filter_iff.1 hl,
      (same_pathVars_iff _ _).1 hv, fields, hv', ?_, (hrows fields hv').1 hall⟩
    rintro rfl
    exact hne (members_eq_nil fun name => sameMember_none_iff.1 (hall name).symm)
  · rintro ⟨hrest, hp, hl, hv, fields, hm, -, hkept⟩
    cases d with
    | obj gs =>
        refine ⟨gs, rfl, ?_, hrest⟩
        have hm' : Dict.getItem mappingName gs = some (.obj fields) := hm
        simp only [List.forall_mem_cons, hpath, hlist, hvars, hmapping]
        refine ⟨(same_path_iff _ _).2 hp, sameMember_filter_iff.2 hl,
          (same_pathVars_iff _ _).2 hv, ?_, fun _ hname => by cases hname⟩
        rw [hm']
        exact .some (same_obj_iff.2
          ⟨fields, rfl, (hrows fields hm).2 hkept⟩)
    | _ => cases hm

end Entry

section Document

variable {ν : Type} [Zero ν] [DecidableEq ν] {N : Numerals ν}
  {c : Contract ν} {doc : Json ν} {st : Studio ν} {t : Tiers ν}

theorem tierObject_stream {ds : Members ν}
    (hds : field? diagnosticsName doc = some (.obj ds)) :
    tierObject doc .stream = orElse (Dict.getItem streamName ds) (.obj []) := by
  rw [tierObject, hds]
  rfl

omit [Zero ν] [DecidableEq ν] in
theorem firstEntry_eq {ds : Members ν}
    (hds : field? diagnosticsName doc = some (.obj ds)) :
    firstEntry doc = index (Dict.getItem onDemandName ds) ['0'] := by
  rw [firstEntry, hds]
  rfl

theorem tierObject_mapping {d : Json ν} {fields : Members ν}
    (hfirst : firstEntry doc = some d)
    (hfields : field? mappingName d = some (.obj fields)) :
    tierObject doc .onDemand = .obj fields := by
  rw [tierObject, hfirst, prop_some, hfields]
  rfl

/-- In a document that is kept the tiers are objects with rows. -/
theorem DiagnosticsKept.tier {ds : Members ν}
    (h : DiagnosticsKept N c doc ds)
    (hds : field? diagnosticsName doc = some (.obj ds)) (tier : Tier) :
    ∃ fields, tierObject doc tier = .obj fields ∧
      RowsKept N c.core tier fields := by
  have hempty : RowsKept N c.core tier [] := nofun
  cases tier with
  | stream =>
      rw [tierObject_stream hds]
      cases hv : Dict.getItem streamName ds with
      | none => exact ⟨[], rfl, hempty⟩
      | some v =>
          obtain ⟨fields, rfl, -, hkept⟩ := h.stream v hv
          exact ⟨fields, rfl, hkept⟩
  | onDemand =>
      have hfirst := firstEntry_eq hds
      cases hv : Dict.getItem onDemandName ds with
      | none =>
          rw [hv] at hfirst
          exact ⟨[], by rw [tierObject, hfirst]; rfl, hempty⟩
      | some v =>
          obtain ⟨d, rfl, hd⟩ := h.onDemand v hv
          rw [hv, index_zero_arr] at hfirst
          obtain ⟨fields, hfields, -, hkept⟩ := hd.mapping
          exact ⟨fields, tierObject_mapping hfirst hfields, hkept⟩

omit [Zero ν] [DecidableEq ν] in
theorem same_optional_iff {fs : Members ν} {f : Json ν}
    {o : Option (Json ν)} :
    SameMember (if !fs.isEmpty then some f else none) o ↔
      (fs = [] ∧ o = none) ∨ ∃ v, fs ≠ [] ∧ o = some v ∧ Same f v := by
  cases fs with
  | nil =>
      rw [List.isEmpty_nil, Bool.not_true, if_neg Bool.false_ne_true,
        sameMember_none_iff]
      simp
  | cons p rest =>
      rw [List.isEmpty_cons, Bool.not_false, if_pos rfl, sameMember_some_iff]
      simp

theorem getItem_diagnosticsOf (doc : Json ν) (t : Tiers ν) :
    ∃ ds, diagnosticsOf doc t = .obj ds ∧
      Dict.getItem streamName ds =
        (if !t.stream.isEmpty then some (.obj t.stream) else none) ∧
      Dict.getItem onDemandName ds =
        (if !t.demand.isEmpty then some (.arr [demandEntry doc t.demand])
          else none) ∧
      ∀ name, name ∉ [streamName, onDemandName] →
        Dict.getItem name ds = none := by
  obtain ⟨-, -, -, -, -, -, hso, hos⟩ := names_apart
  unfold diagnosticsOf
  rw [← List.append_nil (optional (!t.demand.isEmpty) _ _)]
  refine ⟨_, rfl, ?_, ?_, fun name hname => ?_⟩
  · rw [getItem_optional_self]
    rw [getItem_optional_of_ne hos]
    rfl
  · rw [getItem_optional_of_ne hso, getItem_optional_self]
    rfl
  · simp only [List.mem_cons, List.not_mem_nil, or_false, not_or] at hname
    rw [getItem_optional_of_ne (Ne.symm hname.1),
      getItem_optional_of_ne (Ne.symm hname.2)]
    rfl

theorem Written.stream_same_iff (h : Written N c st t)
    (hst : Seeded N c doc st) {ds : Members ν}
    (hds : field? diagnosticsName doc = some (.obj ds)) :
    SameMember (if !t.stream.isEmpty then some (.obj t.stream) else none)
        (Dict.getItem streamName ds) ↔
      ∀ v, Dict.getItem streamName ds = some v → ∃ fields, v = .obj fields ∧
        fields ≠ [] ∧ RowsKept N c.core .stream fields := by
  have htier := tierObject_stream hds
  rw [same_optional_iff]
  constructor
  · rintro (⟨-, hnone⟩ | ⟨v, hne, hv, hsame⟩) v' hv'
    · rw [hnone] at hv'
      cases hv'
    · obtain rfl := Option.some.inj (hv.symm.trans hv')
      obtain ⟨fields, rfl, hall⟩ := same_obj_iff.1 hsame
      have hobj : tierObject doc .stream = .obj fields := by
        rw [htier, hv]
        rfl
      refine ⟨fields, rfl, ?_, (h.same_iff hst hobj).1 hall⟩
      rintro rfl
      exact hne (members_eq_nil fun name =>
        sameMember_none_iff.1 (hall name).symm)
  · intro hkept
    cases hv : Dict.getItem streamName ds with
    | none =>
        have hobj : tierObject doc .stream = .obj [] := by
          rw [htier, hv]
          rfl
        have hall := (h.same_iff hst hobj).2 nofun
        exact Or.inl ⟨members_eq_nil fun name =>
          sameMember_none_iff.1 (hall name).symm, rfl⟩
    | some v =>
        obtain ⟨fields, rfl, hne, hrows⟩ := hkept v hv
        have hobj : tierObject doc .stream = .obj fields := by
          rw [htier, hv]
          rfl
        have hall := (h.same_iff hst hobj).2 hrows
        refine Or.inr ⟨_, fun hnil => hne (members_eq_nil fun name => ?_), rfl,
          same_obj_iff.2 ⟨fields, rfl, hall⟩⟩
        have hname := hall name
        rw [Tiers.get, hnil] at hname
        exact sameMember_none_iff.1 hname

theorem Written.onDemand_same_iff (h : Written N c st t)
    (hst : Seeded N c doc st) {ds : Members ν}
    (hds : field? diagnosticsName doc = some (.obj ds)) :
    SameMember (if !t.demand.isEmpty then
        some (.arr [demandEntry doc t.demand]) else none)
        (Dict.getItem onDemandName ds) ↔
      ∀ v, Dict.getItem onDemandName ds = some v →
        ∃ d, v = .arr [d] ∧ DemandKept N c doc d := by
  have hfirst := firstEntry_eq hds
  have hrows : ∀ {d : Json ν}, firstEntry doc = some d → ∀ fields,
      field? mappingName d = some (.obj fields) →
        ((∀ name, SameMember (Dict.getItem name t.demand)
          (Dict.getItem name fields)) ↔
            RowsKept N c.core .onDemand fields) :=
    fun hd fields hfields => h.same_iff hst (tierObject_mapping hd hfields)
  rw [same_optional_iff]
  constructor
  · rintro (⟨-, hnone⟩ | ⟨v, hne, hv, hsame⟩) v' hv'
    · rw [hnone] at hv'
      cases hv'
    · obtain rfl := Option.some.inj (hv.symm.trans hv')
      obtain ⟨d, rfl, hentry⟩ := same_arr_singleton_iff.1 hsame
      rw [hv, index_zero_arr] at hfirst
      have hd : d.isTruthy = true := (isTruthy_of_same hentry).symm
      exact ⟨d, rfl,
        (same_demandEntry_iff hfirst hd hne (hrows hfirst)).1 hentry⟩
  · intro hkept
    cases hv : Dict.getItem onDemandName ds with
    | none =>
        rw [hv] at hfirst
        have htier : tierObject doc .onDemand = .obj [] := by
          rw [tierObject, hfirst]
          rfl
        have hall := (h.same_iff hst htier).2 nofun
        exact Or.inl ⟨members_eq_nil fun name =>
          sameMember_none_iff.1 (hall name).symm, rfl⟩
    | some v =>
        obtain ⟨d, rfl, hd⟩ := hkept v hv
        rw [hv, index_zero_arr] at hfirst
        obtain ⟨fields, hfields, hne, hdrows⟩ := hd.mapping
        have hall := (hrows hfirst fields hfields).2 hdrows
        have hdemand : t.demand ≠ [] := by
          refine fun hnil => hne (members_eq_nil fun name => ?_)
          have hname := hall name
          rw [hnil] at hname
          exact sameMember_none_iff.1 hname
        have htruthy := isTruthy_of_field? hfields
        exact Or.inr ⟨_, hdemand, rfl, same_arr_singleton_iff.2 ⟨d, rfl,
          (same_demandEntry_iff hfirst htruthy hdemand (hrows hfirst)).2 hd⟩⟩

theorem Written.diagnostics_same_iff (h : Written N c st t)
    (hst : Seeded N c doc st) {ds : Members ν}
    (hds : field? diagnosticsName doc = some (.obj ds)) :
    Same (diagnosticsOf doc t) (.obj ds) ↔ DiagnosticsKept N c doc ds := by
  obtain ⟨es, hes, hstream, honDemand, hothers⟩ := getItem_diagnosticsOf doc t
  rw [hes]
  have hsame : Same (.obj es) (.obj ds) ↔ ∀ name,
      SameMember (Dict.getItem name es) (Dict.getItem name ds) := by
    rw [same_obj_iff]
    constructor
    · rintro ⟨gs, hgs, hall⟩
      obtain rfl := obj.inj hgs
      exact hall
    · exact fun hall => ⟨ds, rfl, hall⟩
  rw [hsame, sameMembers_iff hothers]
  simp only [List.forall_mem_cons, hstream, honDemand]
  rw [h.stream_same_iff hst hds, h.onDemand_same_iff hst hds]
  constructor
  · rintro ⟨⟨hs, ho, -⟩, hrest⟩
    exact ⟨hrest, hs, ho⟩
  · rintro ⟨hrest, hs, ho⟩
    exact ⟨⟨hs, ho, nofun⟩, hrest⟩

/-- The frame that is chosen, and kept where it is written as a constant. -/
theorem frameIs_iff {ms : Members ν} {u : Text}
    (hms : field? mappingName doc = some (.obj ms)) :
    FrameIs N (Dict.getItem frameName ms) u ↔
      frameOf N (prop (field? mappingName doc) frameName) = .ok u ∧
        (u ≠ payloadText → ConstFrame (Dict.getItem frameName ms) u) := by
  have hprop : prop (field? mappingName doc) frameName =
      Dict.getItem frameName ms := by
    rw [hms]
    rfl
  rw [hprop]
  generalize Dict.getItem frameName ms = o
  have hne : wgs84Text ≠ payloadText := by decide
  have htext : ∀ {v x : Json ν}, field? constName v = some x →
      frameOf N (some v) = textOf N x := by
    intro v x hx
    have hv : truthy (some v) = true := isTruthy_of_field? hx
    have hin : hasIn constName v = .ok true := by
      cases v with
      | obj fields =>
          have hx' : Dict.getItem constName fields = some x := hx
          rw [hasIn, hx']
          rfl
      | _ => cases hx
    rw [frameOf, if_pos hv, Option.getD_some, hin, prop_some, hx]
    rfl
  constructor
  · rintro (⟨⟨v, rfl, honly, hconst⟩, hu⟩ | ⟨hconst, hx⟩ | ⟨hconst, hpath⟩)
    · exact ⟨htext hconst, fun _ => ⟨v, rfl, honly, hconst⟩⟩
    · cases o with
      | none => cases hconst
      | some v =>
          exact ⟨(htext hconst).trans hx, fun hu => absurd rfl hu⟩
    · refine ⟨?_, fun hu => absurd rfl hu⟩
      cases o with
      | none => cases hpath
      | some v =>
          cases v with
          | obj fields =>
              have hnone : Dict.getItem constName fields = none := hconst
              have hin : hasIn constName (.obj fields) = .ok false := by
                rw [hasIn, hnone]
                rfl
              have htrue : truthy (some (.obj fields : Json ν)) = true := rfl
              rw [frameOf, if_pos htrue, Option.getD_some, hin, hpath]
              rfl
          | _ => cases hpath
  · rintro ⟨hframe, hconst⟩
    by_cases hu : u = payloadText
    · subst hu
      cases hv : truthy o with
      | false =>
          rw [frameOf, hv] at hframe
          exact absurd (Except.ok.inj hframe) hne
      | true =>
          cases hc : prop o constName with
          | some x =>
              cases o with
              | none => cases hc
              | some v => exact .text hc ((htext hc).symm.trans hframe)
          | none =>
              refine .path hc ?_
              rw [frameOf, if_pos hv] at hframe
              obtain ⟨b, hb, hframe⟩ := except_bind_eq_ok_iff.1 hframe
              cases b with
              | true =>
                  have hsome := hasIn_eq_ok hb
                  cases o with
                  | none => cases hv
                  | some v =>
                      rw [prop_some] at hc
                      rw [Option.getD_some, hc] at hsome
                      cases hsome
              | false =>
                  by_contra hpath
                  rw [Bool.not_eq_true] at hpath
                  rw [if_neg Bool.false_ne_true, hpath] at hframe
                  exact absurd (Except.ok.inj hframe) hne
    · exact .constant (hconst hu) hu

end Document

section Saving

variable {ν : Type} [Zero ν] [DecidableEq ν] {N : Numerals ν}
  {c : Contract ν} {doc : Json ν} {st : Studio ν}

theorem isTruthy_of_isContainer {v : Json ν} (h : v.isContainer = true) :
    v.isTruthy = true := by
  cases v with
  | obj fields => rfl
  | arr items => rfl
  | _ => cases h

/-- The steps of a save. -/
theorem assemble_eq_ok_iff (hdoc : st.doc.isContainer = true)
    {saved : Json ν} :
    assemble N c st = .ok saved ↔ ∃ layout m t,
      mappingLayout c.mapKeys c.required st.frameSel st.height = .ok layout ∧
      writeEach (saveBind N st.binds) assign (shownKeys st.frameSel layout)
        (if st.frameSel = payloadText then []
          else [(frameName, .obj [(constName, .str st.frameSel)])]) = .ok m ∧
      Written N c st t ∧
      saved = setField diagnosticsName (diagnosticsOf st.doc t)
        (setField mappingName (.obj m) st.doc) := by
  unfold assemble
  dsimp only
  simp only [isTruthy_of_isContainer hdoc, hdoc, if_true]
  constructor
  · intro h
    obtain ⟨layout, hlayout, h⟩ := except_bind_eq_ok_iff.1 h
    obtain ⟨m, hm, h⟩ := except_bind_eq_ok_iff.1 h
    obtain ⟨t₁, ht₁, h⟩ := except_bind_eq_ok_iff.1 h
    obtain ⟨t, ht, rfl⟩ := except_map_eq_ok_iff.1 h
    exact ⟨layout, m, t, hlayout, hm, ⟨t₁, ht₁, ht⟩, rfl⟩
  · rintro ⟨layout, m, t, hlayout, hm, ⟨t₁, ht₁, ht⟩, rfl⟩
    exact except_bind_eq_ok_iff.2 ⟨layout, hlayout,
      except_bind_eq_ok_iff.2 ⟨m, hm, except_bind_eq_ok_iff.2 ⟨t₁, ht₁,
        except_map_eq_ok_iff.2 ⟨t, ht, rfl⟩⟩⟩⟩

/-- A value without members is not saved as it was. -/
theorem isContainer_of_assemble {saved : Json ν}
    (h : assemble N c st = .ok saved) (hsame : Same saved st.doc) :
    st.doc.isContainer = true := by
  unfold assemble at h
  dsimp only at h
  obtain ⟨layout, -, h⟩ := except_bind_eq_ok_iff.1 h
  cases htruthy : st.doc.isTruthy with
  | true =>
      rw [htruthy, if_pos rfl] at h
      by_contra hnot
      rw [if_neg hnot] at h
      cases h
  | false =>
      have hcontainer : (Json.obj [] : Json ν).isContainer = true := rfl
      rw [htruthy, if_neg Bool.false_ne_true, if_pos hcontainer] at h
      obtain ⟨m, -, h⟩ := except_bind_eq_ok_iff.1 h
      obtain ⟨t₁, -, h⟩ := except_bind_eq_ok_iff.1 h
      obtain ⟨t, -, rfl⟩ := except_map_eq_ok_iff.1 h
      obtain ⟨gs, hgs, -⟩ := same_obj_iff.1 hsame
      rw [hgs]
      rfl

omit [Zero ν] [DecidableEq ν] in
theorem frameName_notMem_shownKeys {keys required : List Text} {u : Text}
    {height : Bool} {layout : Layout}
    (h : mappingLayout keys required u height = .ok layout)
    (hu : u ≠ payloadText) : frameName ∉ shownKeys u layout := by
  unfold mappingLayout at h
  dsimp only at h
  split at h
  · cases h
  · obtain rfl := Except.ok.inj h
    rw [shownKeys, if_neg hu]
    simp

omit [Zero ν] [DecidableEq ν] in
/-- An object is saved as it was exactly when its mapping and its diagnostics
are. -/
theorem same_setField_iff {fs m : Members ν} {ds : Json ν} :
    Same (setField diagnosticsName ds (setField mappingName (.obj m) (.obj fs)))
        (.obj fs) ↔
      (∃ ms, Dict.getItem mappingName fs = some (.obj ms) ∧
        ∀ name, SameMember (Dict.getItem name m) (Dict.getItem name ms)) ∧
      ∃ v, Dict.getItem diagnosticsName fs = some v ∧ Same ds v := by
  obtain ⟨-, hmg, -, -, -, -, -, -⟩ := names_apart
  have hlookup : ∀ name, Dict.getItem name
      (Dict.setItem diagnosticsName ds
        (Dict.setItem mappingName (.obj m) fs)) =
      if diagnosticsName = name then some ds
      else if mappingName = name then some (.obj m)
      else Dict.getItem name fs := fun name => by
    rw [Dict.getItem_setItem, Dict.getItem_setItem]
  have hobj : Same (setField diagnosticsName ds
      (setField mappingName (.obj m) (.obj fs))) (.obj fs) ↔ ∀ name,
      SameMember (if diagnosticsName = name then some ds
        else if mappingName = name then some (.obj m)
        else Dict.getItem name fs) (Dict.getItem name fs) := by
    simp only [setField, same_obj_iff, hlookup]
    constructor
    · rintro ⟨gs, hgs, hall⟩
      obtain rfl := obj.inj hgs
      exact hall
    · exact fun hall => ⟨fs, rfl, hall⟩
  rw [hobj]
  constructor
  · intro hall
    have hm := hall mappingName
    have hd := hall diagnosticsName
    rw [if_neg hmg.symm, if_pos rfl, sameMember_some_iff] at hm
    rw [if_pos rfl, sameMember_some_iff] at hd
    obtain ⟨v, hv, hsame⟩ := hm
    obtain ⟨ms, rfl, hnames⟩ := same_obj_iff.1 hsame
    exact ⟨⟨ms, hv, hnames⟩, hd⟩
  · rintro ⟨⟨ms, hm, hnames⟩, v, hd, hsame⟩ name
    by_cases hdiag : diagnosticsName = name
    · subst hdiag
      rw [if_pos rfl, hd]
      exact .some hsame
    · rw [if_neg hdiag]
      by_cases hmap : mappingName = name
      · subst hmap
        rw [if_pos rfl, hm]
        exact .some (same_obj_iff.2 ⟨ms, rfl, hnames⟩)
      · rw [if_neg hmap]
        exact SameMember.refl _

theorem DiagnosticsKept.specs {ds : Members ν} (h : DiagnosticsKept N c doc ds)
    (hds : field? diagnosticsName doc = some (.obj ds)) {name : Text}
    {tier : Tier} {v : Json ν}
    (hv : index (some (tierObject doc tier)) name = some v) :
    SpecKept N v := by
  obtain ⟨fields, hfields, hkept⟩ := h.tier hds tier
  rw [hfields, index_obj] at hv
  exact (hkept name v hv).2

/-- A document is saved as it was exactly when it is one of those kept. -/
theorem saved_same_iff {fs m : Members ν} {layout : Layout} {t : Tiers ν}
    (hst : Seeded N c (.obj fs) st)
    (hlayout : mappingLayout c.mapKeys c.required st.frameSel st.height =
      .ok layout)
    (hm : writeEach (saveBind N st.binds) assign (shownKeys st.frameSel layout)
      (if st.frameSel = payloadText then []
        else [(frameName, .obj [(constName, .str st.frameSel)])]) = .ok m)
    (ht : Written N c st t) :
    Same (setField diagnosticsName (diagnosticsOf (.obj fs) t)
        (setField mappingName (.obj m) (.obj fs))) (.obj fs) ↔
      Kept N c (.obj fs) := by
  have hframe := frameName_notMem_shownKeys hlayout
  rw [same_setField_iff]
  constructor
  · rintro ⟨⟨ms, hms', hall⟩, v, hv, hsame⟩
    have hms : field? mappingName (.obj fs) = some (.obj ms) := hms'
    obtain ⟨es, hes, -⟩ := getItem_diagnosticsOf (Json.obj fs) t
    have hobj := hsame
    rw [hes] at hobj
    obtain ⟨ds, rfl, -⟩ := same_obj_iff.1 hobj
    have hdiag := (ht.diagnostics_same_iff hst hv).1 hsame
    obtain ⟨hconst, hmapping⟩ := (mapping_same_iff hframe hst hm hms
      fun name tier v _ _ hv' => hdiag.specs hv hv').1 hall
    refine ⟨⟨ms, st.frameSel, layout, hms, ?_, ?_, hmapping⟩, ds, hv, hdiag⟩
    · exact (frameIs_iff hms).2 ⟨hst.frame, hconst⟩
    · rw [← hst.height]
      exact hlayout
  · rintro ⟨⟨ms, u, layout', hms, hu, hlayout', hmapping⟩, ds, hds, hdiag⟩
    obtain ⟨hchosen, hconst⟩ := (frameIs_iff hms).1 hu
    obtain rfl := Except.ok.inj (hchosen.symm.trans hst.frame)
    rw [← hst.height, hlayout] at hlayout'
    obtain rfl := Except.ok.inj hlayout'
    refine ⟨⟨ms, hms, ?_⟩, _, hds, (ht.diagnostics_same_iff hst hds).2 hdiag⟩
    exact (mapping_same_iff hframe hst hm hms
      fun name tier v _ _ hv => hdiag.specs hds hv).2 ⟨hconst, hmapping⟩

omit [Zero ν] [DecidableEq ν] in
theorem isDefault_of_same {v w : Json ν} (h : Same v w) :
    isDefault v = isDefault w := by
  cases h with
  | _ => rfl

/-- A spec that is the same as one that is kept is kept. -/
theorem specKept_of_same {v w : Json ν} (h : Same v w) (hv : SpecKept N v) :
    SpecKept N w := by
  obtain ⟨fs, rfl⟩ : ∃ fs, v = .obj fs := by
    obtain ⟨-, ⟨n, hn⟩ | ⟨t, ht, -⟩⟩ | ⟨-, ⟨t, ht, -⟩, -⟩ := hv
    · cases v with
      | obj fs => exact ⟨fs, rfl⟩
      | _ => cases hn
    · cases v with
      | obj fs => exact ⟨fs, rfl⟩
      | _ => cases ht
    · cases v with
      | obj fs => exact ⟨fs, rfl⟩
      | _ => cases ht
  obtain ⟨gs, rfl, hall⟩ := same_obj_iff.1 h
  have hnone : ∀ name, field? name (.obj fs) = none →
      field? name (.obj gs) = none := by
    intro name hname
    have hsame := hall name
    have hname' : Dict.getItem name fs = none := hname
    rw [hname', sameMember_none_iff] at hsame
    exact hsame
  have hsome : ∀ name x, field? name (.obj fs) = some x →
      ∃ y, field? name (.obj gs) = some y ∧ Same x y := by
    intro name x hname
    have hsame := hall name
    have hname' : Dict.getItem name fs = some x := hname
    rw [hname', sameMember_some_iff] at hsame
    exact hsame
  have hback : ∀ name y, field? name (.obj gs) = some y →
      ∃ x, field? name (.obj fs) = some x ∧ Same x y := by
    intro name y hname
    have hsame := (hall name).symm
    have hname' : Dict.getItem name gs = some y := hname
    rw [hname', sameMember_some_iff] at hsame
    obtain ⟨x, hx, hyx⟩ := hsame
    exact ⟨x, hx, hyx.symm⟩
  obtain ⟨hothers, hvalue⟩ | ⟨hothers, hpath, hformat, htransform, hdefault⟩ :=
    hv
  · refine Or.inl ⟨fun name hname => hnone name (hothers name hname), ?_⟩
    obtain ⟨n, hn⟩ | ⟨t, ht, hrest⟩ := hvalue
    · obtain ⟨y, hy, hsame⟩ := hsome _ _ hn
      cases hsame
      exact Or.inl ⟨n, hy⟩
    · obtain ⟨y, hy, hsame⟩ := hsome _ _ ht
      cases hsame
      exact Or.inr ⟨t, hy, hrest⟩
  · obtain ⟨t, ht, hrest⟩ := hpath
    obtain ⟨y, hy, hsame⟩ := hsome _ _ ht
    cases hsame
    refine Or.inr ⟨fun name hname => hnone name (hothers name hname),
      ⟨t, hy, hrest⟩, fun y hy => ?_, fun y hy => ?_, fun y hy => ?_⟩
    · obtain ⟨x, hx, hxy⟩ := hback _ _ hy
      exact (isTruthy_of_same hxy).symm.trans (hformat x hx)
    · obtain ⟨x, hx, hxy⟩ := hback _ _ hy
      exact (isTruthy_of_same hxy).symm.trans (htransform x hx)
    · obtain ⟨x, hx, hxy⟩ := hback _ _ hy
      exact (isDefault_of_same hxy).symm.trans (hdefault x hx)

theorem exists_saveSpec {o : Option (Json ν)}
    (h : ∀ v, o = some v → SpecKept N v) : ∃ p, saveSpec N o = .ok p := by
  cases o with
  | none => exact ⟨none, rfl⟩
  | some v =>
      obtain ⟨w, hw, -⟩ := (saveSpec_kept_iff N v).2 (h v rfl)
      exact ⟨some w, hw⟩

theorem exists_specToState {o : Option (Json ν)}
    (h : ∃ p, saveSpec N o = .ok p) : ∃ s, specToState N o = .ok s := by
  obtain ⟨p, hp⟩ := h
  obtain ⟨s, hs, -⟩ := except_bind_eq_ok_iff.1 hp
  exact ⟨s, hs⟩

theorem exists_saveRow {core : Dict Text Tier} {r : XRow ν}
    (h : ∃ o, save N r.state = .ok o) : ∃ o, saveRow N core r = .ok o := by
  obtain ⟨o, ho⟩ := h
  obtain ⟨b, hb, hspec⟩ := except_bind_eq_ok_iff.1 ho
  unfold saveRow
  dsimp only
  split
  · exact ⟨none, rfl⟩
  · rw [hb]
    cases b with
    | false => exact ⟨none, rfl⟩
    | true =>
        cases hcore : inCore core (trim r.key) with
        | true => exact ⟨none, rfl⟩
        | false => exact ⟨o, hspec⟩

/-- Nothing throws when all specs are such as a row gives back. -/
theorem exists_assembled {u : Text} {layout : Layout}
    (hdoc : doc.isContainer = true)
    (hframe : frameOf N (prop (field? mappingName doc) frameName) = .ok u)
    (hlayout : mappingLayout c.mapKeys c.required u (heightOf c.caps doc) =
      .ok layout)
    (hmapping : ∀ name ∈ c.mapKeys,
      ∃ s, specToState N (index (field? mappingName doc) name) = .ok s)
    (hshown : ∀ name ∈ shownKeys u layout,
      ∃ p, saveSpec N (rowSource c doc name) = .ok p)
    (htiers : ∀ tier, ∃ fields, tierObject doc tier = .obj fields ∧
      RowsKept N c.core tier fields) :
    ∃ st saved, seedFrom N c doc = .ok st ∧ assemble N c st = .ok saved := by
  have hcore : ∀ name tier, ∃ p,
      saveSpec N (index (some (tierObject doc tier)) name) = .ok p := by
    intro name tier
    obtain ⟨fields, hfields, hkept⟩ := htiers tier
    refine exists_saveSpec fun v hv => ?_
    rw [hfields, index_obj] at hv
    exact (hkept name v hv).2
  have hentries : ∀ tier, ∀ p ∈ entries (tierObject doc tier),
      ∃ q, saveSpec N (some p.2) = .ok q := by
    rintro tier ⟨name, v⟩ hp
    obtain ⟨fields, hfields, hkept⟩ := htiers tier
    rw [hfields] at hp
    refine exists_saveSpec fun v' hv' => ?_
    obtain rfl := Option.some.inj hv'
    exact (hkept name v (mem_distinct_iff.1 hp)).2
  obtain ⟨st, hst⟩ := exists_seedFrom (c := c) hframe hmapping
    (fun p _ => exists_specToState (hcore p.1 p.2))
    (fun tier p hp => exists_specToState (hentries tier p hp))
  have hseeded := seeded_of_ok hst
  obtain rfl := Except.ok.inj (hframe.symm.trans hseeded.frame)
  rw [← hseeded.height] at hlayout
  obtain ⟨m, hm⟩ := exists_writeEach (saveBind N st.binds) assign
    (fun name hname => by
      rw [hseeded.binds]
      exact hshown name hname)
    (if st.frameSel = payloadText then []
      else [(frameName, (.obj [(constName, .str st.frameSel)] : Json ν))])
  obtain ⟨t₁, ht₁⟩ := exists_writeEach
    (fun p : Text × Tier => saveBind N st.binds p.1)
    (fun p => Tiers.put p.2 p.1) (fun p hp => by
      rw [hseeded.saveBind_core ((c.core.get?_eq_some_iff p.1 p.2).2 hp)]
      exact hcore p.1 p.2) (⟨[], []⟩ : Tiers ν)
  obtain ⟨t, ht⟩ := exists_writeEach (saveRow N c.core)
    (fun r => Tiers.put r.tier (trim r.key)) (fun r hr => by
      obtain ⟨v, hv, -, hstate⟩ := (hseeded.rows r).1 hr
      obtain ⟨q, hq⟩ := hentries r.tier (r.key, v) hv
      exact exists_saveRow ⟨q, (saveSpec_of_state hstate).symm.trans hq⟩) t₁
  refine ⟨st, _, hst, (assemble_eq_ok_iff ?_).2
    ⟨layout, m, t, hlayout, hm, ⟨t₁, ht₁, ht⟩, rfl⟩⟩
  rw [hseeded.opened]
  exact hdoc

end Saving

section RoundTrip

variable {ν : Type} [Zero ν] [DecidableEq ν] (N : Numerals ν)
  (c : Contract ν)

variable {N c} in
/-- A document that is kept opens and is saved. -/
theorem Kept.exists_assembled {doc : Json ν} (h : Kept N c doc) :
    ∃ st saved, seedFrom N c doc = .ok st ∧ assemble N c st = .ok saved := by
  obtain ⟨⟨ms, u, layout, hms, hu, hlayout, hkept⟩, ds, hds, hdiag⟩ := h
  obtain ⟨hframe, hconst⟩ := (frameIs_iff hms).1 hu
  have hindex : ∀ name, index (field? mappingName doc) name =
      Dict.getItem name ms := fun name => by rw [hms, index_obj]
  refine MappingStudio.exists_assembled (isContainer_of_field? hms) hframe
    hlayout (fun name _ => ?_) (fun name hname => ?_) fun tier =>
      hdiag.tier hds tier
  · -- a spec of the mapping, in a row of its own or in one of the core
    rw [hindex]
    cases hv : Dict.getItem name ms with
    | none => exact ⟨unset, rfl⟩
    | some v =>
        obtain ⟨hshown, hproto⟩ | ⟨rfl, hne⟩ := hkept.named name v hv
        · refine exists_specToState (exists_saveSpec fun v' hv' => ?_)
          obtain rfl := Option.some.inj hv'
          cases htier : c.core.get? name with
          | none => exact (hkept.specs name v hshown htier hv).2
          | some tier =>
              have hsame := (hkept.shared name tier hshown hproto htier).symm
              rw [hv] at hsame
              obtain ⟨w, hw, hvw⟩ := sameMember_some_iff.1 hsame
              exact specKept_of_same hvw.symm (hdiag.specs hds hw)
        · obtain ⟨f, hf, -, htext⟩ := hconst hne
          rw [hv] at hf
          obtain rfl := Option.some.inj hf
          cases v with
          | obj fields =>
              have hc : Dict.getItem constName fields = some (.str u) := htext
              refine ⟨.const u, ?_⟩
              simp only [specToState, hc]
              rfl
          | _ => cases htext
  · refine exists_saveSpec fun v hv => ?_
    unfold rowSource at hv
    cases htier : c.core.get? name with
    | some tier =>
        rw [htier] at hv
        exact hdiag.specs hds hv
    | none =>
        rw [htier] at hv
        dsimp only at hv
        split at hv
        · rw [hindex] at hv
          exact (hkept.specs name v hname htier hv).2
        · cases hv

/-- An array has no member that could change. -/
theorem arr_assembled (items : List (Json ν)) :
    ∃ st saved, seedFrom N c (.arr items) = .ok st ∧
      assemble N c st = .ok saved ∧ Same saved (.arr items) := by
  have hwgs84 : wgs84Text ∉ inheritedNames := by decide
  obtain ⟨layout, hlayout⟩ : ∃ layout, mappingLayout c.mapKeys c.required
      wgs84Text (heightOf c.caps (.arr items)) = .ok layout := by
    unfold mappingLayout
    dsimp only
    rw [if_neg hwgs84]
    exact ⟨_, rfl⟩
  have hempty : ∀ tier, tierObject (.arr items) tier = .obj [] := by
    intro tier
    cases tier with
    | stream => rfl
    | onDemand => rfl
  obtain ⟨st, saved, hst, hsaved⟩ := MappingStudio.exists_assembled (N := N)
    (c := c) (rfl : (Json.arr items).isContainer = true) rfl hlayout
    (fun name _ => ⟨unset, rfl⟩) (fun name _ => by
      refine exists_saveSpec fun v hv => ?_
      unfold rowSource at hv
      cases htier : c.core.get? name with
      | some tier =>
          rw [htier] at hv
          simp only [hempty, index_obj] at hv
          cases hv
      | none =>
          rw [htier] at hv
          dsimp only at hv
          split at hv
          · cases hv
          · cases hv)
    fun tier => ⟨[], hempty tier, nofun⟩
  have hopened := (seeded_of_ok hst).opened
  have hcontainer : st.doc.isContainer = true := by
    rw [hopened]
    rfl
  obtain ⟨layout', m, t, -, -, -, rfl⟩ :=
    (assemble_eq_ok_iff hcontainer).1 hsaved
  refine ⟨st, _, hst, hsaved, ?_⟩
  rw [hopened]
  exact Same.refl _

variable {N c} in
theorem assembled_obj_iff {fs : Members ν} :
    (∃ st saved, seedFrom N c (.obj fs) = .ok st ∧
      assemble N c st = .ok saved ∧ Same saved (.obj fs)) ↔
      Kept N c (.obj fs) := by
  have hcontainer : ∀ {st : Studio ν}, Seeded N c (.obj fs) st →
      st.doc.isContainer = true := by
    intro st hst
    rw [hst.opened]
    rfl
  constructor
  · rintro ⟨st, saved, hst, hsaved, hsame⟩
    have hseeded := seeded_of_ok hst
    obtain ⟨layout, m, t, hlayout, hm, ht, rfl⟩ :=
      (assemble_eq_ok_iff (hcontainer hseeded)).1 hsaved
    rw [hseeded.opened] at hsame
    exact (saved_same_iff hseeded hlayout hm ht).1 hsame
  · intro hkept
    obtain ⟨st, saved, hst, hsaved⟩ := hkept.exists_assembled
    have hseeded := seeded_of_ok hst
    obtain ⟨layout, m, t, hlayout, hm, ht, rfl⟩ :=
      (assemble_eq_ok_iff (hcontainer hseeded)).1 hsaved
    refine ⟨st, _, hst, hsaved, ?_⟩
    rw [hseeded.opened]
    exact (saved_same_iff hseeded hlayout hm ht).2 hkept

theorem seed_eq_ok_iff {schema doc : Json ν}
    (hdoc : migratedSchema schema = .ok doc) {st : Studio ν} :
    seed N c schema = .ok st ↔ seedFrom N c doc = .ok st := by
  obtain ⟨ms, hms⟩ := exists_listed_of_migrated hdoc
  unfold seed
  rw [hms, hdoc]
  rfl

/-- A mapping document is saved as it was migrated exactly when it is an array
or one of those kept. -/
theorem reopened_iff (schema : Json ν) :
    Reopened N c schema ↔ ∃ doc, migratedSchema schema = .ok doc ∧
      ((∃ items, doc = .arr items) ∨ Kept N c doc) := by
  constructor
  · rintro ⟨doc, st, saved, hdoc, hst, hsaved, hsame⟩
    rw [seed_eq_ok_iff N c hdoc] at hst
    refine ⟨doc, hdoc, ?_⟩
    have hopened := (seeded_of_ok hst).opened
    have hcontainer := isContainer_of_assemble hsaved (hopened ▸ hsame)
    rw [hopened] at hcontainer
    cases doc with
    | arr items => exact Or.inl ⟨items, rfl⟩
    | obj fs =>
        exact Or.inr (assembled_obj_iff.1 ⟨st, saved, hst, hsaved, hsame⟩)
    | _ => cases hcontainer
  · rintro ⟨doc, hdoc, ⟨items, rfl⟩ | hkept⟩
    · obtain ⟨st, saved, hst, hsaved, hsame⟩ := arr_assembled N c items
      exact ⟨_, st, saved, hdoc, (seed_eq_ok_iff N c hdoc).2 hst, hsaved, hsame⟩
    · obtain ⟨fs, rfl⟩ : ∃ fs, doc = .obj fs := by
        obtain ⟨⟨ms, -, -, hms, -⟩, -⟩ := hkept
        cases doc with
        | obj fs => exact ⟨fs, rfl⟩
        | _ => cases hms
      obtain ⟨st, saved, hst, hsaved, hsame⟩ := assembled_obj_iff.2 hkept
      exact ⟨_, st, saved, hdoc, (seed_eq_ok_iff N c hdoc).2 hst, hsaved, hsame⟩

/-- Numbers of one digit. -/
def digits : Numerals (Fin 10) where
  toText n := [Char.ofNat (48 + n.val)]
  number t :=
    match t with
    | [] => .finite 0
    | [ch] =>
        if 48 ≤ ch.toNat ∧ ch.toNat ≤ 57 then
          .finite (Fin.ofNat 10 (ch.toNat - 48))
        else .nan
    | _ => .nan
  number_toText := by
    intro n
    fin_cases n <;> rfl
  trim_toText := by decide

def onlineName : Text := "online".toList

/-- A document of the earlier release, with a constant that is no text. -/
def onlineSchema : Json (Fin 10) :=
  .obj
    [(mappingName, .obj
      [(frameName, .obj [(constName, .str wgs84Text)]),
        (latitudeName, .obj [(pathName, .str "lat".toList)]),
        (longitudeName, .obj [(pathName, .str "lon".toList)])]),
      (diagnosticsName, .obj
        [(streamName, .obj
          [(lastSeenName, .obj [(pathName, .str "seen".toList)]),
            (onlineName, .obj [(constName, .bool true)])])])]

def onlineContract : Contract (Fin 10) where
  mapKeys := [frameName, latitudeName, longitudeName]
  required := [frameName]
  core := Dict.single lastCommunicationTimeName .stream
  caps := none

/-- The constant true comes out as the text of an input. -/
theorem not_reopened_true : ¬ Reopened digits onlineContract onlineSchema := by
  rintro ⟨doc, st, saved, hdoc, hst, hsaved, hsame⟩
  rw [seed_eq_ok_iff digits onlineContract hdoc] at hst
  obtain rfl := Except.ok.inj hdoc
  obtain ⟨-, ds, hds, hdiag⟩ := assembled_obj_iff.1 ⟨st, saved, hst, hsaved, hsame⟩
  obtain rfl := obj.inj (Option.some.inj hds)
  obtain ⟨fields, hfields, -, hkept⟩ := hdiag.stream _ rfl
  obtain rfl := obj.inj hfields
  obtain ⟨-, ⟨-, ⟨n, hn⟩ | ⟨t, ht, -⟩⟩ | ⟨hothers, -⟩⟩ :=
    hkept onlineName (.obj [(constName, .bool true)]) rfl
  · cases hn
  · cases ht
  · cases hothers constName (by decide)

end RoundTrip

end MappingStudio
end Northbound
end Kelt
