import Kelt.Lib.Runs
import Kelt.Subscribers.Service

/-!
# The keys of the stored subscribers

Every accepted request leaves a K and one of OP and OPc in each document that
it writes (`KeysOf`), and an update of a part of the security block leaves the
rest of it (`PartlyReplaced`). The texts that are stored for keys are those of
`int`, which are hexadecimal digits only when no request has brought anything
else that `int` takes (`subscribers_keys`).
-/

namespace Kelt
namespace Subscribers

section Keys

/-- Thirty-two hexadecimal digits. -/
def IsKey (t : Text) : Prop :=
  t.length = 32 ∧ ∀ c ∈ t, isHexDigit c = true

/-- A K and exactly one of OP and OPc, all of which meet `P`. -/
structure KeysOf (P : Text → Prop) (sec : Fields) : Prop where
  k : ∃ t, sec.get "k" = some (.str t) ∧ P t
  one :
    (∃ t, sec.get "op" = some (.str t) ∧ P t ∧
      sec.get "opc" = some .null) ∨
    (∃ t, sec.get "opc" = some (.str t) ∧ P t ∧
      sec.get "op" = some .null)

/-- The names under which keys stand. -/
def keyNames : List String :=
  ["k", "op", "opc"]

theorem KeysOf.imp {P Q : Text → Prop} {sec : Fields}
    (h : KeysOf P sec)
    (hPQ : ∀ name ∈ keyNames, ∀ t, sec.get name = some (.str t) →
      P t → Q t) : KeysOf Q sec := by
  obtain ⟨⟨k, hk, hPk⟩, hone⟩ := h
  refine ⟨⟨k, hk, hPQ "k" (by decide) k hk hPk⟩, ?_⟩
  rcases hone with ⟨t, ht, hP, hnull⟩ | ⟨t, ht, hP, hnull⟩
  · exact Or.inl ⟨t, ht, hPQ "op" (by decide) t ht hP, hnull⟩
  · exact Or.inr ⟨t, ht, hPQ "opc" (by decide) t ht hP, hnull⟩

/-- A valid key of bare characters is one. -/
theorem isKey_of_validKey {t : Text} (h : ValidKey t)
    (hbare : ∀ c ∈ t, isBareChar c = true) : IsKey t := by
  obtain ⟨hstrip, hhex⟩ := h
  simp only [isValidHex, hstrip] at hhex
  split_ifs at hhex with hempty hlen
  have hlower : ∀ c ∈ t.map Char.toLower, isHexDigit c = true := by
    refine isHexDigit_of_isInt16 (strip_map_toLower hstrip) ?_ hhex
    intro c hc
    obtain ⟨c', hc', rfl⟩ := List.mem_map.1 hc
    exact isBareChar_toLower (hbare c' hc')
  refine ⟨by simpa using not_not.1 hlen, fun c hc => ?_⟩
  rw [← isHexDigit_toLower]
  exact hlower _ (List.mem_map_of_mem hc)

end Keys

section Stored

/-- The block as `normalize_subscriber` leaves it. -/
structure Normal (sec : Fields) : Prop extends KeysOf ValidKey sec where
  amf : (sec.get "amf").any Value.truthy = true

theorem get_withAmf {security : Fields} {name : String}
    (hne : name ≠ "amf") : (withAmf security).get name = security.get name := by
  unfold withAmf
  split_ifs
  · rfl
  · exact Fields.get_set_of_ne _ _ hne.symm

theorem amf_withAmf (security : Fields) :
    ((withAmf security).get "amf").any Value.truthy = true := by
  unfold withAmf
  split_ifs with hamf
  · exact hamf
  · rw [Fields.get_set_self]
    rfl

theorem get_storedSecurity (security : Fields) (k : Text)
    (op opc : Option Text) (name : String) :
    (storedSecurity security k op opc).get name =
      if name = "opc" then some (.ofText opc)
      else if name = "op" then some (.ofText op)
      else if name = "k" then some (.str k) else security.get name := by
  simp only [storedSecurity, Fields.get_set, eq_comm]

variable [Printer]

theorem normal_of_normalizeSecurity {v : Option Value} {sec : Fields}
    (h : normalizeSecurity v = .ok sec) : Normal sec := by
  obtain ⟨k, op, opc, hk, hop, hopc, hsome, rfl⟩ := normalizeSecurity_ok h
  obtain ⟨-, -, -, -, hkey⟩ := checkK_ok hk
  refine ⟨⟨⟨k, by simp [get_storedSecurity], hkey⟩, ?_⟩, ?_⟩
  · cases opc with
    | some t =>
        obtain ⟨_, _, _, ht⟩ := checkOptional_some hopc
        exact Or.inr ⟨t, by simp [get_storedSecurity, Value.ofText], ht,
          by simp [get_storedSecurity, Value.ofText]⟩
    | none =>
        cases op with
        | none => simp at hsome
        | some t =>
            obtain ⟨_, _, _, ht⟩ := checkOptional_some hop
            exact Or.inl ⟨t, by simp [get_storedSecurity, Value.ofText], ht,
              by simp [get_storedSecurity, Value.ofText]⟩
  · rw [get_storedSecurity, if_neg (by decide), if_neg (by decide),
      if_neg (by decide)]
    exact amf_withAmf _

end Stored

section Bare

variable [Printer]

/-- What is given for a key has none of the characters that `int` takes beside
the digits. -/
def BareFields (fields : Fields) : Prop :=
  ∀ name ∈ keyNames, ∀ v, (name.toList, v) ∈ fields →
    ∀ c ∈ strip v.text, isBareChar c = true

def BareData (data : Doc) : Prop :=
  ∀ fields, data.get? securityField = some (.doc fields) → BareFields fields

/-- The keys of a request are spelt in digits. -/
def BareRequest (r : Request) : Prop :=
  match r with
  | .create data => BareData data
  | .update _ data => BareData data
  | .delete _ => True

theorem BareFields.setItem {k : Text} {v : Value} {fields : Fields}
    (h : BareFields fields)
    (hv : ∀ name ∈ keyNames, name.toList = k →
      ∀ c ∈ strip v.text, isBareChar c = true) :
    BareFields (Dict.setItem k v fields) := by
  intro name hname v' hmem
  rcases Dict.mem_setItem hmem with heq | hmem
  · cases heq
    exact hv name hname rfl
  · exact h name hname v' hmem

theorem BareFields.set {name : String} {v : Value} {fields : Fields}
    (h : BareFields fields) (hv : ∀ c ∈ strip v.text, isBareChar c = true) :
    BareFields (fields.set name v) :=
  h.setItem (fun _ _ _ => hv)

theorem BareFields.updateItems {fields more : Fields}
    (h : BareFields fields) (hmore : BareFields more) :
    BareFields (Dict.updateItems fields more) := by
  unfold Dict.updateItems
  induction more generalizing fields with
  | nil => exact h
  | cons p rest ih =>
      obtain ⟨k, v⟩ := p
      refine ih (h.setItem ?_) (fun name hname v' hmem =>
        hmore name hname v' (List.mem_cons_of_mem _ hmem))
      rintro name hname rfl
      exact hmore name hname v List.mem_cons_self

theorem isBareChar_null : ∀ c ∈ strip Value.null.text,
    isBareChar c = true := by
  change ∀ c ∈ strip "None".toList, isBareChar c = true
  decide

theorem isBareChar_defaultAmf : ∀ c ∈ strip (Value.str defaultAmf).text,
    isBareChar c = true := by
  change ∀ c ∈ strip defaultAmf, isBareChar c = true
  decide

theorem BareFields.mergeSecurity {existing new : Fields}
    (h : BareFields existing) (hnew : BareFields new) :
    BareFields (mergeSecurity existing new) := by
  have hitems := h.updateItems hnew
  unfold Subscribers.mergeSecurity
  split_ifs
  · exact (hitems.set isBareChar_null).set isBareChar_null
  · exact hitems.set isBareChar_null
  · exact hitems.set isBareChar_null
  · exact hitems

theorem isBareChar_of_get {fields : Fields} (h : BareFields fields)
    {name : String} (hname : name ∈ keyNames) {v : Value}
    (hv : fields.get name = some v) : ∀ c ∈ strip v.text,
      isBareChar c = true :=
  h name hname v (Dict.mem_of_getItem hv)

theorem BareFields.withAmf {fields : Fields} (h : BareFields fields) :
    BareFields (withAmf fields) := by
  unfold Subscribers.withAmf
  split_ifs
  · exact h
  · exact h.set isBareChar_defaultAmf

/-- What is stored for OP or OPc is bare when what was given for it is. -/
theorem isBareChar_of_checkOptional {label : String} {fields : Fields}
    (h : BareFields fields) {name : String} (hname : name ∈ keyNames)
    {o : Option Text} (hcheck : checkOptional label (fields.get name) = .ok o) :
    ∀ c ∈ strip (Value.ofText o).text, isBareChar c = true := by
  cases o with
  | none => exact isBareChar_null
  | some t =>
      obtain ⟨v, hv, rfl, hkey⟩ := checkOptional_some hcheck
      intro c hc
      have hc' : c ∈ strip (strip v.text) := hc
      rw [hkey.1] at hc'
      exact isBareChar_of_get h hname hv c hc'

theorem bare_of_normalizeSecurity {v : Option Value} {sec : Fields}
    (h : normalizeSecurity v = .ok sec)
    (hbare : BareFields (securityBlock v)) : BareFields sec := by
  obtain ⟨k, op, opc, hk, hop, hopc, -, rfl⟩ := normalizeSecurity_ok h
  have hkbare : ∀ c ∈ strip (Value.str k).text, isBareChar c = true := by
    obtain ⟨w, hw, -, rfl, hkey⟩ := checkK_ok hk
    intro c hc
    have hc' : c ∈ strip (strip w.text) := hc
    rw [hkey.1] at hc'
    exact isBareChar_of_get hbare (by decide) hw c hc'
  have hopbare := isBareChar_of_checkOptional hbare (by decide) hop
  have hopcbare := isBareChar_of_checkOptional hbare (by decide) hopc
  refine ((hbare.withAmf.set hkbare).set ?_).set hopcbare
  split_ifs
  · exact isBareChar_null
  · exact hopbare

end Bare

section Partial

/-- An update with the block `new` turns `old` into `sec` and leaves in it what
it does not give, except that OP and OPc replace each other. -/
structure PartlyReplaced [Printer] (old new sec : Fields) : Prop where
  others : ∀ name, new.get name = none → name ≠ "op" → name ≠ "opc" →
    sec.get name = old.get name
  op : new.get "op" = none →
    (∀ v, new.get "opc" = some v → v = .null ∨ isBlankText v = true) →
      sec.get "op" = old.get "op"
  opc : new.get "opc" = none →
    (∀ v, new.get "op" = some v → v = .null ∨ isBlankText v = true) →
      sec.get "opc" = old.get "opc"
  opReplaced : ∀ v, new.get "op" = none → new.get "opc" = some v →
    v.truthy = true →
      sec.get "op" = some .null ∧ sec.get "opc" = some (.str (strip v.text))
  opcReplaced : ∀ v, new.get "opc" = none → new.get "op" = some v →
    v.truthy = true →
      sec.get "opc" = some .null ∧ sec.get "op" = some (.str (strip v.text))

/-- The merged block, name by name. -/
theorem get_mergeSecurity (old : Fields) (new : Doc) (name : String) :
    (mergeSecurity old new.items).get name =
      if replaces new.items "op" "opc" = true ∧ name = "opc" ∨
          replaces new.items "opc" "op" = true ∧ name = "op" then some .null
      else (Fields.get new.items name).or (old.get name) := by
  have hitems : Fields.get (Dict.updateItems old new.items) name =
      (Fields.get new.items name).or (old.get name) :=
    Dict.getItem_updateItems new.nodup old name.toList
  rw [← hitems]
  unfold mergeSecurity
  by_cases hop : replaces new.items "op" "opc" = true
  · by_cases hopc : replaces new.items "opc" "op" = true
    · simp only [hop, hopc, if_true, Fields.get_set, true_and, eq_comm]
      split_ifs <;> tauto
    · simp only [hop, hopc, if_true, if_false, Fields.get_set, true_and,
        false_and, or_false, eq_comm, Bool.false_eq_true]
  · by_cases hopc : replaces new.items "opc" "op" = true
    · simp only [hop, hopc, if_true, if_false, Fields.get_set, true_and,
        false_and, false_or, eq_comm, Bool.false_eq_true]
    · simp only [hop, hopc, if_false, false_and, or_false,
        Bool.false_eq_true]

/-- Nothing that counts as a key. -/
def NoKey (v : Option Value) : Prop :=
  ∀ w, v = some w → w = .null ∨ isBlankText w = true

theorem noKey_null : NoKey (some .null) := by
  intro w hw
  exact Or.inl (Option.some.inj hw).symm

/-- The value that decides on a name that an update does not replace. -/
theorem noKey_or {v old : Option Value} (hv : NoKey v) (hold : NoKey old) :
    NoKey (v.or old) := by
  cases v with
  | none => exact hold
  | some w => exact hv

section Merge

variable {old : Fields} {new : Doc}

theorem get_op_of_replaces
    (h : replaces new.items "opc" "op" = true) :
    (mergeSecurity old new.items).get "op" = some .null := by
  rw [get_mergeSecurity, if_pos (Or.inr ⟨h, rfl⟩)]

theorem get_opc_of_replaces
    (h : replaces new.items "op" "opc" = true) :
    (mergeSecurity old new.items).get "opc" = some .null := by
  rw [get_mergeSecurity, if_pos (Or.inl ⟨h, rfl⟩)]

theorem get_op_of_not_replaces
    (h : ¬ replaces new.items "opc" "op" = true) :
    (mergeSecurity old new.items).get "op" =
      (Fields.get new.items "op").or (old.get "op") := by
  rw [get_mergeSecurity, if_neg]
  rintro (⟨-, hname⟩ | ⟨hrep, -⟩)
  · exact absurd hname (by decide)
  · exact h hrep

theorem get_opc_of_not_replaces
    (h : ¬ replaces new.items "op" "opc" = true) :
    (mergeSecurity old new.items).get "opc" =
      (Fields.get new.items "opc").or (old.get "opc") := by
  rw [get_mergeSecurity, if_neg]
  rintro (⟨hrep, -⟩ | ⟨-, hname⟩)
  · exact h hrep
  · exact absurd hname (by decide)

theorem get_other {name : String} (hop : name ≠ "op") (hopc : name ≠ "opc") :
    (mergeSecurity old new.items).get name =
      (Fields.get new.items name).or (old.get name) := by
  rw [get_mergeSecurity, if_neg]
  rintro (⟨-, hname⟩ | ⟨-, hname⟩)
  · exact hopc hname
  · exact hop hname

theorem replaces_iff (fields : Fields) (name other : String) :
    replaces fields name other = true ↔
      (∃ v, fields.get name = some v ∧ v.truthy = true) ∧
        fields.get other = none := by
  simp [replaces, Option.any_eq_true]

end Merge

variable [Printer]

theorem checkOptional_of_validKey (label : String) {t : Text}
    (h : ValidKey t) : checkOptional label (some (.str t)) = .ok (some t) := by
  obtain ⟨hstrip, hhex⟩ := h
  have hne : t ≠ [] := by
    rintro rfl
    cases hhex
  have hblank : isBlankText (.str t) = false := by
    simpa [isBlankText, hstrip] using hne
  have hvalid : isValidHex (strip (Value.str t).text) 32 = true := by
    rw [Value.text, hstrip, hhex]
  simp only [checkOptional, hblank, hvalid, if_true, Bool.false_eq_true,
    if_false]
  rw [Value.text, hstrip]

theorem checkOptional_of_noKey (label : String) {v : Option Value}
    (h : NoKey v) : checkOptional label v = .ok none := by
  cases v with
  | none => rfl
  | some w =>
      rcases h w rfl with rfl | hblank
      · rfl
      · cases w <;> simp_all [checkOptional]

section Merged

variable {old : Fields} {new : Doc}

/-- What the checks of a merged block have found. -/
structure Checked (old : Fields) (new : Doc) (k : Text)
    (op opc : Option Text) : Prop where
  checkedK : checkK ((mergeSecurity old new.items).get "k") = .ok k
  checkedOp : checkOptional "OP" ((mergeSecurity old new.items).get "op") =
    .ok op
  checkedOpc : checkOptional "OPc" ((mergeSecurity old new.items).get "opc") =
    .ok opc
  one : op.isSome = true ∨ opc.isSome = true

theorem Checked.not_none {k : Text} {op opc : Option Text}
    (h : Checked old new k op opc) (hop : op = none) (hopc : opc = none) :
    False := by
  rcases h.one with hsome | hsome
  · rw [hop] at hsome
    cases hsome
  · rw [hopc] at hsome
    cases hsome

theorem Checked.op_none {k : Text} {op opc : Option Text}
    (h : Checked old new k op opc)
    (hop : NoKey ((mergeSecurity old new.items).get "op")) : op = none :=
  Except.ok.inj (h.checkedOp.symm.trans (checkOptional_of_noKey "OP" hop))

theorem Checked.opc_none {k : Text} {op opc : Option Text}
    (h : Checked old new k op opc)
    (hopc : NoKey ((mergeSecurity old new.items).get "opc")) : opc = none :=
  Except.ok.inj (h.checkedOpc.symm.trans (checkOptional_of_noKey "OPc" hopc))

variable {k : Text} {op opc : Option Text}

/-- An OPc that is none leaves the OP that is stored. -/
theorem Checked.op_kept (hold : Normal old) (h : Checked old new k op opc)
    (hnone : Fields.get new.items "op" = none)
    (hnokey : NoKey (Fields.get new.items "opc")) :
    some (Value.ofText (if opc.isSome then none else op)) = old.get "op" := by
  have hopc : (mergeSecurity old new.items).get "opc" =
      (Fields.get new.items "opc").or (old.get "opc") :=
    get_opc_of_not_replaces (by
      rw [replaces_iff, hnone]
      simp)
  have hop : (mergeSecurity old new.items).get "op" = old.get "op" := by
    rw [get_op_of_not_replaces, hnone, Option.none_or]
    intro hrep
    obtain ⟨⟨v, hv, htruthy⟩, -⟩ := (replaces_iff _ _ _).1 hrep
    have hop := h.op_none (get_op_of_replaces hrep ▸ noKey_null)
    rw [hv] at hopc hnokey
    exact h.not_none hop (h.opc_none (hopc ▸ hnokey))
  rcases hold.one with ⟨t, ht, hkey, hnull⟩ | ⟨t, ht, hkey, hnull⟩
  · have hsome : op = some t := Except.ok.inj (h.checkedOp.symm.trans (by
      rw [hop, ht]
      exact checkOptional_of_validKey "OP" hkey))
    have hnone' : opc = none := h.opc_none (by
      rw [hopc, hnull]
      exact noKey_or hnokey noKey_null)
    rw [hsome, hnone', ht]
    rfl
  · have hnone' : op = none := h.op_none (by
      rw [hop, hnull]
      exact noKey_null)
    rw [hnone', hnull]
    split_ifs <;> rfl

/-- An OP that is none leaves the OPc that is stored. -/
theorem Checked.opc_kept (hold : Normal old) (h : Checked old new k op opc)
    (hnone : Fields.get new.items "opc" = none)
    (hnokey : NoKey (Fields.get new.items "op")) :
    some (Value.ofText opc) = old.get "opc" := by
  have hop : (mergeSecurity old new.items).get "op" =
      (Fields.get new.items "op").or (old.get "op") :=
    get_op_of_not_replaces (by
      rw [replaces_iff, hnone]
      simp)
  have hopc : (mergeSecurity old new.items).get "opc" = old.get "opc" := by
    rw [get_opc_of_not_replaces, hnone, Option.none_or]
    intro hrep
    obtain ⟨⟨v, hv, htruthy⟩, -⟩ := (replaces_iff _ _ _).1 hrep
    have hopc := h.opc_none (get_opc_of_replaces hrep ▸ noKey_null)
    rw [hv] at hop hnokey
    exact h.not_none (h.op_none (hop ▸ hnokey)) hopc
  rcases hold.one with ⟨t, ht, hkey, hnull⟩ | ⟨t, ht, hkey, hnull⟩
  · have hnone' : opc = none := h.opc_none (by
      rw [hopc, hnull]
      exact noKey_null)
    rw [hnone', hnull]
    rfl
  · have hsome : opc = some t := Except.ok.inj (h.checkedOpc.symm.trans (by
      rw [hopc, ht]
      exact checkOptional_of_validKey "OPc" hkey))
    rw [hsome, ht]
    rfl

/-- An OPc takes the place of the OP. -/
theorem Checked.op_replaced (h : Checked old new k op opc) {v : Value}
    (hnone : Fields.get new.items "op" = none)
    (hv : Fields.get new.items "opc" = some v) (htruthy : v.truthy = true) :
    opc = some (strip v.text) := by
  have hrep : replaces new.items "opc" "op" = true :=
    (replaces_iff _ _ _).2 ⟨⟨v, hv, htruthy⟩, hnone⟩
  have hop := h.op_none (get_op_of_replaces hrep ▸ noKey_null)
  cases opc with
  | none => exact (h.not_none hop rfl).elim
  | some t =>
      obtain ⟨w, hw, rfl, -⟩ := checkOptional_some h.checkedOpc
      rw [get_opc_of_not_replaces (by rw [replaces_iff, hnone]; simp), hv,
        Option.some_or] at hw
      cases hw
      rfl

/-- An OP takes the place of the OPc. -/
theorem Checked.opc_replaced (h : Checked old new k op opc) {v : Value}
    (hnone : Fields.get new.items "opc" = none)
    (hv : Fields.get new.items "op" = some v) (htruthy : v.truthy = true) :
    opc = none ∧ op = some (strip v.text) := by
  have hrep : replaces new.items "op" "opc" = true :=
    (replaces_iff _ _ _).2 ⟨⟨v, hv, htruthy⟩, hnone⟩
  have hopc := h.opc_none (get_opc_of_replaces hrep ▸ noKey_null)
  refine ⟨hopc, ?_⟩
  cases op with
  | none => exact (h.not_none rfl hopc).elim
  | some t =>
      obtain ⟨w, hw, rfl, -⟩ := checkOptional_some h.checkedOp
      rw [get_op_of_not_replaces (by rw [replaces_iff, hnone]; simp), hv,
        Option.some_or] at hw
      cases hw
      rfl

/-- What is not given keeps its value. -/
theorem Checked.other_kept (hold : Normal old) (h : Checked old new k op opc)
    {name : String} (hnone : Fields.get new.items name = none)
    (hop : name ≠ "op") (hopc : name ≠ "opc") :
    (if name = "k" then some (.str k)
      else (withAmf (mergeSecurity old new.items)).get name) =
        old.get name := by
  have hget : (mergeSecurity old new.items).get name = old.get name := by
    rw [get_other hop hopc, hnone, Option.none_or]
  split_ifs with hk
  · subst hk
    obtain ⟨t, ht, hkey⟩ := hold.k
    obtain ⟨w, hw, -, rfl, -⟩ := checkK_ok h.checkedK
    rw [hget, ht] at hw
    cases hw
    rw [ht, Value.text, hkey.1]
  · by_cases hamf : name = "amf"
    · subst hamf
      rw [withAmf, if_pos (by rw [hget]; exact hold.amf), hget]
    · rw [get_withAmf hamf, hget]

end Merged

/-- An accepted update of a part of a normal block. -/
theorem partlyReplaced_of_normalizeSecurity {old sec : Fields} {new : Doc}
    (hold : Normal old)
    (h : normalizeSecurity (some (.doc (mergeSecurity old new.items))) =
      .ok sec) : PartlyReplaced old new.items sec := by
  obtain ⟨k, op, opc, hk, hop, hopc, hsome, rfl⟩ := normalizeSecurity_ok h
  have hchecked : Checked old new k op opc := ⟨hk, hop, hopc, hsome⟩
  constructor
  · intro name hnone hne hne'
    rw [get_storedSecurity, if_neg hne', if_neg hne]
    exact hchecked.other_kept hold hnone hne hne'
  · intro hnone hnokey
    rw [get_storedSecurity, if_neg (by decide), if_pos rfl]
    exact hchecked.op_kept hold hnone hnokey
  · intro hnone hnokey
    rw [get_storedSecurity, if_pos rfl]
    exact hchecked.opc_kept hold hnone hnokey
  · intro v hnone hv htruthy
    have hopc := hchecked.op_replaced hnone hv htruthy
    rw [get_storedSecurity, get_storedSecurity, hopc]
    exact ⟨rfl, rfl⟩
  · intro v hnone hv htruthy
    obtain ⟨hopc, hop⟩ := hchecked.opc_replaced hnone hv htruthy
    rw [get_storedSecurity, get_storedSecurity, hopc, hop]
    exact ⟨rfl, rfl⟩

end Partial

section Runs

variable [Printer]

/-- What every stored document has, when no request has brought a key that is
not bare. -/
def Stored (d : Doc) : Prop :=
  ∃ sec, d.get? securityField = some (.doc sec) ∧ Normal sec ∧ BareFields sec

theorem Stored.keysOf {d : Doc} (h : Stored d) :
    ∃ sec, d.get? securityField = some (.doc sec) ∧ KeysOf IsKey sec := by
  obtain ⟨sec, hsec, hnormal, hbare⟩ := h
  refine ⟨sec, hsec, hnormal.toKeysOf.imp ?_⟩
  intro name hname t ht hvalid
  refine isKey_of_validKey hvalid (fun c hc => ?_)
  refine isBareChar_of_get hbare hname ht c ?_
  rw [Value.text, hvalid.1]
  exact hc

theorem BareData.block {data : Doc} (h : BareData data) :
    BareFields (securityBlock (data.get? securityField)) := by
  unfold securityBlock
  split
  · rename_i fields hfields
    exact h fields hfields
  · exact fun _ _ _ hmem => absurd hmem List.not_mem_nil

/-- The merged block is bare when both blocks are. -/
theorem bare_updatedSecurity {d data : Doc} {old : Fields}
    {v : Option Value} (hd : d.get? securityField = some (.doc old))
    (hold : BareFields old) (hdata : BareData data)
    (h : updatedSecurity (d.erase idField) data = .ok v) :
    BareFields (securityBlock v) := by
  unfold updatedSecurity at h
  split at h
  · rename_i new hnew
    rw [existingSecurity_eq hd] at h
    cases h
    exact hold.mergeSecurity (hdata new hnew)
  · rename_i w hw hdoc
    cases h
    rw [← hdoc]
    exact hdata.block
  · cases h
    rw [Dict.get?_erase_of_ne _ securityField_ne_idField, hd]
    exact hold

variable {server : Server} {docs docs' : List Doc} {r : Request}

theorem stored_created {data normalized d : Doc} {v : Value}
    (hbare : BareData data)
    (hnorm : normalizeSubscriber data = .ok normalized)
    (hinsert : server.insert v normalized = some d) : Stored d := by
  obtain ⟨sec, hsec, hget⟩ := normalizeSubscriber_security hnorm
  exact ⟨sec, server.get?_insert hinsert (by decide) hget,
    normal_of_normalizeSecurity hsec,
    bare_of_normalizeSecurity hsec hbare.block⟩

theorem stored_updated {imsi : Text} {data d normalized d' : Doc}
    (hd : Stored d) (hbare : BareData data)
    (hmerge : mergeUpdate imsi d data = .ok normalized)
    (hset : server.set d normalized = some d') : Stored d' := by
  obtain ⟨old, hold, -, hbareold⟩ := hd
  obtain ⟨⟨v, sec, hv, hsec, hget⟩, -⟩ := mergeUpdate_ok hmerge
  exact ⟨sec, server.get?_set hset (by decide) hget,
    normal_of_normalizeSecurity hsec,
    bare_of_normalizeSecurity hsec
      (bare_updatedSecurity hold hbareold hbare hv)⟩

/-- One accepted request. -/
theorem stored_accepted (h : ∀ d ∈ docs, Stored d) (hbare : BareRequest r)
    (hr : Accepted server docs r docs') : ∀ d ∈ docs', Stored d := by
  cases hr with
  | notUpdated => exact h
  | notDeleted => exact h
  | created hnorm _ hinsert _ =>
      intro d hd
      rcases List.mem_append.1 hd with hd | hd
      · exact h d hd
      · rw [List.mem_singleton.1 hd]
        exact stored_created hbare hnorm hinsert
  | updated hdocs _ hmerge hset =>
      subst hdocs
      intro d hd
      rcases List.mem_append.1 hd with hd | hd
      · exact h d (List.mem_append_left _ hd)
      · rcases List.mem_cons.1 hd with rfl | hd
        · exact stored_updated (h _ (by simp)) hbare hmerge hset
        · exact h d (List.mem_append_right _ (List.mem_cons_of_mem _ hd))
  | deleted hdocs _ =>
      subst hdocs
      intro d hd
      rcases List.mem_append.1 hd with hd | hd
      · exact h d (List.mem_append_left _ hd)
      · exact h d (List.mem_append_right _ (List.mem_cons_of_mem _ hd))

/-- An accepted update of the block of a stored document. -/
theorem partlyReplaced_accepted {imsi : Text} {data new d : Doc}
    (hd : Stored d) (hfound : server.findOne (.str imsi) docs = some d)
    (hnew : data.get? securityField = some (.doc new.items))
    (hr : Accepted server docs (.update imsi data) docs') :
    ∃ d' old sec, server.findOne (.str imsi) docs' = some d' ∧
      d.get? securityField = some (.doc old) ∧
      d'.get? securityField = some (.doc sec) ∧
      PartlyReplaced old new.items sec := by
  cases hr with
  | notUpdated hnone =>
      rw [hfound] at hnone
      cases hnone
  | updated hdocs hfirst hmerge hset =>
      rename_i e normalized d' before after
      obtain ⟨before', after', heq, hfirst'⟩ :=
        (server.findOne_eq_some_iff _ _ _).1 hfound
      obtain ⟨rfl, rfl, rfl⟩ := hfirst.unique hfirst' (hdocs ▸ heq)
      obtain ⟨old, hold, hnormal, -⟩ := hd
      obtain ⟨⟨v, sec, hv, hsec, hget⟩, himsi, -⟩ := mergeUpdate_ok hmerge
      unfold updatedSecurity at hv
      rw [hnew] at hv
      simp only [existingSecurity_eq hold] at hv
      cases hv
      exact ⟨d', old, sec, findOne_updated hfirst himsi hset, hold,
        server.get?_set hset (by decide) hget,
        partlyReplaced_of_normalizeSecurity hnormal hsec⟩

/-- In every run of accepted requests from an empty collection in which every
key is spelt in digits, each stored subscriber has a K and one of OP and OPc of
thirty-two hexadecimal digits; and what an update does not give of the security
block is left, but for OP and OPc, which replace each other. -/
theorem subscribers_keys (server : Server) {docs : List Doc}
    (h : Reach (accept server) (fun _ r => BareRequest r) [] docs) :
    (∀ d ∈ docs, ∃ sec, d.get? securityField = some (.doc sec) ∧
        KeysOf IsKey sec) ∧
      ∀ (imsi : Text) (data new d : Doc) (docs' : List Doc),
        server.findOne (.str imsi) docs = some d →
        data.get? securityField = some (.doc new.items) →
        accept server docs (.update imsi data) = some docs' →
        ∃ d' old sec, server.findOne (.str imsi) docs' = some d' ∧
          d.get? securityField = some (.doc old) ∧
          d'.get? securityField = some (.doc sec) ∧
          PartlyReplaced old new.items sec := by
  have hstored : ∀ d ∈ docs, Stored d :=
    h.inv (I := fun docs => ∀ d ∈ docs, Stored d)
      (fun d hd => absurd hd List.not_mem_nil)
      (fun _ _ _ hI hok hr => stored_accepted hI hok (accepted_of_accept hr))
  refine ⟨fun d hd => (hstored d hd).keysOf, ?_⟩
  intro imsi data new d docs' hfound hnew hr
  exact partlyReplaced_accepted (hstored d (List.mem_of_find?_eq_some hfound))
    hfound hnew (accepted_of_accept hr)

end Runs

section Prefixed

/-- The creation of a subscriber with this key. -/
def createWith (key : Text) : Request :=
  .create (newSubscriber (.str "1".toList) key)

theorem bareRequest_zeroKey : BareRequest (createWith zeroKey) := by
  intro fields hfields
  obtain rfl : [("k".toList, .str zeroKey), ("opc".toList, .str zeroKey)] =
      fields := by
    injection (Option.some.inj hfields)
  intro name _ v hmem
  have hv : v = .str zeroKey := by
    simp only [List.mem_cons, Prod.mk.injEq, List.not_mem_nil,
      or_false] at hmem
    exact hmem.elim And.right And.right
  rw [hv]
  change ∀ c ∈ strip zeroKey, isBareChar c = true
  decide

theorem subscribers_keys_created :
    ∃ docs, accept plainServer [] (createWith zeroKey) = some docs ∧
      ∀ d ∈ docs, ∃ sec, d.get? securityField = some (.doc sec) ∧
        KeysOf IsKey sec :=
  ⟨_, rfl,
    (subscribers_keys plainServer
      (Reach.refl.step bareRequest_zeroKey rfl)).1⟩

/-- Thirty digits behind the prefix of a hexadecimal number. -/
def prefixedKey : Text :=
  '0' :: 'x' :: List.replicate 30 '0'

/-- They are accepted and stored as they are. -/
theorem prefixed_is_stored :
    ∃ docs d sec, ReachAny (accept plainServer) [] docs ∧ d ∈ docs ∧
      d.get? securityField = some (.doc sec) ∧ ¬ KeysOf IsKey sec := by
  refine ⟨_, _, _, Reach.refl.step
    (a := createWith prefixedKey) trivial rfl,
    List.mem_cons_self, rfl, ?_⟩
  rintro ⟨⟨k, hk, -, hdigits⟩, -⟩
  obtain rfl : prefixedKey = k := by
    injection (Option.some.inj hk)
  exact absurd (hdigits 'x' (by decide)) (by decide)

end Prefixed

end Subscribers
end Kelt
