import Kelt.Subscribers.Service

/-!
# What is stored is what came in

A test of names and values that the calls' own texts, empty keys and defaults
pass. When the stored document and the payload pass it, so does what is written.
-/

namespace Kelt
namespace Subscribers

section Values

variable {p : Value → Bool}

theorem Value.allFields_iff (fields : Fields) :
    Value.allFields p fields = true ↔
      ∀ kv ∈ fields, kv.2.all p = true := by
  induction fields with
  | nil => simp [Value.allFields]
  | cons kv rest ih =>
      rw [Value.allFields, Bool.and_eq_true, ih, List.forall_mem_cons]

theorem Value.allFields_setItem {fields : Fields} {name : Text} {v : Value}
    (h : Value.allFields p fields = true) (hv : v.all p = true) :
    Value.allFields p (Dict.setItem name v fields) = true := by
  rw [Value.allFields_iff] at h ⊢
  rintro ⟨name', v'⟩ hmem
  rcases Dict.mem_setItem hmem with heq | hold
  · cases heq
    exact hv
  · exact h _ hold

theorem Value.allFields_updateItems {fields more : Fields}
    (h : Value.allFields p fields = true)
    (hmore : Value.allFields p more = true) :
    Value.allFields p (Dict.updateItems fields more) = true := by
  unfold Dict.updateItems
  induction more generalizing fields with
  | nil => exact h
  | cons kv rest ih =>
      rw [Value.allFields, Bool.and_eq_true] at hmore
      exact ih (Value.allFields_setItem h hmore.1) hmore.2

mutual

/-- Who passes a test passes a weaker one. -/
theorem Value.all_mono {q : Value → Bool}
    (hpq : ∀ v, p v = true → q v = true) (v : Value)
    (h : v.all p = true) : v.all q = true := by
  cases v with
  | list items =>
      rw [Value.all, Bool.and_eq_true] at h ⊢
      exact ⟨hpq _ h.1, Value.allItems_mono hpq items h.2⟩
  | doc fields =>
      rw [Value.all, Bool.and_eq_true] at h ⊢
      exact ⟨hpq _ h.1, Value.allFields_mono hpq fields h.2⟩
  | null => exact hpq _ h
  | bool b => exact hpq _ h
  | int n => exact hpq _ h
  | float shown whole => exact hpq _ h
  | str t => exact hpq _ h
  | other shown empty => exact hpq _ h

theorem Value.allItems_mono {q : Value → Bool}
    (hpq : ∀ v, p v = true → q v = true) (items : List Value)
    (h : Value.allItems p items = true) :
    Value.allItems q items = true := by
  cases items with
  | nil => rfl
  | cons v rest =>
      rw [Value.allItems, Bool.and_eq_true] at h ⊢
      exact ⟨Value.all_mono hpq v h.1, Value.allItems_mono hpq rest h.2⟩

theorem Value.allFields_mono {q : Value → Bool}
    (hpq : ∀ v, p v = true → q v = true) (fields : List (Text × Value))
    (h : Value.allFields p fields = true) :
    Value.allFields q fields = true := by
  cases fields with
  | nil => rfl
  | cons kv rest =>
      obtain ⟨name, v⟩ := kv
      rw [Value.allFields, Bool.and_eq_true] at h ⊢
      exact ⟨Value.all_mono hpq v h.1, Value.allFields_mono hpq rest h.2⟩

end

/-- JSON has a spelling for every value that `JSON.parse` takes. -/
theorem Value.isPlain_of_isJson {v : Value} (h : v.isJson = true) :
    v.isPlain = true :=
  Value.all_mono (fun _ hw => (Bool.and_eq_true_iff.1 hw).1) v h

end Values

section FieldTest

/-- A test of the names and values of fields that all pass which the calls add
by themselves. -/
structure FieldTest where
  name : Text → Bool
  value : Value → Bool
  imsi : name imsiField = true
  security : name securityField = true
  text : ∀ t, value (.str t) = true
  null : value .null = true
  doc : ∀ fields, value (.doc fields) = true
  default : ∀ f v, subscriberDefaults.get? f = some v →
    name f = true ∧ v.all value = true

/-- Every field but the identifier passes. -/
def Passes (test : FieldTest) (d : Doc) : Prop :=
  ∀ f v, f ≠ idField → d.get? f = some v →
    test.name f = true ∧ v.all test.value = true

variable {test : FieldTest}

theorem FieldTest.all_text (test : FieldTest) (t : Text) :
    (Value.str t).all test.value = true :=
  test.text t

theorem FieldTest.all_ofText (test : FieldTest) (t : Option Text) :
    (Value.ofText t).all test.value = true := by
  cases t with
  | none => exact test.null
  | some t => exact test.text t

theorem FieldTest.all_doc_iff (test : FieldTest) (fields : Fields) :
    (Value.doc fields).all test.value = true ↔
      Value.allFields test.value fields = true := by
  rw [Value.all, test.doc, Bool.true_and]

theorem Passes.erase {d : Doc} (h : Passes test d) :
    Passes test (d.erase idField) := by
  intro f v hf hv
  rw [Dict.get?_erase_of_ne _ hf] at hv
  exact h f v hf hv

theorem Passes.set {d : Doc} (h : Passes test d) {f : Text} {v : Value}
    (hf : test.name f = true) (hv : v.all test.value = true) :
    Passes test (d.set f v) := by
  intro f' v' hid hv'
  rw [Dict.get?_set] at hv'
  split_ifs at hv' with heq
  · cases hv'
    exact ⟨heq ▸ hf, hv⟩
  · exact h f' v' hid hv'

theorem passes_newSubscriber (test : FieldTest) (imsi key : Text) :
    Passes test (newSubscriber (.str imsi) key) := by
  have hkey := test.all_text key
  have hkeys : (Value.doc [("k".toList, .str key),
      ("opc".toList, .str key)]).all test.value = true := by
    simp [test.all_doc_iff, Value.allFields, hkey]
  have hempty : Passes test Dict.empty := fun _ _ _ hv => by cases hv
  exact (hempty.set test.imsi (test.all_text imsi)).set test.security hkeys

theorem all_securityBlock {v : Option Value}
    (h : ∀ w, v = some w → w.all test.value = true) :
    Value.allFields test.value (securityBlock v) = true := by
  unfold securityBlock
  split
  · exact (test.all_doc_iff _).1 (h _ rfl)
  · rfl

theorem all_withAmf {security : Fields}
    (h : Value.allFields test.value security = true) :
    Value.allFields test.value (withAmf security) = true := by
  unfold withAmf
  split_ifs
  · exact h
  · exact Value.allFields_setItem h (test.all_text _)

theorem all_storedSecurity {security : Fields}
    (h : Value.allFields test.value security = true) (k : Text)
    (op opc : Option Text) :
    Value.allFields test.value (storedSecurity security k op opc) = true :=
  Value.allFields_setItem
    (Value.allFields_setItem
      (Value.allFields_setItem h (test.all_text k)) (test.all_ofText op))
    (test.all_ofText opc)

theorem all_mergeSecurity {existing new : Fields}
    (h : Value.allFields test.value existing = true)
    (hnew : Value.allFields test.value new = true) :
    Value.allFields test.value (mergeSecurity existing new) = true := by
  have hmerged := Value.allFields_updateItems h hnew
  have hnull : Value.null.all test.value = true := test.null
  have hopc : Value.allFields test.value
      (if replaces new "op" "opc" then
        Fields.set (Dict.updateItems existing new) "opc" .null
      else Dict.updateItems existing new) = true := by
    split_ifs
    · exact Value.allFields_setItem hmerged hnull
    · exact hmerged
  unfold mergeSecurity
  dsimp only
  by_cases hop : replaces new "opc" "op" = true
  · rw [if_pos hop]
    exact Value.allFields_setItem hopc hnull
  · rw [if_neg hop]
    exact hopc

/-- The block that an update normalises. -/
theorem all_updatedSecurity {existing data : Doc} {v : Option Value}
    (hold : Passes test existing) (hdata : Passes test data)
    (h : updatedSecurity existing data = .ok v) :
    ∀ w, v = some w → w.all test.value = true := by
  have hgiven : ∀ w, data.get? securityField = some w →
      w.all test.value = true :=
    fun w hw => (hdata _ w securityField_ne_idField hw).2
  have hstored : ∀ w, existing.get? securityField = some w →
      w.all test.value = true :=
    fun w hw => (hold _ w securityField_ne_idField hw).2
  rintro w rfl
  unfold updatedSecurity at h
  split at h
  · rename_i new hnew
    have hnew := (test.all_doc_iff new).1 (hgiven _ hnew)
    cases hold' : existingSecurity (existing.get? securityField) with
    | error e => simp [hold', Except.map] at h
    | ok old =>
        have hall : Value.allFields test.value old = true := by
          unfold existingSecurity at hold'
          split at hold'
          · cases hold'
            rfl
          · rename_i fields hfields
            cases hold'
            exact (test.all_doc_iff old).1 (hstored _ hfields)
          · split_ifs at hold'
            cases hold'
            rfl
        simp only [hold', Except.map, Except.ok.injEq, Option.some.injEq] at h
        subst h
        exact (test.all_doc_iff _).2 (all_mergeSecurity hall hnew)
  · rename_i v' _ hv'
    cases h
    exact hgiven w hv'
  · exact hstored w (Except.ok.inj h)

variable [Printer]

theorem all_normalizeSecurity {v : Option Value} {sec : Fields}
    (hv : ∀ w, v = some w → w.all test.value = true)
    (h : normalizeSecurity v = .ok sec) :
    (Value.doc sec).all test.value = true := by
  obtain ⟨k, op, opc, -, -, -, -, rfl⟩ := normalizeSecurity_ok h
  exact (test.all_doc_iff _).2
    (all_storedSecurity (all_withAmf (all_securityBlock hv)) k _ opc)

/-- What a creation writes. -/
theorem passes_normalizeSubscriber {data normalized : Doc}
    (hdata : Passes test data)
    (h : normalizeSubscriber data = .ok normalized) :
    Passes test normalized := by
  intro f v hf hv
  by_cases hsec : f = securityField
  · obtain ⟨sec, hok, hget⟩ := normalizeSubscriber_security h
    rw [hsec, hget] at hv
    cases hv
    rw [hsec]
    exact ⟨test.security, all_normalizeSecurity
      (fun w hw => (hdata _ w securityField_ne_idField hw).2) hok⟩
  · rw [get?_normalizeSubscriber h hsec, if_neg hf] at hv
    rcases Option.or_eq_some_iff.1 hv with hgiven | ⟨-, hdefault⟩
    · exact hdata f v hf hgiven
    · exact test.default f v hdefault

/-- What an update writes. -/
theorem passes_mergeUpdate {imsi : Text} {existing data normalized : Doc}
    (hold : Passes test existing) (hdata : Passes test data)
    (h : mergeUpdate imsi existing data = .ok normalized) :
    Passes test normalized := by
  obtain ⟨⟨w, sec, hupdated, hok, hget⟩, himsi, -, hfields⟩ :=
    mergeUpdate_ok h
  intro f v hf hv
  by_cases hsec : f = securityField
  · rw [hsec, hget] at hv
    cases hv
    rw [hsec]
    exact ⟨test.security, all_normalizeSecurity
      (all_updatedSecurity hold.erase hdata hupdated) hok⟩
  · by_cases himsif : f = imsiField
    · rw [himsif, himsi] at hv
      cases hv
      rw [himsif]
      exact ⟨test.imsi, test.all_text imsi⟩
    · rw [hfields f hsec himsif hf] at hv
      rcases Option.or_eq_some_iff.1 hv with hgiven | ⟨-, hdefault⟩
      · rcases Option.or_eq_some_iff.1 hgiven with hnew | ⟨-, hstored⟩
        · exact hdata f v hf hnew
        · exact hold f v hf hstored
      · exact test.default f v hdefault

end FieldTest

end Subscribers
end Kelt
