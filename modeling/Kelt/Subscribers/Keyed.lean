import Kelt.Subscribers.Service

/-!
# Subscribers with distinct IMSIs

As long as every IMSI that comes in is a text, the database compares IMSIs as
texts, so that no accepted request makes two of them the same, and a document
is found by its own.
-/

namespace Kelt
namespace Subscribers

section Keyed

/-- The document has this text for its IMSI, and it meets `P`. -/
def HasImsi (P : Text → Prop) (d : Doc) (t : Text) : Prop :=
  d.get? imsiField = some (.str t) ∧ P t

/-- Every IMSI is a text that meets `P`, and no two are the same. -/
structure Keyed (P : Text → Prop) (docs : List Doc) : Prop where
  texts : ∀ d ∈ docs, ∃ t, HasImsi P d t
  distinct : docs.Pairwise (fun d e => d.get? imsiField ≠ e.get? imsiField)

theorem Keyed.nil (P : Text → Prop) : Keyed P [] :=
  ⟨fun _ hd => absurd hd List.not_mem_nil, List.Pairwise.nil⟩

/-- The IMSI that a payload has, if any, is a text that meets `P`. -/
def CleanImsi (P : Text → Prop) (payload : Doc) : Prop :=
  ∀ v, payload.get? imsiField = some v → ∃ t, v = .str t ∧ P t

variable {P : Text → Prop} {server : Server} {docs : List Doc}

/-- No other document has the same IMSI. -/
theorem Keyed.ne_of_mem {before after : List Doc} {d e : Doc}
    (h : Keyed P (before ++ d :: after)) (he : e ∈ before ++ after) :
    e.get? imsiField ≠ d.get? imsiField := by
  obtain ⟨-, hafter, hbefore⟩ := List.pairwise_append.1 h.distinct
  rcases List.mem_append.1 he with he | he
  · exact hbefore e he d List.mem_cons_self
  · exact ((List.pairwise_cons.1 hafter).1 e he).symm

theorem Keyed.first (h : Keyed P docs) {before after : List Doc} {d : Doc}
    (hdocs : docs = before ++ d :: after) {t : Text} (hd : HasImsi P d t) :
    First server (.str t) before d := by
  subst hdocs
  refine ⟨(server.meets_text hd.1).2 rfl, fun e he => ?_⟩
  obtain ⟨t', ht'⟩ := h.texts e (List.mem_append_left _ he)
  refine Bool.eq_false_iff.2 (fun hmeets => ?_)
  rw [(server.meets_text ht'.1).1 hmeets] at ht'
  exact h.ne_of_mem (List.mem_append_left after he) (ht'.1.trans hd.1.symm)

theorem Keyed.findOne (h : Keyed P docs) {d : Doc} (hmem : d ∈ docs)
    {t : Text} (hd : HasImsi P d t) :
    server.findOne (.str t) docs = some d := by
  obtain ⟨before, after, hdocs⟩ := List.append_of_mem hmem
  exact (server.findOne_eq_some_iff _ _ d).2
    ⟨before, after, hdocs, h.first hdocs hd⟩

theorem Keyed.append (h : Keyed P docs) {d : Doc} {t : Text}
    (hd : HasImsi P d t) (hnew : server.findOne (.str t) docs = none) :
    Keyed P (docs ++ [d]) := by
  constructor
  · intro e he
    rcases List.mem_append.1 he with he | he
    · exact h.texts e he
    · rw [List.mem_singleton.1 he]
      exact ⟨t, hd⟩
  · refine List.pairwise_append.2 ⟨h.distinct, List.pairwise_singleton _ _, ?_⟩
    intro e he d' hd' heq
    rw [List.mem_singleton.1 hd', hd.1] at heq
    have hfound : server.findOne (.str t) docs = some e :=
      h.findOne he ⟨heq, hd.2⟩
    rw [hnew] at hfound
    cases hfound

theorem Keyed.replace {before after : List Doc} {d d' : Doc}
    (h : Keyed P (before ++ d :: after))
    (heq : d'.get? imsiField = d.get? imsiField) :
    Keyed P (before ++ d' :: after) := by
  constructor
  · intro e he
    rcases List.mem_append.1 he with he | he
    · exact h.texts e (List.mem_append_left _ he)
    · rcases List.mem_cons.1 he with rfl | he
      · obtain ⟨t, ht⟩ := h.texts d (by simp)
        exact ⟨t, heq.trans ht.1, ht.2⟩
      · exact h.texts e (List.mem_append_right _ (List.mem_cons_of_mem _ he))
  · have hdistinct := h.distinct
    simp only [List.pairwise_append, List.pairwise_cons,
      List.forall_mem_cons, heq] at hdistinct ⊢
    exact hdistinct

theorem Keyed.delete {before after : List Doc} {d : Doc}
    (h : Keyed P (before ++ d :: after)) : Keyed P (before ++ after) := by
  have hsub : List.Sublist (before ++ after) (before ++ d :: after) :=
    List.Sublist.append_left (List.sublist_cons_self d after) before
  exact ⟨fun e he => h.texts e (hsub.subset he), h.distinct.sublist hsub⟩

variable [Printer]

/-- One accepted request. -/
theorem Keyed.accepted (h : Keyed P docs) {r : Request} {docs' : List Doc}
    (hclean : ∀ data, r = .create data → CleanImsi P data)
    (hr : Accepted server docs r docs') : Keyed P docs' := by
  cases hr with
  | notUpdated => exact h
  | notDeleted => exact h
  | created hnorm himsi hinsert hnew =>
      rename_i data normalized d v
      rw [get?_normalizeSubscriber hnorm securityField_ne_imsiField.symm,
        if_neg idField_ne_imsiField.symm] at himsi
      have hdata : data.get? imsiField = some v := by
        cases hget : data.get? imsiField with
        | none =>
            rw [hget] at himsi
            cases himsi
        | some w =>
            rw [hget] at himsi
            exact himsi
      obtain ⟨t, rfl, ht⟩ := hclean data rfl v hdata
      refine h.append ⟨server.get?_insert hinsert (by decide) ?_, ht⟩ hnew
      rw [get?_normalizeSubscriber hnorm securityField_ne_imsiField.symm,
        if_neg idField_ne_imsiField.symm, hdata]
      rfl
  | updated hdocs hfirst hmerge hset =>
      rename_i imsi data normalized d d' before after
      subst hdocs
      obtain ⟨-, himsi, -⟩ := mergeUpdate_ok hmerge
      refine h.replace ?_
      obtain ⟨t, ht⟩ := h.texts d (by simp)
      rw [server.get?_set hset (by decide) himsi, ht.1,
        (server.meets_text ht.1).1 hfirst.meets]
  | deleted hdocs _ =>
      subst hdocs
      exact h.delete

theorem Keyed.call {s : Store} (h : Keyed P s.docs) (calls : SyncCalls)
    {r : Request} (hclean : ∀ data, r = .create data → CleanImsi P data) :
    Keyed P (call server calls r s).2.docs := by
  rcases docs_call server calls r s with hdocs | haccepted
  · rw [hdocs]
    exact h
  · exact h.accepted hclean haccepted

end Keyed

end Subscribers
end Kelt
