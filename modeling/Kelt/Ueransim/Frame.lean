import Kelt.Ueransim.State

/-!
# What an operation leaves alone

The stored state is looked at entry by entry: one form or one saved count of one
instance. `Op.Targets` says which entries an operation is about. An operation
leaves all other entries alone exactly when it is `Safe`: its read answered, or
nothing else is saved; and `disable`, which writes the whole of the saved counts
anew, finds an instance for each of them.
-/

namespace Kelt
namespace Ueransim

universe u

section Frame

/-- One entry of the stored state. -/
inductive Entry where
  | form (kind : Kind) (name : Text)
  | count (kind : Kind) (name : Text)
deriving DecidableEq

variable {Φ : Type u}

def State.entry (st : State Φ) : Entry → Option (Φ ⊕ Nat)
  | .form kind name => ((st.forms kind).get? name).map Sum.inl
  | .count kind name => ((st.replicas kind).get? name).map Sum.inr

/-- The entry as it is stored. -/
def Cluster.entry (c : Cluster Φ) (e : Entry) : Option (Φ ⊕ Nat) :=
  c.stored.bind (fun st => st.entry e)

/-- The entries an operation is about; `disable` is about the saved counts of
the instances that it scales. -/
def Op.Targets (c : Cluster Φ) : Op Φ → Entry → Prop
  | .recordForm kind name _, e => e = .form kind name
  | .deleteForm kind name, e => e = .form kind name
  | .enable, _ => False
  | .disable, .form _ _ => False
  | .disable, .count kind name => name ∈ (c.instances kind).keys

/-- Nothing but `e` is saved. -/
def Cluster.Only (c : Cluster Φ) (e : Entry) : Prop :=
  ∀ e', c.entry e' ≠ none → e' = e

/-- The operation can write the whole state without loss. -/
def Op.Safe (c : Cluster Φ) (read : Read) : Op Φ → Prop
  | .recordForm kind name _ => read = .answers ∨ c.Only (.form kind name)
  | .deleteForm kind name => read = .answers ∨ c.Only (.form kind name)
  | .enable => True
  | .disable =>
      (read = .answers ∨ ∀ kind name, c.entry (.form kind name) = none) ∧
        ∀ kind name, c.entry (.count kind name) ≠ none →
          name ∈ (c.instances kind).keys

def Act.Targets (c : Cluster Φ) : Act Φ → Entry → Prop
  | .call op _ _, e => op.Targets c e
  | .change _, _ => False

/-- What the action is not about stays as it was. -/
def Act.Framed (c : Cluster Φ) (a : Act Φ) : Prop :=
  ∀ e, ¬ a.Targets c e → (c.after a).entry e = c.entry e

/-- An operation whose write raises loses nothing. -/
def Act.Safe (c : Cluster Φ) : Act Φ → Prop
  | .call op read saves => saves = true → op.Safe c read
  | .change _ => True

@[simp] theorem State.entry_empty (e : Entry) :
    (State.empty : State Φ).entry e = none := by
  cases e <;> rfl

theorem Cluster.entry_getState (c : Cluster Φ) (read : Read) (e : Entry) :
    (c.getState read).entry e =
      if read = .answers then c.entry e else none := by
  cases read with
  | answers =>
      unfold Cluster.getState Cluster.entry
      cases c.stored with
      | none => exact State.entry_empty e
      | some st => rfl
  | fails => exact State.entry_empty e

theorem Cluster.entry_saveState
    (c : Cluster Φ) (saves : Bool) (st : State Φ) (e : Entry) :
    (c.saveState saves st).entry e =
      if saves then st.entry e else c.entry e := by
  cases saves <;> rfl

theorem State.entry_setForm
    (st : State Φ) (kind : Kind) (d : Dict Text Φ) (name : Text)
    (hd : ∀ n, n ≠ name → d.get? n = (st.forms kind).get? n)
    {e : Entry} (he : e ≠ .form kind name) :
    ({ st with forms := Function.update st.forms kind d } : State Φ).entry e =
      st.entry e := by
  cases e with
  | count k n => rfl
  | form k n =>
      by_cases hk : k = kind
      · subst hk
        have hn : n ≠ name := fun h => he (h ▸ rfl)
        simp [State.entry, hd n hn]
      · simp [State.entry, hk]

/-- Editing one form frames when the read answered or nothing else is there. -/
theorem Cluster.edited_iff
    (c : Cluster Φ) (read : Read) (st' : State Φ) (t : Entry)
    (hst : ∀ e, e ≠ t → st'.entry e = (c.getState read).entry e) :
    (∀ e, ¬ e = t → (c.saveState true st').entry e = c.entry e) ↔
      read = .answers ∨ c.Only t := by
  have hsaved :
      ∀ e, e ≠ t → (c.saveState true st').entry e =
        if read = .answers then c.entry e else none := by
    intro e he
    rw [c.entry_saveState, if_pos rfl, hst e he, c.entry_getState]
  constructor
  · intro h
    by_cases hread : read = .answers
    · exact Or.inl hread
    · refine Or.inr fun e he => ?_
      by_contra hne
      refine he ?_
      rw [← h e hne, hsaved e hne, if_neg hread]
  · rintro (hread | honly) e hne
    · rw [hsaved e hne, if_pos hread]
    · have hnone : c.entry e = none := by
        by_contra he
        exact hne (honly e he)
      rw [hsaved e hne, hnone, ite_self]

theorem framed_recordForm_iff
    (c : Cluster Φ) (read : Read) (kind : Kind) (name : Text) (payload : Φ) :
    (Act.call (.recordForm kind name payload) read true).Framed c ↔
      read = .answers ∨ c.Only (.form kind name) :=
  c.edited_iff read _ _ fun _ he =>
    State.entry_setForm _ _ _ name
      (fun _ hn => Dict.get?_set_of_ne _ _ hn) he

theorem framed_deleteForm_iff
    (c : Cluster Φ) (read : Read) (kind : Kind) (name : Text) :
    (Act.call (.deleteForm kind name) read true).Framed c ↔
      read = .answers ∨ c.Only (.form kind name) :=
  c.edited_iff read _ _ fun _ he =>
    State.entry_setForm _ _ _ name
      (fun _ hn => Dict.get?_erase_of_ne _ hn) he

theorem entry_disable_form
    (c : Cluster Φ) (read : Read) (kind : Kind) (name : Text) :
    (c.disable read true).1.entry (.form kind name) =
      if read = .answers then c.entry (.form kind name) else none :=
  c.entry_getState read (.form kind name)

theorem entry_disable_count
    (c : Cluster Φ) (read : Read) (kind : Kind) (name : Text) :
    (c.disable read true).1.entry (.count kind name) =
      ((c.instances kind).get? name).map Sum.inr := by
  change
    (((Dict.empty.update (c.instances kind)).get? name).map Sum.inr :
      Option (Φ ⊕ Nat)) = _
  rw [Dict.get?_update, Dict.get?_empty, Option.or_none]

theorem framed_disable_iff (c : Cluster Φ) (read : Read) :
    (Act.call .disable read true).Framed c ↔ Op.disable.Safe c read := by
  constructor
  · intro h
    constructor
    · by_cases hread : read = .answers
      · exact Or.inl hread
      · refine Or.inr fun kind name => ?_
        have hform := h (.form kind name) id
        rw [← hform]
        exact (entry_disable_form c read kind name).trans (if_neg hread)
    · intro kind name hcount
      by_contra hmem
      have hkept := h (.count kind name) hmem
      refine hcount (hkept.symm.trans ?_)
      have hnone := ((c.instances kind).get?_eq_none_iff name).2 hmem
      exact (entry_disable_count c read kind name).trans (by rw [hnone]; rfl)
  · rintro ⟨hforms, hcounts⟩ e he
    cases e with
    | form kind name =>
        refine (entry_disable_form c read kind name).trans ?_
        rcases hforms with hread | hnone
        · exact if_pos hread
        · rw [hnone kind name, ite_self]
    | count kind name =>
        have hmem : name ∉ (c.instances kind).keys := he
        have hnone := ((c.instances kind).get?_eq_none_iff name).2 hmem
        refine (entry_disable_count c read kind name).trans ?_
        rw [hnone]
        by_contra hne
        exact hmem (hcounts kind name fun h => hne (h ▸ rfl))

/-- An operation that raises at its write leaves the stored state alone. -/
theorem stored_of_unsaved (c : Cluster Φ) (read : Read) (op : Op Φ) :
    (c.call read false op).stored = c.stored := by
  cases op <;> rfl

theorem framed_iff_safe (c : Cluster Φ) (a : Act Φ) :
    a.Framed c ↔ a.Safe c := by
  cases a with
  | change instances => exact ⟨fun _ => trivial, fun _ _ _ => rfl⟩
  | call op read saves =>
      cases saves with
      | false =>
          refine ⟨fun _ h => Bool.noConfusion h, fun _ e _ => ?_⟩
          exact congrArg (Option.bind · (State.entry · e))
            (stored_of_unsaved c read op)
      | true =>
          have hsafe :
              (Act.call op read true).Safe c ↔ op.Safe c read :=
            ⟨fun h => h rfl, fun h _ => h⟩
          rw [hsafe]
          cases op with
          | recordForm kind name payload =>
              exact framed_recordForm_iff c read kind name payload
          | deleteForm kind name => exact framed_deleteForm_iff c read kind name
          | enable => exact ⟨fun _ => trivial, fun _ _ _ => rfl⟩
          | disable => exact framed_disable_iff c read

/-- In a run every operation keeps to its own entries exactly when each of them
is safe where it is called. -/
theorem run_framed_iff (c : Cluster Φ) (acts : List (Act Φ)) :
    EachStep Cluster.step (fun c a _ => a.Framed c) c acts ↔
      EachStep Cluster.step (fun c a _ => a.Safe c) c acts :=
  EachStep.congr (fun c a _ _ => framed_iff_safe c a) c acts

/-- A form that asks for a cell. -/
def cellForm (cell : Nat) : Dict Text Nat :=
  Dict.single "cell_id".toList cell

/-- One gNB with its saved form. -/
def oneGnb : Cluster (Dict Text Nat) where
  instances := fun _ => .empty
  stored := some
    { replicas := fun _ => .empty
      forms := Function.update (fun _ => .empty) .gnbs
        (Dict.single "gnb-1".toList (cellForm 1)) }

/-- The form of a second gNB is recorded while the API server fails the read of
the state: the form of the first one is gone. -/
theorem form_lost_to_failed_read :
    ¬ ∀ (c : Cluster (Dict Text Nat)) (acts : List (Act (Dict Text Nat))),
      EachStep Cluster.step (fun c a _ => a.Framed c) c acts := by
  intro h
  have hframed :=
    (h oneGnb
      [.call (.recordForm .gnbs "gnb-2".toList (cellForm 2)) .fails true]
      _ rfl).1
  have hother : Entry.form .gnbs "gnb-1".toList ≠
      .form .gnbs "gnb-2".toList := by decide
  have hkept := congrArg Option.isSome
    (hframed (.form .gnbs "gnb-1".toList) hother)
  exact absurd hkept (by decide)

/-- What no operation of a run is about is there at its end as it was. -/
theorem entry_exec
    {c c' : Cluster Φ} {acts : List (Act Φ)} {e : Entry}
    (h : exec Cluster.step c acts = some c')
    (hsafe : EachStep Cluster.step (fun c a _ => a.Safe c) c acts)
    (hother : EachStep Cluster.step (fun c a _ => ¬ a.Targets c e) c acts) :
    c'.entry e = c.entry e := by
  induction acts generalizing c with
  | nil =>
      obtain rfl := Option.some.inj h
      rfl
  | cons a rest ih =>
      obtain ⟨hsafeHere, hsafeRest⟩ := hsafe _ rfl
      obtain ⟨hotherHere, hotherRest⟩ := hother _ rfl
      have hstep : (c.after a).entry e = c.entry e :=
        (framed_iff_safe c a).2 hsafeHere e hotherHere
      exact (ih h hsafeRest hotherRest).trans hstep

end Frame

end Ueransim
end Kelt
