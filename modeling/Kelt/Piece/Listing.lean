import Kelt.Lib.PyInt
import Kelt.Piece.Execute
import Kelt.Piece.Processes

/-!
# The list of operations

`kelt-piece list` filters the records by the state that the runner stored, or
`interrupted` for a run that ended without its record. The dashboard's
`list_operations` then shows a record as failed when its read-back failed. So
the state that is filtered and the state that is shown part for the records
whose read-back failed (`listOperations_filter_iff`).

The records come newest first; files that are no record are left out of them.
-/

namespace Kelt
namespace Piece

section Listing

/-- The result of a read-back, as it is stored with the record. -/
structure Check where
  ok : Option Bool
  pending : Bool
  message : Text
deriving DecidableEq

/-- The state of a record as `load_records` returns it. -/
inductive Shown where
  | running
  | done
  | failed
  | interrupted
deriving DecidableEq, Repr

def Shown.text : Shown → Text
  | .running => "running".toList
  | .done => "done".toList
  | .failed => "failed".toList
  | .interrupted => "interrupted".toList

/-- The fields of a record that the list reads, with a state of type `σ`; what
it passes on unread has type `ρ`. -/
structure OpRecord (σ ρ : Type) where
  id : Text
  piece : Text
  state : σ
  check : Option Check
  rest : ρ

variable {ρ : Type}

/-- One record in `load_records`; `held key rid` says whether the run `rid`
holds the lock of `key`. -/
def OpRecord.load (reg : Registry) (held : Text → Text → Bool)
    (r : OpRecord State ρ) : OpRecord Shown ρ :=
  { r with
    state := match r.state with
      | .done => .done
      | .failed => .failed
      | .running =>
          if held (reg.lockKeyOf r.piece) r.id then .running
          else .interrupted }

/-- `LIST_LIMIT` -/
def listLimit : Nat :=
  50

/-- `cmd_list` with the arguments as they were parsed; an empty `--state` is no
filter. -/
def cmdList (recs : List (OpRecord Shown ρ)) (state : Option Text)
    (limit : Nat) : List (OpRecord Shown ρ) :=
  let kept := match state with
    | none => recs
    | some [] => recs
    | some s => recs.filter (fun r => r.state.text == s)
  kept.take limit

def digitRunBody (t : Text) : Bool :=
  !t.isEmpty && t.all (fun c => (decimalValue? c).isSome)

/-- What `argparse` takes for a negative number: `^-\d+$|^-\d*\.\d+$`. -/
def negativeBody (t : Text) : Bool :=
  match t with
  | '-' :: rest =>
      digitRunBody rest ||
        (rest.contains '.' &&
          (before '.' rest).all (fun c => (decimalValue? c).isSome) &&
          digitRunBody (after '.' rest))
  | _ => false

/-- The long options of `kelt-piece list`; `-h` is its one short option. -/
def listOptions : List Text :=
  ["--help", "--state", "--json", "--limit"].map String.toList

/-- `argparse` takes the word for an option and not for the value of the option
before it. -/
def isOption (t : Text) : Bool :=
  match t with
  | '-' :: '-' :: _ =>
      listOptions.any (fun o => (before '=' t).isPrefixOf o) ||
        !t.contains ' '
  | '-' :: c :: _ =>
      c == 'h' || !(dollar negativeBody t || t.contains ' ')
  | _ => false

/-- Why the runner gives no answer. -/
inductive RunnerError where
  | nullByte
  | usage
deriving DecidableEq, Repr

/-- `kelt-piece list --json --limit <limit> [--state <state>]`. -/
def runnerList (recs : List (OpRecord Shown ρ)) (state : Option Text)
    (limit : Nat) : Except RunnerError (List (OpRecord Shown ρ)) :=
  match state with
  | none => .ok (cmdList recs none limit)
  | some s =>
      if s.contains '\x00' then .error .nullByte
      else if isOption s then .error .usage
      else .ok (cmdList recs (some s) limit)

/-- A record as the dashboard returns it, with its `reads_back`. -/
abbrev Listed (ρ : Type) := OpRecord Shown ρ × Bool

/-- The read-back of the record failed. -/
def OpRecord.checkFailed {σ : Type} (r : OpRecord σ ρ) : Bool :=
  r.check.bind Check.ok == some false

/-- `bool(reg.get(rec.get("piece"), {}).get("check"))`. -/
def readsBack (reg : Registry) (piece : Text) : Bool :=
  (Entry.get ((reg.piece? piece).getD []) "check").truthy

def OpRecord.listed (reg : Registry) (r : OpRecord Shown ρ) : Listed ρ :=
  (if r.checkFailed then { r with state := .failed } else r,
    readsBack reg r.piece)

/-- `list_operations` -/
def listOperations (reg : Registry) (held : Text → Text → Bool)
    (records : List (OpRecord State ρ)) (state : Option Text) :
    Except RunnerError (List (Listed ρ)) :=
  let state := match state with
    | some [] => none
    | _ => state
  (runnerList (records.map (OpRecord.load reg held)) state listLimit).map
    (fun recs => recs.map (OpRecord.listed reg))

/-- The state that the list shows. -/
theorem state_listed (reg : Registry) (r : OpRecord Shown ρ) :
    (r.listed reg).1.state = if r.checkFailed then .failed else r.state := by
  unfold OpRecord.listed
  split_ifs <;> rfl

/-- Two filters, one weaker than the other, keep the same as soon as they keep
equally many. -/
theorem filter_eq_iff_of_imp {α β : Type} {p q : α → Bool} (f : α → β)
    (l : List α) (hpq : ∀ x ∈ l, p x = true → q x = true) :
    (l.filter p).map f = (l.filter q).map f ↔ ∀ x ∈ l, p x = q x := by
  constructor
  · intro h
    have hcount : l.countP p = l.countP q := by
      rw [List.countP_eq_length_filter, List.countP_eq_length_filter]
      simpa only [List.length_map] using congrArg List.length h
    clear h
    induction l with
    | nil => simp
    | cons x rest ih =>
        rw [List.forall_mem_cons] at hpq ⊢
        have hle := List.countP_mono_left hpq.2
        rw [List.countP_cons, List.countP_cons] at hcount
        cases hp : p x with
        | true =>
            rw [hp, hpq.1 hp] at hcount
            exact ⟨(hpq.1 hp).symm, ih hpq.2 (Nat.add_right_cancel hcount)⟩
        | false =>
            cases hq : q x with
            | true =>
                rw [hp, hq] at hcount
                simp only [Bool.false_eq_true, if_false, if_true] at hcount
                omega
            | false =>
                rw [hp, hq] at hcount
                exact ⟨rfl, ih hpq.2 (Nat.add_right_cancel hcount)⟩
  · intro h
    rw [List.filter_congr h]

theorem Shown.text_injective : Function.Injective Shown.text := by
  intro s t h
  cases s <;> cases t <;> first | rfl | (exact absurd h (by decide))

theorem Shown.text_ne_nil (s : Shown) : s.text ≠ [] := by
  cases s <;> decide

/-- The value reaches the runner as the value of `--state`. -/
def Taken (s : Text) : Prop :=
  s.contains '\x00' = false ∧ isOption s = false

/-- The state that a record is filtered by and the one that it is shown with are
both `s` or both are not. -/
def OpRecord.Agrees (s : Text) (r : OpRecord Shown ρ) : Prop :=
  r.checkFailed = true →
    r.state = .failed ∨ (r.state.text ≠ s ∧ Shown.failed.text ≠ s)

/-- The record is shown with state `s`. -/
def Listed.isState (s : Text) (r : Listed ρ) : Bool :=
  r.1.state.text == s

theorem agrees_iff (reg : Registry) (s : Text) (r : OpRecord Shown ρ) :
    r.Agrees s ↔
      (r.state.text == s) = Listed.isState s (r.listed reg) := by
  unfold OpRecord.Agrees Listed.isState
  rw [state_listed]
  cases hfailed : r.checkFailed with
  | false => simp
  | true =>
      simp only [forall_const, if_true]
      by_cases hstate : r.state = .failed
      · simp [hstate]
      · have hne : r.state.text ≠ Shown.failed.text :=
          fun h => hstate (Shown.text_injective h)
        by_cases hs : r.state.text = s
        · subst hs
          simp [hstate, hne.symm]
        · by_cases hf : Shown.failed.text = s <;> simp [hstate, hs, hf]

/-- Records no more than the limit are all listed. -/
theorem listOperations_none
    (reg : Registry) (held : Text → Text → Bool)
    (records : List (OpRecord State ρ)) (hlimit : records.length ≤ listLimit) :
    listOperations reg held records none =
      .ok ((records.map (OpRecord.load reg held)).map
        (OpRecord.listed reg)) := by
  have htake :
      (records.map (OpRecord.load reg held)).take listLimit =
        records.map (OpRecord.load reg held) :=
    List.take_of_length_le (by rwa [List.length_map])
  exact congrArg (fun l => Except.ok (l.map (OpRecord.listed reg))) htake

theorem listOperations_of_taken
    (reg : Registry) (held : Text → Text → Bool)
    (records : List (OpRecord State ρ)) (hlimit : records.length ≤ listLimit)
    {s : Text} (hs : s ≠ []) (htaken : Taken s) :
    listOperations reg held records (some s) =
      .ok (((records.map (OpRecord.load reg held)).filter
        (fun r => r.state.text == s)).map (OpRecord.listed reg)) := by
  obtain ⟨c, rest, rfl⟩ := List.exists_cons_of_ne_nil hs
  unfold listOperations runnerList
  simp only [htaken.1, htaken.2, Bool.false_eq_true, if_false]
  unfold cmdList
  rw [List.take_of_length_le]
  · rfl
  · refine (List.length_filter_le _ _).trans ?_
    rwa [List.length_map]

theorem listOperations_of_not_taken
    (reg : Registry) (held : Text → Text → Bool)
    (records : List (OpRecord State ρ)) {s : Text} (htaken : ¬ Taken s) :
    ∃ e, listOperations reg held records (some s) = .error e := by
  have hs : s ≠ [] := by
    rintro rfl
    exact htaken ⟨rfl, rfl⟩
  obtain ⟨c, rest, rfl⟩ := List.exists_cons_of_ne_nil hs
  unfold listOperations runnerList
  simp only
  by_cases hnull : (c :: rest).contains '\x00' = true
  · rw [if_pos hnull]
    exact ⟨_, rfl⟩
  · have hopt : isOption (c :: rest) = true := by
      by_contra h
      exact htaken ⟨Bool.not_eq_true _ ▸ hnull, Bool.not_eq_true _ ▸ h⟩
    rw [if_neg hnull, if_pos hopt]
    exact ⟨_, rfl⟩

/-- What is filtered by and what is shown agree on all records or one of the two
keeps more: `failed` is shown oftener than stored, any other state seldomer. -/
theorem filter_stored_iff
    (reg : Registry) (recs : List (OpRecord Shown ρ)) (s : Text) :
    (recs.filter (fun r => r.state.text == s)).map (OpRecord.listed reg) =
        (recs.map (OpRecord.listed reg)).filter (Listed.isState s) ↔
      ∀ r ∈ recs, r.Agrees s := by
  have hagree :
      (∀ r ∈ recs, r.Agrees s) ↔
        ∀ r ∈ recs,
          (r.state.text == s) = (Listed.isState s ∘ OpRecord.listed reg) r :=
    forall₂_congr fun r _ => agrees_iff reg s r
  rw [hagree, List.filter_map]
  by_cases hs : Shown.failed.text = s
  · refine filter_eq_iff_of_imp _ _ fun r _ hstate => ?_
    change ((r.listed reg).1.state.text == s) = true
    rw [state_listed]
    split_ifs
    · simpa using hs
    · exact hstate
  · rw [eq_comm, filter_eq_iff_of_imp _ _ fun r _ hshown => ?_]
    · exact forall₂_congr fun _ _ => eq_comm
    · change ((r.listed reg).1.state.text == s) = true at hshown
      rw [state_listed] at hshown
      split_ifs at hshown
      · exact absurd (by simpa using hshown) hs
      · exact hshown

/-- Asking for the records of a state gives those that are shown with it
exactly when the runner takes the state, it is not empty, and no record is shown as
failed that the runner stored otherwise, as far as the two states concern `s`. -/
theorem listOperations_filter_iff
    (reg : Registry) (held : Text → Text → Bool)
    (records : List (OpRecord State ρ)) (s : Text)
    (hlimit : records.length ≤ listLimit) :
    listOperations reg held records (some s) =
        (listOperations reg held records none).map
          (List.filter (Listed.isState s)) ↔
      Taken s ∧ (s = [] → records = []) ∧
        ∀ r ∈ records, (r.load reg held).Agrees s := by
  have hnone := listOperations_none reg held records hlimit
  have hload :
      (∀ r ∈ records.map (OpRecord.load reg held), r.Agrees s) ↔
        ∀ r ∈ records, (r.load reg held).Agrees s :=
    List.forall_mem_map
  by_cases htaken : Taken s
  · by_cases hs : s = []
    · subst hs
      have hempty : listOperations reg held records (some []) =
          listOperations reg held records none := rfl
      have hfilter : ∀ all : List (Listed ρ),
          all.filter (Listed.isState []) = [] := fun all =>
        List.filter_eq_nil_iff.2 fun r _ h =>
          Shown.text_ne_nil _ (by simpa [Listed.isState] using h)
      rw [hempty, hnone]
      change Except.ok _ = Except.ok (List.filter _ _) ↔ _
      rw [hfilter, Except.ok.injEq, List.map_eq_nil_iff, List.map_eq_nil_iff]
      refine ⟨fun h => ⟨htaken, fun _ => h, ?_⟩, fun h => h.2.1 rfl⟩
      rw [h]
      exact List.forall_mem_nil _
    · rw [listOperations_of_taken reg held records hlimit hs htaken, hnone]
      change Except.ok _ = Except.ok (List.filter _ _) ↔ _
      rw [Except.ok.injEq, filter_stored_iff, hload]
      exact ⟨fun h => ⟨htaken, fun h' => absurd h' hs, h⟩, fun h => h.2.2⟩
  · obtain ⟨e, he⟩ := listOperations_of_not_taken reg held records htaken
    rw [he, hnone]
    exact ⟨by rintro ⟨⟩, fun h => absurd h.1 htaken⟩

/-- A run that exited 0 and whose read-back found the RAN down. -/
def downAfterRun : OpRecord State Unit where
  id := "20260926-221233-577735-ran_link".toList
  piece := "ran_link".toList
  state := .done
  check := some ⟨some false, false, "down".toList⟩
  rest := ()

/-- Its state is not asked for: nobody runs, and nobody is listed. -/
theorem listOperations_running :
    [downAfterRun].length ≤ listLimit ∧
      listOperations envLocked (fun _ _ => false) [downAfterRun]
          (some "running".toList) =
        (listOperations envLocked (fun _ _ => false) [downAfterRun] none).map
          (List.filter (Listed.isState "running".toList)) :=
  ⟨by decide,
    (listOperations_filter_iff envLocked (fun _ _ => false) [downAfterRun]
      "running".toList (by decide)).2
      ⟨⟨by decide, by decide⟩, fun h => absurd h (by decide),
        List.forall_mem_singleton.2 fun _ => Or.inr ⟨by decide, by decide⟩⟩⟩

/-- The list shows the run as failed, and has no failed run when asked. -/
theorem failed_run_not_listed :
    ¬ ∀ (records : List (OpRecord State Unit)) (s : Text),
      records.length ≤ listLimit →
      listOperations envLocked (fun _ _ => false) records (some s) =
        (listOperations envLocked (fun _ _ => false) records none).map
          (List.filter (Listed.isState s)) := by
  intro h
  have hfailed := h [downAfterRun] "failed".toList (by decide)
  cases hfailed

end Listing

end Piece
end Kelt
