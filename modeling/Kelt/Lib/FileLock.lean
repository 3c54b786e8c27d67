import Mathlib.Data.List.Basic
import Mathlib.Logic.Function.Basic
import Mathlib.Tactic

/-!
# Advisory file locks

An exclusive lock on a file belongs to an open file description, not to a
process. Opening a file makes a new description; a process may pass its
descriptor on to a child, which then shares the description. The lock is let go
when the last descriptor of its description is closed, by a close or by the end
of a process.

Files and processes are arbitrary types, descriptions are numbered. Two facts
carry everything that is built on these locks: a description that owns a file
keeps it while some process keeps a descriptor of it (`owner_keep`), and a
file has one owner, so descriptions that own the same file are the same.
-/

namespace Kelt

universe u v

section FileLock

/-- The open file descriptions: the file of each, the processes that have a
descriptor of it, and the description that owns the lock of each file. -/
structure FileLocks (F : Type u) (P : Type v) where
  file : Nat → F
  refs : List (P × Nat)
  owner : F → Option Nat
  next : Nat
  owned : ∀ {f d}, owner f = some d → file d = f ∧ ∃ p, (p, d) ∈ refs
  fresh : ∀ {p d}, (p, d) ∈ refs → d < next

namespace FileLocks

variable {F : Type u} {P : Type v}

/-- Nothing is open. -/
def none (f : F) : FileLocks F P where
  file := fun _ => f
  refs := []
  owner := fun _ => .none
  next := 0
  owned := fun h => by cases h
  fresh := fun h => by cases h

variable (k : FileLocks F P)

/-- Process `p` opens file `f`: the new description is `k.next`. -/
def opened (p : P) (f : F) : FileLocks F P where
  file := Function.update k.file k.next f
  refs := (p, k.next) :: k.refs
  owner := k.owner
  next := k.next + 1
  owned := by
    intro f' d h
    obtain ⟨hfile, q, hq⟩ := k.owned h
    have hne : d ≠ k.next := Nat.ne_of_lt (k.fresh hq)
    refine ⟨?_, q, List.mem_cons_of_mem _ hq⟩
    rw [Function.update_of_ne hne, hfile]
  fresh := by
    intro q d h
    rcases List.mem_cons.1 h with h | h
    · obtain ⟨-, rfl⟩ := Prod.mk.inj h
      exact Nat.lt_succ_self _
    · exact Nat.lt_succ_of_lt (k.fresh h)

/-- The description other than `d` that owns the file of `d`. -/
def holder (d : Nat) : Option Nat :=
  (k.owner (k.file d)).filter (fun e => e != d)

/-- The lock of its file goes to description `d`. -/
def locked [DecidableEq F] {p : P} {d : Nat} (h : (p, d) ∈ k.refs) :
    FileLocks F P where
  file := k.file
  refs := k.refs
  owner := Function.update k.owner (k.file d) (some d)
  next := k.next
  owned := by
    intro f e he
    by_cases hf : f = k.file d
    · subst hf
      rw [Function.update_self] at he
      obtain rfl := Option.some.inj he
      exact ⟨rfl, p, h⟩
    · rw [Function.update_of_ne hf] at he
      exact k.owned he
  fresh := k.fresh

/-- Only the descriptors that `stay` says are kept; the locks of the others'
descriptions are let go. -/
def keep (stay : P × Nat → Bool) : FileLocks F P where
  file := k.file
  refs := k.refs.filter stay
  owner := fun f => (k.owner f).filter
    (fun d => (k.refs.filter stay).any (fun r => r.2 == d))
  next := k.next
  owned := by
    intro f d h
    obtain ⟨howner, hany⟩ := Option.filter_eq_some_iff.1 h
    obtain ⟨⟨q, e⟩, hr, he⟩ := List.any_eq_true.1 hany
    have hed : e = d := by simpa using he
    exact ⟨(k.owned howner).1, q, hed ▸ hr⟩
  fresh := fun h => k.fresh (List.mem_filter.1 h).1

/-- Process `p` closes its descriptor of `d`. -/
def close [DecidableEq P] (p : P) (d : Nat) : FileLocks F P :=
  k.keep (fun r => !decide (r = (p, d)))

/-- Process `p` ends. -/
def exit [DecidableEq P] (p : P) : FileLocks F P :=
  k.keep (fun r => !decide (r.1 = p))

/-- Process `p` passes its descriptor of `d` on to a child. -/
def inherited {p : P} {d : Nat} (h : (p, d) ∈ k.refs) (child : P) :
    FileLocks F P where
  file := k.file
  refs := (child, d) :: k.refs
  owner := k.owner
  next := k.next
  owned := by
    intro f e he
    obtain ⟨hfile, q, hq⟩ := k.owned he
    exact ⟨hfile, q, List.mem_cons_of_mem _ hq⟩
  fresh := by
    intro q e he
    rcases List.mem_cons.1 he with he | he
    · obtain ⟨-, rfl⟩ := Prod.mk.inj he
      exact k.fresh h
    · exact k.fresh he

variable {k}

@[simp]
theorem mem_refs_opened {p q : P} {f : F} {e : Nat} :
    (q, e) ∈ (k.opened p f).refs ↔ (q = p ∧ e = k.next) ∨ (q, e) ∈ k.refs := by
  simp [opened]

@[simp]
theorem mem_refs_locked [DecidableEq F] {p : P} {d : Nat}
    {h : (p, d) ∈ k.refs} {r : P × Nat} :
    r ∈ (k.locked h).refs ↔ r ∈ k.refs :=
  Iff.rfl

@[simp]
theorem mem_refs_close [DecidableEq P] {p q : P} {d e : Nat} :
    (q, e) ∈ (k.close p d).refs ↔ (q, e) ∈ k.refs ∧ (q = p → e ≠ d) := by
  simp [close, keep, imp_iff_not_or]

@[simp]
theorem mem_refs_exit [DecidableEq P] {p q : P} {e : Nat} :
    (q, e) ∈ (k.exit p).refs ↔ (q, e) ∈ k.refs ∧ q ≠ p := by
  simp [exit, keep]

@[simp]
theorem mem_refs_inherited {p q child : P} {d e : Nat}
    {h : (p, d) ∈ k.refs} :
    (q, e) ∈ (k.inherited h child).refs ↔
      (q = child ∧ e = d) ∨ (q, e) ∈ k.refs := by
  simp [inherited]

theorem file_opened_self {p : P} {f : F} :
    (k.opened p f).file k.next = f :=
  Function.update_self _ _ _

theorem file_opened_of_ref {p q : P} {f : F} {e : Nat}
    (h : (q, e) ∈ k.refs) : (k.opened p f).file e = k.file e :=
  Function.update_of_ne (Nat.ne_of_lt (k.fresh h)) _ _

theorem holder_eq_none {d : Nat} (h : k.holder d = .none) {e : Nat}
    (he : k.owner (k.file d) = some e) : e = d := by
  unfold holder at h
  rw [he] at h
  simpa [Option.filter] using h

theorem holder_eq_some {d e : Nat} (h : k.holder d = some e) :
    k.owner (k.file d) = some e :=
  (Option.filter_eq_some_iff.1 h).1

section Locked

variable [DecidableEq F] {p : P} {d : Nat} {h : (p, d) ∈ k.refs}

theorem owner_locked_self : (k.locked h).owner (k.file d) = some d :=
  Function.update_self _ _ _

theorem owner_locked_of_ne {f : F} (hf : f ≠ k.file d) :
    (k.locked h).owner f = k.owner f :=
  Function.update_of_ne hf _ _

/-- A lock that goes to a description is taken from no other one. -/
theorem owner_locked (hfree : k.holder d = .none) {f : F} {e : Nat}
    (he : k.owner f = some e) :
    (k.locked h).owner f = some e := by
  by_cases hf : f = k.file d
  · subst hf
    rw [holder_eq_none hfree he]
    exact owner_locked_self
  · rwa [owner_locked_of_ne hf]

theorem owner_of_locked {f : F} {e : Nat}
    (he : (k.locked h).owner f = some e) :
    (f = k.file d ∧ e = d) ∨ k.owner f = some e := by
  by_cases hf : f = k.file d
  · subst hf
    rw [owner_locked_self] at he
    exact Or.inl ⟨rfl, (Option.some.inj he).symm⟩
  · rw [owner_locked_of_ne hf] at he
    exact Or.inr he

end Locked

section Keep

variable {stay : P × Nat → Bool}

/-- A description keeps its lock as long as some descriptor of it stays. -/
theorem owner_keep {f : F} {q : P} {d : Nat} (h : k.owner f = some d)
    (hq : (q, d) ∈ k.refs) (hstay : stay (q, d) = true) :
    (k.keep stay).owner f = some d := by
  rw [keep, Option.filter_eq_some_iff]
  refine ⟨h, List.any_eq_true.2 ⟨(q, d), ?_, ?_⟩⟩
  · exact List.mem_filter.2 ⟨hq, hstay⟩
  · simp

theorem owner_of_keep {f : F} {d : Nat}
    (h : (k.keep stay).owner f = some d) : k.owner f = some d :=
  (Option.filter_eq_some_iff.1 h).1

variable [DecidableEq P] {p q : P} {d e : Nat} {f : F}

theorem owner_close (h : k.owner f = some e) (hq : (q, e) ∈ k.refs)
    (hne : q = p → e ≠ d) : (k.close p d).owner f = some e := by
  apply owner_keep h hq
  simpa [imp_iff_not_or] using hne

theorem owner_exit (h : k.owner f = some e) (hq : (q, e) ∈ k.refs)
    (hne : q ≠ p) : (k.exit p).owner f = some e := by
  apply owner_keep h hq
  simpa [imp_iff_not_or] using hne

end Keep

/-- What the other processes do with their files leaves the descriptions of
process `q` as they are. -/
structure Undisturbed (q : P) (k k' : FileLocks F P) : Prop where
  refs : ∀ d, (q, d) ∈ k'.refs ↔ (q, d) ∈ k.refs
  file : ∀ d, (q, d) ∈ k.refs → k'.file d = k.file d
  owner : ∀ d, (q, d) ∈ k.refs →
    ∀ f, k'.owner f = some d ↔ k.owner f = some d

namespace Undisturbed

variable {p q : P}

theorem refl (q : P) (k : FileLocks F P) : Undisturbed q k k where
  refs := fun _ => Iff.rfl
  file := fun _ _ => rfl
  owner := fun _ _ _ => Iff.rfl

theorem opened (hne : q ≠ p) (k : FileLocks F P) (f : F) :
    Undisturbed q k (k.opened p f) where
  refs := by
    intro d
    simp [hne]
  file := fun _ h => file_opened_of_ref h
  owner := fun _ _ _ => Iff.rfl

theorem inherited {d : Nat} (h : (p, d) ∈ k.refs) {child : P}
    (hne : q ≠ child) : Undisturbed q k (k.inherited h child) where
  refs := by
    intro e
    simp [hne]
  file := fun _ _ => rfl
  owner := fun _ _ _ => Iff.rfl

/-- A lock that is free goes to a description that `q` has no part in. -/
theorem locked [DecidableEq F] {d : Nat} (h : (p, d) ∈ k.refs)
    (hfree : k.holder d = .none) (hq : (q, d) ∉ k.refs) :
    Undisturbed q k (k.locked h) where
  refs := fun _ => Iff.rfl
  file := fun _ _ => rfl
  owner := by
    intro e he f
    constructor
    · intro howner
      rcases owner_of_locked howner with ⟨-, rfl⟩ | howner
      · exact absurd he hq
      · exact howner
    · exact owner_locked hfree

variable [DecidableEq P]

theorem close (hne : q ≠ p) (k : FileLocks F P) (d : Nat) :
    Undisturbed q k (k.close p d) where
  refs := by
    intro e
    simp [hne]
  file := fun _ _ => rfl
  owner := fun _ he _ =>
    ⟨owner_of_keep, fun h => owner_close h he (fun hq => absurd hq hne)⟩

theorem exit (hne : q ≠ p) (k : FileLocks F P) :
    Undisturbed q k (k.exit p) where
  refs := by
    intro e
    simp [hne]
  file := fun _ _ => rfl
  owner := fun _ he _ => ⟨owner_of_keep, fun h => owner_exit h he hne⟩

end Undisturbed

end FileLocks

end FileLock

end Kelt
