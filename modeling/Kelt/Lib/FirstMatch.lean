import Mathlib.Data.Set.Basic

/-!
# First-match evaluation

A chain of rules is walked from the top; a rule decides about a subject or
leaves it to the rules below. The first rule that decides gives the outcome.

`forall_firstMatch_iff` splits what such a chain does to a set of subjects in
two: the rules that give the wanted outcome reach all of the set, and no rule
that gives another outcome stands above all of those that reach the same
subject. Rules that decide about no subject of the set need not be asked.
-/

namespace Kelt

universe u v w

section FirstMatch

variable {R : Type u} {P : Type v} {V : Type w}
variable (effect : R → P → Option V)

/-- The outcome of the first rule that decides. -/
def firstMatch (chain : List R) (p : P) : Option V :=
  chain.findSome? fun r => effect r p

/-- Every subject of a set is given `v` by some rule of the chain. -/
def Reaches (chain : List R) (S : Set P) (v : V) : Prop :=
  ∀ p ∈ S, ∃ r ∈ chain, effect r p = some v

/-- A rule that gives something else to a subject has one above it that gives
`v` to the same subject; exempt rules are not asked. -/
def Precedes (exempt : R → Prop) (chain : List R) (S : Set P) (v : V) :
    Prop :=
  ∀ above r below, chain = above ++ r :: below → ¬ exempt r →
    ∀ p ∈ S, ∀ other, effect r p = some other → other ≠ v →
      ∃ q ∈ above, effect q p = some v

variable {effect}

/-- The rule that decides, and the rules above it, which do not. -/
theorem firstMatch_eq_some_iff
    {chain : List R} {p : P} {v : V} :
    firstMatch effect chain p = some v ↔
      ∃ above r below, chain = above ++ r :: below ∧
        effect r p = some v ∧ ∀ q ∈ above, effect q p = none := by
  unfold firstMatch
  exact List.findSome?_eq_some_iff

theorem exists_effect_of_firstMatch
    {chain : List R} {p : P} {v : V}
    (h : firstMatch effect chain p = some v) :
    ∃ r ∈ chain, effect r p = some v :=
  List.exists_of_findSome?_eq_some h

/-- A rule that decides leaves no subject undecided. -/
theorem firstMatch_ne_none
    {chain : List R} {p : P} {v : V} {r : R}
    (hr : r ∈ chain) (h : effect r p = some v) :
    firstMatch effect chain p ≠ none := by
  intro hnone
  have hrule := List.findSome?_eq_none_iff.1 hnone r hr
  rw [h] at hrule
  cases hrule

/-- What the rules above a rule decide, the rule cannot change. -/
theorem firstMatch_append
    (above below : List R) (p : P) :
    firstMatch effect (above ++ below) p =
      (firstMatch effect above p).or (firstMatch effect below p) := by
  unfold firstMatch
  exact List.findSome?_append

/-- A chain gives `v` to all of a set exactly when its rules for `v` reach the
set and precede the others there. -/
theorem forall_firstMatch_iff
    {exempt : R → Prop} {chain : List R} {S : Set P} {v : V}
    (hexempt : ∀ r, exempt r → ∀ p ∈ S, effect r p = none) :
    (∀ p ∈ S, firstMatch effect chain p = some v) ↔
      Reaches effect chain S v ∧ Precedes effect exempt chain S v := by
  constructor
  · intro h
    refine ⟨fun p hp => exists_effect_of_firstMatch (h p hp), ?_⟩
    intro above r below hchain _ p hp other hr hne
    have hfirst := h p hp
    rw [hchain, firstMatch_append] at hfirst
    cases habove : firstMatch effect above p with
    | none =>
        have hrule : firstMatch effect (r :: below) p = some other := by
          unfold firstMatch
          rw [List.findSome?_cons, hr]
        rw [habove, hrule] at hfirst
        exact absurd (Option.some.inj hfirst) hne
    | some w =>
        rw [habove] at hfirst
        exact exists_effect_of_firstMatch (habove.trans hfirst)
  · rintro ⟨hreach, hprecede⟩ p hp
    obtain ⟨r, hr, hv⟩ := hreach p hp
    obtain ⟨w, hw⟩ :=
      Option.ne_none_iff_exists'.1 (firstMatch_ne_none hr hv)
    obtain ⟨above, q, below, hchain, hq, hnone⟩ :=
      firstMatch_eq_some_iff.1 hw
    by_cases hwv : w = v
    · rw [hw, hwv]
    · have hasked : ¬ exempt q := by
        intro hex
        rw [hexempt q hex p hp] at hq
        cases hq
      obtain ⟨q', hq', hv'⟩ :=
        hprecede above q below hchain hasked p hp w hq hwv
      rw [hnone q' hq'] at hv'
      cases hv'

end FirstMatch

end Kelt
