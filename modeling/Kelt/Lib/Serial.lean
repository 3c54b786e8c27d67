import Mathlib.Data.Finset.Card
import Mathlib.Data.Finset.Range
import Mathlib.Data.Finset.Max
import Mathlib.Tactic.Common

/-!
# Serial numbers

Positions that grow without bound are sent as their remainders on a ring of
`2 * h` numbers. How far one is ahead of another is known from the remainders
where they lie less than half the ring apart (`behind_iff`). Folded around half
the ring a difference is itself where it lies in that half, and off by the whole
ring where it does not (`fold_eq_self`, `fold_eq_sub`, `fold_eq_add`). So the
length of a stretch without a hole, measured from one of its pieces, is right if
and only if every piece starts in the half around that one
(`folded_length_iff`).
-/

namespace Kelt

section Serial

variable {h : Int}

/-- A difference on the ring, folded around half of it. -/
def fold (h d : Int) : Int :=
  if h ≤ d % (2 * h) then d % (2 * h) - 2 * h else d % (2 * h)

theorem emod_of_nonneg {d : Int} (hd : 0 ≤ d) (hd' : d < 2 * h) :
    d % (2 * h) = d :=
  Int.emod_eq_of_lt hd hd'

theorem emod_of_neg {d : Int} (hd : d < 0) (hd' : -(2 * h) ≤ d) :
    d % (2 * h) = d + 2 * h := by
  rw [← Int.add_emod_right]
  exact Int.emod_eq_of_lt (by omega) (by omega)

theorem fold_eq_self {d : Int} (hd : -h ≤ d) (hd' : d < h) : fold h d = d := by
  unfold fold
  by_cases hneg : d < 0
  · rw [emod_of_neg hneg (by omega), if_pos (by omega)]
    omega
  · rw [emod_of_nonneg (by omega) (by omega), if_neg (by omega)]

theorem fold_eq_sub {d : Int} (hd : h ≤ d) (hd' : d < 2 * h) :
    fold h d = d - 2 * h := by
  unfold fold
  rw [emod_of_nonneg (by omega) hd', if_pos hd]

theorem fold_eq_add {d : Int} (hd : -(2 * h) ≤ d) (hd' : d < -h) :
    fold h d = d + 2 * h := by
  unfold fold
  rw [emod_of_neg (by omega) hd, if_neg (by omega)]

/-- The fold does not see that the two positions were sent as remainders. -/
theorem fold_emod_sub_emod (h x y : Int) :
    fold h (x % (2 * h) - y % (2 * h)) = fold h (x - y) := by
  unfold fold
  rw [← Int.sub_emod]

/-- Less than half the ring apart, `x` is at or behind `y` if its remainder is
no step ahead, or half the ring or more. -/
theorem behind_iff {x y : Int} (hlo : -h < x - y) (hhi : x - y < h) :
    ((x % (2 * h) - y % (2 * h)) % (2 * h) = 0 ∨
      h ≤ (x % (2 * h) - y % (2 * h)) % (2 * h)) ↔ x ≤ y := by
  rw [← Int.sub_emod]
  by_cases hneg : x - y < 0
  · rw [emod_of_neg hneg (by omega)]
    omega
  · rw [emod_of_nonneg (by omega) (by omega)]
    omega

end Serial

section Stretch

/-- The positions from `m` to before `M`. -/
def stretch (m M : Int) : Finset Int :=
  (Finset.range (M - m).toNat).image fun k : Nat => m + k

theorem mem_stretch {m M x : Int} : x ∈ stretch m M ↔ m ≤ x ∧ x < M := by
  unfold stretch
  rw [Finset.mem_image]
  constructor
  · rintro ⟨k, hk, rfl⟩
    have hlt := Finset.mem_range.1 hk
    omega
  · rintro ⟨hm, hM⟩
    exact ⟨(x - m).toNat, Finset.mem_range.2 (by omega), by omega⟩

theorem card_stretch (m M : Int) : (stretch m M).card = (M - m).toNat := by
  have hinj : Function.Injective fun k : Nat => m + k := by
    intro k k' h
    dsimp only at h
    omega
  unfold stretch
  rw [Finset.card_image_of_injective _ hinj, Finset.card_range]

/-- The positions in a list of pieces, each from its first number to before its
second. -/
def covered (l : List (Int × Int)) : Finset Int :=
  l.foldr (fun p s => stretch p.1 p.2 ∪ s) ∅

theorem mem_covered {l : List (Int × Int)} {x : Int} :
    x ∈ covered l ↔ ∃ p ∈ l, p.1 ≤ x ∧ x < p.2 := by
  unfold covered
  induction l with
  | nil => simp
  | cons p l ih => simp [ih, mem_stretch]

variable {h m M : Int} {l : List (Int × Int)} {p₀ : Int × Int}

theorem piece_bounds (hcov : covered l = stretch m M) {p : Int × Int}
    (hp : p ∈ l) (hpos : p.1 < p.2) : m ≤ p.1 ∧ p.2 ≤ M := by
  have hfirst : p.1 ∈ covered l := mem_covered.2 ⟨p, hp, by omega, hpos⟩
  have hlast : p.2 - 1 ∈ covered l :=
    mem_covered.2 ⟨p, hp, by omega, by omega⟩
  rw [hcov, mem_stretch] at hfirst hlast
  omega

theorem exists_piece_at (hcov : covered l = stretch m M) {x : Int}
    (hm : m ≤ x) (hM : x < M) : ∃ p ∈ l, p.1 ≤ x ∧ x < p.2 := by
  rw [← mem_covered, hcov]
  exact mem_stretch.2 ⟨hm, hM⟩

/-- Of the pieces of a kind there is one that starts first. -/
theorem exists_first_piece {q : Int × Int → Prop} [DecidablePred q]
    (hex : ∃ p ∈ l, q p) :
    ∃ p ∈ l, q p ∧ ∀ p' ∈ l, q p' → p.1 ≤ p'.1 := by
  have hne : (l.toFinset.filter q).Nonempty := by
    obtain ⟨p, hp, hqp⟩ := hex
    exact ⟨p, Finset.mem_filter.2 ⟨List.mem_toFinset.2 hp, hqp⟩⟩
  obtain ⟨p, hp, hmin⟩ := Finset.exists_min_image _ Prod.fst hne
  obtain ⟨hpl, hqp⟩ := Finset.mem_filter.1 hp
  refine ⟨p, List.mem_toFinset.1 hpl, hqp, fun p' hp' hqp' => ?_⟩
  exact hmin p' (Finset.mem_filter.2 ⟨List.mem_toFinset.2 hp', hqp'⟩)

/-- A piece that starts half the ring or more after the first one seen is taken
for one before it. The piece that ends where it starts keeps its place, so the
stretch seems as long as the ring. -/
theorem le_of_far_ahead (hcov : covered l = stretch m M)
    (hpos : ∀ p ∈ l, p.1 < p.2) (hlt : M - m < 2 * h) (hp₀ : p₀ ∈ l)
    {low top : Int}
    (hlow : ∀ p ∈ l, low ≤ fold h (p.1 - p₀.1))
    (htop : ∀ p ∈ l, fold h (p.1 - p₀.1) + (p.2 - p.1) ≤ top)
    (hfar : ∃ p ∈ l, h ≤ p.1 - p₀.1) : 2 * h ≤ top - low := by
  obtain ⟨p, hp, hfar, hmin⟩ := exists_first_piece hfar
  obtain ⟨hm₀, hM₀⟩ := piece_bounds hcov hp₀ (hpos p₀ hp₀)
  obtain ⟨hm, hM⟩ := piece_bounds hcov hp (hpos p hp)
  have hp₀pos := hpos p₀ hp₀
  have hppos := hpos p hp
  obtain ⟨q, hq, hle, hlt'⟩ :=
    exists_piece_at hcov (x := p.1 - 1) (by omega) (by omega)
  obtain ⟨hmq, hMq⟩ := piece_bounds hcov hq (hpos q hq)
  have hnear : q.1 - p₀.1 < h := by
    by_contra hge
    have := hmin q hq (by omega)
    omega
  have hfoldp := fold_eq_sub hfar (by omega)
  have hfoldq := fold_eq_self (h := h) (d := q.1 - p₀.1) (by omega) hnear
  have hlowp := hlow p hp
  have htopq := htop q hq
  omega

/-- A piece that starts more than half the ring before the first one seen is
taken for one after it. -/
theorem le_of_far_behind (hcov : covered l = stretch m M)
    (hpos : ∀ p ∈ l, p.1 < p.2) (hlt : M - m < 2 * h) (hp₀ : p₀ ∈ l)
    {low top : Int}
    (hlow : ∀ p ∈ l, low ≤ fold h (p.1 - p₀.1))
    (htop : ∀ p ∈ l, fold h (p.1 - p₀.1) + (p.2 - p.1) ≤ top)
    (hfar : ∃ p ∈ l, p.1 - p₀.1 < -h) : 2 * h ≤ top - low := by
  obtain ⟨hm₀, hM₀⟩ := piece_bounds hcov hp₀ (hpos p₀ hp₀)
  have hp₀pos := hpos p₀ hp₀
  obtain ⟨b, hb, hfar⟩ := hfar
  obtain ⟨hmb, hMb⟩ := piece_bounds hcov hb (hpos b hb)
  have hnear₀ : -h ≤ p₀.1 - p₀.1 ∧ p₀.1 - p₀.1 < h := by omega
  obtain ⟨p, hp, hnear, hmin⟩ :=
    exists_first_piece (q := fun p => -h ≤ p.1 - p₀.1 ∧ p.1 - p₀.1 < h)
      ⟨p₀, hp₀, hnear₀⟩
  obtain ⟨hm, hM⟩ := piece_bounds hcov hp (hpos p hp)
  have hppos := hpos p hp
  obtain ⟨q, hq, hle, hlt'⟩ :=
    exists_piece_at hcov (x := p.1 - 1) (by omega) (by omega)
  obtain ⟨hmq, hMq⟩ := piece_bounds hcov hq (hpos q hq)
  have hfarq : q.1 - p₀.1 < -h := by
    by_contra hge
    have := hmin q hq ⟨by omega, by omega⟩
    omega
  have hfoldp := fold_eq_self hnear.1 hnear.2
  have hfoldq := fold_eq_add (h := h) (d := q.1 - p₀.1) (by omega) hfarq
  have hlowp := hlow p hp
  have htopq := htop q hq
  omega

/-- The length of a stretch without a hole that is shorter than the ring, from
the lowest to the highest of the folded positions, is right if and only if all
pieces start in the half of the ring around the first one seen. -/
theorem folded_length_iff (hcov : covered l = stretch m M)
    (hpos : ∀ p ∈ l, p.1 < p.2) (hlt : M - m < 2 * h) (hp₀ : p₀ ∈ l)
    {low top : Int}
    (hlow : IsLeast {x | ∃ p ∈ l, x = fold h (p.1 - p₀.1)} low)
    (htop : IsGreatest
      {x | ∃ p ∈ l, x = fold h (p.1 - p₀.1) + (p.2 - p.1)} top) :
    top - low = M - m ↔ ∀ p ∈ l, -h ≤ p.1 - p₀.1 ∧ p.1 - p₀.1 < h := by
  have hlow' : ∀ p ∈ l, low ≤ fold h (p.1 - p₀.1) :=
    fun p hp => hlow.2 ⟨p, hp, rfl⟩
  have htop' : ∀ p ∈ l, fold h (p.1 - p₀.1) + (p.2 - p.1) ≤ top :=
    fun p hp => htop.2 ⟨p, hp, rfl⟩
  constructor
  · intro heq p hp
    constructor
    · by_contra hfar
      have := le_of_far_behind hcov hpos hlt hp₀ hlow' htop'
        ⟨p, hp, by omega⟩
      omega
    · by_contra hfar
      have := le_of_far_ahead hcov hpos hlt hp₀ hlow' htop' ⟨p, hp, by omega⟩
      omega
  · intro hnear
    have hp₀pos := hpos p₀ hp₀
    obtain ⟨hm₀, hM₀⟩ := piece_bounds hcov hp₀ hp₀pos
    obtain ⟨a, ha, rfl⟩ := hlow.1
    obtain ⟨b, hb, rfl⟩ := htop.1
    obtain ⟨c, hc, hcm, -⟩ := exists_piece_at hcov (x := m) (le_refl m)
      (by omega)
    obtain ⟨d, hd, -, hdM⟩ := exists_piece_at hcov (x := M - 1) (by omega)
      (by omega)
    have hbound : ∀ p ∈ l, fold h (p.1 - p₀.1) = p.1 - p₀.1 ∧ m ≤ p.1 ∧
        p.2 ≤ M := by
      intro p hp
      exact ⟨fold_eq_self (hnear p hp).1 (hnear p hp).2,
        piece_bounds hcov hp (hpos p hp)⟩
    have hla := hlow' c hc
    have hlb := htop' d hd
    have hba := hbound a ha
    have hbb := hbound b hb
    have hbc := hbound c hc
    have hbd := hbound d hd
    omega

end Stretch

end Kelt
