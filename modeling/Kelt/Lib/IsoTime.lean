import Kelt.Lib.PyText
import Mathlib.Data.Char
import Mathlib.Data.List.Lex

/-!
# UTC times as texts

The fields of a UTC time in the Gregorian calendar, the text that `isoformat`
makes of them, and the microseconds since 1970 that `timestamp` counts. The
texts are in the order of the times (`isoformat_lt`), those with a fraction and
those without one among each other, and can be read back (`ofText_isoformat`).
-/

namespace Kelt

section Padded

/-- The last `w` decimal digits, with zeros in front. -/
def padded : Nat → Nat → Text
  | 0, _ => []
  | w + 1, n => padded w (n / 10) ++ [Nat.digitChar (n % 10)]

theorem length_padded (w n : Nat) : (padded w n).length = w := by
  induction w generalizing n with
  | zero => rfl
  | succ w ih =>
      rw [padded, List.length_append, ih]
      rfl

theorem ofDigitChars_padded {w n : Nat} (h : n < 10 ^ w) :
    Nat.ofDigitChars 10 (padded w n) 0 = n := by
  induction w generalizing n with
  | zero =>
      have hzero : n = 0 := by
        rw [Nat.pow_zero] at h
        omega
      rw [hzero]
      rfl
  | succ w ih =>
      have hdiv : n / 10 < 10 ^ w := by
        rw [Nat.pow_succ] at h
        omega
      rw [padded, Nat.ofDigitChars_append, ih hdiv,
        Nat.ofDigitChars_cons_digitChar_of_lt_ten (Nat.mod_lt n (by decide)),
        Nat.ofDigitChars_nil]
      exact Nat.div_add_mod n 10

theorem digitChar_lt {a b : Nat} (hab : a < b) (hb : b < 10) :
    Nat.digitChar a < Nat.digitChar b := by
  have hall : ∀ b < 10, ∀ a < b, Nat.digitChar a < Nat.digitChar b := by
    decide
  exact hall b hb a hab

/-- Texts of one length are told apart before what follows them. -/
theorem append_lt_append_of_lt {s t x y : Text} (h : s < t)
    (hlen : s.length = t.length) : s ++ x < t ++ y := by
  induction s generalizing t with
  | nil =>
      cases t with
      | nil => exact absurd h (lt_irrefl _)
      | cons d t => cases hlen
  | cons c s ih =>
      cases t with
      | nil => cases hlen
      | cons d t =>
          rcases List.cons_lt_cons_iff.1 h with h | ⟨hcd, h⟩
          · exact List.cons_lt_cons_iff.2 (.inl h)
          · exact List.cons_lt_cons_iff.2
              (.inr ⟨hcd, ih h (Nat.succ.inj hlen)⟩)

theorem padded_lt {w a b : Nat} (hab : a < b) (hb : b < 10 ^ w) :
    padded w a < padded w b := by
  induction w generalizing a b with
  | zero =>
      rw [Nat.pow_zero] at hb
      omega
  | succ w ih =>
      rw [padded, padded]
      by_cases hdiv : a / 10 = b / 10
      · rw [hdiv]
        refine List.append_left_lt (List.cons_lt_cons_iff.2 (.inl ?_))
        exact digitChar_lt (by omega) (Nat.mod_lt b (by decide))
      · have hlt : a / 10 < b / 10 := by omega
        have hpow : b / 10 < 10 ^ w := by
          rw [Nat.pow_succ] at hb
          omega
        exact append_lt_append_of_lt (ih hlt hpow)
          (by rw [length_padded, length_padded])

/-- The texts of two numbers of one width, each with what follows it. -/
theorem padded_append_lt {w a b : Nat} {x y : Text} (hb : b < 10 ^ w)
    (h : a < b ∨ a = b ∧ x < y) : padded w a ++ x < padded w b ++ y := by
  rcases h with h | ⟨rfl, h⟩
  · exact append_lt_append_of_lt (padded_lt h hb)
      (by rw [length_padded, length_padded])
  · exact List.append_left_lt h

end Padded

section Calendar

/-- `_is_leap` -/
def isLeap (year : Nat) : Bool :=
  year % 4 == 0 && (year % 100 != 0 || year % 400 == 0)

/-- `_days_in_month` -/
def daysInMonth (leap : Bool) : Nat → Nat
  | 2 => if leap then 29 else 28
  | 4 => 30
  | 6 => 30
  | 9 => 30
  | 11 => 30
  | _ => 31

/-- `_days_before_year` -/
def daysBeforeYear (year : Nat) : Nat :=
  (year - 1) * 365 + (year - 1) / 4 - (year - 1) / 100 + (year - 1) / 400

/-- `_days_before_month` -/
def daysBeforeMonth (leap : Bool) : Nat → Nat
  | 0 => 0
  | 1 => 0
  | month + 2 =>
      daysBeforeMonth leap (month + 1) + daysInMonth leap (month + 1)

theorem daysBeforeYear_succ {year : Nat} (h : 1 ≤ year) :
    daysBeforeYear (year + 1) =
      daysBeforeYear year + 365 + (if isLeap year then 1 else 0) := by
  obtain ⟨n, rfl⟩ := Nat.exists_eq_add_of_le' h
  have hcentury : n / 100 ≤ n / 4 :=
    Nat.div_le_div_left (by decide) (by decide)
  have h100 : 100 ∣ n + 1 → 4 ∣ n + 1 := dvd_trans (by decide)
  have h400 : 400 ∣ n + 1 → 100 ∣ n + 1 := dvd_trans (by decide)
  have hleap : isLeap (n + 1) = true ↔
      4 ∣ n + 1 ∧ (¬ 100 ∣ n + 1 ∨ 400 ∣ n + 1) := by
    simp only [isLeap, Nat.dvd_iff_mod_eq_zero, Bool.and_eq_true, beq_iff_eq,
      Bool.or_eq_true, bne_iff_ne, ne_eq]
  simp only [daysBeforeYear, Nat.add_sub_cancel, hleap, Nat.succ_div]
  by_cases hfour : 4 ∣ n + 1
  · by_cases hhundred : 100 ∣ n + 1
    · by_cases hcycle : 400 ∣ n + 1
      · simp only [hfour, hhundred, hcycle, if_true, not_true, or_true,
          and_true]
        omega
      · simp only [hfour, hhundred, hcycle, if_true, if_false, not_true,
          or_false, and_false]
        omega
    · have hcycle : ¬ 400 ∣ n + 1 := fun h => hhundred (h400 h)
      simp only [hfour, hhundred, hcycle, if_true, if_false, not_false_iff,
        true_or, and_true]
      omega
  · have hhundred : ¬ 100 ∣ n + 1 := fun h => hfour (h100 h)
    have hcycle : ¬ 400 ∣ n + 1 := fun h => hhundred (h400 h)
    simp only [hfour, hhundred, hcycle, if_false, false_and]
    omega

theorem daysBeforeYear_mono {year year' : Nat} (h : 1 ≤ year)
    (hle : year ≤ year') : daysBeforeYear year ≤ daysBeforeYear year' := by
  induction year', hle using Nat.le_induction with
  | base => exact Nat.le_refl _
  | succ year' hle ih =>
      rw [daysBeforeYear_succ (Nat.le_trans h hle)]
      omega

theorem daysBeforeMonth_mono (leap : Bool) {month month' : Nat}
    (hle : month ≤ month') :
    daysBeforeMonth leap month ≤ daysBeforeMonth leap month' := by
  induction month', hle using Nat.le_induction with
  | base => exact Nat.le_refl _
  | succ month' hle ih =>
      cases month' with
      | zero => exact ih
      | succ month' => exact Nat.le_trans ih (Nat.le_add_right _ _)

theorem daysBeforeMonth_succ (leap : Bool) {month : Nat} (h : 1 ≤ month) :
    daysBeforeMonth leap (month + 1) =
      daysBeforeMonth leap month + daysInMonth leap month := by
  cases month with
  | zero => cases h
  | succ month => rfl

theorem daysBeforeMonth_last (leap : Bool) :
    daysBeforeMonth leap 13 = 365 + (if leap then 1 else 0) := by
  cases leap <;> rfl

end Calendar

section Time

/-- The fields of a UTC time. -/
structure TimeFields where
  year : Nat
  month : Nat
  day : Nat
  hour : Nat
  minute : Nat
  second : Nat
  microsecond : Nat
deriving DecidableEq

namespace TimeFields

/-- What `datetime` checks. -/
structure Valid (f : TimeFields) : Prop where
  year : 1 ≤ f.year ∧ f.year < 10000
  month : 1 ≤ f.month ∧ f.month ≤ 12
  day : 1 ≤ f.day ∧ f.day ≤ daysInMonth (isLeap f.year) f.month
  hour : f.hour < 24
  minute : f.minute < 60
  second : f.second < 60
  microsecond : f.microsecond < 1000000

instance (f : TimeFields) : Decidable f.Valid :=
  decidable_of_iff
    ((1 ≤ f.year ∧ f.year < 10000) ∧ (1 ≤ f.month ∧ f.month ≤ 12) ∧
      (1 ≤ f.day ∧ f.day ≤ daysInMonth (isLeap f.year) f.month) ∧
      f.hour < 24 ∧ f.minute < 60 ∧ f.second < 60 ∧ f.microsecond < 1000000)
    ⟨fun ⟨h₁, h₂, h₃, h₄, h₅, h₆, h₇⟩ => ⟨h₁, h₂, h₃, h₄, h₅, h₆, h₇⟩,
      fun ⟨h₁, h₂, h₃, h₄, h₅, h₆, h₇⟩ => ⟨h₁, h₂, h₃, h₄, h₅, h₆, h₇⟩⟩

/-- `toordinal` -/
def ordinal (f : TimeFields) : Nat :=
  daysBeforeYear f.year + daysBeforeMonth (isLeap f.year) f.month + f.day

/-- The microseconds since the day before the first. -/
def micros (f : TimeFields) : Nat :=
  (((f.ordinal * 24 + f.hour) * 60 + f.minute) * 60 + f.second) * 1000000 +
    f.microsecond

/-- The fraction, where there is one, and the offset of UTC. -/
def fraction (microsecond : Nat) : Text :=
  (if microsecond = 0 then [] else '.' :: padded 6 microsecond) ++
    "+00:00".toList

/-- `isoformat` -/
def isoformat (f : TimeFields) : Text :=
  padded 4 f.year ++ ('-' :: (padded 2 f.month ++ ('-' :: (padded 2 f.day ++
    ('T' :: (padded 2 f.hour ++ (':' :: (padded 2 f.minute ++
      (':' :: (padded 2 f.second ++ fraction f.microsecond))))))))))

/-- The number at a place of a text. -/
def slice (t : Text) (start width : Nat) : Nat :=
  Nat.ofDigitChars 10 ((t.drop start).take width) 0

/-- The fields at their places. -/
def ofText (t : Text) : TimeFields where
  year := slice t 0 4
  month := slice t 5 2
  day := slice t 8 2
  hour := slice t 11 2
  minute := slice t 14 2
  second := slice t 17 2
  microsecond := if t.length = 25 then 0 else slice t 20 6

/-- The earlier field decides. -/
def Before (f f' : TimeFields) : Prop :=
  f.year < f'.year ∨ f.year = f'.year ∧
    (f.month < f'.month ∨ f.month = f'.month ∧
      (f.day < f'.day ∨ f.day = f'.day ∧
        (f.hour < f'.hour ∨ f.hour = f'.hour ∧
          (f.minute < f'.minute ∨ f.minute = f'.minute ∧
            (f.second < f'.second ∨ f.second = f'.second ∧
              f.microsecond < f'.microsecond)))))

variable {f f' : TimeFields}

theorem ordinal_lt_of_year_lt (h : f.Valid) (h' : f'.Valid)
    (hlt : f.year < f'.year) : f.ordinal < f'.ordinal := by
  have hnext := daysBeforeYear_mono (Nat.le_succ_of_le h.year.1) hlt
  rw [daysBeforeYear_succ h.year.1] at hnext
  have hmonth : daysBeforeMonth (isLeap f.year) (f.month + 1) ≤
      daysBeforeMonth (isLeap f.year) 13 :=
    daysBeforeMonth_mono _ (Nat.succ_le_succ h.month.2)
  rw [daysBeforeMonth_succ _ h.month.1, daysBeforeMonth_last] at hmonth
  have hday := h.day.2
  have hday' := h'.day.1
  unfold ordinal
  omega

theorem ordinal_lt_of_month_lt (h : f.Valid) (h' : f'.Valid)
    (hyear : f.year = f'.year) (hlt : f.month < f'.month) :
    f.ordinal < f'.ordinal := by
  have hmonth : daysBeforeMonth (isLeap f.year) (f.month + 1) ≤
      daysBeforeMonth (isLeap f.year) f'.month :=
    daysBeforeMonth_mono _ hlt
  rw [daysBeforeMonth_succ _ h.month.1] at hmonth
  have hday := h.day.2
  have hday' := h'.day.1
  unfold ordinal
  rw [← hyear]
  omega

/-- The days of two dates are in the order of year, month and day. -/
theorem date_cases (h : f.Valid) (h' : f'.Valid)
    (hle : f.ordinal ≤ f'.ordinal) :
    f.year < f'.year ∨ f.year = f'.year ∧ (f.month < f'.month ∨
      f.month = f'.month ∧ f.day + f'.ordinal = f'.day + f.ordinal) := by
  rcases lt_trichotomy f.year f'.year with hyear | hyear | hyear
  · exact .inl hyear
  · refine .inr ⟨hyear, ?_⟩
    rcases lt_trichotomy f.month f'.month with hmonth | hmonth | hmonth
    · exact .inl hmonth
    · refine .inr ⟨hmonth, ?_⟩
      unfold ordinal
      rw [hyear, hmonth]
      omega
    · exact absurd (ordinal_lt_of_month_lt h' h hyear.symm hmonth)
        (Nat.not_lt.2 hle)
  · exact absurd (ordinal_lt_of_year_lt h' h hyear) (Nat.not_lt.2 hle)

theorem before_of_micros_lt (h : f.Valid) (h' : f'.Valid)
    (hlt : f.micros < f'.micros) : f.Before f' := by
  have hdate := date_cases h h'
  obtain ⟨-, -, -, hhour, hminute, hsecond, hmicro⟩ := h
  obtain ⟨-, -, -, hhour', hminute', hsecond', hmicro'⟩ := h'
  have htime : f.ordinal < f'.ordinal ∨ f.ordinal = f'.ordinal ∧
      (f.hour < f'.hour ∨ f.hour = f'.hour ∧
        (f.minute < f'.minute ∨ f.minute = f'.minute ∧
          (f.second < f'.second ∨ f.second = f'.second ∧
            f.microsecond < f'.microsecond))) := by
    unfold micros at hlt
    omega
  have hle : f.ordinal ≤ f'.ordinal := by omega
  unfold Before
  rcases hdate hle with hyear | ⟨hyear, hmonth | ⟨hmonth, hday⟩⟩
  · exact .inl hyear
  · exact .inr ⟨hyear, .inl hmonth⟩
  · refine .inr ⟨hyear, .inr ⟨hmonth, ?_⟩⟩
    rcases htime with hord | ⟨hord, htime⟩
    · exact .inl (by omega)
    · exact .inr ⟨by omega, htime⟩

theorem day_lt (h : f.Valid) : f.day < 10 ^ 2 := by
  have hle : ∀ leap month, daysInMonth leap month ≤ 31 := by
    intro leap month
    unfold daysInMonth
    split
    · split <;> decide
    all_goals decide
  exact Nat.lt_of_le_of_lt (Nat.le_trans h.day.2 (hle _ _)) (by decide)

/-- A text without a fraction comes before one with: `+` before `.`. -/
theorem fraction_lt {a b : Nat} (hab : a < b) (hb : b < 1000000) :
    fraction a < fraction b := by
  have hpos : b ≠ 0 := Nat.ne_zero_of_lt hab
  unfold fraction
  rw [if_neg hpos]
  by_cases ha : a = 0
  · rw [if_pos ha]
    exact List.cons_lt_cons_iff.2 (.inl (by decide))
  · rw [if_neg ha]
    exact List.cons_lt_cons_self.2 (padded_append_lt hb (.inl hab))

theorem isoformat_lt_of_before (h' : f'.Valid) (h : f.Before f') :
    f.isoformat < f'.isoformat := by
  -- a field and all that come after it
  have hfield : ∀ {w a b : Nat} {p : Prop} {c : Char} {x y : Text},
      b < 10 ^ w → (p → x < y) → (a < b ∨ a = b ∧ p) →
      padded w a ++ c :: x < padded w b ++ c :: y :=
    fun hb hrest h => padded_append_lt hb (h.imp_right fun hp =>
      ⟨hp.1, List.cons_lt_cons_self.2 (hrest hp.2)⟩)
  have hmonth := h'.month.2
  have hhour := h'.hour
  have hminute := h'.minute
  have hsecond := h'.second
  refine hfield h'.year.2 (fun h => ?_) h
  refine hfield (by omega) (fun h => ?_) h
  refine hfield (day_lt h') (fun h => ?_) h
  refine hfield (by omega) (fun h => ?_) h
  refine hfield (by omega) (fun h => ?_) h
  exact padded_append_lt (by omega)
    (h.imp_right fun h => ⟨h.1, fraction_lt h.2 h'.microsecond⟩)

theorem length_isoformat (f : TimeFields) :
    f.isoformat.length = if f.microsecond = 0 then 25 else 32 := by
  unfold isoformat fraction
  simp only [List.length_append, List.length_cons, length_padded]
  split <;> simp [length_padded]

theorem slice_head {w n : Nat} (hn : n < 10 ^ w) (t : Text) :
    slice (padded w n ++ t) 0 w = n := by
  rw [slice, List.drop_zero, List.take_left' (length_padded w n),
    ofDigitChars_padded hn]

theorem slice_skip (w n : Nat) (c : Char) (t : Text) (start width : Nat) :
    slice (padded w n ++ c :: t) (w + 1 + start) width =
      slice t start width := by
  have hskip : (padded w n ++ c :: t).drop (w + 1 + start) = t.drop start := by
    rw [List.append_cons, ← List.drop_drop, List.drop_left']
    rw [List.length_append, length_padded]
    rfl
  rw [slice, slice, hskip]

theorem ofText_isoformat (h : f.Valid) : ofText f.isoformat = f := by
  have hmonth := h.month.2
  have hhour := h.hour
  have hminute := h.minute
  have hsecond := h.second
  obtain ⟨y, mo, d, hr, mi, se, us⟩ := f
  unfold ofText
  congr 1
  · exact slice_head h.year.2 _
  · exact (slice_skip 4 _ _ _ 0 2).trans (slice_head (by omega) _)
  · exact (slice_skip 4 _ _ _ 3 2).trans
      ((slice_skip 2 _ _ _ 0 2).trans (slice_head (day_lt h) _))
  · exact (slice_skip 4 _ _ _ 6 2).trans
      ((slice_skip 2 _ _ _ 3 2).trans
        ((slice_skip 2 _ _ _ 0 2).trans (slice_head (by omega) _)))
  · exact (slice_skip 4 _ _ _ 9 2).trans
      ((slice_skip 2 _ _ _ 6 2).trans
        ((slice_skip 2 _ _ _ 3 2).trans
          ((slice_skip 2 _ _ _ 0 2).trans (slice_head (by omega) _))))
  · exact (slice_skip 4 _ _ _ 12 2).trans
      ((slice_skip 2 _ _ _ 9 2).trans
        ((slice_skip 2 _ _ _ 6 2).trans
          ((slice_skip 2 _ _ _ 3 2).trans
            ((slice_skip 2 _ _ _ 0 2).trans (slice_head (by omega) _)))))
  · rw [length_isoformat]
    by_cases hus : us = 0
    · rw [if_pos hus, if_pos rfl, hus]
    · rw [if_neg hus, if_neg (by decide)]
      unfold isoformat fraction
      simp only [if_neg hus, List.cons_append]
      exact (slice_skip 4 _ _ _ 15 6).trans
        ((slice_skip 2 _ _ _ 12 6).trans
          ((slice_skip 2 _ _ _ 9 6).trans
            ((slice_skip 2 _ _ _ 6 6).trans
              ((slice_skip 2 _ _ _ 3 6).trans
                ((slice_skip 2 _ _ _ 0 6).trans
                  (slice_head h.microsecond _))))))

end TimeFields

/-- A time that `datetime` can hold. -/
abbrev DateTime := { f : TimeFields // f.Valid }

namespace DateTime

/-- `datetime(1970, 1, 1, tzinfo=timezone.utc)` -/
def epoch : DateTime :=
  ⟨⟨1970, 1, 1, 0, 0, 0, 0⟩, by decide⟩

/-- `timestamp`, in microseconds. -/
def timestamp (d : DateTime) : Int :=
  (d.1.micros : Int) - epoch.1.micros

def isoformat (d : DateTime) : Text :=
  d.1.isoformat

/-- The time whose text this is. -/
def ofText? (t : Text) : Option DateTime :=
  if h : (TimeFields.ofText t).Valid ∧ (TimeFields.ofText t).isoformat = t then
    some ⟨TimeFields.ofText t, h.1⟩
  else none

theorem ofText?_isoformat (d : DateTime) : ofText? d.isoformat = some d := by
  have hfields : TimeFields.ofText d.isoformat = d.1 :=
    TimeFields.ofText_isoformat d.2
  unfold ofText?
  simp only [hfields]
  exact dif_pos ⟨d.2, rfl⟩

theorem isoformat_lt {d d' : DateTime} (h : d.timestamp < d'.timestamp) :
    d.isoformat < d'.isoformat := by
  have hmicros : d.1.micros < d'.1.micros := by
    unfold timestamp at h
    omega
  exact TimeFields.isoformat_lt_of_before d'.2
    (TimeFields.before_of_micros_lt d.2 d'.2 hmicros)

end DateTime

end Time

end Kelt
