import Kelt.Lib.PyText

/-!
# Texts that `int` reads

`int(t)` is `int10`, where it does not raise. To base 16 only whether it raises
is of interest: besides hexadecimal digits, `int(t, 16)` takes white space
around the number, a sign, the prefix `0x` with an underscore behind it, single
underscores between digits, and the decimal digits of every script (of Unicode
14 here). A text that has none of these is made of hexadecimal digits
(`isHexDigit_of_isInt16`).
-/

namespace Kelt

section PyInt

/-- The zeros of the scripts; their nine successors are the other digits. -/
def decimalZeros : List Nat :=
  [0x30, 0x660, 0x6f0, 0x7c0, 0x966, 0x9e6, 0xa66, 0xae6, 0xb66, 0xbe6, 0xc66,
    0xce6, 0xd66, 0xde6, 0xe50, 0xed0, 0xf20, 0x1040, 0x1090, 0x17e0, 0x1810,
    0x1946, 0x19d0, 0x1a80, 0x1a90, 0x1b50, 0x1bb0, 0x1c40, 0x1c50, 0xa620,
    0xa8d0, 0xa900, 0xa9d0, 0xa9f0, 0xaa50, 0xabf0, 0xff10, 0x104a0, 0x10d30,
    0x11066, 0x110f0, 0x11136, 0x111d0, 0x112f0, 0x11450, 0x114d0, 0x11650,
    0x116c0, 0x11730, 0x118e0, 0x11950, 0x11c50, 0x11d50, 0x11da0, 0x16a60,
    0x16ac0, 0x16b50, 0x1d7ce, 0x1d7d8, 0x1d7e2, 0x1d7ec, 0x1d7f6, 0x1e140,
    0x1e2f0, 0x1e950, 0x1fbf0]

def decimalValue? (c : Char) : Option Nat :=
  (decimalZeros.find? (fun z => z ≤ c.toNat && c.toNat < z + 10)).map
    (fun z => c.toNat - z)

/-- What `int` makes of a character first. -/
def toAscii (c : Char) : Char :=
  if c.toNat < 128 then c
  else
    match decimalValue? c with
    | some d => Char.ofNat (48 + d)
    | none => if isBlank c then ' ' else '?'

/-- `[0-9a-fA-F]`. -/
def isHexDigit (c : Char) : Bool :=
  ('0' ≤ c && c ≤ '9') || ('a' ≤ c && c ≤ 'f') || ('A' ≤ c && c ≤ 'F')

/-- White space in the sense of C. -/
def isSpace (c : Char) : Bool :=
  c == ' ' || (9 ≤ c.toNat && c.toNat ≤ 13)

def dropSign : Text → Text
  | [] => []
  | c :: rest => if c = '+' ∨ c = '-' then rest else c :: rest

/-- Without the prefix, and the underscore that may follow it. -/
def dropBase : Text → Text
  | c :: x :: rest =>
      if c = '0' ∧ (x = 'x' ∨ x = 'X') then
        (if rest.head? = some '_' then rest.tail else rest)
      else c :: x :: rest
  | t => t

/-- Digits, with single underscores between them. -/
def digitRun : Text → Bool
  | [] => false
  | [c] => isHexDigit c
  | c :: d :: rest =>
      isHexDigit c && (if d = '_' then digitRun rest else digitRun (d :: rest))

/-- `int(t, 16)` does not raise. -/
def isInt16 (t : Text) : Bool :=
  digitRun (dropBase (dropSign (stripBy isSpace (t.map toAscii))))

/-- The value of ASCII digits, with single underscores between them. -/
def decimalRun (acc : Nat) : Text → Option Nat
  | [] => none
  | [c] => if c.isDigit then some (acc * 10 + (c.toNat - 48)) else none
  | c :: d :: rest =>
      if c.isDigit then
        (if d = '_' then decimalRun (acc * 10 + (c.toNat - 48)) rest
        else decimalRun (acc * 10 + (c.toNat - 48)) (d :: rest))
      else none

/-- `int(t)`, where it does not raise. -/
def int10 (t : Text) : Option Int :=
  match stripBy isSpace (t.map toAscii) with
  | [] => none
  | c :: rest =>
      if c = '-' then (decimalRun 0 rest).map fun n => -(n : Int)
      else if c = '+' then (decimalRun 0 rest).map Int.ofNat
      else (decimalRun 0 (c :: rest)).map Int.ofNat

/-- An ASCII character that is none of those which `int` takes besides digits
and white space. -/
def isBareChar (c : Char) : Bool :=
  c.toNat < 128 && c != '_' && c != '+' && c != '-' && c != 'x' && c != 'X'

example : isInt16 "0x_1f".toList = true := by decide

example : int10 " -1_0 ".toList = some (-10) := by decide

theorem isHexDigit_of_digitRun {t : Text} (h : digitRun t = true)
    (hbare : ∀ c ∈ t, c ≠ '_') : ∀ c ∈ t, isHexDigit c = true := by
  induction t using digitRun.induct with
  | case1 => cases h
  | case2 c =>
      intro x hx
      rw [List.mem_singleton.1 hx]
      exact h
  | case3 c d rest _ ih =>
      have hd : d ≠ '_' := hbare d (by simp)
      rw [digitRun, if_neg hd, Bool.and_eq_true] at h
      intro x hx
      rcases List.mem_cons.1 hx with rfl | hx
      · exact h.1
      · exact ih h.2 (fun y hy => hbare y (List.mem_cons_of_mem _ hy)) x hx

theorem isBlank_of_isSpace {c : Char} (h : isSpace c = true) :
    isBlank c = true := by
  simp only [isSpace, Bool.or_eq_true, beq_iff_eq, Bool.and_eq_true,
    decide_eq_true_eq] at h
  rcases h with rfl | h
  · decide
  · simp only [isBlank, isLineBreak, Bool.or_eq_true, Bool.and_eq_true,
      decide_eq_true_eq, beq_iff_eq]
    omega

/-- A stripped text of bare characters is a number only when all of them are
hexadecimal digits. -/
theorem isHexDigit_of_isInt16 {t : Text} (hstrip : strip t = t)
    (hbare : ∀ c ∈ t, isBareChar c = true) (h : isInt16 t = true) :
    ∀ c ∈ t, isHexDigit c = true := by
  have hchar : ∀ c ∈ t, c.toNat < 128 ∧ c ≠ '_' ∧ c ≠ '+' ∧ c ≠ '-' ∧
      c ≠ 'x' ∧ c ≠ 'X' := by
    intro c hc
    have hb := hbare c hc
    simp only [isBareChar, Bool.and_eq_true, decide_eq_true_eq,
      bne_iff_ne] at hb
    tauto
  have hascii : t.map toAscii = t :=
    (List.map_congr_left (fun c hc => if_pos (hchar c hc).1)).trans
      (List.map_id t)
  have hspace : stripBy isSpace t = t :=
    stripBy_eq_self_of_imp (fun _ => isBlank_of_isSpace) hstrip
  have hsign : dropSign t = t := by
    cases t with
    | nil => rfl
    | cons c rest =>
        obtain ⟨-, -, hplus, hminus, -⟩ := hchar c List.mem_cons_self
        exact if_neg (not_or.2 ⟨hplus, hminus⟩)
  have hbase : dropBase t = t := by
    match t with
    | [] => rfl
    | [c] => rfl
    | c :: x :: rest =>
        obtain ⟨-, -, -, -, hlower, hupper⟩ := hchar x (by simp)
        exact if_neg (fun hx => hx.2.elim hlower hupper)
  unfold isInt16 at h
  rw [hascii, hspace, hsign, hbase] at h
  exact isHexDigit_of_digitRun h (fun c hc => (hchar c hc).2.1)

/-- A fact about the capital letters is checked for each of them. -/
theorem of_isUpper {P : Char → Prop}
    (h : ∀ n ∈ List.range 26, P (Char.ofNat (65 + n))) {c : Char}
    (hc : c.isUpper = true) : P c := by
  have hbounds : 65 ≤ c.toNat ∧ c.toNat ≤ 90 := by
    have hval : 'A'.val ≤ c.val ∧ c.val ≤ 'Z'.val := of_decide_eq_true hc
    simpa [UInt32.le_iff_toNat_le] using hval
  have hn : 65 + (c.toNat - 65) = c.toNat := by omega
  have hP := h (c.toNat - 65) (List.mem_range.2 (by omega))
  rwa [hn, Char.ofNat_toNat] at hP

theorem toLower_of_not_isUpper {c : Char} (hc : ¬ c.isUpper = true) :
    c.toLower = c := by
  have hval : ¬ ('A'.val ≤ c.val ∧ c.val ≤ 'Z'.val) :=
    fun h => hc (decide_eq_true h)
  exact dif_neg hval

theorem isBlank_toLower (c : Char) : isBlank c.toLower = isBlank c := by
  by_cases hc : c.isUpper = true
  · exact of_isUpper (P := fun c => isBlank c.toLower = isBlank c)
      (by decide) hc
  · rw [toLower_of_not_isUpper hc]

theorem isHexDigit_toLower (c : Char) :
    isHexDigit c.toLower = isHexDigit c := by
  by_cases hc : c.isUpper = true
  · exact of_isUpper (P := fun c => isHexDigit c.toLower = isHexDigit c)
      (by decide) hc
  · rw [toLower_of_not_isUpper hc]

theorem isBareChar_toLower {c : Char} (h : isBareChar c = true) :
    isBareChar c.toLower = true := by
  by_cases hc : c.isUpper = true
  · exact of_isUpper (P := fun c => isBareChar c = true →
      isBareChar c.toLower = true) (by decide) hc h
  · rwa [toLower_of_not_isUpper hc]

theorem strip_map_toLower {t : Text} (h : strip t = t) :
    strip (t.map Char.toLower) = t.map Char.toLower := by
  have hcomp : isBlank ∘ Char.toLower = isBlank :=
    funext isBlank_toLower
  have hdrop := dropWhile_of_stripBy_eq h
  have hrdrop := rdropWhile_of_stripBy_eq h
  unfold List.rdropWhile at hrdrop
  unfold strip stripBy List.rdropWhile
  rw [List.dropWhile_map, hcomp, hdrop, ← List.map_reverse,
    List.dropWhile_map, hcomp, ← List.map_reverse, hrdrop]

/-- `str(n)` -/
def intText (n : Int) : Text :=
  if n < 0 then '-' :: Nat.toDigits 10 n.natAbs else Nat.toDigits 10 n.natAbs

theorem decimalRun_digits {t : Text} (hne : t ≠ [])
    (hdigit : ∀ c ∈ t, c.isDigit = true) (acc : Nat) :
    decimalRun acc t = some (Nat.ofDigitChars 10 t acc) := by
  induction acc, t using decimalRun.induct with
  | case1 => exact absurd rfl hne
  | case2 acc c hc =>
      rw [decimalRun, if_pos hc, Nat.ofDigitChars_cons, Nat.ofDigitChars_nil,
        Nat.mul_comm]
      rfl
  | case3 acc c hc => exact absurd (hdigit c List.mem_cons_self) hc
  | case4 acc c rest hc ih =>
      exact absurd (hdigit '_' (by simp)) (by decide)
  | case5 acc c d rest hc hd ih =>
      rw [decimalRun, if_pos hc, if_neg hd, Nat.ofDigitChars_cons,
        ih (List.cons_ne_nil d rest)
          (fun x hx => hdigit x (List.mem_cons_of_mem c hx)), Nat.mul_comm]
      rfl
  | case6 acc c d rest hc =>
      exact absurd (hdigit c List.mem_cons_self) hc

theorem isDigit_toNat {c : Char} (h : c.isDigit = true) :
    48 ≤ c.toNat ∧ c.toNat ≤ 57 := by
  simp only [Char.isDigit, Bool.and_eq_true, decide_eq_true_eq] at h
  exact h

/-- White space and other scripts do not touch digits and a minus sign. -/
theorem stripBy_toAscii {t : Text}
    (h : ∀ c ∈ t, c.isDigit = true ∨ c = '-') :
    stripBy isSpace (t.map toAscii) = t := by
  have hascii : t.map toAscii = t := by
    refine (List.map_congr_left fun c hc => ?_).trans (List.map_id t)
    refine if_pos ?_
    rcases h c hc with hc | rfl
    · exact lt_of_le_of_lt (isDigit_toNat hc).2 (by decide)
    · decide
  rw [hascii]
  refine stripBy_eq_self_of_notMem fun c hc => ?_
  rcases h c hc with hc | rfl
  · have hrange := isDigit_toNat hc
    have hblank : c ≠ ' ' := fun h => by
      rw [h] at hrange
      exact absurd hrange.1 (by decide)
    have hcontrol : ¬ c.toNat ≤ 13 := by omega
    simp [isSpace, hblank, hcontrol]
  · decide

/-- `int` reads what `str` writes. -/
theorem int10_intText (n : Int) : int10 (intText n) = some n := by
  have hdigit : ∀ c ∈ Nat.toDigits 10 n.natAbs, c.isDigit = true :=
    fun c hc => Nat.isDigit_of_mem_toDigits (by decide) (by decide) hc
  have hrun : decimalRun 0 (Nat.toDigits 10 n.natAbs) = some n.natAbs := by
    rw [decimalRun_digits Nat.toDigits_ne_nil hdigit,
      Nat.ofDigitChars_ten_toDigits]
  unfold intText
  by_cases hneg : n < 0
  · rw [if_pos hneg, int10, stripBy_toAscii]
    · simp only [if_true, hrun]
      change some (-(n.natAbs : Int)) = some n
      rw [Int.ofNat_natAbs_of_nonpos (Int.le_of_lt hneg), Int.neg_neg]
    · intro c hc
      rcases List.mem_cons.1 hc with rfl | hc
      · exact .inr rfl
      · exact .inl (hdigit c hc)
  · rw [if_neg hneg, int10, stripBy_toAscii fun c hc => .inl (hdigit c hc)]
    cases hdigits : Nat.toDigits 10 n.natAbs with
    | nil => exact absurd hdigits Nat.toDigits_ne_nil
    | cons c rest =>
        have hc := hdigit c (by rw [hdigits]; exact List.mem_cons_self)
        have hminus : c ≠ '-' := fun h => by
          rw [h] at hc
          exact absurd hc (by decide)
        have hplus : c ≠ '+' := fun h => by
          rw [h] at hc
          exact absurd hc (by decide)
        simp only [if_neg hminus, if_neg hplus, ← hdigits, hrun,
          Option.map_some]
        congr 1
        exact Int.natAbs_of_nonneg (Int.not_lt.1 hneg)

end PyInt

end Kelt
