import Kelt.Lib.Bytes
import Kelt.Lib.PyText

/-!
# Base64

The encoding in groups of three bytes, padded with `=`, and the decoder of the
shell tool, which looks over line feeds. What is encoded is decoded to the same
bytes (`decode_encode`), and an encoding has only letters, digits, `+`, `/` and
`=` (`mem_encode`).
-/

namespace Kelt
namespace Base64

section Base64

/-- The character of a number below 64. -/
def digit (n : Nat) : Char :=
  if n < 26 then Char.ofNat (65 + n)
  else if n < 52 then Char.ofNat (97 + (n - 26))
  else if n < 62 then Char.ofNat (48 + (n - 52))
  else if n = 62 then '+'
  else '/'

def value? (c : Char) : Option Nat :=
  if c.isUpper then some (c.toNat - 65)
  else if c.isLower then some (c.toNat - 97 + 26)
  else if c.isDigit then some (c.toNat - 48 + 52)
  else if c = '+' then some 62
  else if c = '/' then some 63
  else none

def encode : Bytes → Text
  | [] => []
  | [a] => [digit (a.toNat / 4), digit (a.toNat % 4 * 16), '=', '=']
  | [a, b] =>
      [digit (a.toNat / 4), digit (a.toNat % 4 * 16 + b.toNat / 16),
        digit (b.toNat % 16 * 4), '=']
  | a :: b :: c :: rest =>
      digit (a.toNat / 4) :: digit (a.toNat % 4 * 16 + b.toNat / 16) ::
        digit (b.toNat % 16 * 4 + c.toNat / 64) :: digit (c.toNat % 64) ::
        encode rest

def firstByte (w x : Nat) : UInt8 :=
  UInt8.ofNat (w * 4 + x / 16)

def secondByte (x y : Nat) : UInt8 :=
  UInt8.ofNat (x % 16 * 16 + y / 4)

def thirdByte (y z : Nat) : UInt8 :=
  UInt8.ofNat (y % 4 * 64 + z)

/-- The bytes of a text in groups of four. -/
def decodeGroups : Text → Option Bytes
  | [] => some []
  | [w, x, '=', '='] => do
      return [firstByte (← value? w) (← value? x)]
  | [w, x, y, '='] => do
      let y ← value? y
      let x ← value? x
      return [firstByte (← value? w) x, secondByte x y]
  | w :: x :: y :: z :: rest => do
      let x ← value? x
      let y ← value? y
      let bytes ← decodeGroups rest
      return firstByte (← value? w) x :: secondByte x y ::
        thirdByte y (← value? z) :: bytes
  | _ => none

/-- `base64 -d` -/
def decode (text : Text) : Option Bytes :=
  decodeGroups (text.filter (· ≠ '\n'))

theorem value?_digit {n : Nat} (h : n < 64) : value? (digit n) = some n := by
  have hall : ∀ n < 64, value? (digit n) = some n := by decide
  exact hall n h

theorem digit_ne {n : Nat} (h : n < 64) : digit n ≠ '=' ∧ digit n ≠ '\n' := by
  have hall : ∀ n < 64, digit n ≠ '=' ∧ digit n ≠ '\n' := by decide
  exact hall n h

theorem firstByte_eq (a b : UInt8) :
    firstByte (a.toNat / 4) (a.toNat % 4 * 16 + b.toNat / 16) = a := by
  have hb := b.toNat_lt
  unfold firstByte
  rw [show a.toNat / 4 * 4 + (a.toNat % 4 * 16 + b.toNat / 16) / 16 = a.toNat by
    omega]
  exact UInt8.ofNat_toNat

theorem secondByte_eq (a b c : UInt8) :
    secondByte (a.toNat % 4 * 16 + b.toNat / 16)
      (b.toNat % 16 * 4 + c.toNat / 64) = b := by
  have hb := b.toNat_lt
  have hc := c.toNat_lt
  unfold secondByte
  rw [show (a.toNat % 4 * 16 + b.toNat / 16) % 16 * 16 +
    (b.toNat % 16 * 4 + c.toNat / 64) / 4 = b.toNat by omega]
  exact UInt8.ofNat_toNat

theorem thirdByte_eq (b c : UInt8) :
    thirdByte (b.toNat % 16 * 4 + c.toNat / 64) (c.toNat % 64) = c := by
  have hc := c.toNat_lt
  unfold thirdByte
  rw [show (b.toNat % 16 * 4 + c.toNat / 64) % 4 * 64 + c.toNat % 64 = c.toNat by
    omega]
  exact UInt8.ofNat_toNat

/-- A full group is decoded before what follows it. -/
theorem decodeGroups_cons {w x y z : Char} (rest : Text) {i j k l : Nat}
    (hw : value? w = some i) (hx : value? x = some j) (hy : value? y = some k)
    (hz : value? z = some l) :
    decodeGroups (w :: x :: y :: z :: rest) =
      (decodeGroups rest).map fun bytes =>
        firstByte i j :: secondByte j k :: thirdByte k l :: bytes := by
  have hyne : y ≠ '=' := by
    rintro rfl
    cases hy
  have hzne : z ≠ '=' := by
    rintro rfl
    cases hz
  rw [decodeGroups]
  · simp only [hw, hx, hy, hz]
    cases decodeGroups rest <;> rfl
  · exact fun h _ => absurd h hyne
  · exact fun h _ => absurd h hzne

theorem decodeGroups_encode (bytes : Bytes) :
    decodeGroups (encode bytes) = some bytes := by
  induction bytes using encode.induct with
  | case1 => rfl
  | case2 a =>
      have ha := a.toNat_lt
      have hfirst := firstByte_eq a 0
      rw [UInt8.toNat_zero, Nat.zero_div, Nat.add_zero] at hfirst
      simp only [encode, decodeGroups, value?_digit (n := a.toNat / 4) (by omega),
        value?_digit (n := a.toNat % 4 * 16) (by omega)]
      exact congrArg (fun x => some [x]) hfirst
  | case3 a b =>
      have ha := a.toNat_lt
      have hb := b.toNat_lt
      have hsecond := secondByte_eq a b 0
      rw [UInt8.toNat_zero, Nat.zero_div, Nat.add_zero] at hsecond
      have hne := (digit_ne (n := b.toNat % 16 * 4) (by omega)).1
      rw [encode, decodeGroups]
      · simp only [value?_digit (n := a.toNat / 4) (by omega),
          value?_digit (n := a.toNat % 4 * 16 + b.toNat / 16) (by omega),
          value?_digit (n := b.toNat % 16 * 4) (by omega)]
        change some [_, _] = _
        rw [firstByte_eq, hsecond]
      · exact hne
  | case4 a b c rest ih =>
      have ha := a.toNat_lt
      have hb := b.toNat_lt
      have hc := c.toNat_lt
      rw [encode, decodeGroups_cons _ (value?_digit (by omega))
        (value?_digit (by omega)) (value?_digit (by omega))
        (value?_digit (by omega)), ih, firstByte_eq, secondByte_eq,
        thirdByte_eq]
      rfl

theorem mem_encode {bytes : Bytes} {c : Char} (h : c ∈ encode bytes) :
    c = '=' ∨ ∃ n < 64, c = digit n := by
  induction bytes using encode.induct with
  | case1 => cases h
  | case2 a =>
      have ha := a.toNat_lt
      simp only [encode, List.mem_cons, List.not_mem_nil, or_false] at h
      rcases h with rfl | rfl | rfl | rfl
      · exact .inr ⟨_, by omega, rfl⟩
      · exact .inr ⟨_, by omega, rfl⟩
      · exact .inl rfl
      · exact .inl rfl
  | case3 a b =>
      have ha := a.toNat_lt
      have hb := b.toNat_lt
      simp only [encode, List.mem_cons, List.not_mem_nil, or_false] at h
      rcases h with rfl | rfl | rfl | rfl
      · exact .inr ⟨_, by omega, rfl⟩
      · exact .inr ⟨_, by omega, rfl⟩
      · exact .inr ⟨_, by omega, rfl⟩
      · exact .inl rfl
  | case4 a b c rest ih =>
      have ha := a.toNat_lt
      have hb := b.toNat_lt
      have hc := c.toNat_lt
      simp only [encode, List.mem_cons] at h
      rcases h with rfl | rfl | rfl | rfl | h
      · exact .inr ⟨_, by omega, rfl⟩
      · exact .inr ⟨_, by omega, rfl⟩
      · exact .inr ⟨_, by omega, rfl⟩
      · exact .inr ⟨_, by omega, rfl⟩
      · exact ih h

/-- What is encoded is decoded to the same bytes, with a line feed behind it. -/
theorem decode_encode (bytes : Bytes) :
    decode (encode bytes ++ ['\n']) = some bytes := by
  have hfilter : (encode bytes ++ ['\n']).filter (· ≠ '\n') = encode bytes := by
    rw [List.filter_append, List.filter_eq_self.2]
    · simp
    · intro c hc
      rcases mem_encode hc with rfl | ⟨n, hn, rfl⟩
      · decide
      · exact decide_eq_true (digit_ne hn).2
  unfold decode
  rw [hfilter, decodeGroups_encode]

end Base64

end Base64
end Kelt
