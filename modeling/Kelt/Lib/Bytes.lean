import Kelt.Lib.Outcome
import Mathlib.Data.List.GetD
import Mathlib.Tactic.Common

/-!
# Reading byte strings

`byteAt` and `unpackH` read at an offset and fail where the bytes end before.
`byte` and `u16` are what they give where the bytes are long enough. A loop over
bytes that is run with too little fuel is told apart by a fault of its own.
-/

namespace Kelt

abbrev Bytes := List UInt8

section Bytes

inductive Fault where
  | structError
  | indexError
  | osError
  | outOfFuel
  deriving DecidableEq

/-- `b[i]` -/
def byteAt (b : Bytes) (i : Nat) : Except Fault UInt8 :=
  match b[i]? with
  | some x => .ok x
  | none => .error .indexError

/-- `struct.unpack("!H", b[i:i + 2])[0]` -/
def unpackH (b : Bytes) (i : Nat) : Except Fault Nat :=
  match b[i]?, b[i + 1]? with
  | some x, some y => .ok (x.toNat * 256 + y.toNat)
  | _, _ => .error .structError

def byte (b : Bytes) (i : Nat) : UInt8 :=
  b.getD i 0

def u16 (b : Bytes) (i : Nat) : Nat :=
  (byte b i).toNat * 256 + (byte b (i + 1)).toNat

def u32 (b : Bytes) (i : Nat) : Nat :=
  u16 b i * 65536 + u16 b (i + 2)

variable {b : Bytes} {i : Nat}

theorem getElem?_eq_byte (h : i < b.length) : b[i]? = some (byte b i) := by
  unfold byte
  rw [List.getD_eq_getElem _ _ h, List.getElem?_eq_getElem h]

theorem byteAt_of_lt (h : i < b.length) : byteAt b i = .ok (byte b i) := by
  unfold byteAt
  rw [getElem?_eq_byte h]

theorem byteAt_of_le (h : b.length ≤ i) : byteAt b i = .error .indexError := by
  unfold byteAt
  rw [List.getElem?_eq_none h]

theorem unpackH_of_lt (h : i + 1 < b.length) : unpackH b i = .ok (u16 b i) := by
  unfold unpackH
  rw [getElem?_eq_byte h, getElem?_eq_byte (by omega : i < b.length)]
  rfl

theorem unpackH_of_le (h : b.length ≤ i + 1) :
    unpackH b i = .error .structError := by
  unfold unpackH
  rw [List.getElem?_eq_none h]
  cases b[i]? <;> rfl

@[simp] theorem byte_drop (n : Nat) : byte (b.drop n) i = byte b (n + i) := by
  unfold byte
  rw [List.getD_eq_getElem?_getD, List.getD_eq_getElem?_getD,
    List.getElem?_drop]

theorem byte_append_left {c : Bytes} (h : i < b.length) :
    byte (b ++ c) i = byte b i := by
  unfold byte
  rw [List.getD_append _ _ _ _ h]

theorem byte_append_right (c : Bytes) (h : b.length ≤ i) :
    byte (b ++ c) i = byte c (i - b.length) := by
  unfold byte
  rw [List.getD_append_right _ _ _ _ h]

end Bytes

end Kelt
