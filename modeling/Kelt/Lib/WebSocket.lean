import Kelt.Lib.Bytes
import Mathlib.Algebra.Order.Ring.Nat
import Mathlib.Data.Nat.Bits

/-!
# WebSocket frames

A frame is its opcode, whether it is the last of its message, and a payload
whose length is written in 7, 16 or 64 bits. A message is sent as one frame or
several; ping and pong frames, which are short and never divided, may stand
between them.

The frames are those of a server: their payload is not masked.
-/

namespace Kelt
namespace WebSocket

section BigEndian

/-- The value of big-endian bytes. -/
def ofBigEndian (b : Bytes) : ℕ :=
  b.foldl (fun n x => n * 256 + x.toNat) 0

/-- A number in `k` big-endian bytes. -/
def toBigEndian : ℕ → ℕ → Bytes
  | 0, _ => []
  | k + 1, n => toBigEndian k (n / 256) ++ [UInt8.ofNat n]

@[simp] theorem length_toBigEndian (k n : ℕ) : (toBigEndian k n).length = k := by
  induction k generalizing n with
  | zero => rfl
  | succ k ih => rw [toBigEndian, List.length_append, ih, List.length_singleton]

theorem ofBigEndian_toBigEndian {k n : ℕ} (h : n < 256 ^ k) :
    ofBigEndian (toBigEndian k n) = n := by
  induction k generalizing n with
  | zero =>
      rw [pow_zero] at h
      rw [Nat.lt_one_iff.1 h]
      rfl
  | succ k ih =>
      have hdiv : n / 256 < 256 ^ k := by
        rw [Nat.div_lt_iff_lt_mul (by decide), ← pow_succ]
        exact h
      have hlast : (UInt8.ofNat n).toNat = n % 256 := rfl
      have hinit := ih hdiv
      unfold ofBigEndian at hinit ⊢
      rw [toBigEndian, List.foldl_append, hinit, List.foldl_cons,
        List.foldl_nil, hlast]
      omega

end BigEndian

section Frame

inductive Opcode where
  | continuation
  | text
  | binary
  | close
  | ping
  | pong
  deriving DecidableEq

def Opcode.code : Opcode → UInt8
  | .continuation => 0
  | .text => 1
  | .binary => 2
  | .close => 8
  | .ping => 9
  | .pong => 10

/-- How the length of a payload is written. -/
inductive LengthForm where
  | bits7
  | bits16
  | bits64
  deriving DecidableEq

def LengthForm.bound : LengthForm → ℕ
  | .bits7 => 126
  | .bits16 => 2 ^ 16
  | .bits64 => 2 ^ 64

/-- A payload whose length fits the form it is written in. -/
structure Payload where
  bytes : Bytes
  form : LengthForm
  fits : bytes.length < form.bound

structure Frame where
  fin : Bool
  opcode : Opcode
  payload : Payload

/-- The byte of the opcode. -/
def Frame.first (f : Frame) : UInt8 :=
  (if f.fin then 0x80 else 0) ||| f.opcode.code

/-- The length in the form of the payload. -/
def Payload.header (p : Payload) : Bytes :=
  match p.form with
  | .bits7 => [UInt8.ofNat p.bytes.length]
  | .bits16 => 126 :: toBigEndian 2 p.bytes.length
  | .bits64 => 127 :: toBigEndian 8 p.bytes.length

def Frame.encode (f : Frame) : Bytes :=
  f.first :: f.payload.header ++ f.payload.bytes

end Frame

section Messages

/-- A ping or a pong: at most 125 bytes, and never divided. -/
structure Control where
  pong : Bool
  bytes : Bytes
  short : bytes.length ≤ 125

def Control.frame (c : Control) : Frame where
  fin := true
  opcode := if c.pong then .pong else .ping
  payload := ⟨c.bytes, .bits7, Nat.lt_succ_of_le c.short⟩

/-- A message as it is sent: its first fragment, and behind it control frames
before each further one. -/
structure Message where
  first : Payload
  rest : List (List Control × Payload)

def Message.bytes (m : Message) : Bytes :=
  m.first.bytes ++ (m.rest.map fun x => x.2.bytes).flatten

/-- The frames behind the first fragment; the last of them ends the message. -/
def restFrames : List (List Control × Payload) → List Frame
  | [] => []
  | (cs, p) :: rest =>
      cs.map Control.frame ++
        ⟨rest.isEmpty, .continuation, p⟩ :: restFrames rest

/-- The frames of a text message. -/
def Message.frames (m : Message) : List Frame :=
  ⟨m.rest.isEmpty, .text, m.first⟩ :: restFrames m.rest

/-- What a server sends: text messages with control frames before each, and
behind the last. -/
structure Stream where
  messages : List (List Control × Message)
  after : List Control

def Stream.frames (s : Stream) : List Frame :=
  (s.messages.flatMap fun x => x.1.map Control.frame ++ x.2.frames) ++
    s.after.map Control.frame

def Stream.texts (s : Stream) : List Bytes :=
  s.messages.map fun x => x.2.bytes

def Stream.encode (s : Stream) : Bytes :=
  s.frames.flatMap Frame.encode

end Messages

end WebSocket
end Kelt
