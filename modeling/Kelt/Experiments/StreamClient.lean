import Kelt.Lib.WebSocket
import Mathlib.Tactic.Common

/-!
# The messages of a stream client

`messages` (`exposure/stream_client.py`) reads frames from a connection and
gives each message once its last frame is there. It answers a ping and goes on,
but a pong runs through to the test for the last frame: inside a message it ends
the message, and what follows is dropped (`messages_iff`). How the bytes are cut
into reads does not matter (`yields_loop`).

The times of receipt are left out.
-/

namespace Kelt
namespace Experiments
namespace StreamClient

open WebSocket

section Connection

/-- What one arrival brings: at least a byte. -/
structure Chunk where
  head : UInt8
  tail : Bytes

def Chunk.bytes (c : Chunk) : Bytes :=
  c.head :: c.tail

abbrev Reads := List Chunk

def bytesOf (reads : Reads) : Bytes :=
  reads.flatMap Chunk.bytes

def putBack : Bytes → Reads → Reads
  | [], rest => rest
  | x :: xs, rest => ⟨x, xs⟩ :: rest

/-- `s.recv(n)`: at most `n` bytes of what is there, and nothing once the
connection is closed. -/
def recv (n : ℕ) : Reads → Bytes × Reads
  | [] => ([], [])
  | c :: rest => (c.bytes.take n, putBack (c.bytes.drop n) rest)

/-- How the generator ends. -/
inductive Stop where
  | returned
  | connectionError
  | valueError
  | outOfFuel
  deriving DecidableEq

def recvLoop (n : ℕ) : ℕ → Bytes → Reads → Except Stop (Bytes × Reads)
  | 0, buf, reads =>
      if buf.length < n then .error .outOfFuel else .ok (buf, reads)
  | fuel + 1, buf, reads =>
      if buf.length < n then
        let (chunk, reads) := recv (n - buf.length) reads
        if chunk = [] then .error .connectionError
        else recvLoop n fuel (buf ++ chunk) reads
      else .ok (buf, reads)

/-- `recv_exact` -/
def recvExact (reads : Reads) (n : ℕ) : Except Stop (Bytes × Reads) :=
  recvLoop n n [] reads

/-- The mask that `os.urandom` gives for a frame. -/
abbrev Mask := Fin 4 → UInt8

/-- `send_frame`: the bytes of a frame, where its length fits a byte. -/
def sendFrame (mask : Mask) (opcode : UInt8) (payload : Bytes) : Option Bytes :=
  let second := 0x80 ||| payload.length
  if second < 256 then
    some ([0x80 ||| opcode, UInt8.ofNat second] ++ List.ofFn mask ++
      payload.mapIdx fun i b => b ^^^ mask (Fin.ofNat 4 i))
  else none

end Connection

section Generator

/-- `n`, from the second byte of a frame and what is read behind it. -/
def readLength (b2 : UInt8) (reads : Reads) : Except Stop (ℕ × Reads) :=
  let n := (b2 &&& 0x7F).toNat
  if n = 126 then
    (recvExact reads 2).map fun x => (ofBigEndian x.1, x.2)
  else if n = 127 then
    (recvExact reads 8).map fun x => (ofBigEndian x.1, x.2)
  else .ok (n, reads)

/-- The first byte and the data of the next frame. -/
def readFrame (reads : Reads) : Except Stop (UInt8 × Bytes × Reads) := do
  let (head, reads) ← recvExact reads 2
  let (n, reads) ← readLength (byte head 1) reads
  let (data, reads) ← recvExact reads n
  return (byte head 0, data, reads)

/-- `parts, first_op` -/
structure Pending where
  parts : List Bytes
  firstOp : Option UInt8
  deriving DecidableEq

/-- What is pending with the data of a frame. -/
def note (p : Pending) (op : UInt8) (data : Bytes) : Pending :=
  if op = 1 ∨ op = 2 then ⟨[data], some op⟩
  else if op = 0 then { p with parts := p.parts ++ [data] }
  else p

/-- What is done with a frame that is neither a ping nor a close. -/
def receive (p : Pending) (b1 : UInt8) (data : Bytes) :
    Option (UInt8 × Bytes) × Pending :=
  let p := note p (b1 &&& 0x0F) data
  match p.firstOp with
  | some first =>
      if b1 &&& 0x80 ≠ 0 then (some (first, p.parts.flatten), ⟨[], none⟩)
      else (none, p)
  | none => (none, p)

/-- What the generator does: it yields a message, or sends a frame. -/
inductive Event where
  | yielded (op : UInt8) (data : Bytes)
  | sent (frame : Bytes)
  deriving DecidableEq

def andThen (e : List Event) (r : List Event × Stop) : List Event × Stop :=
  (e ++ r.1, r.2)

/-- The loop of `messages`, after `k` frames have been sent. -/
def loop (urandom : ℕ → Mask) :
    ℕ → ℕ → Pending → Reads → List Event × Stop
  | 0, _, _, _ => ([], .outOfFuel)
  | fuel + 1, k, p, reads =>
      match readFrame reads with
      | .error e => ([], e)
      | .ok (b1, data, reads) =>
          let op := b1 &&& 0x0F
          if op = 9 then
            match sendFrame (urandom k) 10 data with
            | some f => andThen [.sent f] (loop urandom fuel (k + 1) p reads)
            | none => ([], .valueError)
          else if op = 8 then ([.yielded 8 data], .returned)
          else
            let (message, p) := receive p b1 data
            andThen (message.map fun m => .yielded m.1 m.2).toList
              (loop urandom fuel k p reads)

/-- `messages`: each frame takes two bytes at least. -/
def messages (urandom : ℕ → Mask) (reads : Reads) : List Event × Stop :=
  loop urandom ((bytesOf reads).length + 1) 0 ⟨[], none⟩ reads

def Event.message : Event → Option (UInt8 × Bytes)
  | .yielded op data => some (op, data)
  | .sent _ => none

/-- What the generator yields. -/
def yields (r : List Event × Stop) : List (UInt8 × Bytes) :=
  r.1.filterMap Event.message

end Generator

section Reading

variable {reads : Reads}

@[simp] theorem bytesOf_cons (c : Chunk) (rest : Reads) :
    bytesOf (c :: rest) = c.bytes ++ bytesOf rest :=
  rfl

@[simp] theorem bytesOf_putBack (b : Bytes) (rest : Reads) :
    bytesOf (putBack b rest) = b ++ bytesOf rest := by
  cases b with
  | nil => rfl
  | cons x xs => rfl

theorem take_drop_append (k : ℕ) (a b : Bytes) :
    (a.drop k ++ b).take (k - a.length) = b.take (k - a.length) := by
  rcases le_total k a.length with hle | hle
  · rw [Nat.sub_eq_zero_of_le hle, List.take_zero, List.take_zero]
  · rw [List.drop_eq_nil_of_le hle, List.nil_append]

theorem drop_drop_append (k : ℕ) (a b : Bytes) :
    (a.drop k ++ b).drop (k - a.length) =
      a.drop k ++ b.drop (k - a.length) := by
  rcases le_total k a.length with hle | hle
  · rw [Nat.sub_eq_zero_of_le hle, List.drop_zero, List.drop_zero]
  · rw [List.drop_eq_nil_of_le hle, List.nil_append, List.nil_append]

/-- The loop reads on until the bytes it lacks are there, or the connection is
closed before. -/
theorem recvLoop_spec {n fuel : ℕ} {buf : Bytes} (hbuf : buf.length ≤ n)
    (hfuel : n - buf.length ≤ fuel) :
    (n - buf.length ≤ (bytesOf reads).length → ∃ reads',
      recvLoop n fuel buf reads =
          .ok (buf ++ (bytesOf reads).take (n - buf.length), reads') ∧
        bytesOf reads' = (bytesOf reads).drop (n - buf.length)) ∧
    ((bytesOf reads).length < n - buf.length →
      recvLoop n fuel buf reads = .error .connectionError) := by
  induction fuel generalizing buf reads with
  | zero =>
      have hlen : ¬ buf.length < n := by omega
      have hzero : n - buf.length = 0 := by omega
      rw [recvLoop, if_neg hlen, hzero]
      exact ⟨fun _ => ⟨reads, by simp, by simp⟩, fun h => absurd h (by simp)⟩
  | succ fuel ih =>
      rw [recvLoop]
      by_cases hlt : buf.length < n
      · rw [if_pos hlt]
        cases reads with
        | nil =>
            refine ⟨fun h => ?_, fun _ => rfl⟩
            simp only [bytesOf, List.flatMap_nil, List.length_nil] at h
            omega
        | cons c rest =>
            have hne : c.bytes.take (n - buf.length) ≠ [] := by
              unfold Chunk.bytes
              obtain ⟨k, hk⟩ := Nat.exists_eq_succ_of_ne_zero
                (by omega : n - buf.length ≠ 0)
              rw [hk, List.take_succ_cons]
              exact List.cons_ne_nil _ _
            unfold recv
            dsimp only
            rw [if_neg hne]
            have hlen : (buf ++ c.bytes.take (n - buf.length)).length =
                buf.length + min (n - buf.length) c.bytes.length := by
              rw [List.length_append, List.length_take]
            have hleft : n - (buf ++ c.bytes.take (n - buf.length)).length =
                n - buf.length - c.bytes.length := by
              rw [hlen]
              omega
            have hpos : 0 < c.bytes.length := Nat.succ_pos _
            have hih := @ih (putBack (c.bytes.drop (n - buf.length)) rest)
              (buf ++ c.bytes.take (n - buf.length)) (by omega) (by omega)
            rw [hleft, bytesOf_putBack, take_drop_append, drop_drop_append,
              List.append_assoc, ← List.take_append, ← List.drop_append,
              List.length_append, List.length_drop] at hih
            rw [bytesOf_cons, List.length_append]
            exact ⟨fun h => hih.1 (by omega), fun h => hih.2 (by omega)⟩
      · have hzero : n - buf.length = 0 := by omega
        rw [if_neg hlt, hzero]
        exact ⟨fun _ => ⟨reads, by simp, by simp⟩, fun h => absurd h (by simp)⟩

/-- Bytes that are there are read, however they are cut. -/
theorem recvExact_append {b tail : Bytes} {n : ℕ}
    (h : bytesOf reads = b ++ tail) (hn : b.length = n) :
    ∃ reads', recvExact reads n = .ok (b, reads') ∧ bytesOf reads' = tail := by
  obtain ⟨reads', hok, hrest⟩ :=
    (@recvLoop_spec reads n n [] (Nat.zero_le n) (Nat.sub_le n 0)).1
      (by simp [h, hn])
  refine ⟨reads', ?_, ?_⟩
  · unfold recvExact
    rw [hok, h]
    simp [← hn]
  · rw [hrest, h]
    simp [← hn]

theorem recvExact_short {n : ℕ} (h : (bytesOf reads).length < n) :
    recvExact reads n = .error .connectionError :=
  (@recvLoop_spec reads n n [] (Nat.zero_le n) (Nat.sub_le n 0)).2
    (by simpa using h)

theorem readLength_header (p : Payload) {b2 : UInt8} {more tail : Bytes}
    (hp : p.header = b2 :: more) (h : bytesOf reads = more ++ tail) :
    ∃ reads', readLength b2 reads = .ok (p.bytes.length, reads') ∧
      bytesOf reads' = tail := by
  obtain ⟨b, form, hfits⟩ := p
  unfold readLength
  cases form with
  | bits7 =>
      obtain ⟨rfl, rfl⟩ := List.cons.inj hp
      change b.length < 126 at hfits
      have hlow : (UInt8.ofNat b.length &&& 0x7F).toNat = b.length := by
        have hlow7 := Nat.and_two_pow_sub_one_eq_mod b.length 7
        have hbyte : (UInt8.ofNat b.length).toNat = b.length :=
          Nat.mod_eq_of_lt (by omega)
        rw [UInt8.toNat_and, hbyte]
        exact hlow7.trans (Nat.mod_eq_of_lt (by omega))
      dsimp only
      rw [hlow, if_neg (by omega), if_neg (by omega)]
      exact ⟨reads, rfl, h⟩
  | bits16 =>
      obtain ⟨rfl, rfl⟩ := List.cons.inj hp
      obtain ⟨reads', hok, hrest⟩ :=
        recvExact_append h (length_toBigEndian 2 b.length)
      refine ⟨reads', ?_, hrest⟩
      dsimp only
      rw [if_pos (by decide), hok, Except.map,
        ofBigEndian_toBigEndian hfits]
  | bits64 =>
      obtain ⟨rfl, rfl⟩ := List.cons.inj hp
      obtain ⟨reads', hok, hrest⟩ :=
        recvExact_append h (length_toBigEndian 8 b.length)
      refine ⟨reads', ?_, hrest⟩
      dsimp only
      rw [if_neg (by decide), if_pos (by decide), hok, Except.map,
        ofBigEndian_toBigEndian hfits]

/-- A frame that is there is read as it was sent. -/
theorem readFrame_encode (f : Frame) {tail : Bytes}
    (h : bytesOf reads = f.encode ++ tail) :
    ∃ reads', readFrame reads = .ok (f.first, f.payload.bytes, reads') ∧
      bytesOf reads' = tail := by
  obtain ⟨b2, more, hheader⟩ : ∃ b2 more, f.payload.header = b2 :: more := by
    unfold Payload.header
    split <;> exact ⟨_, _, rfl⟩
  have hbytes : bytesOf reads =
      [f.first, b2] ++ (more ++ (f.payload.bytes ++ tail)) := by
    rw [h, Frame.encode, hheader]
    simp
  obtain ⟨reads₁, hhead, hbytes⟩ := recvExact_append hbytes rfl
  obtain ⟨reads₂, hlength, hbytes⟩ := readLength_header f.payload hheader hbytes
  obtain ⟨reads₃, hdata, hbytes⟩ := recvExact_append hbytes rfl
  refine ⟨reads₃, ?_, hbytes⟩
  unfold readFrame
  change (recvExact reads [f.first, b2].length >>= _) = _
  rw [hhead]
  change (readLength b2 reads₁ >>= _) = _
  rw [hlength]
  change (recvExact reads₂ f.payload.bytes.length >>= _) = _
  rw [hdata]
  rfl

end Reading

section Frames

/-- What is yielded at a frame, and what is pending behind it. -/
def react (p : Pending) (f : Frame) : Option (UInt8 × Bytes) × Pending :=
  if f.opcode = .ping then (none, p)
  else receive p f.first f.payload.bytes

def reactAll (p : Pending) : List Frame → List (UInt8 × Bytes) × Pending
  | [] => ([], p)
  | f :: fs =>
      ((react p f).1.toList ++ (reactAll (react p f).2 fs).1,
        (reactAll (react p f).2 fs).2)

theorem reactAll_append (p : Pending) (fs gs : List Frame) :
    reactAll p (fs ++ gs) =
      ((reactAll p fs).1 ++ (reactAll (reactAll p fs).2 gs).1,
        (reactAll (reactAll p fs).2 gs).2) := by
  induction fs generalizing p with
  | nil => rfl
  | cons f fs ih =>
      rw [List.cons_append, reactAll, ih]
      simp only [reactAll, List.append_assoc]

/-- A frame after which the generator goes on: no close, and a ping is short. -/
structure GoesOn (f : Frame) : Prop where
  notClose : f.opcode ≠ .close
  short : f.opcode = .ping → f.payload.bytes.length ≤ 125

theorem opcode_first (f : Frame) : f.first &&& 0x0F = f.opcode.code := by
  unfold Frame.first
  cases f.fin <;> cases f.opcode <;> decide

theorem fin_first (f : Frame) : f.first &&& 0x80 ≠ 0 ↔ f.fin = true := by
  unfold Frame.first
  cases f.fin <;> cases f.opcode <;> decide

theorem exists_sendFrame (mask : Mask) (opcode : UInt8) {payload : Bytes}
    (h : payload.length ≤ 125) : ∃ f, sendFrame mask opcode payload = some f := by
  have hlt : 0x80 ||| payload.length < 256 :=
    Nat.or_lt_two_pow (n := 8) (by decide) (by omega)
  unfold sendFrame
  dsimp only
  rw [if_pos hlt]
  exact ⟨_, rfl⟩

theorem yields_andThen (e : List Event) (r : List Event × Stop) :
    yields (andThen e r) = e.filterMap Event.message ++ yields r :=
  List.filterMap_append

/-- The loop does with the next frame what `react` says, whatever reads bring
it. -/
theorem yields_loop_frame (urandom : ℕ → Mask) {fuel k : ℕ} {p : Pending}
    {reads : Reads} {f : Frame} (hf : GoesOn f) {tail : Bytes}
    (h : bytesOf reads = f.encode ++ tail) :
    ∃ k' reads', bytesOf reads' = tail ∧
      yields (loop urandom (fuel + 1) k p reads) =
        (react p f).1.toList ++
          yields (loop urandom fuel k' (react p f).2 reads') := by
  obtain ⟨reads', hread, hbytes⟩ := readFrame_encode f h
  rw [loop, hread]
  dsimp only
  rw [opcode_first]
  unfold react
  by_cases hping : f.opcode = .ping
  · obtain ⟨pong, hpong⟩ := exists_sendFrame (urandom k) 10 (hf.short hping)
    refine ⟨k + 1, reads', hbytes, ?_⟩
    rw [if_pos hping, hping, if_pos (by rfl), hpong]
    exact yields_andThen _ _
  · have hnine : f.opcode.code ≠ 9 := by
      intro hcode
      cases hop : f.opcode <;> simp_all [Opcode.code]
    have height : f.opcode.code ≠ 8 := by
      intro hcode
      have := hf.notClose
      cases hop : f.opcode <;> simp_all [Opcode.code]
    refine ⟨k, reads', hbytes, ?_⟩
    rw [if_neg hping, if_neg hnine, if_neg height, yields_andThen]
    cases (receive p f.first f.payload.bytes).1 <;> rfl

theorem yields_loop_nil (urandom : ℕ → Mask) {fuel k : ℕ} {p : Pending}
    {reads : Reads} (h : bytesOf reads = []) :
    yields (loop urandom fuel k p reads) = [] := by
  cases fuel with
  | zero => rfl
  | succ fuel =>
      have hshort := @recvExact_short reads 2 (by rw [h]; exact Nat.succ_pos 1)
      have hread : readFrame reads = .error .connectionError := by
        unfold readFrame
        rw [hshort]
        rfl
      rw [loop, hread]
      rfl

/-- What is yielded depends on the frames alone, not on how their bytes are cut
into reads. -/
theorem yields_loop (urandom : ℕ → Mask) {frames : List Frame}
    (hframes : ∀ f ∈ frames, GoesOn f) {fuel k : ℕ} {p : Pending}
    {reads : Reads} (h : bytesOf reads = frames.flatMap Frame.encode)
    (hfuel : frames.length ≤ fuel) :
    yields (loop urandom fuel k p reads) = (reactAll p frames).1 := by
  induction frames generalizing fuel k p reads with
  | nil => exact yields_loop_nil urandom h
  | cons f fs ih =>
      obtain ⟨n, rfl⟩ := Nat.exists_eq_add_of_le' hfuel
      rw [List.forall_mem_cons] at hframes
      rw [List.length_cons, ← Nat.add_assoc]
      obtain ⟨k', reads', hbytes, hloop⟩ :=
        yields_loop_frame urandom hframes.1 h
      rw [hloop, ih hframes.2 hbytes (Nat.le_add_left _ _)]
      rfl

end Frames

section Messages

variable {p : Pending}

theorem note_text (data : Bytes) :
    note p Opcode.text.code data = ⟨[data], some 1⟩ := by
  unfold note
  rw [if_pos (.inl (by rfl))]
  rfl

theorem note_continuation (data : Bytes) :
    note p Opcode.continuation.code data =
      ⟨p.parts ++ [data], p.firstOp⟩ := by
  unfold note
  rw [if_neg (by decide), if_pos (by rfl)]

theorem note_pong (data : Bytes) : note p Opcode.pong.code data = p := by
  unfold note
  rw [if_neg (by decide), if_neg (by decide)]

theorem receive_frame (f : Frame) :
    receive p f.first f.payload.bytes =
      match (note p f.opcode.code f.payload.bytes).firstOp with
      | some op =>
          if f.fin then
            (some (op, (note p f.opcode.code f.payload.bytes).parts.flatten),
              ⟨[], none⟩)
          else (none, note p f.opcode.code f.payload.bytes)
      | none => (none, note p f.opcode.code f.payload.bytes) := by
  unfold receive
  simp only [opcode_first, fin_first]

theorem react_text (fin : Bool) (q : Payload) :
    react p ⟨fin, .text, q⟩ =
      if fin then (some (1, q.bytes), ⟨[], none⟩)
      else (none, ⟨[q.bytes], some 1⟩) := by
  unfold react
  rw [if_neg (by simp), receive_frame]
  dsimp only
  rw [note_text]
  simp

theorem react_continuation (fin : Bool) (q : Payload) :
    react p ⟨fin, .continuation, q⟩ =
      match p.firstOp with
      | some op =>
          if fin then (some (op, p.parts.flatten ++ q.bytes), ⟨[], none⟩)
          else (none, ⟨p.parts ++ [q.bytes], some op⟩)
      | none => (none, ⟨p.parts ++ [q.bytes], none⟩) := by
  unfold react
  rw [if_neg (by simp), receive_frame]
  dsimp only
  rw [note_continuation]
  cases p.firstOp <;> simp

/-- A pong is taken for the end of what is pending. -/
theorem react_control (c : Control) :
    react p c.frame =
      if c.pong then
        match p.firstOp with
        | some op => (some (op, p.parts.flatten), ⟨[], none⟩)
        | none => (none, p)
      else (none, p) := by
  obtain ⟨pong, bytes, short⟩ := c
  unfold react
  cases pong with
  | false => rfl
  | true =>
      have hop : Opcode.pong ≠ .ping := by decide
      unfold Control.frame
      dsimp only
      rw [if_pos rfl, if_neg hop, receive_frame]
      dsimp only
      rw [note_pong]
      rfl

theorem reactAll_idle (cs : List Control) (h : p.firstOp = none) :
    reactAll p (cs.map Control.frame) = ([], p) := by
  induction cs with
  | nil => rfl
  | cons c cs ih =>
      have hreact : react p c.frame = (none, p) := by
        rw [react_control, h]
        split <;> rfl
      rw [List.map_cons, reactAll, hreact, ih]
      rfl

/-- Control frames inside a message end it if there is a pong among them. -/
theorem reactAll_controls (cs : List Control) (parts : List Bytes) (op : UInt8) :
    reactAll ⟨parts, some op⟩ (cs.map Control.frame) =
      if cs.any Control.pong then ([(op, parts.flatten)], ⟨[], none⟩)
      else ([], ⟨parts, some op⟩) := by
  induction cs with
  | nil => rfl
  | cons c cs ih =>
      rw [List.map_cons, reactAll, react_control, List.any_cons]
      cases c.pong with
      | true =>
          simp only [if_true, Bool.true_or]
          rw [reactAll_idle cs rfl]
          rfl
      | false =>
          simp only [Bool.false_or, Bool.false_eq_true, if_false]
          rw [ih]
          rfl

theorem reactAll_rest_idle (rest : List (List Control × Payload))
    (h : p.firstOp = none) :
    (reactAll p (restFrames rest)).1 = [] ∧
      (reactAll p (restFrames rest)).2.firstOp = none := by
  induction rest generalizing p with
  | nil => exact ⟨rfl, h⟩
  | cons x rest ih =>
      obtain ⟨cs, q⟩ := x
      rw [restFrames, reactAll_append, reactAll_idle cs h]
      rw [reactAll, react_continuation, h]
      exact ih rfl

/-- The fragments up to the first pong. -/
def heard : List (List Control × Payload) → Bytes
  | [] => []
  | (cs, p) :: rest => if cs.any Control.pong then [] else p.bytes ++ heard rest

theorem reactAll_rest {rest : List (List Control × Payload)} (hne : rest ≠ [])
    (parts : List Bytes) (op : UInt8) :
    (reactAll ⟨parts, some op⟩ (restFrames rest)).1 =
        [(op, parts.flatten ++ heard rest)] ∧
      (reactAll ⟨parts, some op⟩ (restFrames rest)).2.firstOp = none := by
  induction rest generalizing parts with
  | nil => exact absurd rfl hne
  | cons x rest ih =>
      obtain ⟨cs, q⟩ := x
      rw [restFrames, reactAll_append, reactAll_controls, heard]
      cases hpong : cs.any Control.pong with
      | true =>
          have hidle := @reactAll_rest_idle ⟨[] ++ [q.bytes], none⟩ rest rfl
          simp only [if_true, reactAll, react_continuation, hidle.1, hidle.2,
            List.append_nil, Option.toList_none, and_self]
      | false =>
          simp only [Bool.false_eq_true, if_false, List.nil_append]
          rw [reactAll, react_continuation]
          cases rest with
          | nil => exact ⟨by simp [heard, restFrames, reactAll], rfl⟩
          | cons y rest =>
              have hih := ih (List.cons_ne_nil _ _) (parts ++ [q.bytes])
              simpa using hih

/-- A message yields one item, whatever was pending: what stands before the
first pong in it. -/
theorem reactAll_message (m : Message) (p : Pending) :
    (reactAll p m.frames).1 = [(1, m.first.bytes ++ heard m.rest)] ∧
      (reactAll p m.frames).2.firstOp = none := by
  unfold Message.frames
  rw [reactAll, react_text]
  cases hrest : m.rest with
  | nil => exact ⟨by simp [heard, restFrames, reactAll], rfl⟩
  | cons x rest =>
      have h := reactAll_rest (List.cons_ne_nil x rest) [m.first.bytes] 1
      simpa using h

theorem reactAll_messages (ms : List (List Control × Message))
    (h : p.firstOp = none) :
    (reactAll p (ms.flatMap fun x =>
        x.1.map Control.frame ++ x.2.frames)).1 =
      ms.map (fun x => (1, x.2.first.bytes ++ heard x.2.rest)) ∧
    (reactAll p (ms.flatMap fun x =>
        x.1.map Control.frame ++ x.2.frames)).2.firstOp = none := by
  induction ms generalizing p with
  | nil => exact ⟨rfl, h⟩
  | cons x ms ih =>
      obtain ⟨cs, m⟩ := x
      obtain ⟨hone, hidle⟩ := reactAll_message m p
      obtain ⟨hmany, hend⟩ := ih hidle
      rw [List.flatMap_cons, List.append_assoc, reactAll_append,
        reactAll_idle cs h, reactAll_append]
      exact ⟨by rw [hone, hmany]; rfl, hend⟩

end Messages

section Result

/-- In the message every fragment behind a pong is empty. -/
def Whole (m : Message) : Prop :=
  ∀ x rest, x :: rest <:+ m.rest → x.1.any Control.pong = true →
    ∀ y ∈ x :: rest, y.2.bytes = []

theorem heard_eq_iff (rest : List (List Control × Payload)) :
    heard rest = (rest.map fun x => x.2.bytes).flatten ↔
      ∀ x tail, x :: tail <:+ rest → x.1.any Control.pong = true →
        ∀ y ∈ x :: tail, y.2.bytes = [] := by
  induction rest with
  | nil =>
      refine iff_of_true rfl fun x tail hsuffix => ?_
      exact absurd (List.suffix_nil.1 hsuffix) (List.cons_ne_nil _ _)
  | cons x rest ih =>
      rw [heard, List.map_cons, List.flatten_cons]
      cases hpong : x.1.any Control.pong with
      | true =>
          simp only [if_true]
          constructor
          · intro h y tail hsuffix _ z hz
            have hmem : z ∈ x :: rest := hsuffix.subset hz
            have hnil := List.append_eq_nil_iff.1 h.symm
            rcases List.mem_cons.1 hmem with rfl | hmem
            · exact hnil.1
            · exact List.flatten_eq_nil_iff.1 hnil.2 _
                (List.mem_map_of_mem hmem)
          · intro h
            have hall := h x rest (List.suffix_refl _) hpong
            rw [eq_comm, List.append_eq_nil_iff]
            refine ⟨hall x List.mem_cons_self, ?_⟩
            rw [List.flatten_eq_nil_iff]
            intro b hb
            obtain ⟨y, hy, rfl⟩ := List.mem_map.1 hb
            exact hall y (List.mem_cons_of_mem _ hy)
      | false =>
          simp only [Bool.false_eq_true, if_false, List.append_cancel_left_eq]
          rw [ih]
          constructor
          · intro h y tail hsuffix hany
            rcases List.suffix_cons_iff.1 hsuffix with heq | hsuffix
            · obtain ⟨rfl, rfl⟩ := List.cons.inj heq
              rw [hpong] at hany
              cases hany
            · exact h y tail hsuffix hany
          · intro h y tail hsuffix
            exact h y tail (hsuffix.trans (List.suffix_cons x rest))

theorem goesOn_control (c : Control) : GoesOn c.frame := by
  obtain ⟨pong, bytes, short⟩ := c
  refine ⟨?_, fun _ => short⟩
  unfold Control.frame
  cases pong <;> simp

theorem goesOn_rest (rest : List (List Control × Payload)) :
    ∀ f ∈ restFrames rest, GoesOn f := by
  induction rest with
  | nil => exact fun f hf => absurd hf List.not_mem_nil
  | cons x rest ih =>
      obtain ⟨cs, q⟩ := x
      intro f hf
      rcases List.mem_append.1 hf with hf | hf
      · obtain ⟨c, -, rfl⟩ := List.mem_map.1 hf
        exact goesOn_control c
      · rcases List.mem_cons.1 hf with rfl | hf
        · exact ⟨by simp, by simp⟩
        · exact ih f hf

theorem goesOn_stream (s : Stream) : ∀ f ∈ s.frames, GoesOn f := by
  intro f hf
  rcases List.mem_append.1 hf with hf | hf
  · obtain ⟨x, -, hf⟩ := List.mem_flatMap.1 hf
    rcases List.mem_append.1 hf with hf | hf
    · obtain ⟨c, -, rfl⟩ := List.mem_map.1 hf
      exact goesOn_control c
    · rcases List.mem_cons.1 hf with rfl | hf
      · exact ⟨by simp, by simp⟩
      · exact goesOn_rest _ f hf
  · obtain ⟨c, -, rfl⟩ := List.mem_map.1 hf
    exact goesOn_control c

theorem length_le_encode (frames : List Frame) :
    frames.length ≤ (frames.flatMap Frame.encode).length := by
  induction frames with
  | nil => exact le_refl 0
  | cons f fs ih =>
      rw [List.flatMap_cons, List.length_append, List.length_cons]
      have hpos : 0 < f.encode.length := Nat.succ_pos _
      omega

/-- From a stream of text messages the client yields of each what stands before
the first pong in it. -/
theorem yields_messages (urandom : ℕ → Mask) (s : Stream) {reads : Reads}
    (h : bytesOf reads = s.encode) :
    yields (messages urandom reads) =
      s.messages.map fun x => (1, x.2.first.bytes ++ heard x.2.rest) := by
  have hfuel : s.frames.length ≤ (bytesOf reads).length + 1 := by
    rw [h]
    exact (length_le_encode s.frames).trans (Nat.le_succ _)
  obtain ⟨hmessages, hidle⟩ := @reactAll_messages ⟨[], none⟩ s.messages rfl
  unfold messages
  rw [yields_loop urandom (goesOn_stream s) h hfuel]
  unfold Stream.frames
  rw [reactAll_append, reactAll_idle s.after hidle, List.append_nil, hmessages]

/-- The client yields exactly the messages of the stream, in order, if and only
if in each message nothing comes behind a pong. -/
theorem messages_iff (urandom : ℕ → Mask) (s : Stream) {reads : Reads}
    (h : bytesOf reads = s.encode) :
    yields (messages urandom reads) = s.texts.map (fun t => (1, t)) ↔
      ∀ x ∈ s.messages, Whole x.2 := by
  rw [yields_messages urandom s h]
  unfold Stream.texts
  rw [List.map_map, List.map_inj_left]
  refine forall₂_congr fun x _ => ?_
  unfold Whole
  rw [← heard_eq_iff]
  simp [Message.bytes]

/-- Two fragments with a control frame between them. -/
def divided (pong : Bool) : Stream where
  messages := [([], ⟨⟨[91], .bits7, by decide⟩,
    [([⟨pong, [], by decide⟩], ⟨[93], .bits7, by decide⟩)]⟩)]
  after := []

/-- With a ping between them, read byte by byte. -/
theorem messages_divided :
    yields (messages (fun _ _ => 7)
      ((divided false).encode.map fun b => ⟨b, []⟩)) = [(1, [91, 93])] := by
  have hreads : bytesOf ((divided false).encode.map fun b => ⟨b, []⟩) =
      (divided false).encode := by
    decide
  refine (messages_iff (fun _ _ => 7) (divided false) hreads).2 ?_
  intro x hx
  rw [List.mem_singleton.1 hx]
  intro y rest hsuffix hpong
  rcases List.suffix_cons_iff.1 hsuffix with heq | hsuffix
  · obtain ⟨rfl, -⟩ := List.cons.inj heq
    cases hpong
  · exact absurd (List.suffix_nil.1 hsuffix) (List.cons_ne_nil _ _)

/-- With a pong between them the message ends at the first. -/
theorem not_messages_divided :
    bytesOf ((divided true).encode.map fun b => ⟨b, []⟩) =
        (divided true).encode ∧
      yields (messages (fun _ _ => 7)
        ((divided true).encode.map fun b => ⟨b, []⟩)) = [(1, [91])] ∧
      [(1, [91])] ≠ (divided true).texts.map fun t => ((1 : UInt8), t) := by
  decide

end Result

end StreamClient
end Experiments
end Kelt
