import Kelt.Lib.Bytes
import Kelt.Lib.Framing
import Kelt.Lib.Runs
import Kelt.Logs.Follow
import Kelt.Logs.Terminal
import Mathlib.Data.List.ReduceOption

/-!
# The backlog of a log stream

With `from_start` a thread reads the log in chunks of bytes, cuts it into lines
and puts them into a bounded queue, one at a time and waiting for each, while
the stream takes them out, formats them and sends them. In every interleaving of
the two what has been sent is a beginning of the log (`isPrefix_sent`). As long as
no call fails, no `put` is given up and the browser stays, nothing blocks before
the whole log has been sent, and the run ends (`sent_all`).
-/

namespace Kelt
namespace Logs

section Reader

/-- `STREAM_PROGRESS_EVERY_N` -/
def streamProgressEveryN : Nat := 500

/-- Whether the stream still takes lines, has seen the end, or has been left. -/
inductive Mode where
  | following
  | ended
  | left
  deriving DecidableEq

/-- `batch`, `sent`, `last_ts_local` and what has been sent. -/
structure Reader where
  batch : List Text
  sent : Nat
  lastTs : Option Text
  out : List Message
  mode : Mode

/-- `_flush` -/
def Reader.flush (r : Reader) : Reader :=
  if r.batch = [] then r
  else
    { r with
      out := r.out ++ [.lines r.batch]
      sent := r.sent + r.batch.length
      batch := [] }

/-- A line of a network function is sent at once, another waits in the batch. -/
def Reader.emit (r : Reader) (line : Text) : Reader :=
  if isNfLine line then
    { r.flush with
      out := r.flush.out ++ [.lines [formatLogLine line]]
      sent := r.flush.sent + 1 }
  else { r with batch := r.batch ++ [formatLogLine line] }

def Reader.note (r : Reader) (ts : Text) : Reader :=
  if ts = [] then r else { r with lastTs := some ts }

/-- `streamed {sent} lines...` -/
def streamedNote (sent : Nat) : Text :=
  escape :: "[90m[dashboard] streamed ".toList ++ intText sent ++
    " lines...".toList ++ escape :: "[0m".toList

def Reader.progress (r : Reader) : Reader :=
  if r.sent ≠ 0 ∧ r.sent % streamProgressEveryN = 0 then
    { r.flush with out := r.flush.out ++ [.note (streamedNote r.flush.sent)] }
  else r

/-- A round of the loop of `_stream_from_start`. -/
def Reader.line (r : Reader) (line : Text) : Reader :=
  ((r.emit line).note (lineTs line)).progress

end Reader

section System

/-- `asyncio.Queue(maxsize=500)` -/
def queueSize : Nat := 500

def newline : UInt8 := 10

/-- Where the thread stands: at the next chunk, at the next line of the buffer,
waiting for its `put`, behind the loop, or at its end. -/
inductive Stage where
  | fetch
  | split
  | wait (tail : Bool)
  | finish
  | done

/-- The thread, the queue and the stream. `own` is the line the thread waits to
have put, `late` what it has given to `put` and no longer waits for. -/
structure Backlog where
  chunks : List Bytes
  buf : Bytes
  stage : Stage
  own : Option Text
  late : List (Option Text)
  queue : List (Option Text)
  cancel : Bool
  reader : Reader

/-- What happens: the thread takes a chunk, fails to, cuts a line off, goes on
after its `put`, gives it up, or comes to its end; a `put` gets its place in the
queue; the stream takes an item, fails as it sends, or is left. -/
inductive Event where
  | chunk
  | readError
  | split
  | resume
  | timeout
  | finish
  | enter
  | enterLate (i : Nat)
  | take
  | sendError (n : Nat)
  | leave

def Reader.close (r : Reader) (mode : Mode) : Reader :=
  { r with mode := mode }

/-- What the stream does with an item. -/
def Reader.item (r : Reader) : Option Text → Reader
  | none => r.flush.close .ended
  | some line => r.line line

variable (decode : Bytes → Text)

/-- The next chunk, or the rest of the buffer where there is none. -/
def Backlog.fetch (s : Backlog) : Backlog :=
  match s.chunks with
  | c :: chunks =>
      if s.cancel then { s with chunks := chunks, stage := .finish }
      else
        { s with chunks := chunks, buf := s.buf ++ c, stage := .split }
  | [] =>
      if s.buf ≠ [] ∧ s.cancel = false then
        { s with own := some (decode s.buf), stage := .wait true }
      else { s with stage := .finish }

/-- `raw, buf = buf.split(b"\n", 1)` -/
def Backlog.cut (s : Backlog) : Backlog :=
  if newline ∈ s.buf then
    { s with
      own := some (decode (s.buf.takeWhile (· != newline)))
      buf := (s.buf.dropWhile (· != newline)).tail
      stage := .wait false }
  else { s with stage := .fetch }

/-- The next step, if it can be taken. -/
def Backlog.step (s : Backlog) : Event → Option Backlog
  | .chunk =>
      match s.stage with
      | .fetch => some (s.fetch decode)
      | _ => none
  | .readError =>
      match s.stage with
      | .fetch => some { s with stage := .finish }
      | _ => none
  | .split =>
      match s.stage with
      | .split => some (s.cut decode)
      | _ => none
  | .resume =>
      match s.stage, s.own with
      | .wait tail, none =>
          some { s with stage := if tail then .finish else .split }
      | _, _ => none
  | .timeout =>
      match s.stage with
      | .wait tail =>
          some { s with
            late := s.late ++ s.own.toList.map some
            own := none
            cancel := s.cancel || !tail
            stage := .finish }
      | _ => none
  | .finish =>
      match s.stage with
      | .finish => some { s with late := s.late ++ [none], stage := .done }
      | _ => none
  | .enter =>
      match s.own with
      | some line =>
          if s.queue.length < queueSize then
            some { s with queue := s.queue ++ [some line], own := none }
          else none
      | none => none
  | .enterLate i =>
      match s.late[i]? with
      | some item =>
          if s.queue.length < queueSize then
            some { s with queue := s.queue ++ [item], late := s.late.eraseIdx i }
          else none
      | none => none
  | .take =>
      match s.queue with
      | item :: queue =>
          if s.reader.mode = .following then
            some { s with
              queue := queue
              reader := s.reader.item item
              cancel := s.cancel || item.isNone }
          else none
      | [] => none
  | .sendError n =>
      match s.queue with
      | item :: queue =>
          if s.reader.mode = .following then
            some { s with
              queue := queue
              reader :=
                { s.reader.item item with
                  out := (s.reader.item item).out.take (s.reader.out.length + n)
                  mode := .left }
              cancel := true }
          else none
      | [] => none
  | .leave =>
      if s.reader.mode = .following then
        some { s with reader := s.reader.close .left, cancel := true }
      else none

def backlogStart (chunks : List Bytes) : Backlog where
  chunks := chunks
  buf := []
  stage := .fetch
  own := none
  late := []
  queue := []
  cancel := false
  reader := ⟨[], 0, none, [], .following⟩

end System

section Taken

variable {r : Reader} {taken : List Text}

/-- Every remark tells how many lines have been sent before it. -/
def NotesTrue (out : List Message) : Prop :=
  ∀ pre text post, out = pre ++ .note text :: post →
    text = streamedNote (sentLines pre).length

/-- What is known of the stream after these lines. -/
structure Reader.Sound (r : Reader) (taken : List Text) : Prop where
  total : sentLines r.out ++ r.batch = taken.map formatLogLine
  sent : r.sent = (sentLines r.out).length
  lastTs : r.lastTs =
    ((taken.map lineTs).filter fun ts => !ts.isEmpty).getLast?
  notes : NotesTrue r.out

theorem NotesTrue.lines {out : List Message} (h : NotesTrue out)
    (batch : List Text) : NotesTrue (out ++ [.lines batch]) := by
  intro pre text post hout
  rcases List.eq_nil_or_concat' post with rfl | ⟨post, last, rfl⟩
  · have hlast := (List.append_inj' hout rfl).2
    cases hlast
  · rw [← List.cons_append, ← List.append_assoc] at hout
    exact h pre text post (List.append_inj' hout rfl).1

theorem NotesTrue.note {out : List Message} (h : NotesTrue out) :
    NotesTrue (out ++ [.note (streamedNote (sentLines out).length)]) := by
  intro pre text post hout
  rcases List.eq_nil_or_concat' post with rfl | ⟨post, last, rfl⟩
  · obtain ⟨rfl, hnote⟩ := List.append_inj' hout rfl
    cases hnote
    rfl
  · rw [← List.cons_append, ← List.append_assoc] at hout
    exact h pre text post (List.append_inj' hout rfl).1

theorem NotesTrue.of_prefix {out out' : List Message} (h : NotesTrue out)
    (hout : out' <+: out) : NotesTrue out' := by
  obtain ⟨more, rfl⟩ := hout
  intro pre text post heq
  refine h pre text (post ++ more) ?_
  rw [heq, List.append_assoc, List.cons_append]

theorem isPrefix_sentLines {out out' : List Message} (h : out' <+: out) :
    sentLines out' <+: sentLines out := by
  obtain ⟨more, rfl⟩ := h
  rw [sentLines, sentLines, List.flatMap_append]
  exact List.prefix_append _ _

theorem Reader.Sound.flush (h : r.Sound taken) :
    r.flush.Sound taken ∧ r.flush.batch = [] := by
  unfold Reader.flush
  split
  · exact ⟨h, ‹_›⟩
  · refine ⟨⟨?_, ?_, h.lastTs, h.notes.lines _⟩, rfl⟩
    · rw [sentLines_concat, List.append_nil]
      exact h.total
    · rw [sentLines_concat, List.length_append, h.sent]
      rfl

/-- What a message with the line adds, up to its timestamp. -/
theorem Reader.Sound.emit (h : r.Sound taken) (line : Text) :
    (sentLines (r.emit line).out ++ (r.emit line).batch =
        (taken ++ [line]).map formatLogLine) ∧
      (r.emit line).sent = (sentLines (r.emit line).out).length ∧
      (r.emit line).lastTs = r.lastTs ∧ NotesTrue (r.emit line).out := by
  unfold Reader.emit
  split
  · obtain ⟨hflush, hbatch⟩ := h.flush
    have htotal := hflush.total
    rw [hbatch, List.append_nil] at htotal
    refine ⟨?_, ?_, ?_, hflush.notes.lines _⟩
    · dsimp only
      rw [hbatch, sentLines_concat, htotal, List.append_nil, List.map_append]
      rfl
    · dsimp only
      rw [sentLines_concat, List.length_append, hflush.sent]
      rfl
    · exact hflush.lastTs.trans h.lastTs.symm
  · refine ⟨?_, h.sent, rfl, h.notes⟩
    dsimp only
    rw [← List.append_assoc, h.total, List.map_append]
    rfl

theorem Reader.Sound.line (h : r.Sound taken) (line : Text) :
    (r.line line).Sound (taken ++ [line]) := by
  obtain ⟨htotal, hsent, hts, hnotes⟩ := h.emit line
  have hnote : ((r.emit line).note (lineTs line)).Sound (taken ++ [line]) := by
    unfold Reader.note
    split
    · rename_i hnil
      refine ⟨htotal, hsent, ?_, hnotes⟩
      rw [hts, h.lastTs, List.map_append, List.filter_append]
      simp [hnil]
    · rename_i hne
      refine ⟨htotal, hsent, ?_, hnotes⟩
      simp [List.filter_append, hne]
  unfold Reader.line Reader.progress
  split
  · obtain ⟨hflush, -⟩ := hnote.flush
    refine ⟨?_, ?_, hflush.lastTs, ?_⟩
    · dsimp only
      rw [sentLines_concat]
      simpa [Message.sent] using hflush.total
    · dsimp only
      rw [sentLines_concat]
      simpa [Message.sent] using hflush.sent
    · dsimp only
      rw [hflush.sent]
      exact hflush.notes.note
  · exact hnote

theorem Reader.mode_flush (r : Reader) : r.flush.mode = r.mode := by
  unfold Reader.flush
  split <;> rfl

theorem Reader.mode_line (r : Reader) (line : Text) :
    (r.line line).mode = r.mode := by
  have hemit : (r.emit line).mode = r.mode := by
    unfold Reader.emit
    split
    · exact r.mode_flush
    · rfl
  have hnote : ((r.emit line).note (lineTs line)).mode = r.mode := by
    unfold Reader.note
    split <;> exact hemit
  unfold Reader.line Reader.progress
  split
  · exact (Reader.mode_flush _).trans hnote
  · exact hnote

end Taken

section Flow

variable {decode : Bytes → Text} {calm : Prop} {all taken : List Text}
variable {s s' : Backlog}

/-- The lines of the log. -/
def logLines (decode : Bytes → Text) (bytes : Bytes) : List Text :=
  (pieces newline bytes).map decode

/-- The lines the thread has not yet cut off. -/
def Backlog.rest (decode : Bytes → Text) (s : Backlog) : List Text :=
  match s.stage with
  | .wait true | .finish | .done => []
  | _ => logLines decode (s.buf ++ s.chunks.flatten)

/-- The lines that are on their way to the queue. -/
def Backlog.pending (s : Backlog) : List Text :=
  s.own.toList ++ s.late.reduceOption

/-- The thread is past its loop. -/
def Stage.isOver : Stage → Prop
  | .finish | .done => True
  | _ => False

/-- Which `put`s there can be where. -/
structure Backlog.Shape (calm : Prop) (s : Backlog) : Prop where
  own : s.own ≠ none → ∃ tail, s.stage = .wait tail
  late : s.late ≠ [] → s.stage.isOver
  fetched : s.stage = .fetch → newline ∉ s.buf
  once : s.pending.length ≤ 1
  mark : none ∈ s.late → s.stage = .done
  calm : calm → s.late.reduceOption = []

/-- What has been taken, what is in the queue, on its way to it and not yet cut
off is the log, up to what is lost once the thread has stopped. Behind the end
mark nothing counts. -/
structure Backlog.Flow (decode : Bytes → Text) (calm : Prop)
    (all taken : List Text) (s : Backlog) : Prop where
  before : none ∉ s.queue → ∃ lost,
    taken ++ beforeEnd s.queue ++ s.pending ++ s.rest decode ++ lost = all ∧
      (lost ≠ [] → s.stage.isOver) ∧ (calm → lost = []) ∧
      (s.stage = .done → none ∈ s.late)
  behind : none ∈ s.queue → s.stage = .done ∧
    taken ++ beforeEnd s.queue <+: all ∧
      (calm → taken ++ beforeEnd s.queue = all)

/-- No call fails, no `put` is given up, and the browser stays. -/
def Event.isCalm : Event → Bool
  | .readError | .timeout | .sendError _ | .leave => false
  | _ => true

/-- A step of the thread before its end. -/
theorem Backlog.Flow.move (h : s.Flow decode calm all taken)
    (dropped : List Text) (hstage : s.stage ≠ .done)
    (hqueue : s'.queue = s.queue)
    (hsame : s.pending ++ s.rest decode =
      s'.pending ++ s'.rest decode ++ dropped)
    (hdropped : dropped ≠ [] → s'.stage.isOver ∧ ¬ calm)
    (hover : s.stage.isOver → s'.stage.isOver)
    (hmark : s'.stage = .done → none ∈ s'.late) :
    s'.Flow decode calm all taken := by
  refine ⟨fun hq => ?_, fun hq => ?_⟩
  · rw [hqueue] at hq ⊢
    obtain ⟨lost, heq, hlost, hcalm, -⟩ := h.before hq
    refine ⟨dropped ++ lost, ?_, fun hne => ?_, fun hc => ?_, hmark⟩
    · rw [← heq, List.append_assoc _ s.pending, hsame]
      simp only [List.append_assoc]
    · by_cases hd : dropped = []
      · subst hd
        exact hover (hlost (by simpa using hne))
      · exact (hdropped hd).1
    · rw [hcalm hc, List.append_nil]
      by_contra hd
      exact (hdropped hd).2 hc
  · rw [hqueue] at hq
    exact absurd (h.behind hq).1 hstage

/-- Nothing is on its way where the thread does not wait. -/
theorem Backlog.Shape.idle (h : s.Shape calm) (hstage : ¬ s.stage.isOver)
    (hwait : ∀ tail, s.stage ≠ .wait tail) :
    s.own = none ∧ s.late = [] ∧ s.pending = [] := by
  have hown : s.own = none := by
    by_contra hne
    obtain ⟨tail, htail⟩ := h.own hne
    exact hwait tail htail
  have hlate : s.late = [] := by
    by_contra hne
    exact hstage (h.late hne)
  rw [Backlog.pending, hown, hlate]
  exact ⟨rfl, rfl, rfl⟩

/-- What a step of the thread keeps, while the stream still takes lines. -/
def Backlog.Keeps (decode : Bytes → Text) (calm : Prop) (s s' : Backlog) :
    Prop :=
  s'.Shape calm ∧ ∀ {all taken}, (calm → s.cancel = false) →
    s.Flow decode calm all taken → s'.Flow decode calm all taken

/-- With no `put` given up. -/
theorem Backlog.shape_of_late (hlate : s.late = [])
    (hown : s.own ≠ none → ∃ tail, s.stage = .wait tail)
    (hfetched : s.stage = .fetch → newline ∉ s.buf) : s.Shape calm := by
  refine ⟨hown, fun h => absurd hlate h, hfetched, ?_, ?_, ?_⟩
  · rw [Backlog.pending, hlate]
    cases s.own <;> simp
  · simp [hlate]
  · simp [hlate]

theorem Backlog.fetch_keeps (hshape : s.Shape calm) (hstage : s.stage = .fetch) :
    s.Keeps decode calm (s.fetch decode) := by
  obtain ⟨hown, hlate, hpending⟩ := hshape.idle (by rw [hstage]; exact id)
    (by rw [hstage]; exact fun _ h => nomatch h)
  have hdone : s.stage ≠ .done := by rw [hstage]; exact fun h => nomatch h
  have hover : s.stage.isOver → False := by rw [hstage]; exact id
  unfold Backlog.fetch
  split
  · rename_i c chunks hchunks
    have hrest : s.rest decode =
        logLines decode (s.buf ++ (c ++ chunks.flatten)) := by
      rw [Backlog.rest, hstage, hchunks, List.flatten_cons]
    split
    · rename_i hc
      refine ⟨shape_of_late hlate (fun h => absurd hown h) nofun,
        fun hcancel hflow => hflow.move (s.rest decode) hdone rfl ?_ ?_
          (fun h => (hover h).elim) nofun⟩
      · simp [Backlog.pending, Backlog.rest]
      · intro _
        refine ⟨trivial, fun h => ?_⟩
        rw [hcancel h] at hc
        cases hc
    · refine ⟨shape_of_late hlate (fun h => absurd hown h) nofun,
        fun hcancel hflow => hflow.move [] hdone rfl ?_ (fun h => absurd rfl h)
          (fun h => (hover h).elim) nofun⟩
      rw [hrest, ← List.append_assoc s.buf, List.append_nil]
      rfl
  · rename_i hchunks
    have hrest : s.rest decode = logLines decode s.buf := by
      rw [Backlog.rest, hstage, hchunks, List.flatten_nil, List.append_nil]
    rw [logLines, pieces_rest (hshape.fetched hstage)] at hrest
    split
    · rename_i hbuf
      refine ⟨shape_of_late hlate (fun _ => ⟨true, rfl⟩) nofun,
        fun hcancel hflow => hflow.move [] hdone rfl ?_ (fun h => absurd rfl h)
          (fun h => (hover h).elim) nofun⟩
      rw [hpending, hrest, if_neg hbuf.1]
      simp [Backlog.pending, Backlog.rest, hlate]
    · rename_i hbuf
      refine ⟨shape_of_late hlate (fun h => absurd hown h) nofun,
        fun hcancel hflow => hflow.move (s.rest decode) hdone rfl ?_ ?_
          (fun h => (hover h).elim) nofun⟩
      · simp [Backlog.pending, Backlog.rest]
      · intro hne
        refine ⟨trivial, fun h => hbuf ⟨fun hnil => hne ?_, hcancel h⟩⟩
        rw [hrest, if_pos hnil]
        rfl

theorem Backlog.cut_keeps (hshape : s.Shape calm) (hstage : s.stage = .split) :
    s.Keeps decode calm (s.cut decode) := by
  obtain ⟨hown, hlate, hpending⟩ := hshape.idle (by rw [hstage]; exact id)
    (by rw [hstage]; exact fun _ h => nomatch h)
  have hdone : s.stage ≠ .done := by rw [hstage]; exact fun h => nomatch h
  have hover : s.stage.isOver → False := by rw [hstage]; exact id
  have hrest : s.rest decode = logLines decode (s.buf ++ s.chunks.flatten) := by
    rw [Backlog.rest, hstage]
  unfold Backlog.cut
  split
  · rename_i hmem
    refine ⟨shape_of_late hlate (fun _ => ⟨false, rfl⟩) nofun,
      fun _ hflow => hflow.move [] hdone rfl ?_ (fun h => absurd rfl h)
        (fun h => (hover h).elim) nofun⟩
    rw [hpending, hrest, List.append_nil]
    conv_lhs => rw [← takeWhile_append_cons hmem]
    rw [List.append_assoc, List.cons_append, logLines,
      pieces_append_cons (notMem_takeWhile _ _)]
    simp [Backlog.pending, Backlog.rest, hlate, logLines]
  · rename_i hmem
    refine ⟨shape_of_late hlate (fun h => absurd hown h) fun _ => hmem,
      fun _ hflow => hflow.move [] hdone rfl ?_ (fun h => absurd rfl h)
        (fun h => (hover h).elim) nofun⟩
    rw [hrest, List.append_nil]
    rfl

/-- The thread goes on after its `put`. -/
theorem Backlog.resume_keeps {tail : Bool} (hshape : s.Shape calm)
    (hstage : s.stage = .wait tail) (hown : s.own = none) :
    s.Keeps decode calm
      { s with stage := if tail then .finish else .split } := by
  have hdone : s.stage ≠ .done := by rw [hstage]; exact fun h => nomatch h
  have hover : s.stage.isOver → False := by rw [hstage]; exact id
  have hlate : s.late = [] := by
    by_contra hne
    exact hover (hshape.late hne)
  refine ⟨shape_of_late hlate (fun h => absurd hown h) ?_,
    fun _ hflow => hflow.move [] hdone rfl ?_ (fun h => absurd rfl h)
      (fun h => (hover h).elim) ?_⟩
  · cases tail <;> exact nofun
  · cases tail <;> simp [Backlog.pending, Backlog.rest, hstage]
  · cases tail <;> exact nofun

/-- The thread gives its `put` up. -/
theorem Backlog.timeout_keeps {tail cancel : Bool} (hshape : s.Shape calm)
    (hstage : s.stage = .wait tail) (hnot : ¬ calm) :
    s.Keeps decode calm
      { s with
        late := s.late ++ s.own.toList.map some
        own := none
        cancel := cancel
        stage := .finish } := by
  have hdone : s.stage ≠ .done := by rw [hstage]; exact fun h => nomatch h
  have hover : s.stage.isOver → False := by rw [hstage]; exact id
  have hlate : s.late = [] := by
    by_contra hne
    exact hover (hshape.late hne)
  refine ⟨⟨nofun, fun _ => trivial, nofun, ?_, ?_, fun h => absurd h hnot⟩,
    fun _ hflow => hflow.move (s.rest decode) hdone rfl ?_
      (fun _ => ⟨trivial, hnot⟩) (fun h => (hover h).elim) nofun⟩
  · cases hown : s.own <;> simp [Backlog.pending, hlate]
  · simp [hlate]
  · cases hown : s.own <;> simp [Backlog.pending, Backlog.rest, hlate, hown]

/-- The end mark is on its way. -/
theorem Backlog.finish_keeps (hshape : s.Shape calm)
    (hstage : s.stage = .finish) :
    s.Keeps decode calm
      { s with late := s.late ++ [none], stage := .done } := by
  have hdone : s.stage ≠ .done := by rw [hstage]; exact fun h => nomatch h
  have hown : s.own = none := by
    by_contra hne
    obtain ⟨tail, htail⟩ := hshape.own hne
    rw [hstage] at htail
    cases htail
  have honce := hshape.once
  have hmark : (s.late ++ [none]).reduceOption = s.late.reduceOption := by
    simp [List.reduceOption_append]
  refine ⟨⟨fun h => absurd hown h, fun _ => trivial, nofun, ?_, fun _ => rfl,
    fun h => hmark.trans (hshape.calm h)⟩, fun _ hflow =>
      hflow.move [] hdone rfl ?_ (fun h => absurd rfl h) (fun _ => trivial)
        (fun _ => ?_)⟩
  · simpa [Backlog.pending, hmark] using honce
  · simp [Backlog.pending, Backlog.rest, hstage, hmark]
  · simp

/-- The line the thread waits for gets its place. -/
theorem Backlog.enter_keeps {line : Text} (hshape : s.Shape calm)
    (hown : s.own = some line) :
    s.Keeps decode calm
      { s with queue := s.queue ++ [some line], own := none } := by
  obtain ⟨tail, htail⟩ := hshape.own (by rw [hown]; exact Option.some_ne_none _)
  have hlate : s.late = [] := by
    by_contra hne
    have hover := hshape.late hne
    rw [htail] at hover
    exact hover
  refine ⟨shape_of_late hlate (fun h => absurd rfl h) hshape.fetched,
    fun _ hflow => ?_⟩
  have hq : none ∉ s.queue := by
    intro hmem
    have hdone := (hflow.behind hmem).1
    rw [htail] at hdone
    cases hdone
  refine ⟨fun _ => ?_, fun hmem => ?_⟩
  · obtain ⟨lost, heq, hlost, hcalm, hmark⟩ := hflow.before hq
    refine ⟨lost, ?_, hlost, hcalm, hmark⟩
    rw [← heq, beforeEnd_append_of_notMem hq]
    simp [Backlog.pending, Backlog.rest, hlate, hown, beforeEnd]
  · simp [hq] at hmem

/-- What the thread no longer waits for gets its place. -/
theorem Backlog.enterLate_keeps {i : Nat} {item : Option Text}
    (hshape : s.Shape calm) (hitem : s.late[i]? = some item) :
    s.Keeps decode calm
      { s with queue := s.queue ++ [item], late := s.late.eraseIdx i } := by
  obtain ⟨pre, post, hsplit, herase⟩ : ∃ pre post,
      s.late = pre ++ item :: post ∧ s.late.eraseIdx i = pre ++ post := by
    obtain ⟨hi, hget⟩ := List.getElem?_eq_some_iff.1 hitem
    refine ⟨s.late.take i, s.late.drop (i + 1), ?_,
      List.eraseIdx_eq_take_drop_succ _ _⟩
    rw [← hget, List.cons_getElem_drop_succ, List.take_append_drop]
  have hover : s.stage.isOver := hshape.late (by rw [hsplit]; simp)
  have hown : s.own = none := by
    by_contra hne
    obtain ⟨tail, htail⟩ := hshape.own hne
    rw [htail] at hover
    exact hover
  have hrest : s.rest decode = [] := by
    unfold Backlog.rest
    cases hstage : s.stage with
    | finish => rfl
    | done => rfl
    | fetch | split | wait tail =>
        rw [hstage] at hover
        exact hover.elim
  have honce := hshape.once
  rw [Backlog.pending, hown, hsplit] at honce
  have hmark := hshape.mark
  have hcalm := hshape.calm
  rw [hsplit] at hmark hcalm
  rw [herase]
  refine ⟨⟨fun h => absurd hown h, fun _ => hover, hshape.fetched, ?_,
    fun h => hmark ?_, fun h => ?_⟩, fun _ hflow => ?_⟩
  · rw [Backlog.pending, hown]
    cases item <;> simp [List.reduceOption_append] at honce ⊢ <;> omega
  · rw [List.mem_append] at h
    rcases h with h | h <;> simp [h]
  · have hnil := hcalm h
    rw [List.reduceOption_append, List.append_eq_nil_iff] at hnil ⊢
    refine ⟨hnil.1, ?_⟩
    cases item with
    | none => exact hnil.2
    | some line => exact absurd hnil.2 (List.cons_ne_nil _ _)
  · cases item with
    | none =>
        have hdone : s.stage = .done := hmark (by simp)
        refine ⟨fun h => absurd (by simp) h, fun _ => ⟨hdone, ?_⟩⟩
        by_cases hq : none ∈ s.queue
        · dsimp only
          rw [beforeEnd_append_of_mem hq]
          exact (hflow.behind hq).2
        · obtain ⟨lost, heq, -, hlost, -⟩ := hflow.before hq
          dsimp only
          rw [beforeEnd_append_of_notMem hq]
          refine ⟨⟨s.pending ++ s.rest decode ++ lost, ?_⟩, fun h => ?_⟩
          · rw [← heq]
            simp [beforeEnd]
          · have hpending : s.pending = [] := by
              rw [Backlog.pending, hown, hshape.calm h]
              rfl
            rw [← heq, hlost h, hrest, hpending]
            simp [beforeEnd]
    | some line =>
        refine ⟨fun h => ?_, fun h => ?_⟩
        · have hq : none ∉ s.queue := fun hq => h (List.mem_append_left _ hq)
          obtain ⟨lost, heq, hlost, hcalm, hdone⟩ := hflow.before hq
          refine ⟨lost, ?_, hlost, hcalm, fun h => ?_⟩
          · rw [List.reduceOption_append, List.reduceOption_cons_of_some]
              at honce
            have hnil : pre.reduceOption = [] ∧ post.reduceOption = [] := by
              simp only [Option.toList_none, List.nil_append,
                List.length_append, List.length_cons] at honce
              constructor <;> rw [← List.length_eq_zero_iff] <;> omega
            rw [← heq, beforeEnd_append_of_notMem hq]
            simp [Backlog.pending, Backlog.rest, hown, hsplit, hnil, beforeEnd,
              List.reduceOption_append]
          · have hmem := hdone h
            rw [hsplit] at hmem
            simpa using hmem
        · have hq : none ∈ s.queue := by simpa using h
          dsimp only
          rw [beforeEnd_append_of_mem hq]
          exact hflow.behind hq

/-- The thread's part of a state, and the stream's. -/
structure Backlog.Inv (decode : Bytes → Text) (calm : Prop) (all : List Text)
    (s : Backlog) : Prop where
  shape : s.Shape calm
  following : s.reader.mode = .following → ∃ taken, s.reader.Sound taken ∧
    s.Flow decode calm all taken ∧ (calm → s.cancel = false)
  stopped : s.reader.mode ≠ .following → ∃ taken, taken <+: all ∧
    sentLines s.reader.out <+: taken.map formatLogLine ∧
    NotesTrue s.reader.out
  stays : calm → s.reader.mode ≠ .left
  ended : calm → s.reader.mode = .ended →
    s.reader.Sound all ∧ s.reader.batch = []

/-- A step of the thread or of a `put`. -/
theorem Backlog.Inv.of_thread (h : s.Inv decode calm all)
    (hreader : s'.reader = s.reader) (hcancel : calm → s'.cancel = s.cancel)
    (hkeeps : s.Keeps decode calm s') : s'.Inv decode calm all := by
  refine ⟨hkeeps.1, fun hmode => ?_, ?_, ?_, ?_⟩
  · rw [hreader] at hmode ⊢
    obtain ⟨taken, hsound, htaken, hfalse⟩ := h.following hmode
    exact ⟨taken, hsound, hkeeps.2 hfalse htaken,
      fun hc => (hcancel hc).trans (hfalse hc)⟩
  · rw [hreader]
    exact h.stopped
  · rw [hreader]
    exact h.stays
  · rw [hreader]
    exact h.ended

/-- What has been taken is a beginning of the log, with the next item too. -/
theorem Backlog.Flow.item {item : Option Text} {queue : List (Option Text)}
    (h : s.Flow decode calm all taken) (hsound : s.reader.Sound taken)
    (hqueue : s.queue = item :: queue) :
    ∃ taken', (s.reader.item item).Sound taken' ∧ taken' <+: all := by
  cases item with
  | none =>
      obtain ⟨-, hprefix, -⟩ := h.behind (by rw [hqueue]; simp)
      rw [hqueue, beforeEnd, List.append_nil] at hprefix
      obtain ⟨hflush, -⟩ := hsound.flush
      exact ⟨taken, ⟨hflush.total, hflush.sent, hflush.lastTs, hflush.notes⟩,
        hprefix⟩
  | some line =>
      refine ⟨taken ++ [line], hsound.line line, ?_⟩
      have hnext : taken ++ [line] <+: taken ++ beforeEnd s.queue := by
        rw [hqueue, beforeEnd]
        exact ⟨beforeEnd queue, by simp⟩
      by_cases hmem : none ∈ s.queue
      · exact hnext.trans (h.behind hmem).2.1
      · obtain ⟨lost, heq, -⟩ := h.before hmem
        refine hnext.trans ⟨s.pending ++ s.rest decode ++ lost, ?_⟩
        rw [← heq]
        simp only [List.append_assoc]

/-- The stream takes an item. -/
theorem Backlog.Inv.take {item : Option Text} {queue : List (Option Text)}
    (h : s.Inv decode calm all) (hqueue : s.queue = item :: queue)
    (hmode : s.reader.mode = .following) :
    { s with
      queue := queue
      reader := s.reader.item item
      cancel := s.cancel || item.isNone }.Inv decode calm all := by
  obtain ⟨taken, hsound, hflow, hcancel⟩ := h.following hmode
  have hshape : { s with
      queue := queue
      reader := s.reader.item item
      cancel := s.cancel || item.isNone }.Shape calm :=
    ⟨h.shape.own, h.shape.late, h.shape.fetched, h.shape.once, h.shape.mark,
      h.shape.calm⟩
  cases item with
  | none =>
      obtain ⟨-, hprefix, hall⟩ := hflow.behind (by rw [hqueue]; simp)
      rw [hqueue, beforeEnd, List.append_nil] at hprefix hall
      obtain ⟨hflush, hbatch⟩ := hsound.flush
      have htotal := hflush.total
      rw [hbatch, List.append_nil] at htotal
      refine ⟨hshape, fun hm => (by cases hm),
        fun _ => ⟨taken, hprefix, ?_, hflush.notes⟩, fun _ hm => (by cases hm),
        fun hc _ => ⟨?_, hbatch⟩⟩
      · rw [← htotal]
        exact List.prefix_rfl
      · rw [← hall hc]
        exact ⟨hflush.total, hflush.sent, hflush.lastTs, hflush.notes⟩
  | some line =>
      have hline : (s.reader.line line).mode = .following :=
        (s.reader.mode_line line).trans hmode
      refine ⟨hshape, fun _ => ⟨taken ++ [line], hsound.line line,
        ⟨fun hq => ?_, fun hq => ?_⟩, fun hc => ?_⟩, fun hne => absurd hline hne,
        fun _ hleft => ?_, fun _ hended => ?_⟩
      · have hmem : none ∉ s.queue := by
          rw [hqueue]
          simpa using hq
        obtain ⟨lost, heq, hrest⟩ := hflow.before hmem
        refine ⟨lost, ?_, hrest⟩
        rw [← heq, hqueue, beforeEnd]
        simp [Backlog.pending, Backlog.rest]
      · have hmem : none ∈ s.queue := by
          rw [hqueue]
          exact List.mem_cons_of_mem _ hq
        obtain ⟨hdone, hprefix, hall⟩ := hflow.behind hmem
        rw [hqueue, beforeEnd] at hprefix hall
        simpa using ⟨hdone, hprefix, hall⟩
      · simpa using hcancel hc
      · rw [show (s.reader.item (some line)).mode = _ from hline] at hleft
        cases hleft
      · rw [show (s.reader.item (some line)).mode = _ from hline] at hended
        cases hended

/-- The stream fails as it sends what an item gives. -/
theorem Backlog.Inv.sendError {item : Option Text} {queue : List (Option Text)}
    {n : Nat} (h : s.Inv decode calm all) (hqueue : s.queue = item :: queue)
    (hmode : s.reader.mode = .following) (hnot : ¬ calm) :
    { s with
      queue := queue
      reader :=
        { s.reader.item item with
          out := (s.reader.item item).out.take (s.reader.out.length + n)
          mode := .left }
      cancel := true }.Inv decode calm all := by
  obtain ⟨taken, hsound, hflow, -⟩ := h.following hmode
  have hshape : { s with
      queue := queue
      reader :=
        { s.reader.item item with
          out := (s.reader.item item).out.take (s.reader.out.length + n)
          mode := .left }
      cancel := true }.Shape calm :=
    ⟨h.shape.own, h.shape.late, h.shape.fetched, h.shape.once, h.shape.mark,
      h.shape.calm⟩
  obtain ⟨taken', hsound', hprefix⟩ := hflow.item hsound hqueue
  refine ⟨hshape, nofun, fun _ => ⟨taken', hprefix, ?_, ?_⟩,
    fun hc => absurd hc hnot, fun hc => absurd hc hnot⟩
  · rw [← hsound'.total]
    exact (isPrefix_sentLines (List.take_prefix _ _)).trans
      (List.prefix_append _ _)
  · exact hsound'.notes.of_prefix (List.take_prefix _ _)

/-- The browser goes away. -/
theorem Backlog.Inv.leave (h : s.Inv decode calm all)
    (hmode : s.reader.mode = .following) (hnot : ¬ calm) :
    { s with reader := s.reader.close .left, cancel := true }.Inv decode calm
      all := by
  obtain ⟨taken, hsound, hflow, -⟩ := h.following hmode
  have hprefix : taken <+: all := by
    by_cases hmem : none ∈ s.queue
    · exact (List.prefix_append _ _).trans (hflow.behind hmem).2.1
    · obtain ⟨lost, heq, -⟩ := hflow.before hmem
      rw [← heq]
      simp only [List.append_assoc]
      exact List.prefix_append _ _
  refine ⟨⟨h.shape.own, h.shape.late, h.shape.fetched, h.shape.once,
    h.shape.mark, h.shape.calm⟩, nofun, fun _ => ⟨taken, hprefix, ?_,
    hsound.notes⟩, fun hc => absurd hc hnot, fun hc => absurd hc hnot⟩
  rw [← hsound.total]
  exact List.prefix_append _ _

theorem Backlog.frame_fetch (s : Backlog) :
    (s.fetch decode).reader = s.reader ∧ (s.fetch decode).cancel = s.cancel := by
  unfold Backlog.fetch
  split <;> split <;> exact ⟨rfl, rfl⟩

theorem Backlog.frame_cut (s : Backlog) :
    (s.cut decode).reader = s.reader ∧ (s.cut decode).cancel = s.cancel := by
  unfold Backlog.cut
  split <;> exact ⟨rfl, rfl⟩

/-- A read that fails leaves what the stream has. -/
theorem Backlog.readError_keeps (hshape : s.Shape calm)
    (hstage : s.stage = .fetch) (hnot : ¬ calm) :
    s.Keeps decode calm { s with stage := .finish } := by
  obtain ⟨hown, hlate, -⟩ := hshape.idle (by rw [hstage]; exact id)
    (by rw [hstage]; exact fun _ h => nomatch h)
  have hdone : s.stage ≠ .done := by rw [hstage]; exact fun h => nomatch h
  refine ⟨shape_of_late hlate (fun h => absurd hown h) nofun, fun _ hflow =>
    hflow.move (s.rest decode) hdone rfl ?_ (fun _ => ⟨trivial, hnot⟩)
      (fun _ => trivial) nofun⟩
  simp [Backlog.pending, Backlog.rest]

theorem Backlog.Inv.step {e : Event} (h : s.Inv decode calm all)
    (hcalm : calm → e.isCalm = true) (hs : s.step decode e = some s') :
    s'.Inv decode calm all := by
  cases e with
  | chunk =>
      simp only [Backlog.step] at hs
      split at hs
      · obtain rfl := Option.some.inj hs
        rename_i hstage
        exact h.of_thread s.frame_fetch.1 (fun _ => s.frame_fetch.2)
          (fetch_keeps h.shape hstage)
      · cases hs
  | readError =>
      simp only [Backlog.step] at hs
      split at hs
      · obtain rfl := Option.some.inj hs
        rename_i hstage
        have hnot : ¬ calm := fun hc => absurd (hcalm hc) (by decide)
        exact h.of_thread rfl (fun _ => rfl) (readError_keeps h.shape hstage hnot)
      · cases hs
  | split =>
      simp only [Backlog.step] at hs
      split at hs
      · obtain rfl := Option.some.inj hs
        rename_i hstage
        exact h.of_thread s.frame_cut.1 (fun _ => s.frame_cut.2)
          (cut_keeps h.shape hstage)
      · cases hs
  | resume =>
      simp only [Backlog.step] at hs
      split at hs
      · obtain rfl := Option.some.inj hs
        rename_i tail hstage hown
        exact h.of_thread rfl (fun _ => rfl) (resume_keeps h.shape hstage hown)
      · cases hs
  | timeout =>
      simp only [Backlog.step] at hs
      split at hs
      · obtain rfl := Option.some.inj hs
        rename_i tail hstage
        have hnot : ¬ calm := fun hc => absurd (hcalm hc) (by decide)
        exact h.of_thread rfl (fun hc => absurd hc hnot)
          (timeout_keeps h.shape hstage hnot)
      · cases hs
  | finish =>
      simp only [Backlog.step] at hs
      split at hs
      · obtain rfl := Option.some.inj hs
        rename_i hstage
        exact h.of_thread rfl (fun _ => rfl) (finish_keeps h.shape hstage)
      · cases hs
  | enter =>
      simp only [Backlog.step] at hs
      split at hs
      · rename_i line hown
        obtain ⟨-, hs⟩ := Option.ite_none_right_eq_some.1 hs
        obtain rfl := Option.some.inj hs
        exact h.of_thread rfl (fun _ => rfl) (enter_keeps h.shape hown)
      · cases hs
  | enterLate i =>
      simp only [Backlog.step] at hs
      split at hs
      · rename_i item hitem
        obtain ⟨-, hs⟩ := Option.ite_none_right_eq_some.1 hs
        obtain rfl := Option.some.inj hs
        exact h.of_thread rfl (fun _ => rfl) (enterLate_keeps h.shape hitem)
      · cases hs
  | take =>
      simp only [Backlog.step] at hs
      split at hs
      · rename_i item queue hqueue
        obtain ⟨hmode, hs⟩ := Option.ite_none_right_eq_some.1 hs
        obtain rfl := Option.some.inj hs
        exact h.take hqueue hmode
      · cases hs
  | sendError n =>
      simp only [Backlog.step] at hs
      split at hs
      · rename_i item queue hqueue
        obtain ⟨hmode, hs⟩ := Option.ite_none_right_eq_some.1 hs
        obtain rfl := Option.some.inj hs
        exact h.sendError hqueue hmode fun hc => absurd (hcalm hc) nofun
      · cases hs
  | leave =>
      obtain ⟨hmode, hs⟩ := Option.ite_none_right_eq_some.1 hs
      obtain rfl := Option.some.inj hs
      exact h.leave hmode fun hc => absurd (hcalm hc) (by decide)

theorem Backlog.inv_start (chunks : List Bytes) :
    (backlogStart chunks).Inv decode calm (logLines decode chunks.flatten) := by
  refine ⟨shape_of_late rfl (fun h => absurd rfl h) (fun _ => nofun),
    fun _ => ⟨[], ⟨rfl, rfl, rfl, fun pre _ _ h => ?_⟩, ⟨fun _ => ⟨[], ?_,
      nofun, fun _ => rfl, nofun⟩, nofun⟩, fun _ => rfl⟩,
    fun h => absurd rfl h, fun _ => nofun, fun _ => nofun⟩
  · cases pre <;> cases h
  · simp [Backlog.rest, Backlog.pending, backlogStart, beforeEnd]

end Flow

section Ends

variable {decode : Bytes → Text} {s s' : Backlog}

def Stage.weight (chunks : Nat) : Stage → Nat
  | .fetch => 2 * chunks + 4
  | .split => 2 * chunks + 5
  | .wait false => 2 * chunks + 6
  | .wait true => 4
  | .finish => 3
  | .done => 0

def Mode.weight : Mode → Nat
  | .following => 1
  | _ => 0

/-- More than the steps that are left. -/
def Backlog.weight (decode : Bytes → Text) (s : Backlog) : Nat :=
  s.stage.weight s.chunks.length + 4 * (s.rest decode).length +
    2 * s.own.toList.length + 2 * s.late.length + s.queue.length +
    s.reader.mode.weight

theorem Reader.weight_item (r : Reader) (item : Option Text) :
    (r.item item).mode.weight ≤ r.mode.weight := by
  cases item with
  | none => exact Nat.zero_le _
  | some line => exact (congrArg _ (r.mode_line line)).le

theorem Backlog.weight_fetch (hshape : s.Shape False)
    (hstage : s.stage = .fetch) :
    (s.fetch decode).weight decode < s.weight decode := by
  unfold Backlog.fetch
  split
  · rename_i c chunks hchunks
    have hcount : s.chunks.length = chunks.length + 1 := by rw [hchunks]; rfl
    have hbytes : s.buf ++ s.chunks.flatten = s.buf ++ c ++ chunks.flatten := by
      rw [hchunks, List.flatten_cons, List.append_assoc]
    split <;>
      simp only [Backlog.weight, hbytes, hstage, hcount, Stage.weight,
        Backlog.rest, List.length_nil] <;> omega
  · rename_i hchunks
    have hcount : s.chunks.length = 0 := by rw [hchunks]; rfl
    obtain ⟨hown, -⟩ := hshape.idle (by rw [hstage]; exact id)
      (by rw [hstage]; exact fun _ h => nomatch h)
    split
    · rename_i hbuf
      have hlines : (logLines decode (s.buf ++ s.chunks.flatten)).length = 1 := by
        rw [hchunks, List.flatten_nil, List.append_nil, logLines,
          pieces_rest (hshape.fetched hstage), if_neg hbuf.1]
        rfl
      simp only [Backlog.weight, hlines, hstage, hcount, hown, Stage.weight,
        Backlog.rest, List.length_nil, List.length_cons, Option.toList_some,
        Option.toList_none]
      omega
    · simp only [Backlog.weight, hstage, hcount, Stage.weight, Backlog.rest,
        List.length_nil]
      omega

theorem Backlog.weight_cut (hshape : s.Shape False)
    (hstage : s.stage = .split) :
    (s.cut decode).weight decode < s.weight decode := by
  unfold Backlog.cut
  split
  · rename_i hmem
    obtain ⟨hown, -⟩ := hshape.idle (by rw [hstage]; exact id)
      (by rw [hstage]; exact fun _ h => nomatch h)
    have hlines : (logLines decode (s.buf ++ s.chunks.flatten)).length =
        (logLines decode ((s.buf.dropWhile (· != newline)).tail ++
          s.chunks.flatten)).length + 1 := by
      conv_lhs => rw [← takeWhile_append_cons hmem]
      rw [List.append_assoc, List.cons_append, logLines,
        pieces_append_cons (notMem_takeWhile _ _)]
      rfl
    simp only [Backlog.weight, hlines, hstage, hown, Stage.weight, Backlog.rest,
      List.length_cons, Option.toList_some, Option.toList_none,
      List.length_nil]
    omega
  · simp only [Backlog.weight, hstage, Stage.weight, Backlog.rest]
    omega

/-- Every step is one of the last. -/
theorem Backlog.weight_step {e : Event} (hshape : s.Shape False)
    (hs : s.step decode e = some s') : s'.weight decode < s.weight decode := by
  cases e with
  | chunk =>
      simp only [Backlog.step] at hs
      split at hs
      · obtain rfl := Option.some.inj hs
        exact weight_fetch hshape ‹_›
      · cases hs
  | readError =>
      simp only [Backlog.step] at hs
      split at hs
      · obtain rfl := Option.some.inj hs
        rename_i hstage
        simp only [Backlog.weight, hstage, Stage.weight, Backlog.rest,
          List.length_nil]
        omega
      · cases hs
  | split =>
      simp only [Backlog.step] at hs
      split at hs
      · obtain rfl := Option.some.inj hs
        exact weight_cut hshape ‹_›
      · cases hs
  | resume =>
      simp only [Backlog.step] at hs
      split at hs
      · obtain rfl := Option.some.inj hs
        rename_i tail hstage hown
        cases tail <;>
          simp [Backlog.weight, hstage, Stage.weight, Backlog.rest]
      · cases hs
  | timeout =>
      simp only [Backlog.step] at hs
      split at hs
      · obtain rfl := Option.some.inj hs
        rename_i tail hstage
        cases tail <;>
          simp [Backlog.weight, hstage, Stage.weight, Backlog.rest] <;> omega
      · cases hs
  | finish =>
      simp only [Backlog.step] at hs
      split at hs
      · obtain rfl := Option.some.inj hs
        rename_i hstage
        simp [Backlog.weight, hstage, Stage.weight, Backlog.rest]
        omega
      · cases hs
  | enter =>
      simp only [Backlog.step] at hs
      split at hs
      · rename_i line hown
        obtain ⟨-, hs⟩ := Option.ite_none_right_eq_some.1 hs
        obtain rfl := Option.some.inj hs
        simp [Backlog.weight, hown, Backlog.rest]
        omega
      · cases hs
  | enterLate i =>
      simp only [Backlog.step] at hs
      split at hs
      · rename_i item hitem
        obtain ⟨-, hs⟩ := Option.ite_none_right_eq_some.1 hs
        obtain rfl := Option.some.inj hs
        obtain ⟨hi, -⟩ := List.getElem?_eq_some_iff.1 hitem
        have hlength := List.length_eraseIdx_add_one hi
        simp [Backlog.weight, Backlog.rest]
        omega
      · cases hs
  | take =>
      simp only [Backlog.step] at hs
      split at hs
      · rename_i item queue hqueue
        obtain ⟨-, hs⟩ := Option.ite_none_right_eq_some.1 hs
        obtain rfl := Option.some.inj hs
        have hmode := s.reader.weight_item item
        simp [Backlog.weight, hqueue, Backlog.rest]
        omega
      · cases hs
  | sendError n =>
      simp only [Backlog.step] at hs
      split at hs
      · rename_i item queue hqueue
        obtain ⟨-, hs⟩ := Option.ite_none_right_eq_some.1 hs
        obtain rfl := Option.some.inj hs
        simp [Backlog.weight, hqueue, Backlog.rest, Mode.weight]
        omega
      · cases hs
  | leave =>
      obtain ⟨hmode, hs⟩ := Option.ite_none_right_eq_some.1 hs
      obtain rfl := Option.some.inj hs
      simp [Backlog.weight, hmode, Backlog.rest, Mode.weight, Reader.close]

/-- What a run keeps, and how long it can be. -/
theorem Backlog.run {calm : Prop} {all : List Text} {events : List Event}
    (h : s.Inv decode calm all) (hcalm : calm → ∀ e ∈ events, e.isCalm = true)
    (hexec : exec (Backlog.step decode) s events = some s') :
    s'.Inv decode calm all ∧
      events.length + s'.weight decode ≤ s.weight decode := by
  induction events generalizing s with
  | nil =>
      obtain rfl := Option.some.inj hexec
      exact ⟨h, (Nat.zero_add _).le⟩
  | cons e events ih =>
      rw [exec] at hexec
      cases hs : s.step decode e with
      | none =>
          rw [hs] at hexec
          cases hexec
      | some t =>
          rw [hs] at hexec
          have ht := h.step (fun hc => hcalm hc e List.mem_cons_self) hs
          obtain ⟨hinv, hlength⟩ :=
            ih ht (fun hc e he => hcalm hc e (List.mem_cons_of_mem _ he)) hexec
          have hshape := h.shape
          have hweight := weight_step ⟨hshape.own, hshape.late,
            hshape.fetched, hshape.once, hshape.mark, False.elim⟩ hs
          refine ⟨hinv, ?_⟩
          rw [List.length_cons]
          omega

/-- Only at its end does the thread not go on by itself. -/
theorem Backlog.done_of_stuck (h : ∀ e, s.step decode e = none) :
    s.stage = .done := by
  cases hstage : s.stage with
  | done => rfl
  | fetch =>
      have hchunk := h .chunk
      simp [Backlog.step, hstage] at hchunk
  | split =>
      have hsplit := h .split
      simp [Backlog.step, hstage] at hsplit
  | wait tail =>
      have htimeout := h .timeout
      simp [Backlog.step, hstage] at htimeout
  | finish =>
      have hfinish := h .finish
      simp [Backlog.step, hstage] at hfinish

/-- A stream that still takes lines can get one, or the thread can go on. -/
theorem Backlog.Inv.ended_of_stuck {all : List Text} (h : s.Inv decode True all)
    (hstuck : ∀ e : Event, e.isCalm = true → s.step decode e = none) :
    s.reader.mode = .ended := by
  cases hmode : s.reader.mode with
  | ended => rfl
  | left => exact absurd hmode (h.stays trivial)
  | following =>
      exfalso
      obtain ⟨taken, -, hflow, -⟩ := h.following hmode
      have hqueue : s.queue = [] := by
        cases hqueue : s.queue with
        | nil => rfl
        | cons item queue =>
            have htake := hstuck .take rfl
            simp [Backlog.step, hqueue, hmode] at htake
      have hown : s.own = none := by
        cases hown : s.own with
        | none => rfl
        | some line =>
            have henter := hstuck .enter rfl
            simp [Backlog.step, hown, hqueue, queueSize] at henter
      cases hstage : s.stage with
      | done =>
          obtain ⟨lost, -, -, -, hmark⟩ := hflow.before (by rw [hqueue]; simp)
          obtain ⟨i, hi⟩ := List.mem_iff_getElem?.1 (hmark hstage)
          have henter := hstuck (.enterLate i) rfl
          simp [Backlog.step, hi, hqueue, queueSize] at henter
      | fetch =>
          have hchunk := hstuck .chunk rfl
          simp [Backlog.step, hstage] at hchunk
      | split =>
          have hsplit := hstuck .split rfl
          simp [Backlog.step, hstage] at hsplit
      | wait tail =>
          have hresume := hstuck .resume rfl
          simp [Backlog.step, hstage, hown] at hresume
      | finish =>
          have hfinish := hstuck .finish rfl
          simp [Backlog.step, hstage] at hfinish

/-- The lines on their way to the browser are a beginning of the log. -/
theorem Backlog.Inv.sent {calm : Prop} {all : List Text}
    (h : s.Inv decode calm all) :
    sentLines s.reader.out <+: all.map formatLogLine ∧
      NotesTrue s.reader.out := by
  by_cases hmode : s.reader.mode = .following
  · obtain ⟨taken, hsound, hflow, -⟩ := h.following hmode
    refine ⟨?_, hsound.notes⟩
    have hout : sentLines s.reader.out <+: taken.map formatLogLine := by
      rw [← hsound.total]
      exact List.prefix_append _ _
    refine hout.trans (List.IsPrefix.map _ ?_)
    by_cases hmem : none ∈ s.queue
    · exact (List.prefix_append _ _).trans (hflow.behind hmem).2.1
    · obtain ⟨lost, heq, -⟩ := hflow.before hmem
      rw [← heq]
      simp only [List.append_assoc]
      exact List.prefix_append _ _
  · obtain ⟨taken, hbegin, hout, hnotes⟩ := h.stopped hmode
    exact ⟨hout.trans (hbegin.map _), hnotes⟩

/-- However the thread and the stream take turns and whatever fails: what has
been sent is a beginning of the log, every remark tells how many lines were sent
before it, and the run is not longer than the log allows. Where nothing can
happen any more the thread is at its end. -/
theorem Backlog.isPrefix_sent (decode : Bytes → Text) (chunks : List Bytes)
    (events : List Event) (s : Backlog)
    (h : exec (Backlog.step decode) (backlogStart chunks) events = some s) :
    sentLines s.reader.out <+:
        (logLines decode chunks.flatten).map formatLogLine ∧
      NotesTrue s.reader.out ∧
      events.length ≤ 2 * chunks.length +
        4 * (logLines decode chunks.flatten).length + 5 ∧
      ((∀ e, s.step decode e = none) → s.stage = .done) := by
  have hinit : (backlogStart chunks).Inv decode False
      (logLines decode chunks.flatten) := inv_start chunks
  obtain ⟨hinv, hlength⟩ := Backlog.run hinit False.elim h
  refine ⟨hinv.sent.1, hinv.sent.2, ?_, Backlog.done_of_stuck⟩
  have hstart : (backlogStart chunks).weight decode = 2 * chunks.length +
      4 * (logLines decode chunks.flatten).length + 5 := by
    simp [Backlog.weight, backlogStart, Stage.weight, Backlog.rest,
      Mode.weight]
    omega
  omega

/-- Bytes as characters. -/
def latin (bytes : Bytes) : Text :=
  bytes.map fun b => Char.ofNat b.toNat

/-- Where a `put` is given up the end mark can come before its line. -/
theorem Backlog.isPrefix_sent_timeout :
    ∃ s, exec (Backlog.step latin) (backlogStart [[0x61, 0x0a], [0x62]])
        [.chunk, .split, .timeout, .finish, .enterLate 1, .take] = some s ∧
      sentLines s.reader.out <+:
        (logLines latin [0x61, 0x0a, 0x62]).map formatLogLine := by
  refine ⟨_, rfl, ?_⟩
  exact (isPrefix_sent latin [[0x61, 0x0a], [0x62]]
    [.chunk, .split, .timeout, .finish, .enterLate 1, .take] _ rfl).1

/-- What the follow loop starts with: `last_ts` and `sent_count`. -/
def Reader.handOver (r : Reader) : Option Text × Nat :=
  match r.lastTs with
  | none => (some [], 1)
  | some ts => (some ts, 0)

theorem Reader.Sound.starts {r : Reader} {log : List Line}
    (h : r.Sound (log.map Line.raw)) :
    Starts log r.handOver.1 r.handOver.2 := by
  have hts : ((log.map Line.raw).map lineTs).filter (fun ts => !ts.isEmpty) =
      log.map Line.ts := by
    rw [List.map_map, List.filter_eq_self.2]
    · exact List.map_congr_left fun l _ => l.lineTs_append l.msg
    · intro ts hmem
      obtain ⟨l, -, rfl⟩ := List.mem_map.1 hmem
      have hl : lineTs l.raw = l.ts := l.lineTs_append l.msg
      simpa [hl] using l.ts_ne
  have hlast := h.lastTs
  rw [hts, List.getLast?_map] at hlast
  cases hlog : log.getLast? with
  | none =>
      rw [hlog] at hlast
      rw [Reader.handOver, hlast]
      exact .inr (.inl ⟨rfl, rfl⟩)
  | some l =>
      rw [hlog] at hlast
      rw [Reader.handOver, hlast]
      exact .inr (.inr ⟨l, List.mem_of_getLast? hlog, rfl, rfl⟩)

/-- A log of two lines, the second without an end. -/
def quietRun : List Event :=
  [.chunk, .split, .enter, .resume, .split, .take, .chunk, .split, .chunk,
    .enter, .resume, .finish, .enterLate 0, .take, .take]

end Ends

section Clean

variable {decode : Bytes → Text} {chunks : List Bytes} {r : Reader}

/-- Nothing that has been sent or waits to be harms the terminal. -/
structure Reader.IsClean (r : Reader) : Prop where
  out : ∀ m ∈ r.out, Clean m.text
  batch : ∀ t ∈ r.batch, Clean t

theorem Reader.IsClean.flush (h : r.IsClean) : r.flush.IsClean := by
  unfold Reader.flush
  split
  · exact h
  · refine ⟨?_, nofun⟩
    simp only [List.forall_mem_append, List.forall_mem_singleton]
    exact ⟨h.out, clean_intercalate h.batch⟩

theorem isPlain_of_isDigit {c : Char} (h : c.isDigit = true) :
    isPlain c = true := by
  have hc : 48 ≤ c.toNat ∧ c.toNat ≤ 57 := by
    simpa [Char.isDigit, UInt32.le_iff_toNat_le] using h
  simp only [isPlain, Bool.or_eq_true, Bool.and_eq_true, decide_eq_true_eq,
    bne_iff_ne]
  omega

theorem clean_streamedNote (n : Nat) : Clean (streamedNote n) := by
  have hgrey : Clean (escape :: "[90m[dashboard] streamed ".toList) :=
    @Clean.csi "90".toList 'm' "[dashboard] streamed ".toList (by decide)
      (by decide) (clean_of_isPlain (by decide))
  have hcount : Clean (intText n) := by
    rw [intText, if_neg (by omega)]
    exact clean_of_isPlain fun c hc =>
      isPlain_of_isDigit
        (Nat.isDigit_of_mem_toDigits (by decide) (by decide) hc)
  have hreset : Clean (escape :: "[0m".toList) :=
    @Clean.csi "0".toList 'm' [] (by decide) (by decide) .nil
  exact ((hgrey.append hcount).append (clean_of_isPlain (by decide))).append
    hreset

theorem Reader.IsClean.line (h : r.IsClean) (line : Text) :
    (r.line line).IsClean := by
  have hemit : (r.emit line).IsClean := by
    unfold Reader.emit
    split
    · refine ⟨?_, h.flush.batch⟩
      simp only [List.forall_mem_append, List.forall_mem_singleton]
      refine ⟨h.flush.out, clean_intercalate ?_⟩
      simpa using clean_formatLogLine line
    · refine ⟨h.out, ?_⟩
      simp only [List.forall_mem_append, List.forall_mem_singleton]
      exact ⟨h.batch, clean_formatLogLine line⟩
  have hnote : ((r.emit line).note (lineTs line)).IsClean := by
    unfold Reader.note
    split
    · exact hemit
    · exact ⟨hemit.out, hemit.batch⟩
  unfold Reader.line Reader.progress
  split
  · refine ⟨?_, hnote.flush.batch⟩
    simp only [List.forall_mem_append, List.forall_mem_singleton]
    exact ⟨hnote.flush.out, clean_streamedNote _⟩
  · exact hnote

theorem Reader.IsClean.item (h : r.IsClean) (item : Option Text) :
    (r.item item).IsClean := by
  cases item with
  | none => exact ⟨h.flush.out, h.flush.batch⟩
  | some line => exact h.line line

/-- The thread does not touch what the stream has. -/
def Event.isThread : Event → Bool
  | .take | .sendError _ | .leave => false
  | _ => true

theorem Backlog.reader_of_thread {s s' : Backlog} {e : Event}
    (he : e.isThread = true) (hs : s.step decode e = some s') :
    s'.reader = s.reader := by
  cases e with
  | take | sendError n | leave => cases he
  | chunk =>
      simp only [Backlog.step] at hs
      split at hs
      · obtain rfl := Option.some.inj hs
        exact s.frame_fetch.1
      · cases hs
  | split =>
      simp only [Backlog.step] at hs
      split at hs
      · obtain rfl := Option.some.inj hs
        exact s.frame_cut.1
      · cases hs
  | enter | enterLate i =>
      simp only [Backlog.step] at hs
      split at hs
      · obtain ⟨-, hs⟩ := Option.ite_none_right_eq_some.1 hs
        obtain rfl := Option.some.inj hs
        rfl
      · cases hs
  | readError | resume | timeout | finish =>
      simp only [Backlog.step] at hs
      split at hs
      · obtain rfl := Option.some.inj hs
        rfl
      · cases hs

end Clean

end Logs
end Kelt
