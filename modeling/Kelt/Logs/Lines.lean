import Kelt.Lib.PyInt
import Mathlib.Data.Char
import Mathlib.Data.List.Lex

/-!
# The lines of a log stream

What the follow loop makes of one answer of the log call: it strips the text,
goes over its lines, and sends those whose timestamp is after the last one sent,
consecutive lines in one message. Of an answer whose timestamps increase it
sends exactly the lines after the last one sent (`Stream.poll_lines`), unless
the last line is blank behind its timestamp: stripped, it has no timestamp.
-/

namespace Kelt
namespace Logs

section Format

def escape : Char := Char.ofNat 0x1b

def isDecimal (c : Char) : Bool :=
  (decimalValue? c).isSome

/-- `n` digits and what follows them. -/
def digits? (n : Nat) (t : Text) : Option (Text × Text) :=
  if (t.take n).length = n ∧ (t.take n).all isDecimal then
    some (t.take n, t.drop n)
  else none

def literal? (c : Char) : Text → Option Text
  | [] => none
  | x :: rest => if x = c then some rest else none

/-- At least one character of a kind. -/
def many? (p : Char → Bool) (t : Text) : Option Text :=
  if (t.takeWhile p).isEmpty then none else some (t.dropWhile p)

/-- `\d{2}:\d{2}:\d{2}` -/
def clock? (t : Text) : Option (Text × Text) := do
  let (hour, t) ← digits? 2 t
  let t ← literal? ':' t
  let (minute, t) ← digits? 2 t
  let t ← literal? ':' t
  let (second, t) ← digits? 2 t
  some (hour ++ ':' :: minute ++ ':' :: second, t)

/-- `K8S_TS_RE`: the clock, and what follows the timestamp. -/
def k8sTs? (raw : Text) : Option (Text × Text) := do
  let (_, t) ← digits? 4 raw
  let t ← literal? '-' t
  let (_, t) ← digits? 2 t
  let t ← literal? '-' t
  let (_, t) ← digits? 2 t
  let t ← literal? 'T' t
  let (clock, t) ← clock? t
  let t ← literal? '.' t
  let t ← many? isDecimal t
  let t ← literal? 'Z' t
  let t ← many? isBlank t
  some (clock, t)

/-- `\d+(?:;\d+)*m` -/
def colour? : Nat → Text → Option Text
  | 0, _ => none
  | fuel + 1, t =>
      match many? isDecimal t with
      | none => none
      | some [] => none
      | some (c :: rest) =>
          if c = 'm' then some rest
          else if c = ';' then colour? fuel rest
          else none

/-- Without the colours in front. -/
def dropColours : Nat → Text → Text
  | 0, t => t
  | fuel + 1, t =>
      match ((literal? escape t).bind (literal? '[')).bind
          (colour? t.length) with
      | some rest => dropColours fuel rest
      | none => t

/-- `APP_TS_RE` -/
def isAppTs (t : Text) : Bool :=
  (do
    let (_, t) ← digits? 2 (dropColours t.length t)
    let t ← literal? '/' t
    let (_, t) ← digits? 2 t
    let t ← many? isBlank t
    clock? t).isSome

/-- `ANSI_CSI_RE`: the sequence and what follows it. -/
def csi? (t : Text) : Option (Text × Text) := do
  let t ← literal? escape t
  let t ← literal? '[' t
  let isParam := fun (c : Char) => 0x20 ≤ c.toNat && c.toNat ≤ 0x3f
  match t.dropWhile isParam with
  | [] => none
  | c :: rest =>
      if 0x40 ≤ c.toNat ∧ c.toNat ≤ 0x7e then
        some (escape :: '[' :: (t.takeWhile isParam ++ [c]), rest)
      else none

/-- The loop of `_sanitize_for_terminal`. -/
def sanitizeFrom : Nat → Text → Text
  | 0, _ => []
  | _ + 1, [] => []
  | fuel + 1, c :: rest =>
      match csi? (c :: rest) with
      | some (sequence, rest) => sequence ++ sanitizeFrom fuel rest
      | none =>
          (if c = '\t' ∨ c = '\n' ∨ c = '\r' then c
            else if c.toNat < 0x20 ∨ c.toNat = 0x7f then '.'
            else c) :: sanitizeFrom fuel rest

/-- `_sanitize_for_terminal` -/
def sanitizeForTerminal (raw : Text) : Text :=
  let raw := raw.filter fun c => c.toNat != 0 && c.toNat != 7
  sanitizeFrom raw.length raw

/-- `_format_log_line` -/
def formatLogLine (raw : Text) : Text :=
  match k8sTs? raw with
  | none => sanitizeForTerminal raw
  | some (clock, rest) =>
      let content := sanitizeForTerminal rest
      if isAppTs content then content
      else
        escape :: "[90m".toList ++ clock ++ escape :: "[0m ".toList ++ content

/-- `_is_nf_line` -/
def isNfLine (raw : Text) : Bool :=
  match k8sTs? raw with
  | none => false
  | some (_, rest) => isAppTs rest

end Format

section Stream

/-- A message to the browser: lines of the log, joined by line feeds, or a
remark of the dashboard. -/
inductive Message where
  | lines (batch : List Text)
  | note (text : Text)

/-- `last_ts`, `sent_count` and what has been sent. -/
structure Stream where
  lastTs : Option Text
  sentCount : Nat
  out : List Message

/-- The variables of the loop over the lines of an answer. -/
structure Pass where
  stream : Stream
  effectiveLast : Option Text
  batch : List Text

def Stream.send (st : Stream) (batch : List Text) : Stream :=
  { st with out := st.out ++ [.lines batch], sentCount := st.sentCount + 1 }

/-- `_flush_batch` -/
def Pass.flush (p : Pass) : Pass :=
  if p.batch = [] then p
  else { p with stream := p.stream.send p.batch, batch := [] }

/-- `line.split(" ", 1)[0] if " " in line else ""` -/
def lineTs (line : Text) : Text :=
  if ' ' ∈ line then before ' ' line else []

/-- Send a line, or put it into the batch. -/
def Pass.emit (p : Pass) (line : Text) : Pass :=
  if isNfLine line then
    { p.flush with stream := p.flush.stream.send [formatLogLine line] }
  else { p with batch := p.batch ++ [formatLogLine line] }

def Pass.note (p : Pass) (ts : Text) : Pass :=
  if ts = [] then p
  else
    { p with
      stream := { p.stream with lastTs := some ts }
      effectiveLast := some ts }

/-- `effective_last is None or ts > effective_last` -/
def isAfter (last : Option Text) (ts : Text) : Bool :=
  last.all fun t => decide (t < ts)

/-- A round of the loop over the lines. -/
def Pass.line (p : Pass) (line : Text) : Pass :=
  if isAfter p.effectiveLast (lineTs line) then
    (p.emit line).note (lineTs line)
  else p

/-- `last_ts if last_ts else None` -/
def Stream.effectiveLast (st : Stream) : Option Text :=
  st.lastTs.filter fun ts => !ts.isEmpty

/-- The lines of an answer. -/
def Stream.read (st : Stream) (text : Text) : Stream :=
  if strip text = [] then st
  else
    (((strip text).splitOn '\n').foldl Pass.line
      ⟨st, st.effectiveLast, []⟩).flush.stream

/-- What a round of the follow loop does with `log_text`. -/
def Stream.poll (st : Stream) (text : Text) : Stream :=
  let st := st.read text
  if st.sentCount = 0 ∧ st.lastTs = none then
    { st with
      out := st.out ++ [.note "[dashboard] waiting for log output...".toList]
      lastTs := some [] }
  else st

/-- The lines in a message. -/
def Message.sent : Message → List Text
  | .lines batch => batch
  | .note _ => []

/-- The lines that have been sent. -/
def sentLines (out : List Message) : List Text :=
  out.flatMap Message.sent

end Stream

section Log

/-- A line of a pod's log, with the timestamp in front as the call returns it. -/
structure Line where
  time : Int
  ts : Text
  msg : Text
  ts_ne : ts ≠ []
  ts_solid : ∀ c ∈ ts, isBlank c = false
  one_line : '\n' ∉ msg

def Line.raw (l : Line) : Text :=
  l.ts ++ ' ' :: l.msg

def Line.isBlankMsg (l : Line) : Bool :=
  l.msg.all isBlank

/-- `logs` are in the order of their timestamps. -/
def Ascending (log : List Line) : Prop :=
  log.Pairwise fun l l' => l.time < l'.time ∧ l.ts < l'.ts

/-- The text of an answer with these lines. -/
def answerText (lines : List Line) : Text :=
  unlines (lines.map Line.raw)

/-- The line has been sent, perhaps without white space at its end. -/
def SentAs (sent : Text) (l : Line) : Prop :=
  sent = formatLogLine l.raw ∨
    sent = formatLogLine (l.raw.rdropWhile isBlank)

end Log

section Passes

variable {p : Pass} {line : Text}

/-- What has been sent or waits in the batch. -/
def Pass.total (p : Pass) : List Text :=
  sentLines p.stream.out ++ p.batch

theorem sentLines_concat (out : List Message) (m : Message) :
    sentLines (out ++ [m]) = sentLines out ++ m.sent := by
  rw [sentLines, List.flatMap_append, List.flatMap_singleton]
  rfl

theorem sentLines_send (st : Stream) (batch : List Text) :
    sentLines (st.send batch).out = sentLines st.out ++ batch :=
  sentLines_concat st.out (.lines batch)

theorem Pass.total_flush (p : Pass) :
    sentLines p.flush.stream.out = p.total ∧ p.flush.batch = [] ∧
      p.flush.stream.lastTs = p.stream.lastTs := by
  unfold flush total
  split
  · rename_i hbatch
    rw [hbatch, List.append_nil]
    exact ⟨rfl, rfl, rfl⟩
  · exact ⟨sentLines_send _ _, rfl, rfl⟩

theorem Pass.total_emit (p : Pass) (line : Text) :
    (p.emit line).total = p.total ++ [formatLogLine line] := by
  unfold emit
  split
  · obtain ⟨hout, hbatch, -⟩ := p.total_flush
    unfold total at hout ⊢
    rw [hbatch, sentLines_send, hout, List.append_nil]
  · unfold total
    rw [List.append_assoc]

theorem Pass.total_note (p : Pass) (ts : Text) :
    (p.note ts).total = p.total := by
  unfold note
  split <;> rfl

/-- A line with a timestamp after the last one is sent, another is passed over. -/
theorem Pass.line_eq (hts : lineTs line ≠ []) :
    (p.line line).total = p.total ++
        (if isAfter p.effectiveLast (lineTs line) then [formatLogLine line]
          else []) ∧
      (p.line line).stream.lastTs =
        (if isAfter p.effectiveLast (lineTs line) then some (lineTs line)
          else p.stream.lastTs) ∧
      (p.line line).effectiveLast =
        (if isAfter p.effectiveLast (lineTs line) then some (lineTs line)
          else p.effectiveLast) := by
  unfold Pass.line
  split
  · rw [total_note, total_emit, note, if_neg hts]
    exact ⟨rfl, rfl, rfl⟩
  · rw [List.append_nil]
    exact ⟨rfl, rfl, rfl⟩

theorem isAfter_trans {last : Option Text} {t t' : Text}
    (h : isAfter last t = true) (hlt : t < t') : isAfter last t' = true := by
  cases last with
  | none => rfl
  | some u => exact decide_eq_true ((of_decide_eq_true h).trans hlt)

/-- Of lines in order, those after the last one sent are sent. -/
theorem Pass.foldl_line {lines : List Text} (p : Pass)
    (hts : ∀ line ∈ lines, lineTs line ≠ [])
    (hasc : lines.Pairwise fun line line' => lineTs line < lineTs line') :
    (lines.foldl Pass.line p).total = p.total ++
        (lines.filter fun line =>
          isAfter p.effectiveLast (lineTs line)).map formatLogLine ∧
      (lines.foldl Pass.line p).stream.lastTs =
        (((lines.filter fun line =>
          isAfter p.effectiveLast (lineTs line)).getLast?.map lineTs).or
            p.stream.lastTs) := by
  induction lines generalizing p with
  | nil => exact ⟨(List.append_nil _).symm, rfl⟩
  | cons line rest ih =>
      rw [List.forall_mem_cons] at hts
      rw [List.pairwise_cons] at hasc
      obtain ⟨htotal, hlast, heff⟩ := Pass.line_eq (p := p) hts.1
      obtain ⟨ihtotal, ihlast⟩ := ih (p.line line) hts.2 hasc.2
      rw [List.foldl_cons, ihtotal, ihlast, htotal, hlast, heff]
      by_cases hafter : isAfter p.effectiveLast (lineTs line) = true
      · -- everything behind it is sent as well
        have hall : ∀ last, (isAfter last (lineTs line) = true ∨
            last = some (lineTs line)) → rest.filter (fun line =>
              isAfter last (lineTs line)) = rest := by
          intro last hcases
          refine List.filter_eq_self.2 fun line' hline' => ?_
          rcases hcases with hlt | rfl
          · exact isAfter_trans hlt (hasc.1 line' hline')
          · exact decide_eq_true (hasc.1 line' hline')
        rw [if_pos hafter, if_pos hafter, if_pos hafter, List.filter_cons,
          if_pos hafter, hall _ (.inl hafter), hall _ (.inr rfl)]
        refine ⟨by rw [List.map_cons, List.append_assoc, List.singleton_append],
          ?_⟩
        cases rest with
        | nil => rfl
        | cons line' rest =>
            rw [List.getLast?_cons_cons,
              List.getLast?_eq_some_getLast (List.cons_ne_nil line' rest)]
            rfl
      · rw [if_neg hafter, if_neg hafter, if_neg hafter, List.filter_cons,
          if_neg hafter, List.append_nil]
        exact ⟨rfl, rfl⟩

end Passes

section Answers

variable {l : Line} {lines : List Line}

theorem Line.space_notMem_ts (l : Line) : ' ' ∉ l.ts := by
  intro h
  have hblank : isBlank ' ' = true := by decide
  rw [l.ts_solid ' ' h] at hblank
  cases hblank

theorem Line.lineTs_append (l : Line) (rest : Text) :
    lineTs (l.ts ++ ' ' :: rest) = l.ts := by
  rw [lineTs, if_pos (by simp), before_append_cons l.space_notMem_ts]

/-- A timestamp stays where it is when the text is stripped. -/
theorem Line.rdropWhile_append (l : Line) (s t : Text) :
    (s ++ (l.ts ++ t)).rdropWhile isBlank =
      s ++ (l.ts ++ t).rdropWhile isBlank := by
  cases hts : l.ts with
  | nil => exact absurd hts l.ts_ne
  | cons c rest =>
      have hc : isBlank c = false :=
        l.ts_solid c (by rw [hts]; exact List.mem_cons_self)
      have hself := rdropWhile_append_cons hc [] (rest ++ t)
      rw [List.nil_append] at hself
      rw [List.cons_append, rdropWhile_append_cons hc, hself, List.nil_append]

/-- A line that is not blank keeps its timestamp when it is stripped. -/
theorem Line.lineTs_rdropWhile (h : l.isBlankMsg = false) :
    lineTs (l.raw.rdropWhile isBlank) = l.ts := by
  obtain ⟨c, hmem, hc⟩ : ∃ c ∈ l.msg, isBlank c = false := by
    rw [isBlankMsg, List.all_eq_false] at h
    obtain ⟨c, hmem, hc⟩ := h
    exact ⟨c, hmem, Bool.eq_false_iff.2 hc⟩
  obtain ⟨s, t, hsplit⟩ := List.append_of_mem hmem
  have hraw : l.raw = (l.ts ++ ' ' :: s) ++ c :: t := by
    rw [raw, hsplit, List.append_assoc, List.cons_append]
  rw [hraw, rdropWhile_append_cons hc, List.append_assoc, List.cons_append]
  exact l.lineTs_append _

theorem Line.newline_notMem_raw (l : Line) : '
' ∉ l.raw := by
  intro h
  rcases List.mem_append.1 h with h | h
  · have hblank : isBlank '
' = true := by decide
    rw [l.ts_solid '
' h] at hblank
    cases hblank
  · rcases List.mem_cons.1 h with h | h
    · exact absurd h (by decide)
    · exact l.one_line h

theorem splitOn_unlines_append {texts : List Text} {t : Text}
    (h : ∀ line ∈ texts, '
' ∉ line) (ht : '
' ∉ t) :
    (unlines texts ++ t).splitOn '
' = texts ++ [t] := by
  induction texts with
  | nil => exact List.splitOn_eq_singleton ht
  | cons line rest ih =>
      rw [List.forall_mem_cons] at h
      have hcons : unlines (line :: rest) ++ t =
          line ++ '
' :: (unlines rest ++ t) := by
        simp [unlines]
      rw [hcons, List.splitOn_append_cons_self_of_not_mem h.1, ih h.2]
      rfl

/-- Stripping an answer touches the end of its last line only. -/
theorem strip_answerText (front : List Line) (l : Line) :
    strip (answerText (front ++ [l])) =
      unlines (front.map Line.raw) ++ l.raw.rdropWhile isBlank := by
  have htext : answerText (front ++ [l]) =
      (unlines (front.map Line.raw) ++ l.raw) ++ ['
'] := by
    simp [answerText, unlines]
  have hhead : ∀ l' : Line, ∀ t, (l'.raw ++ t).dropWhile isBlank =
      l'.raw ++ t := by
    intro l' t
    cases hts : l'.ts with
    | nil => exact absurd hts l'.ts_ne
    | cons c rest =>
        have hc : isBlank c = false :=
          l'.ts_solid c (by rw [hts]; exact List.mem_cons_self)
        rw [Line.raw, hts]
        simp [hc]
  have hdrop : (unlines (front.map Line.raw) ++ l.raw).dropWhile isBlank =
      unlines (front.map Line.raw) ++ l.raw := by
    cases front with
    | nil =>
        have h := hhead l []
        rw [List.append_nil] at h
        exact h
    | cons l' front =>
        have h := hhead l' ('
' :: (unlines (front.map Line.raw) ++ l.raw))
        simpa [unlines] using h
  rw [htext, strip_append_blank (by decide), strip, stripBy, hdrop]
  exact l.rdropWhile_append _ _

/-- The line of an answer that stands for a line of the log. -/
def Shows (text : Text) (l : Line) : Prop :=
  lineTs text = l.ts ∧ SentAs (formatLogLine text) l

/-- The lines of an answer, when the last of them is not blank. -/
theorem shows_splitOn (front : List Line) (hblank : l.isBlankMsg = false) :
    List.Forall₂ Shows
      ((strip (answerText (front ++ [l]))).splitOn '\n') (front ++ [l]) := by
  have hlast : '\n' ∉ l.raw.rdropWhile isBlank := fun h =>
    l.newline_notMem_raw ((List.rdropWhile_prefix isBlank l.raw).subset h)
  have hfront : ∀ line ∈ front.map Line.raw, '\n' ∉ line := by
    intro line hline
    obtain ⟨l', -, rfl⟩ := List.mem_map.1 hline
    exact l'.newline_notMem_raw
  rw [strip_answerText, splitOn_unlines_append hfront hlast]
  refine List.rel_append ?_ (.cons ⟨l.lineTs_rdropWhile hblank, .inr rfl⟩ .nil)
  rw [List.forall₂_map_left_iff]
  exact List.forall₂_same.2 fun l' _ => ⟨l'.lineTs_append l'.msg, .inl rfl⟩

theorem map_lineTs_of_shows {texts : List Text}
    (h : List.Forall₂ Shows texts lines) :
    texts.map lineTs = lines.map Line.ts := by
  induction h with
  | nil => rfl
  | cons hshows _ ih => rw [List.map_cons, List.map_cons, hshows.1, ih]

theorem sentAs_of_shows {texts : List Text} {last : Option Text}
    (h : List.Forall₂ Shows texts lines) :
    List.Forall₂ SentAs
      ((texts.filter fun line => isAfter last (lineTs line)).map formatLogLine)
      (lines.filter fun l => isAfter last l.ts) := by
  induction h with
  | nil => exact .nil
  | @cons text l texts lines hshows _ ih =>
      rw [List.filter_cons, List.filter_cons, hshows.1]
      split
      · exact .cons hshows.2 ih
      · exact ih

/-- What a poll sends: the lines of the answer after the last one sent. -/
theorem Stream.poll_lines (st : Stream) (hasc : Ascending lines)
    (hne : lines ≠ [])
    (hblank : ∀ l, lines.getLast? = some l → l.isBlankMsg = false) :
    ∃ sent,
      List.Forall₂ SentAs sent
        (lines.filter fun l => isAfter st.effectiveLast l.ts) ∧
      sentLines (st.poll (answerText lines)).out =
        sentLines st.out ++ sent ∧
      (st.poll (answerText lines)).lastTs =
        (((lines.filter fun l => isAfter st.effectiveLast l.ts).getLast?.map
          Line.ts).or st.lastTs) := by
  obtain ⟨front, l, rfl⟩ := (List.eq_nil_or_concat' lines).resolve_left hne
  have hshows := shows_splitOn front (hblank l List.getLast?_concat)
  have hmap := map_lineTs_of_shows hshows
  have hts : ∀ line ∈ (strip (answerText (front ++ [l]))).splitOn '\n',
      lineTs line ≠ [] := by
    intro line hline hnil
    have hmem := List.mem_map_of_mem (f := lineTs) hline
    rw [hmap, hnil] at hmem
    obtain ⟨l', -, hl'⟩ := List.mem_map.1 hmem
    exact l'.ts_ne hl'
  have hpairs : ((strip (answerText (front ++ [l]))).splitOn '\n').Pairwise
      fun line line' => lineTs line < lineTs line' := by
    rw [← List.pairwise_map, hmap, List.pairwise_map]
    exact hasc.imp fun h => h.2
  obtain ⟨htotal, hlast⟩ := Pass.foldl_line ⟨st, st.effectiveLast, []⟩ hts hpairs
  generalize htexts : (strip (answerText (front ++ [l]))).splitOn '\n' = texts
    at hshows hmap htotal hlast
  have hread : st.read (answerText (front ++ [l])) =
      (texts.foldl Pass.line ⟨st, st.effectiveLast, []⟩).flush.stream := by
    rw [Stream.read, if_neg, htexts]
    rw [strip_answerText]
    intro hnil
    have hts := l.lineTs_rdropWhile (hblank l List.getLast?_concat)
    rw [(List.append_eq_nil_iff.1 hnil).2] at hts
    exact l.ts_ne hts.symm
  obtain ⟨hout, -, hlastTs⟩ :=
    (texts.foldl Pass.line ⟨st, st.effectiveLast, []⟩).total_flush
  have hgetLast : (texts.filter fun line =>
      isAfter st.effectiveLast (lineTs line)).getLast?.map lineTs =
      ((front ++ [l]).filter fun l =>
        isAfter st.effectiveLast l.ts).getLast?.map Line.ts := by
    rw [← List.getLast?_map, ← List.getLast?_map]
    have hfilter := congrArg (List.filter (isAfter st.effectiveLast)) hmap
    rw [List.filter_map, List.filter_map] at hfilter
    exact congrArg List.getLast? hfilter
  rw [← hlastTs, hgetLast] at hlast
  -- something is known to have been sent, so the stream does not wait
  have hsome : st.lastTs = none → (st.read (answerText (front ++ [l]))).lastTs ≠
      none := by
    intro hnone
    have heff : st.effectiveLast = none := by rw [Stream.effectiveLast, hnone]; rfl
    rw [hread, hlast, heff]
    have hall : (front ++ [l]).filter (fun l => isAfter none l.ts) =
        front ++ [l] := List.filter_eq_self.2 fun _ _ => rfl
    rw [hall, List.getLast?_concat]
    exact Option.some_ne_none _
  have hpoll : st.poll (answerText (front ++ [l])) =
      st.read (answerText (front ++ [l])) := by
    rw [Stream.poll, if_neg]
    rintro ⟨-, hnone⟩
    have hst : st.lastTs = none := by
      rw [hread, hlast] at hnone
      exact (Option.or_eq_none_iff.1 hnone).2
    exact hsome hst hnone
  refine ⟨_, sentAs_of_shows hshows, ?_, ?_⟩
  · rw [hpoll, hread, hout, htotal, Pass.total, List.append_nil]
  · rw [hpoll, hread, hlast]

/-- An answer without lines. -/
theorem Stream.poll_nil (st : Stream) :
    sentLines (st.poll []).out = sentLines st.out ∧
      (st.poll []).lastTs =
        (if st.sentCount = 0 ∧ st.lastTs = none then some [] else st.lastTs) ∧
      (st.poll []).sentCount = st.sentCount := by
  have hread : st.read [] = st := rfl
  unfold Stream.poll
  simp only [hread]
  split
  · refine ⟨?_, rfl, rfl⟩
    rw [sentLines_concat]
    exact List.append_nil _
  · exact ⟨rfl, rfl, rfl⟩

theorem Stream.poll_nil_of_some {st : Stream} (h : st.lastTs ≠ none) :
    st.poll [] = st :=
  if_neg fun hnone => h hnone.2

/-- What a poll sends of an answer, with lines or without. -/
theorem Stream.poll_sent (st : Stream) (hasc : Ascending lines)
    (hblank : ∀ l, lines.getLast? = some l → l.isBlankMsg = false) :
    ∃ sent,
      List.Forall₂ SentAs sent
        (lines.filter fun l => isAfter st.effectiveLast l.ts) ∧
      sentLines (st.poll (answerText lines)).out =
        sentLines st.out ++ sent := by
  by_cases hne : lines = []
  · subst hne
    exact ⟨[], .nil, st.poll_nil.1.trans (List.append_nil _).symm⟩
  · obtain ⟨sent, hsent, hout, -⟩ := st.poll_lines hasc hne hblank
    exact ⟨sent, hsent, hout⟩

end Answers

end Logs
end Kelt
