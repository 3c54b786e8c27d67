import Kelt.Lib.Http

/-!
# The Web UI proxy

`_webui_proxy_dispatch` reads from the browser until it has a head, and
`_proxy_rewrite_host_http` edits the head: it removes the lines of the
Connection field, puts the modem into those of the Host field, adds what is
missing, and forwards the rest of the connection behind it.

Both patterns want a line end that the last line of the head does not have, and
one line end too many is written behind the head. `faithful_iff` says which
requests come through all the same.
-/

namespace Kelt
namespace Probe
namespace WebuiProxy

open Http

section Proxy

def methods : List Text :=
  ["GET", "POST", "HEAD", "PUT", "DELETE", "OPTIONS", "PATCH"].map String.toList

/-- `_HTTP_REQ_LINE_START` -/
def isReqLine (l : Text) : Bool :=
  methods.any fun method =>
    match dropLiteral method l with
    | some (c :: _) => isSpace c
    | _ => false

/-- A line as the line feed cuts it that `^Name:[^\r\n]*\r\n` matches, in any
case of its letters. -/
def isHeaderLine (name l : Text) : Bool :=
  l.getLast? = some '\r' && !l.dropLast.contains '\r' &&
    lower (l.take (name.length + 1)) = name ++ [':']

/-- `re.sub` with such a pattern. -/
def subLines (name repl t : Text) : Text :=
  (cutLines t).1.flatMap
    (fun l => if isHeaderLine name l then repl else l ++ ['\n']) ++
    (cutLines t).2

/-- Where the proxy forwards to. The host has been checked: it has no white
space. -/
structure Modem where
  host : Text
  port : Nat
  plain : ∀ c ∈ host, isBlank c = false

/-- `encode("ascii", errors="ignore")` -/
def asciiOnly (t : Text) : Text :=
  t.filter fun c => c.toNat < 128

def Modem.value (m : Modem) : Text :=
  if m.port = 80 then asciiOnly m.host
  else asciiOnly (m.host ++ ':' :: intText m.port)

/-- `_modem_host_header_bytes` -/
def Modem.hostHeader (m : Modem) : Text :=
  "Host: ".toList ++ m.value ++ crlf

/-- `rstrip(b"\r\n")` -/
def rstripEnds (t : Text) : Text :=
  t.rdropWhile fun c => c = '\r' || c = '\n'

/-- The edited head. -/
def editHead (m : Modem) (head : Text) : Text :=
  let head := subLines "connection".toList [] head
  let newHead := subLines "host".toList m.hostHeader head
  let newHead :=
    if newHead = head then head ++ crlf ++ m.hostHeader else newHead
  rstripEnds newHead ++ "\r\nConnection: close\r\n".toList

/-- `_proxy_rewrite_host_http`: what is forwarded first. -/
def rewriteHost (m : Modem) (buf : Text) : Text :=
  match partition blankLine buf with
  | none => buf
  | some (head, tail) => editHead m head ++ blankLine ++ tail

/-- The reads until there is a head or no room: what they give, and the reads
that are left. -/
def gather (buf : Text) : List Text → Text × List Text
  | [] => (buf, [])
  | chunk :: reads =>
      if blankLine <:+: buf ∨ 65536 ≤ buf.length then (buf, chunk :: reads)
      else gather (buf ++ chunk) reads

/-- `buf.split(b"\r\n", 1)[0]` -/
def firstLine (buf : Text) : Text :=
  match partition crlf buf with
  | some (line, _) => line
  | none => buf

/-- `_webui_proxy_dispatch`: all that is forwarded of what the reads give. -/
def dispatch (m : Modem) : List Text → Text
  | [] => []
  | first :: reads =>
      if first.head? = some (Char.ofNat 0x16) then first ++ reads.flatten
      else
        let buf := (gather first reads).1
        let later := (gather first reads).2.flatten
        if blankLine <:+: buf ∧ isReqLine (firstLine buf) = true then
          rewriteHost m buf ++ later
        else buf ++ later

end Proxy

section Requests

/-- A well-formed request: a request line of an accepted method, any fields, and
a body that they frame. -/
structure Request where
  line : Text
  fields : List Field
  rest : Text
  framing : Framing
  body : Text
  line_ok : IsLine line
  method_ok : isReqLine line = true
  framing_ok : Http.framing (fields.map Field.read) = some framing
  body_ok : bodyOf framing rest = some body

/-- The lines of the head. -/
def Request.head (r : Request) : Text :=
  joinLines (r.line :: r.fields.map Field.line)

/-- Its bytes, in the reads in which they arrive; the head is within 64 KB. -/
structure Delivery extends Request where
  reads : List Text
  nonempty : ∀ chunk ∈ reads, chunk ≠ []
  joined : reads.flatten = toRequest.head ++ (blankLine ++ rest)
  small : toRequest.head.length + 4 ≤ 65536

/-- The fields that the proxy has no business with. -/
def others (fields : List (Text × Text)) : List (Text × Text) :=
  fields.filter fun f =>
    lower f.1 ≠ "host".toList ∧ lower f.1 ≠ "connection".toList

/-- The modem reads the same request, addressed to it and for one exchange. -/
def Faithful (m : Modem) (d : Delivery) : Prop :=
  ∃ msg, parse (dispatch m d.reads) = some msg ∧ msg.line = d.line ∧
    others msg.fields = others (d.fields.map Field.read) ∧
    fieldValues "host" msg.fields = [m.value] ∧
    fieldValues "connection" msg.fields = ["close".toList] ∧
    msg.body = d.body

/-- The field has this name, in whatever case. -/
def isNamed (name : String) (f : Field) : Bool :=
  lower f.name = name.toList

/-- The field is written just as the proxy writes it. -/
def Modem.wrote (m : Modem) (f : Field) : Prop :=
  f.line ++ crlf = m.hostHeader

/-- The body bears a line end in front of it. -/
def BodyFits (framing : Framing) (body : Text) : Prop :=
  match framing with
  | .empty => True
  | .length _ => body <+: crlf ++ body
  | .chunked => False

/-- The requests that come through. -/
structure Suited (m : Modem) (r : Request) : Prop where
  last : ∀ f, r.fields.getLast? = some f →
    isNamed "host" f = false ∧ isNamed "connection" f = false
  one : (r.fields.filter (isNamed "host")).length ≤ 1
  fresh : ∀ f ∈ r.fields, isNamed "host" f = true → ¬ m.wrote f
  body : BodyFits r.framing r.body

end Requests

section Editing

theorem toLower_eq_colon_iff (c : Char) : c.toLower = ':' ↔ c = ':' := by
  by_cases hc : c.isUpper = true
  · exact of_isUpper (P := fun c => c.toLower = ':' ↔ c = ':') (by decide) hc
  · rw [toLower_of_not_isUpper hc]

theorem colon_notMem_lower (f : Field) : ':' ∉ lower f.name := by
  intro h
  obtain ⟨c, hc, hcolon⟩ := List.mem_map.1 h
  exact (f.name_plain c hc).1 ((toLower_eq_colon_iff c).1 hcolon)

/-- What stands before the first colon of a text is determined. -/
theorem append_colon_inj {s t x y : Text} (hs : ':' ∉ s) (ht : ':' ∉ t)
    (h : s ++ ':' :: x = t ++ ':' :: y) : s = t := by
  have hbefore : ∀ {s x : Text}, ':' ∉ s → before ':' (s ++ ':' :: x) = s := by
    intro s x hs
    have hne : ∀ c ∈ s, (c != ':') = true := by
      intro c hc
      simpa using fun heq : c = ':' => hs (heq ▸ hc)
    unfold before
    rw [List.takeWhile_append_of_pos hne]
    simp
  rw [← hbefore (x := x) hs, h, hbefore ht]

/-- A name with a colon behind it is the beginning of the lines with that
name. -/
theorem take_line_iff
    {name : Text} (hname : ':' ∉ name) (f : Field) (t : Text) :
    lower ((f.line ++ t).take (name.length + 1)) = name ++ [':'] ↔
      lower f.name = name := by
  have hline : lower (f.line ++ t) =
      lower f.name ++ ':' :: lower (f.value ++ t) := by
    simp [lower, Field.line]
  have htake : lower ((f.line ++ t).take (name.length + 1)) =
      (lower f.name ++ ':' :: lower (f.value ++ t)).take (name.length + 1) := by
    rw [← hline]
    exact List.map_take
  rw [htake]
  constructor
  · intro h
    have hprefix : name ++ [':'] <+:
        lower f.name ++ ':' :: lower (f.value ++ t) := by
      rw [← h]
      exact List.take_prefix _ _
    obtain ⟨x, hx⟩ := hprefix
    rw [List.append_assoc, List.singleton_append] at hx
    exact (append_colon_inj hname (colon_notMem_lower f) hx).symm
  · intro h
    rw [h, List.take_append]
    simp

theorem isHeaderLine_line
    {name : String} (hname : ':' ∉ name.toList) (f : Field) :
    isHeaderLine name.toList (f.line ++ ['\r']) = isNamed name f := by
  have hreturn : f.line.contains '\r' = false := by
    simpa using f.isLine.noReturn
  unfold isHeaderLine isNamed
  rw [List.getLast?_concat, List.dropLast_concat, hreturn]
  simp only [decide_true, Bool.not_false, Bool.true_and]
  exact decide_eq_decide.2 (take_line_iff hname f ['\r'])

/-- The method does not begin as the names of the two fields do. -/
theorem take_two_methods :
    ∀ method ∈ methods, 2 ≤ method.length ∧
      lower (method.take 2) ≠ "ho".toList ∧
      lower (method.take 2) ≠ "co".toList := by
  decide

/-- The request line is none of the two header lines. -/
theorem isHeaderLine_reqLine
    {name l : Text} (hl : isReqLine l = true)
    (hname : name = "host".toList ∨ name = "connection".toList) :
    isHeaderLine name (l ++ ['\r']) = false := by
  obtain ⟨method, hmethod, hmatch⟩ := List.any_eq_true.1 hl
  obtain ⟨hlength, hhost, hconn⟩ := take_two_methods method hmethod
  cases hdrop : dropLiteral method l with
  | none =>
      rw [hdrop] at hmatch
      cases hmatch
  | some t =>
      have htwo : 2 ≤ name.length := by
        rcases hname with rfl | rfl <;> decide
      have hstart : ∀ u,
          (lower ((method ++ u).take (name.length + 1))).take 2 =
            lower (method.take 2) := by
        intro u
        unfold lower
        rw [← List.map_take, List.take_take, Nat.min_eq_left (by omega),
          List.take_append_of_le_length hlength]
      rw [dropLiteral_eq_some_iff.1 hdrop, List.append_assoc]
      by_contra h
      rw [Bool.not_eq_false] at h
      have hsame := of_decide_eq_true (Bool.and_eq_true_iff.1 h).2
      have htake := congrArg (List.take 2) hsame
      rw [hstart, List.take_append_of_le_length htwo] at htake
      rcases hname with rfl | rfl
      · exact hhost htake
      · exact hconn htake

/-- The fields but the last with those of a name replaced. -/
def editAll (name : String) (repl fields : List Field) : List Field :=
  fields.dropLast.flatMap (fun f => if isNamed name f then repl else [f]) ++
    fields.getLast?.toList

/-- What `re.sub` writes for each match, in lines. -/
def replText (repl : List Field) : Text :=
  repl.flatMap fun f => f.line ++ crlf

theorem joinLines_cons (l l' : Text) (lines : List Text) :
    joinLines (l :: l' :: lines) = l ++ crlf ++ joinLines (l' :: lines) := by
  simp [joinLines, crlf]

/-- One line after the other, each ended, and the last one. -/
theorem joinLines_fields (line : Text) (fields : List Field) (last : Field) :
    joinLines (line :: (fields ++ [last]).map Field.line) =
      line ++ crlf ++ replText fields ++ last.line := by
  induction fields generalizing line with
  | nil => simp [joinLines_cons, joinLines, replText]
  | cons f fields ih =>
      rw [List.cons_append, List.map_cons, joinLines_cons, ih]
      simp [replText]

/-- The substitution edits the fields, all but the last. -/
theorem subLines_joinLines
    {name : String} (hname : name = "host" ∨ name = "connection")
    {line : Text} (hline : IsLine line) (hreq : isReqLine line = true)
    (repl fields : List Field) :
    subLines name.toList (replText repl)
        (joinLines (line :: fields.map Field.line)) =
      joinLines (line :: (editAll name repl fields).map Field.line) := by
  have hcolon : ':' ∉ name.toList := by
    rcases hname with rfl | rfl <;> decide
  have hnot : isHeaderLine name.toList (line ++ ['\r']) = false := by
    apply isHeaderLine_reqLine hreq
    rcases hname with rfl | rfl
    · exact Or.inl rfl
    · exact Or.inr rfl
  rcases List.eq_nil_or_concat' fields with rfl | ⟨init, last, rfl⟩
  · have hcut : cutLines (joinLines [line]) = ([], line) :=
      cutLines_joinLines [] line (by simp) hline.noFeed
    unfold subLines
    rw [List.map_nil, hcut]
    rfl
  · have hlines : ∀ l ∈ line :: init.map Field.line, '\n' ∉ l := by
      intro l hl
      rcases List.mem_cons.1 hl with rfl | hl
      · exact hline.noFeed
      · obtain ⟨f, -, rfl⟩ := List.mem_map.1 hl
        exact f.isLine.noFeed
    have hcut : cutLines
          (joinLines (line :: (init ++ [last]).map Field.line)) =
        ((line :: init.map Field.line).map fun l => l ++ ['\r'], last.line) := by
      rw [List.map_append, List.map_singleton, ← List.cons_append]
      exact cutLines_joinLines _ _ hlines last.isLine.noFeed
    have hedit : editAll name repl (init ++ [last]) =
        init.flatMap (fun f => if isNamed name f then repl else [f]) ++
          [last] := by
      simp [editAll]
    have hbody :
        ((init.map Field.line).map fun l => l ++ ['\r']).flatMap
            (fun l => if isHeaderLine name.toList l then replText repl
              else l ++ ['\n']) =
          replText (init.flatMap fun f =>
            if isNamed name f then repl else [f]) := by
      unfold replText
      rw [List.map_map, List.flatMap_map, List.flatMap_assoc]
      congr 1
      funext f
      rw [Function.comp_apply, isHeaderLine_line hcolon]
      cases isNamed name f with
      | true => rfl
      | false => simp [crlf]
    unfold subLines
    rw [hedit, hcut, joinLines_fields]
    dsimp only
    rw [List.map_cons, List.flatMap_cons, hnot, if_neg Bool.false_ne_true,
      hbody]
    simp [crlf]

theorem isBlank_of_isDigit {c : Char} (h : c.isDigit = true) :
    isBlank c = false := by
  have hrange := isDigit_toNat h
  by_contra hblank
  rw [Bool.not_eq_false] at hblank
  simp [isBlank, isLineBreak] at hblank
  omega

theorem Modem.isBlank_of_mem_value (m : Modem) :
    ∀ c ∈ m.value, isBlank c = false := by
  intro c hc
  unfold Modem.value at hc
  split at hc
  · exact m.plain c (List.mem_of_mem_filter hc)
  · have hmem := List.mem_of_mem_filter hc
    rcases List.mem_append.1 hmem with hmem | hmem
    · exact m.plain c hmem
    · rcases List.mem_cons.1 hmem with rfl | hmem
      · decide
      · have hdigits : intText (m.port : Int) = Nat.toDigits 10 m.port := rfl
        rw [hdigits] at hmem
        exact isBlank_of_isDigit
          (Nat.isDigit_of_mem_toDigits (by decide) (by decide) hmem)

theorem Modem.notMem_value (m : Modem) {c : Char} (hc : isBlank c = true)
    (hspace : c ≠ ' ') :
    c ∉ ' ' :: m.value := by
  intro hmem
  rcases List.mem_cons.1 hmem with hmem | hmem
  · exact hspace hmem
  · rw [m.isBlank_of_mem_value c hmem] at hc
    cases hc

/-- The Host field that the proxy writes. -/
def Modem.hostField (m : Modem) : Field where
  name := "Host".toList
  value := ' ' :: m.value
  name_ne_nil := by decide
  name_plain := by decide
  value_plain :=
    ⟨m.notMem_value (by decide) (by decide),
      m.notMem_value (by decide) (by decide)⟩

/-- The Connection field that it writes. -/
def closeField : Field where
  name := "Connection".toList
  value := " close".toList
  name_ne_nil := by decide
  name_plain := by decide
  value_plain := by decide

theorem replText_hostField (m : Modem) :
    replText [m.hostField] = m.hostHeader := by
  have hname : "Host: ".toList = "Host".toList ++ [':', ' '] := by
    decide
  unfold replText Modem.hostHeader Field.line Modem.hostField
  rw [List.flatMap_singleton, hname, List.append_assoc, List.append_assoc,
    List.append_assoc]
  rfl

/-- The fields after the edit. -/
def Modem.edited (m : Modem) (fields : List Field) : List Field :=
  let kept := editAll "connection" [] fields
  let new := editAll "host" [m.hostField] kept
  (if new = kept then kept ++ [m.hostField] else new) ++ [closeField]

theorem rstripEnds_crlf (t : Text) : rstripEnds (t ++ crlf) = rstripEnds t := by
  unfold rstripEnds crlf
  rw [List.append_cons, List.rdropWhile_concat_pos _ _ _ (by decide),
    List.rdropWhile_concat_pos _ _ _ (by decide)]

/-- A head that was put together does not end in a line end. -/
theorem rstripEnds_joinLines
    {line : Text} (hline : IsLine line) (fields : List Field) :
    rstripEnds (joinLines (line :: fields.map Field.line)) =
      joinLines (line :: fields.map Field.line) := by
  have hlast : ∀ (t : Text) {l : Text}, IsLine l →
      rstripEnds (t ++ l) = t ++ l := by
    intro t l hl
    obtain ⟨init, c, rfl⟩ :=
      (List.eq_nil_or_concat' l).resolve_left hl.ne_nil
    have hreturn : c ≠ '\r' := fun h => hl.noReturn (by simp [h])
    have hfeed : c ≠ '\n' := fun h => hl.noFeed (by simp [h])
    unfold rstripEnds
    rw [← List.append_assoc, List.rdropWhile_concat_neg]
    simp [hreturn, hfeed]
  rcases List.eq_nil_or_concat' fields with rfl | ⟨init, last, rfl⟩
  · exact hlast [] hline
  · rw [joinLines_fields]
    exact hlast _ last.isLine

/-- A head with one more line. -/
theorem joinLines_snoc (line : Text) (fields : List Field) (f : Field) :
    joinLines (line :: (fields ++ [f]).map Field.line) =
      joinLines (line :: fields.map Field.line) ++ crlf ++ f.line := by
  rcases List.eq_nil_or_concat' fields with rfl | ⟨init, last, rfl⟩
  · simp [joinLines, crlf]
  · rw [joinLines_fields, joinLines_fields]
    simp [replText]

/-- The head that is written: the edited fields, and a line end. -/
theorem editHead_joinLines
    (m : Modem) {line : Text} (hline : IsLine line)
    (hreq : isReqLine line = true) (fields : List Field) :
    editHead m (joinLines (line :: fields.map Field.line)) =
      joinLines (line :: (m.edited fields).map Field.line) ++ crlf := by
  have hclose : "\r\nConnection: close\r\n".toList =
      crlf ++ closeField.line ++ crlf := by
    decide
  have hkept := subLines_joinLines (Or.inr rfl) hline hreq [] fields
  have hnew := subLines_joinLines (Or.inl rfl) hline hreq [m.hostField]
    (editAll "connection" [] fields)
  rw [replText_hostField] at hnew
  unfold editHead
  rw [show replText [] = [] from rfl] at hkept
  dsimp only
  rw [hkept, hnew, hclose]
  unfold Modem.edited
  dsimp only
  rw [joinLines_snoc]
  by_cases hsame : editAll "host" [m.hostField]
      (editAll "connection" [] fields) = editAll "connection" [] fields
  · have hadded : joinLines
          (line :: (editAll "connection" [] fields).map Field.line) ++
            crlf ++ m.hostHeader =
        joinLines (line ::
          (editAll "connection" [] fields ++ [m.hostField]).map Field.line) ++
            crlf := by
      rw [joinLines_snoc, ← replText_hostField]
      simp [replText]
    rw [hsame, if_pos rfl, if_pos rfl, hadded, rstripEnds_crlf,
      rstripEnds_joinLines hline]
    simp
  · have hne : joinLines (line :: (editAll "host" [m.hostField]
          (editAll "connection" [] fields)).map Field.line) ≠
        joinLines (line :: (editAll "connection" [] fields).map Field.line) :=
      fun h => hsame (joinLines_fields_inj hline h)
    rw [if_neg hne, if_neg hsame, rstripEnds_joinLines hline]
    simp

end Editing

section Reading

/-- Nothing is lost, and it ends with a head, without room, or with the reads. -/
theorem gather_spec (buf : Text) (reads : List Text) :
    (gather buf reads).1 ++ (gather buf reads).2.flatten =
        buf ++ reads.flatten ∧
      (blankLine <:+: (gather buf reads).1 ∨
        65536 ≤ (gather buf reads).1.length ∨ (gather buf reads).2 = []) := by
  induction reads generalizing buf with
  | nil => exact ⟨by simp [gather], Or.inr (Or.inr rfl)⟩
  | cons chunk reads ih =>
      rw [gather]
      split
      · rename_i hstop
        refine ⟨rfl, ?_⟩
        rcases hstop with hhead | hroom
        · exact Or.inl hhead
        · exact Or.inr (Or.inl hroom)
      · obtain ⟨hall, hend⟩ := ih (buf ++ chunk)
        refine ⟨?_, hend⟩
        rw [hall, List.flatten_cons, List.append_assoc]

theorem Request.partition_head (r : Request) (tail : Text) :
    partition blankLine (r.head ++ (blankLine ++ tail)) =
      some (r.head, tail) := by
  apply partition_joinLines r.line_ok
  intro l hl
  obtain ⟨f, -, rfl⟩ := List.mem_map.1 hl
  exact f.isLine

/-- What has been read when the reading stops has the whole head. -/
theorem Request.partition_gathered
    {r : Request} {buf later : Text}
    (hall : buf ++ later = r.head ++ (blankLine ++ r.rest))
    (hsmall : r.head.length + 4 ≤ 65536)
    (hend : blankLine <:+: buf ∨ 65536 ≤ buf.length ∨ later = []) :
    ∃ tail, partition blankLine buf = some (r.head, tail) ∧
      tail ++ later = r.rest := by
  have hwhole := r.partition_head r.rest
  rw [← hall] at hwhole
  cases hbuf : partition blankLine buf with
  | some p =>
      obtain ⟨head, tail⟩ := p
      have hmore := partition_append hbuf later
      rw [hwhole] at hmore
      obtain ⟨hhead, htail⟩ := Prod.mk.inj (Option.some.inj hmore)
      exact ⟨tail, by rw [hhead], htail.symm⟩
  | none =>
      exfalso
      have hnone : ∀ tail, buf ≠ r.head ++ (blankLine ++ tail) := by
        intro tail heq
        rw [heq, r.partition_head] at hbuf
        cases hbuf
      rcases hend with hhead | hroom | hlater
      · have hsome := (partition_isSome_iff (by decide) buf).2 hhead
        rw [hbuf] at hsome
        cases hsome
      · have hlength : (r.head ++ blankLine).length ≤ buf.length := by
          rw [List.length_append]
          change r.head.length + 4 ≤ buf.length
          omega
        have hprefix : r.head ++ blankLine <+: buf := by
          refine List.prefix_of_prefix_length_le ?_ ⟨later, rfl⟩ hlength
          rw [hall, ← List.append_assoc]
          exact List.prefix_append _ _
        obtain ⟨tail, htail⟩ := hprefix
        exact hnone tail (by rw [← htail, List.append_assoc])
      · rw [hlater, List.append_nil] at hall
        exact hnone r.rest hall

/-- A request line begins with a letter. -/
theorem head?_of_isReqLine {l : Text} (h : isReqLine l = true) (t : Text) :
    (l ++ t).head? ≠ some (Char.ofNat 0x16) := by
  obtain ⟨method, hmethod, hmatch⟩ := List.any_eq_true.1 h
  cases hdrop : dropLiteral method l with
  | none =>
      rw [hdrop] at hmatch
      cases hmatch
  | some rest =>
      rw [dropLiteral_eq_some_iff.1 hdrop]
      simp only [methods, List.map_cons, List.map_nil, List.mem_cons,
        List.not_mem_nil, or_false] at hmethod
      rcases hmethod with rfl | rfl | rfl | rfl | rfl | rfl | rfl <;> simp

theorem joinLines_prefix (l : Text) (lines : List Text) :
    ∃ t, joinLines (l :: lines) = l ++ t := by
  cases lines with
  | nil => exact ⟨[], by simp [joinLines]⟩
  | cons l' lines => exact ⟨_, joinLines_cons l l' lines ▸
      List.append_assoc _ _ _⟩

/-- What the modem gets, however the request arrives. -/
theorem dispatch_eq (m : Modem) (d : Delivery) :
    dispatch m d.reads =
      joinLines (d.line :: (m.edited d.fields).map Field.line) ++
        (blankLine ++ (crlf ++ d.rest)) := by
  have hjoined := d.joined
  cases hreads : d.reads with
  | nil =>
      rw [hreads] at hjoined
      have hlength := congrArg List.length hjoined
      simp [blankLine] at hlength
  | cons first reads =>
      rw [hreads, List.flatten_cons] at hjoined
      obtain ⟨hsum, hend⟩ := gather_spec first reads
      have hend' : blankLine <:+: (gather first reads).1 ∨
          65536 ≤ (gather first reads).1.length ∨
          (gather first reads).2.flatten = [] := by
        rcases hend with hhead | hroom | hlater
        · exact Or.inl hhead
        · exact Or.inr (Or.inl hroom)
        · exact Or.inr (Or.inr (by rw [hlater]; rfl))
      obtain ⟨tail, hpart, htail⟩ :=
        d.toRequest.partition_gathered (hsum.trans hjoined) d.small hend'
      have hhead : first.head? ≠ some (Char.ofNat 0x16) := by
        have hne : first ≠ [] := d.nonempty first (by simp [hreads])
        obtain ⟨t, ht⟩ := joinLines_prefix d.line (d.fields.map Field.line)
        have hline := head?_of_isReqLine d.method_ok
          (t ++ (blankLine ++ d.rest))
        rw [← List.append_assoc, ← ht] at hline
        rw [← List.head?_append_of_ne_nil first hne, hjoined]
        exact hline
      have hin : blankLine <:+: (gather first reads).1 := by
        rw [← partition_isSome_iff (by decide), hpart]
        rfl
      have hfirst : firstLine (gather first reads).1 = d.line := by
        obtain ⟨rest, hrest⟩ := partition_first d.line_ok.noReturn
          (d.fields.map Field.line) tail
        rw [← List.append_assoc] at hrest
        unfold firstLine
        rw [partition_eq hpart]
        unfold Request.head
        rw [hrest]
      rw [dispatch, if_neg hhead]
      dsimp only
      rw [if_pos ⟨hin, by rw [hfirst]; exact d.method_ok⟩]
      unfold rewriteHost
      rw [hpart]
      dsimp only
      unfold Request.head
      rw [editHead_joinLines m d.line_ok d.method_ok, ← htail]
      simp [crlf, blankLine]

end Reading

section Fields

/-- A Host field becomes the modem's. -/
def Modem.put (m : Modem) (f : Field) : Field :=
  if isNamed "host" f then m.hostField else f

/-- The fields before the last one, without those of the connection. -/
def unconnected (init : List Field) : List Field :=
  init.filter fun f => !isNamed "connection" f

theorem edited_nil (m : Modem) : m.edited [] = [m.hostField, closeField] := by
  simp [Modem.edited, editAll]

theorem edited_concat (m : Modem) (init : List Field) (last : Field) :
    m.edited (init ++ [last]) =
      (if (unconnected init).map m.put = unconnected init then
        unconnected init ++ [last] ++ [m.hostField]
      else (unconnected init).map m.put ++ [last]) ++ [closeField] := by
  have hkept : editAll "connection" [] (init ++ [last]) =
      unconnected init ++ [last] := by
    unfold editAll unconnected
    rw [List.dropLast_concat, List.getLast?_concat]
    congr 1
    induction init with
    | nil => rfl
    | cons f init ih =>
        rw [List.flatMap_cons, List.filter_cons, ih]
        cases isNamed "connection" f <;> rfl
  have hnew : editAll "host" [m.hostField] (unconnected init ++ [last]) =
      (unconnected init).map m.put ++ [last] := by
    unfold editAll
    rw [List.dropLast_concat, List.getLast?_concat]
    congr 1
    induction unconnected init with
    | nil => rfl
    | cons f rest ih =>
        rw [List.flatMap_cons, List.map_cons, ih]
        unfold Modem.put
        cases isNamed "host" f <;> rfl
  unfold Modem.edited
  dsimp only
  rw [hkept, hnew]
  simp only [List.append_left_inj]

/-- The fields with a name. -/
def named (name : String) (fields : List Field) : List Field :=
  fields.filter (isNamed name)

theorem named_append (name : String) (fields fields' : List Field) :
    named name (fields ++ fields') = named name fields ++ named name fields' :=
  List.filter_append _ _

theorem fieldValues_read (name : String) (fields : List Field) :
    fieldValues name (fields.map Field.read) =
      (named name fields).map fun f => f.read.2 := by
  unfold fieldValues named
  rw [List.filter_map, List.map_map]
  rfl

theorem not_connection_of_host {f : Field} (h : isNamed "host" f = true) :
    isNamed "connection" f = false := by
  unfold isNamed at h ⊢
  rw [decide_eq_true_eq] at h
  rw [h]
  decide

theorem isNamed_put (m : Modem) (f : Field) :
    isNamed "host" (m.put f) = isNamed "host" f := by
  unfold Modem.put
  cases h : isNamed "host" f with
  | true =>
      rw [if_pos rfl]
      rfl
  | false =>
      rw [if_neg Bool.false_ne_true]
      exact h

theorem isNamed_connection_put (m : Modem) (f : Field) :
    isNamed "connection" (m.put f) = isNamed "connection" f := by
  unfold Modem.put
  cases h : isNamed "host" f with
  | true =>
      rw [if_pos rfl, not_connection_of_host h]
      rfl
  | false => rw [if_neg Bool.false_ne_true]

theorem named_host_unconnected (init : List Field) :
    named "host" (unconnected init) = named "host" init := by
  unfold named unconnected
  rw [List.filter_filter]
  apply List.filter_congr
  intro f _
  cases h : isNamed "host" f with
  | true => rw [not_connection_of_host h]; rfl
  | false => rfl

theorem named_connection_unconnected (init : List Field) :
    named "connection" (unconnected init) = [] := by
  simp [named, unconnected, List.filter_filter]

theorem named_map_put (m : Modem) (name : String) (fields : List Field)
    (hput : ∀ f, isNamed name (m.put f) = isNamed name f) :
    named name (fields.map m.put) = (named name fields).map m.put := by
  unfold named
  rw [List.filter_map]
  congr 1
  apply List.filter_congr
  intro f _
  exact hput f

theorem read_hostField (m : Modem) : m.hostField.read.2 = m.value := by
  have hstrip : stripBy isOws m.value = m.value := by
    apply stripBy_eq_self_of_notMem
    intro c hc
    have hblank := m.isBlank_of_mem_value c hc
    unfold isOws
    by_contra h
    rw [Bool.not_eq_false, Bool.or_eq_true, decide_eq_true_eq,
      decide_eq_true_eq] at h
    rcases h with rfl | rfl
    · exact absurd hblank (by decide)
    · exact absurd hblank (by decide)
  have hspace : stripBy isOws (' ' :: m.value) = stripBy isOws m.value := by
    simp [stripBy, isOws]
  exact hspace.trans hstrip

/-- What the edited fields say of the connection. -/
theorem named_connection_edited (m : Modem) (init : List Field) (last : Field) :
    named "connection" (m.edited (init ++ [last])) =
      named "connection" [last] ++ [closeField] := by
  have hclose : named "connection" [closeField] = [closeField] := by
    decide
  have hhost : named "connection" [m.hostField] = [] := by
    rfl
  have hput : named "connection" ((unconnected init).map m.put) = [] := by
    rw [named_map_put m "connection" _ (isNamed_connection_put m),
      named_connection_unconnected, List.map_nil]
  rw [edited_concat, named_append, hclose]
  split
  · rw [named_append, named_append, named_connection_unconnected, hhost,
      List.nil_append, List.append_nil]
  · rw [named_append, hput, List.nil_append]

/-- The connection is closed after the exchange unless the last field speaks of
it too. -/
theorem connection_edited_iff (m : Modem) (fields : List Field) :
    fieldValues "connection" ((m.edited fields).map Field.read) =
        ["close".toList] ↔
      ∀ f, fields.getLast? = some f → isNamed "connection" f = false := by
  rcases List.eq_nil_or_concat' fields with rfl | ⟨init, last, rfl⟩
  · rw [edited_nil, fieldValues_read]
    refine iff_of_true ?_ (by simp)
    rfl
  · rw [fieldValues_read, named_connection_edited, List.getLast?_concat]
    cases hlast : isNamed "connection" last with
    | true =>
        refine iff_of_false ?_ ?_
        · intro h
          have hlength := congrArg List.length h
          simp [named, hlast] at hlength
        · intro h
          rw [h last rfl] at hlast
          cases hlast
    | false =>
        refine iff_of_true ?_ ?_
        · simp only [named, List.filter_cons, hlast, List.filter_nil,
            Bool.false_eq_true, if_false, List.nil_append, List.map_singleton]
          decide
        · rintro f hf
          rw [← Option.some.inj hf]
          exact hlast

theorem wrote_iff (m : Modem) (f : Field) : m.wrote f ↔ f = m.hostField := by
  unfold Modem.wrote
  rw [← replText_hostField]
  simp only [replText, List.flatMap_cons, List.flatMap_nil, List.append_nil,
    List.append_left_inj]
  exact Field.line_injective.eq_iff

/-- Nothing changes exactly when the Host fields are the proxy's own. -/
theorem map_put_eq_iff (m : Modem) (fields : List Field) :
    fields.map m.put = fields ↔
      ∀ f ∈ fields, isNamed "host" f = true → f = m.hostField := by
  have hid : fields.map m.put = fields ↔ fields.map m.put = fields.map id := by
    rw [List.map_id]
  rw [hid, List.map_inj_left]
  refine forall_congr' fun f => forall_congr' fun _ => ?_
  unfold Modem.put
  cases isNamed "host" f with
  | true => exact ⟨fun h _ => h.symm, fun h => (h rfl).symm⟩
  | false => exact iff_of_true rfl (fun h => by cases h)

theorem mem_named {name : String} {fields : List Field} {f : Field} :
    f ∈ named name fields ↔ f ∈ fields ∧ isNamed name f = true :=
  List.mem_filter

theorem mem_named_of_unconnected {init : List Field} {f : Field}
    (hf : f ∈ unconnected init) (hhost : isNamed "host" f = true) :
    f ∈ named "host" init :=
  mem_named.2 ⟨(List.mem_filter.1 hf).1, hhost⟩

theorem mem_unconnected_of_host {init : List Field} {f : Field}
    (hf : f ∈ init) (hhost : isNamed "host" f = true) :
    f ∈ unconnected init := by
  refine List.mem_filter.2 ⟨hf, ?_⟩
  rw [not_connection_of_host hhost]
  rfl

/-- What the edited fields say of the host. -/
theorem named_host_edited (m : Modem) (init : List Field) (last : Field) :
    named "host" (m.edited (init ++ [last])) =
      if (unconnected init).map m.put = unconnected init then
        named "host" (init ++ [last]) ++ [m.hostField]
      else (named "host" init).map m.put ++ named "host" [last] := by
  have hclose : named "host" [closeField] = [] := by
    decide
  have hhost : named "host" [m.hostField] = [m.hostField] := by
    rfl
  rw [edited_concat, named_append, hclose, List.append_nil]
  split
  · rw [named_append, named_append, named_host_unconnected, hhost,
      named_append]
  · rw [named_append, named_map_put m "host" _ (isNamed_put m),
      named_host_unconnected]

/-- The modem is named once exactly when there is at most one Host field, not
the last, and not written as the proxy writes it. -/
theorem host_edited_iff (m : Modem) (fields : List Field) :
    fieldValues "host" ((m.edited fields).map Field.read) = [m.value] ↔
      (∀ f, fields.getLast? = some f → isNamed "host" f = false) ∧
        (named "host" fields).length ≤ 1 ∧
        ∀ f ∈ fields, isNamed "host" f = true → ¬ m.wrote f := by
  rw [fieldValues_read]
  rcases List.eq_nil_or_concat' fields with rfl | ⟨init, last, rfl⟩
  · rw [edited_nil]
    refine iff_of_true ?_ (by simp [named])
    exact congrArg (fun v => [v]) (read_hostField m)
  · have hlast : (∀ f, (init ++ [last]).getLast? = some f →
        isNamed "host" f = false) ↔ named "host" [last] = [] := by
      simp [named]
    rw [hlast, named_host_edited]
    by_cases hsame : (unconnected init).map m.put = unconnected init
    · rw [if_pos hsame]
      have hown := (map_put_eq_iff m _).1 hsame
      constructor
      · intro h
        have hnone : named "host" (init ++ [last]) = [] := by
          have hlength := congrArg List.length h
          rw [List.length_map, List.length_append] at hlength
          exact List.length_eq_zero_iff.1 (by simpa using hlength)
        have hparts := hnone
        rw [named_append, List.append_eq_nil_iff] at hparts
        refine ⟨hparts.2, by simp [hnone], ?_⟩
        intro f hf hhost
        exact absurd (mem_named.2 ⟨hf, hhost⟩) (by simp [hnone])
      · rintro ⟨hnolast, -, hfresh⟩
        have hnoinit : named "host" init = [] := by
          rw [List.eq_nil_iff_forall_not_mem]
          intro f hf
          obtain ⟨hmem, hhost⟩ := mem_named.1 hf
          exact hfresh f (List.mem_append_left _ hmem) hhost
            ((wrote_iff m f).2
              (hown f (mem_unconnected_of_host hmem hhost) hhost))
        rw [named_append, hnoinit, hnolast, List.nil_append, List.nil_append,
          List.map_singleton, read_hostField]
    · rw [if_neg hsame]
      have hother : ∃ f ∈ named "host" init, f ≠ m.hostField := by
        by_contra hall
        push Not at hall
        apply hsame
        rw [map_put_eq_iff]
        intro f hf hhost
        exact hall f (mem_named_of_unconnected hf hhost)
      obtain ⟨f₀, hf₀, hne⟩ := hother
      have hpos : 0 < (named "host" init).length := List.length_pos_of_mem hf₀
      have hput : ∀ x ∈ named "host" init, m.put x = m.hostField := by
        intro x hx
        exact if_pos (mem_named.1 hx).2
      constructor
      · intro h
        have hlength := congrArg List.length h
        simp only [List.length_map, List.length_append,
          List.length_singleton] at hlength
        have hnolast : named "host" [last] = [] :=
          List.length_eq_zero_iff.1 (by omega)
        have hone : (named "host" init).length = 1 := by omega
        obtain ⟨x, hx⟩ := List.length_eq_one_iff.1 hone
        refine ⟨hnolast, ?_, ?_⟩
        · rw [named_append, hnolast, List.append_nil, hone]
        · intro f hf hhost hwrote
          have hmem : f ∈ named "host" (init ++ [last]) :=
            mem_named.2 ⟨hf, hhost⟩
          rw [named_append, hnolast, List.append_nil, hx,
            List.mem_singleton] at hmem
          rw [hx, List.mem_singleton] at hf₀
          rw [wrote_iff, hmem, ← hf₀] at hwrote
          exact hne hwrote
      · rintro ⟨hnolast, hle, -⟩
        rw [named_append, hnolast, List.append_nil] at hle
        obtain ⟨x, hx⟩ := List.length_eq_one_iff.1
          (show (named "host" init).length = 1 by omega)
        have hputx := hput x (by simp [hx])
        rw [hnolast, hx, List.append_nil, List.map_singleton,
          List.map_singleton, hputx, read_hostField]

/-- The fields with another name than the two. -/
def elsewhere (fields : List Field) : List Field :=
  fields.filter fun f => !isNamed "host" f && !isNamed "connection" f

theorem others_read (fields : List Field) :
    others (fields.map Field.read) = (elsewhere fields).map Field.read := by
  unfold others elsewhere
  rw [List.filter_map]
  congr 1
  apply List.filter_congr
  intro f _
  rw [Function.comp_apply, Bool.decide_and, decide_not, decide_not]
  rfl

theorem elsewhere_append (fields fields' : List Field) :
    elsewhere (fields ++ fields') = elsewhere fields ++ elsewhere fields' :=
  List.filter_append _ _

theorem elsewhere_unconnected (init : List Field) :
    elsewhere (unconnected init) = elsewhere init := by
  unfold elsewhere unconnected
  rw [List.filter_filter]
  apply List.filter_congr
  intro f _
  cases isNamed "connection" f <;> simp

theorem elsewhere_map_put (m : Modem) (fields : List Field) :
    elsewhere (fields.map m.put) = elsewhere fields := by
  have hsame : ∀ f ∈ elsewhere fields, m.put f = f := by
    intro f hf
    have hnot := (List.mem_filter.1 hf).2
    rw [Bool.and_eq_true, Bool.not_eq_true'] at hnot
    unfold Modem.put
    rw [hnot.1, if_neg Bool.false_ne_true]
  have hcomm : elsewhere (fields.map m.put) = (elsewhere fields).map m.put := by
    unfold elsewhere
    rw [List.filter_map]
    congr 1
    apply List.filter_congr
    intro f _
    rw [Function.comp_apply, isNamed_put, isNamed_connection_put]
  rw [hcomm, List.map_congr_left hsame, List.map_id']

/-- The other fields stay, in their order. -/
theorem elsewhere_edited (m : Modem) (fields : List Field) :
    elsewhere (m.edited fields) = elsewhere fields := by
  have hhost : elsewhere [m.hostField] = [] := rfl
  have hclose : elsewhere [closeField] = [] := by
    decide
  rcases List.eq_nil_or_concat' fields with rfl | ⟨init, last, rfl⟩
  · rw [edited_nil]
    exact hclose
  · rw [edited_concat, elsewhere_append, hclose, List.append_nil]
    split
    · rw [elsewhere_append, elsewhere_append, elsewhere_unconnected, hhost,
        List.append_nil, elsewhere_append]
    · rw [elsewhere_append, elsewhere_map_put, elsewhere_unconnected,
        elsewhere_append]

theorem fieldValues_others
    {name : String} (hhost : name ≠ "host") (hconn : name ≠ "connection")
    (fields : List (Text × Text)) :
    fieldValues name (others fields) = fieldValues name fields := by
  unfold fieldValues others
  rw [List.filter_filter]
  congr 1
  apply List.filter_congr
  intro f _
  rw [Bool.and_eq_left_iff_imp]
  intro h
  have hname : lower f.1 = name.toList := of_decide_eq_true h
  rw [decide_eq_true_eq, hname]
  exact ⟨hhost ∘ String.toList_inj.1, hconn ∘ String.toList_inj.1⟩

/-- Neither of the two fields tells where the body ends. -/
theorem framing_others (fields : List (Text × Text)) :
    Http.framing (others fields) = Http.framing fields := by
  unfold Http.framing
  rw [fieldValues_others (by decide) (by decide),
    fieldValues_others (by decide) (by decide)]

end Fields

section Bodies

/-- The line end too many is harmless exactly when the body bears it. -/
theorem bodyOf_crlf_iff
    {framing : Framing} {rest body : Text}
    (hbody : bodyOf framing rest = some body) :
    bodyOf framing (crlf ++ rest) = some body ↔ BodyFits framing body := by
  cases framing with
  | empty => exact iff_of_true hbody trivial
  | chunked =>
      refine iff_of_false ?_ id
      unfold bodyOf
      dsimp only
      rw [dechunk_crlf]
      exact Option.some_ne_none _ ∘ Eq.symm
  | length n =>
      unfold bodyOf at hbody ⊢
      dsimp only at hbody ⊢
      split at hbody
      · rename_i hle
        obtain rfl := Option.some.inj hbody
        have hroom : n ≤ (crlf ++ rest).length := by
          rw [List.length_append]
          omega
        have hcut : (crlf ++ rest).take n = (crlf ++ rest.take n).take n := by
          rw [List.take_append, List.take_append, List.take_take,
            Nat.min_eq_left (Nat.sub_le n _)]
        have hlength : (rest.take n).length = n := List.length_take_of_le hle
        rw [if_pos hroom, Option.some.injEq, hcut]
        unfold BodyFits
        dsimp only
        rw [List.prefix_iff_eq_take, hlength, eq_comm]
      · cases hbody

/-- What the modem reads. -/
theorem parse_dispatch (m : Modem) (d : Delivery) :
    parse (dispatch m d.reads) =
      (bodyOf d.framing (crlf ++ d.rest)).map fun body =>
        ⟨d.line, (m.edited d.fields).map Field.read, body⟩ := by
  have hframing : Http.framing ((m.edited d.fields).map Field.read) =
      some d.framing := by
    rw [← framing_others, others_read, elsewhere_edited, ← others_read,
      framing_others]
    exact d.framing_ok
  rw [dispatch_eq, parse_text d.line_ok, hframing, Option.bind_some]

/-- A request comes through as it should exactly when its last field is neither
of the two, it has at most one Host field, which is not yet the one that the
proxy writes, and its body bears a line end in front. -/
theorem faithful_iff (m : Modem) (d : Delivery) :
    Faithful m d ↔ Suited m d.toRequest := by
  have hothers : others ((m.edited d.fields).map Field.read) =
      others (d.fields.map Field.read) := by
    rw [others_read, elsewhere_edited, ← others_read]
  have hhost := host_edited_iff m d.fields
  have hconn := connection_edited_iff m d.fields
  have hbody := bodyOf_crlf_iff d.body_ok
  unfold Faithful
  rw [parse_dispatch]
  constructor
  · rintro ⟨msg, hmsg, -, -, hostOk, connOk, bodyOk⟩
    obtain ⟨body, hread, rfl⟩ := Option.map_eq_some_iff.1 hmsg
    obtain ⟨lastHost, one, fresh⟩ := hhost.1 hostOk
    have hclose := hconn.1 connOk
    obtain rfl : body = d.body := bodyOk
    exact
      { last := fun f hf => ⟨lastHost f hf, hclose f hf⟩
        one := one
        fresh := fresh
        body := hbody.1 hread }
  · intro h
    refine ⟨⟨d.line, (m.edited d.fields).map Field.read, d.body⟩, ?_, rfl,
      hothers, ?_, ?_, rfl⟩
    · rw [hbody.2 h.body]
      rfl
    · exact hhost.2 ⟨fun f hf => (h.last f hf).1, h.one, h.fresh⟩
    · exact hconn.2 fun f hf => (h.last f hf).2

/-- A login at a modem behind the proxy: the form comes with a line end in
front of it, and one character short. -/
theorem not_faithful_login : ¬ ∀ (m : Modem) (d : Delivery), Faithful m d := by
  intro h
  let m : Modem := ⟨"192.168.8.1".toList, 80, by decide⟩
  let host : Field :=
    ⟨"Host".toList, " 127.0.0.1:18180".toList, by decide, by decide, by decide⟩
  let length : Field :=
    ⟨"Content-Length".toList, " 3".toList, by decide, by decide, by decide⟩
  let login : Request :=
    { line := "POST /login HTTP/1.1".toList
      fields := [host, length]
      rest := "a=1".toList
      framing := .length 3
      body := "a=1".toList
      line_ok := ⟨by decide, by decide, by decide⟩
      method_ok := by decide
      framing_ok := by decide
      body_ok := by decide }
  obtain ⟨msg, hmsg, -, -, -, -, hbody⟩ := h m
    { login with
      reads := [login.head ++ (blankLine ++ login.rest)]
      nonempty := by decide
      joined := by decide
      small := by decide }
  rw [parse_dispatch] at hmsg
  obtain ⟨body, hread, rfl⟩ := Option.map_eq_some_iff.1 hmsg
  obtain rfl : body = "a=1".toList := hbody
  have hcut : bodyOf (.length 3) (crlf ++ "a=1".toList) =
      some "\r\na".toList := by
    decide
  exact absurd (hcut.symm.trans hread) (by decide)

end Bodies

end WebuiProxy
end Probe
end Kelt
