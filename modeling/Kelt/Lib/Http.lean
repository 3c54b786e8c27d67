import Kelt.Lib.IpAddress
import Kelt.Lib.Scan

/-!
# HTTP/1.1 requests as bytes

A request is a head of lines that CRLF separates, an empty line, and a body
whose end the head determines: a length, chunks, or nothing. Bytes are
characters below 256.

`parse` reads a request from the bytes of a connection; `parse_text` says what
it reads from lines that were put together, whatever follows them.
-/

namespace Kelt
namespace Http

section Lines

def crlf : Text :=
  ['\r', '\n']

/-- The end of a head. -/
def blankLine : Text :=
  ['\r', '\n', '\r', '\n']

/-- `t.partition(sep)`: what stands before the first `sep` and after it. -/
def partition (sep : Text) : Text → Option (Text × Text)
  | [] => none
  | c :: rest =>
      match dropLiteral sep (c :: rest) with
      | some tail => some ([], tail)
      | none => (partition sep rest).map fun p => (c :: p.1, p.2)

/-- A line of a head: not empty, and without line ends. -/
structure IsLine (l : Text) : Prop where
  ne_nil : l ≠ []
  noReturn : '\r' ∉ l
  noFeed : '\n' ∉ l

/-- Lines with CRLF between them. -/
def joinLines : List Text → Text
  | [] => []
  | [l] => l
  | l :: rest => l ++ '\r' :: '\n' :: joinLines rest

theorem dropLiteral_eq_some_iff {literal t tail : Text} :
    dropLiteral literal t = some tail ↔ t = literal ++ tail := by
  unfold dropLiteral
  constructor
  · intro h
    split at h
    · rename_i hprefix
      obtain ⟨s, rfl⟩ := List.isPrefixOf_iff_prefix.1 hprefix
      rw [List.drop_left, Option.some.injEq] at h
      rw [h]
    · cases h
  · rintro rfl
    rw [if_pos (List.isPrefixOf_iff_prefix.2 (List.prefix_append _ _)),
      List.drop_left]

theorem partition_eq {sep t a b : Text} (h : partition sep t = some (a, b)) :
    t = a ++ sep ++ b := by
  induction t generalizing a with
  | nil => cases h
  | cons c rest ih =>
      rw [partition] at h
      cases hdrop : dropLiteral sep (c :: rest) with
      | some tail =>
          rw [hdrop] at h
          obtain ⟨rfl, rfl⟩ := Prod.mk.inj (Option.some.inj h)
          exact dropLiteral_eq_some_iff.1 hdrop
      | none =>
          rw [hdrop] at h
          obtain ⟨⟨a', b'⟩, hp, hab⟩ := Option.map_eq_some_iff.1 h
          obtain ⟨rfl, rfl⟩ := Prod.mk.inj hab
          rw [ih hp]
          rfl

/-- More text does not change what stands before the first separator. -/
theorem partition_append {sep t a b : Text}
    (h : partition sep t = some (a, b)) (u : Text) :
    partition sep (t ++ u) = some (a, b ++ u) := by
  induction t generalizing a with
  | nil => cases h
  | cons c rest ih =>
      rw [partition] at h
      rw [List.cons_append, partition]
      cases hdrop : dropLiteral sep (c :: rest) with
      | some tail =>
          rw [hdrop] at h
          obtain ⟨rfl, rfl⟩ := Prod.mk.inj (Option.some.inj h)
          have hmore : dropLiteral sep (c :: (rest ++ u)) = some (tail ++ u) := by
            rw [dropLiteral_eq_some_iff, ← List.cons_append,
              dropLiteral_eq_some_iff.1 hdrop, List.append_assoc]
          rw [hmore]
      | none =>
          rw [hdrop] at h
          obtain ⟨⟨a', b'⟩, hp, hab⟩ := Option.map_eq_some_iff.1 h
          obtain ⟨rfl, rfl⟩ := Prod.mk.inj hab
          have hmore : dropLiteral sep (c :: (rest ++ u)) = none := by
            by_contra hne
            obtain ⟨tail, htail⟩ := Option.ne_none_iff_exists'.1 hne
            rw [dropLiteral_eq_some_iff] at htail
            have hlength : sep.length ≤ (c :: rest).length := by
              rw [partition_eq hp]
              simp
              omega
            have hprefix : sep <+: c :: rest :=
              List.prefix_of_prefix_length_le
                ⟨tail, htail.symm⟩ ⟨u, rfl⟩ hlength
            obtain ⟨s, hs⟩ := hprefix
            rw [(@dropLiteral_eq_some_iff _ _ s).2 hs.symm] at hdrop
            cases hdrop
          rw [hmore, ih hp]
          rfl

/-- The separator occurs exactly when there is something before it. -/
theorem partition_isSome_iff {sep : Text} (hsep : sep ≠ []) (t : Text) :
    (partition sep t).isSome = true ↔ sep <:+: t := by
  induction t with
  | nil =>
      rw [List.infix_nil]
      exact iff_of_false Bool.false_ne_true hsep
  | cons c rest ih =>
      rw [partition, List.infix_cons_iff]
      cases hdrop : dropLiteral sep (c :: rest) with
      | some tail =>
          refine iff_of_true rfl (Or.inl ⟨tail, ?_⟩)
          exact (dropLiteral_eq_some_iff.1 hdrop).symm
      | none =>
          have hno : ¬ sep <+: c :: rest := by
            rintro ⟨tail, htail⟩
            rw [dropLiteral_eq_some_iff.2 htail.symm] at hdrop
            cases hdrop
          rw [or_iff_right hno, ← ih]
          cases partition sep rest <;> rfl

/-- Text without the first character of the separator is passed over. -/
theorem partition_skip {c : Char} {l : Text} (hl : c ∉ l) (sep t : Text) :
    partition (c :: sep) (l ++ t) =
      (partition (c :: sep) t).map fun p => (l ++ p.1, p.2) := by
  induction l with
  | nil => simp
  | cons x l ih =>
      have hx : c ≠ x := fun h => hl (by simp [h])
      have hl' : c ∉ l := fun h => hl (List.mem_cons_of_mem _ h)
      have hdrop : dropLiteral (c :: sep) (x :: (l ++ t)) = none := by
        simp [dropLiteral, hx]
      rw [List.cons_append, partition, hdrop, ih hl', Option.map_map]
      rfl

/-- A line of a head is passed over. -/
theorem partition_line {l : Text} (hl : '\r' ∉ l) (t : Text) :
    partition blankLine (l ++ t) =
      (partition blankLine t).map fun p => (l ++ p.1, p.2) :=
  partition_skip hl _ t

/-- The end of a line that is not the last one is passed over. -/
theorem partition_crlf {c : Char} (hc : c ≠ '\r') (t : Text) :
    partition blankLine ('\r' :: '\n' :: c :: t) =
      (partition blankLine (c :: t)).map fun p => ('\r' :: '\n' :: p.1, p.2) := by
  have hdrop : dropLiteral blankLine ('\r' :: '\n' :: c :: t) = none := by
    simp [dropLiteral, blankLine, Ne.symm hc]
  have hdrop' : dropLiteral blankLine ('\n' :: c :: t) = none := by
    simp [dropLiteral, blankLine]
  rw [partition, hdrop, partition, hdrop', Option.map_map]
  rfl

theorem joinLines_ne_nil {l : Text} (hl : IsLine l) (lines : List Text) :
    ∃ c t, c ≠ '\r' ∧ joinLines (l :: lines) = c :: t := by
  cases l with
  | nil => exact absurd rfl hl.ne_nil
  | cons c l =>
      have hc : c ≠ '\r' := fun h => hl.noReturn (by simp [h])
      cases lines with
      | nil => exact ⟨c, l, hc, rfl⟩
      | cons l' lines => exact ⟨c, _, hc, rfl⟩

/-- The head ends at the first empty line. -/
theorem partition_joinLines
    {l : Text} {lines : List Text}
    (hl : IsLine l) (hlines : ∀ x ∈ lines, IsLine x) (tail : Text) :
    partition blankLine (joinLines (l :: lines) ++ (blankLine ++ tail)) =
      some (joinLines (l :: lines), tail) := by
  induction lines generalizing l with
  | nil =>
      have hend : partition blankLine (blankLine ++ tail) = some ([], tail) := by
        simp [partition, dropLiteral, blankLine]
      rw [joinLines, partition_line hl.noReturn, hend]
      simp
  | cons l' lines ih =>
      have hl' := hlines l' List.mem_cons_self
      have hrest := ih hl' (fun x hx => hlines x (List.mem_cons_of_mem _ hx))
      obtain ⟨c, t, hc, hjoin⟩ := joinLines_ne_nil hl' lines
      rw [joinLines, List.append_assoc, partition_line hl.noReturn,
        List.cons_append, List.cons_append]
      · rw [hjoin, List.cons_append] at hrest ⊢
        rw [partition_crlf hc, hrest]
        rfl
      · simp

/-- The first line of a head. -/
theorem partition_first
    {l : Text} (hl : '\r' ∉ l) (lines : List Text) (tail : Text) :
    ∃ rest, partition crlf (joinLines (l :: lines) ++ (blankLine ++ tail)) =
      some (l, rest) := by
  have hend : ∀ t, partition crlf (l ++ '\r' :: '\n' :: t) = some (l, t) := by
    intro t
    have hcut : partition crlf ('\r' :: '\n' :: t) = some ([], t) := by
      simp [partition, dropLiteral, crlf]
    have hskip := partition_skip hl ['\n'] ('\r' :: '\n' :: t)
    change partition crlf _ = (partition crlf _).map _ at hskip
    rw [hskip, hcut, Option.map_some, List.append_nil]
  cases lines with
  | nil => exact ⟨_, hend _⟩
  | cons l' lines =>
      refine ⟨joinLines (l' :: lines) ++ (blankLine ++ tail), ?_⟩
      rw [joinLines, List.append_assoc]
      · exact hend _
      · simp

end Lines

section Head

/-- A line of a head as the line feed cut it: without its carriage return. -/
def dropReturn (l : Text) : Option Text :=
  if l.getLast? = some '\r' then some l.dropLast else none

/-- The lines of a head: all but the last one end in CRLF. -/
def headLines (head : Text) : Option (List Text) :=
  ((cutLines head).1.mapM dropReturn).map fun ls => ls ++ [(cutLines head).2]

theorem mapM_map_eq_some
    {α β γ : Type} {f : β → Option γ} {g : α → β} {h : α → γ} {l : List α}
    (hl : ∀ a ∈ l, f (g a) = some (h a)) :
    (l.map g).mapM f = some (l.map h) := by
  induction l with
  | nil => rfl
  | cons a l ih =>
      have hrest := ih fun x hx => hl x (List.mem_cons_of_mem _ hx)
      rw [List.map_cons, List.mapM_cons, hl a List.mem_cons_self, hrest]
      rfl

/-- Put together, the lines are ended one by one, but for the last. -/
theorem joinLines_concat (lines : List Text) (last : Text) :
    joinLines (lines ++ [last]) =
      unlines (lines.map fun l => l ++ ['\r']) ++ last := by
  induction lines with
  | nil => simp [joinLines, unlines]
  | cons l lines ih =>
      cases hrest : lines ++ [last] with
      | nil => simp at hrest
      | cons l' rest =>
          rw [List.cons_append, hrest, joinLines, ← hrest, ih]
          · simp [unlines]
          · simp

theorem cutLines_joinLines (lines : List Text) (last : Text)
    (hlines : ∀ l ∈ lines, '\n' ∉ l) (hlast : '\n' ∉ last) :
    cutLines (joinLines (lines ++ [last])) =
      (lines.map fun l => l ++ ['\r'], last) := by
  rw [joinLines_concat]
  apply cutLines_unlines_append _ hlast
  intro l hl
  obtain ⟨x, hx, rfl⟩ := List.mem_map.1 hl
  simp [hlines x hx]

/-- The lines that were put together are read again. -/
theorem headLines_joinLines {lines : List Text}
    (hne : lines ≠ []) (hlines : ∀ l ∈ lines, '\n' ∉ l) :
    headLines (joinLines lines) = some lines := by
  obtain ⟨init, last, rfl⟩ := (List.eq_nil_or_concat' lines).resolve_left hne
  have hinit : ∀ l ∈ init, '\n' ∉ l := fun l hl =>
    hlines l (List.mem_append_left _ hl)
  have hlast : '\n' ∉ last :=
    hlines last (List.mem_append_right _ List.mem_cons_self)
  have hmap : (init.map fun l => l ++ ['\r']).mapM dropReturn =
      some (init.map id) := by
    apply mapM_map_eq_some
    intro l _
    simp [dropReturn]
  unfold headLines
  rw [cutLines_joinLines init last hinit hlast, hmap, List.map_id]
  rfl

/-- ASCII letters in lower case. -/
def lower (t : Text) : Text :=
  t.map Char.toLower

/-- White space around a value. -/
def isOws (c : Char) : Bool :=
  c = ' ' || c = '\t'

/-- A header field as it is written: any value, and a name without a colon and
white space. -/
structure Field where
  name : Text
  value : Text
  name_ne_nil : name ≠ []
  name_plain : ∀ c ∈ name, c ≠ ':' ∧ isBlank c = false
  value_plain : '\r' ∉ value ∧ '\n' ∉ value
deriving DecidableEq

/-- The line of a field. -/
def Field.line (f : Field) : Text :=
  f.name ++ ':' :: f.value

/-- The name and the value that the field has for its reader. -/
def Field.read (f : Field) : Text × Text :=
  (f.name, stripBy isOws f.value)

/-- A header line: its name, and its value without white space around it. -/
def readField (l : Text) : Option (Text × Text) :=
  if ':' ∈ l ∧ before ':' l ≠ [] ∧ (before ':' l).all (fun c => !isBlank c) then
    some (before ':' l, stripBy isOws (after ':' l))
  else none

theorem Field.name_ne_colon (f : Field) :
    ∀ c ∈ f.name, (c != ':') = true := by
  intro c hc
  simpa using (f.name_plain c hc).1

theorem Field.before_line (f : Field) : before ':' f.line = f.name := by
  unfold before Field.line
  rw [List.takeWhile_append_of_pos f.name_ne_colon]
  simp

theorem Field.after_line (f : Field) : after ':' f.line = f.value := by
  unfold after Field.line
  rw [List.dropWhile_append_of_pos f.name_ne_colon]
  simp

theorem Field.line_injective : Function.Injective Field.line := by
  intro f f' h
  have hname : f.name = f'.name := by
    rw [← f.before_line, h, f'.before_line]
  have hvalue : f.value = f'.value := by
    rw [← f.after_line, h, f'.after_line]
  cases f
  cases f'
  cases hname
  cases hvalue
  rfl

theorem readField_line (f : Field) : readField f.line = some f.read := by
  have hcolon : ':' ∈ f.line := by simp [Field.line]
  have hall : f.name.all (fun c => !isBlank c) = true := by
    rw [List.all_eq_true]
    intro c hc
    rw [(f.name_plain c hc).2]
    rfl
  unfold readField
  rw [f.before_line, f.after_line,
    if_pos ⟨hcolon, f.name_ne_nil, hall⟩]
  rfl

/-- A line end is in no name. -/
theorem Field.notMem_line (f : Field) {c : Char}
    (hblank : isBlank c = true) (hcolon : c ≠ ':') (hvalue : c ∉ f.value) :
    c ∉ f.line := by
  intro hc
  rcases List.mem_append.1 hc with hc | hc
  · rw [(f.name_plain c hc).2] at hblank
    cases hblank
  · rcases List.mem_cons.1 hc with hc | hc
    · exact hcolon hc
    · exact hvalue hc

theorem Field.isLine (f : Field) : IsLine f.line where
  ne_nil := by simp [Field.line]
  noReturn := f.notMem_line (by decide) (by decide) f.value_plain.1
  noFeed := f.notMem_line (by decide) (by decide) f.value_plain.2

/-- Heads of lines are equal when their lines are. -/
theorem joinLines_fields_inj
    {line : Text} (hline : IsLine line) {fields fields' : List Field}
    (h : joinLines (line :: fields.map Field.line) =
      joinLines (line :: fields'.map Field.line)) :
    fields = fields' := by
  have hfeed : ∀ fields : List Field,
      ∀ l ∈ line :: fields.map Field.line, '\n' ∉ l := by
    intro fields l hl
    rcases List.mem_cons.1 hl with rfl | hl
    · exact hline.noFeed
    · obtain ⟨f, -, rfl⟩ := List.mem_map.1 hl
      exact f.isLine.noFeed
  have hread := headLines_joinLines (List.cons_ne_nil _ _) (hfeed fields)
  rw [h, headLines_joinLines (List.cons_ne_nil _ _) (hfeed fields')] at hread
  have hlines := (List.cons.inj (Option.some.inj hread)).2
  exact (List.map_injective_iff.2 Field.line_injective hlines).symm

end Head

section Body

/-- How the end of a body is told. -/
inductive Framing where
  | empty
  | length (n : Nat)
  | chunked
deriving DecidableEq

/-- The values of a header field, whatever the case of its name. -/
def fieldValues (name : String) (fields : List (Text × Text)) : List Text :=
  (fields.filter fun f => lower f.1 = name.toList).map (·.2)

/-- The framing of a request: chunks before a length; contradictory lengths and
a last coding that is not `chunked` are refused. -/
def framing (fields : List (Text × Text)) : Option Framing :=
  match (fieldValues "transfer-encoding" fields).getLast? with
  | some codings =>
      if "chunked".toList.isSuffixOf (lower codings) then some .chunked
      else none
  | none =>
      match fieldValues "content-length" fields with
      | [] => some .empty
      | v :: vs =>
          if vs.all (· = v) then
            (Ip.numeral 10 Ip.decimalDigit v).map .length
          else none

/-- The data of a chunked body; the size of the last chunk is zero, and an
empty line ends the trailer. -/
def dechunk : Nat → Text → Option Text
  | 0, _ => none
  | fuel + 1, t => do
      let (line, rest) ← partition crlf t
      let size ← Ip.numeral 16 Ip.hexDigit (stripBy isOws (before ';' line))
      if size = 0 then
        if crlf.isPrefixOf rest || (partition blankLine rest).isSome then
          some []
        else none
      else
        let after ← dropLiteral crlf (rest.drop size)
        let data ← dechunk fuel after
        some (rest.take size ++ data)

/-- The body at the start of what follows a head. -/
def bodyOf (framing : Framing) (rest : Text) : Option Text :=
  match framing with
  | .empty => some []
  | .length n => if n ≤ rest.length then some (rest.take n) else none
  | .chunked => dechunk (rest.length + 1) rest

/-- A chunked body does not begin with a line end. -/
theorem dechunk_crlf (fuel : Nat) (t : Text) :
    dechunk fuel (crlf ++ t) = none := by
  cases fuel with
  | zero => rfl
  | succ fuel =>
      have hline : partition crlf (crlf ++ t) = some ([], t) := by
        simp [partition, dropLiteral, crlf]
      have hsize :
          Ip.numeral 16 Ip.hexDigit (stripBy isOws (before ';' [])) = none := by
        decide
      rw [dechunk, hline]
      simp only [Option.bind_eq_bind, Option.bind_some]
      rw [hsize]
      rfl

/-- A request as its reader has it. -/
structure Message where
  line : Text
  fields : List (Text × Text)
  body : Text

/-- The first request of a connection. -/
def parse (t : Text) : Option Message := do
  let (head, rest) ← partition blankLine t
  let lines ← headLines head
  match lines with
  | [] => none
  | line :: lines =>
      let fields ← lines.mapM readField
      let framing ← framing fields
      let body ← bodyOf framing rest
      some ⟨line, fields, body⟩

/-- What is read from a head that was put together. -/
theorem parse_text
    {line : Text} {fields : List Field} (hline : IsLine line) (rest : Text) :
    parse (joinLines (line :: fields.map Field.line) ++ (blankLine ++ rest)) =
      (framing (fields.map Field.read)).bind fun framing =>
        (bodyOf framing rest).map fun body =>
          ⟨line, fields.map Field.read, body⟩ := by
  have hlines : ∀ l ∈ fields.map Field.line, IsLine l := by
    intro l hl
    obtain ⟨f, -, rfl⟩ := List.mem_map.1 hl
    exact f.isLine
  have hfeed : ∀ l ∈ line :: fields.map Field.line, '\n' ∉ l := by
    intro l hl
    rcases List.mem_cons.1 hl with rfl | hl
    · exact hline.noFeed
    · exact (hlines l hl).noFeed
  have hfields :
      (fields.map Field.line).mapM readField = some (fields.map Field.read) :=
    mapM_map_eq_some fun f _ => readField_line f
  unfold parse
  rw [partition_joinLines hline hlines]
  simp only [Option.bind_eq_bind, Option.bind_some]
  rw [headLines_joinLines (List.cons_ne_nil _ _) hfeed]
  simp only [Option.bind_some]
  rw [hfields]
  simp only [Option.bind_some, Option.map_eq_bind, Function.comp_def]

end Body

end Http
end Kelt
