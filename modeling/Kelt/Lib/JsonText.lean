import Kelt.Lib.PyInt
import Kelt.Lib.Replace

/-!
# The text of a JSON document

A document is looked at as its text spells it: its strings, with their escapes,
and the characters between them, where no slash can be. What a string stands for
is the list of its UTF-16 units, so that two spellings of one text are the same.

A replacement of a word in the text is one in the spelling of each string
(`text_replaceWord`) when the word has a slash and nothing that JSON escapes.
`Edited key f` says that a document differs from another one just in that the
texts under one key have been changed by `f`.
-/

namespace Kelt
namespace JsonText

open Replace

section Spelling

/-- The characters that stand behind a backslash, but for the `u`. -/
def escapes : Text :=
  "\"\\/bfnrt".toList

/-- A character as it may stand in a string. -/
def isPlain (c : Char) : Bool :=
  c ≠ '"' && c ≠ '\\' && 32 ≤ c.toNat

/-- One character of a string, as it is spelled. -/
inductive Piece where
  | plain (c : Char) (ok : isPlain c = true)
  | escape (c : Char) (ok : c ∈ escapes)
  | unicode (digits : Fin 4 → {c : Char // isHexDigit c = true})
deriving DecidableEq

/-- A character between the strings, or a string. -/
inductive Token where
  | bare (c : Char) (ok : c ≠ '"' ∧ c ≠ '/')
  | str (pieces : List Piece)
deriving DecidableEq

abbrev Doc := List Token

def Piece.text : Piece → Text
  | plain c _ => [c]
  | escape c _ => ['\\', c]
  | unicode digits => '\\' :: 'u' :: List.ofFn fun i => (digits i).1

def Token.text : Token → Text
  | bare c _ => [c]
  | str pieces => '"' :: (pieces.flatMap Piece.text ++ ['"'])

def text (doc : Doc) : Text :=
  doc.flatMap Token.text

def utf16 (c : Char) : List Nat :=
  if c.toNat < 0x10000 then [c.toNat]
  else [0xD800 + (c.toNat - 0x10000) / 0x400,
    0xDC00 + (c.toNat - 0x10000) % 0x400]

/-- The character that an escape stands for. -/
def escaped : Char → Nat
  | 'b' => 8
  | 'f' => 12
  | 'n' => 10
  | 'r' => 13
  | 't' => 9
  | c => c.toNat

def hexValue (c : Char) : Nat :=
  if c ≤ '9' then c.toNat - 48
  else if c ≤ 'F' then c.toNat - 55
  else c.toNat - 87

/-- What a piece stands for. -/
def Piece.units : Piece → List Nat
  | plain c _ => utf16 c
  | escape c _ => [escaped c]
  | unicode digits =>
      [(List.ofFn fun i => hexValue (digits i).1).foldl
        (fun n d => 16 * n + d) 0]

/-- What a string stands for. -/
def value (pieces : List Piece) : List Nat :=
  pieces.flatMap Piece.units

/-- What a text of Python's stands for. -/
def unitsOf (t : Text) : List Nat :=
  t.flatMap utf16

end Spelling

section Words

/-- A text spelled without escapes. -/
def spell (t : Text) (plain : ∀ c ∈ t, isPlain c = true) : List Piece :=
  t.pmap Piece.plain plain

/-- A word to be replaced by a longer one. Both begin with a letter that is in
them only once and in no escape. -/
structure Rewriting where
  old : Text
  new : Text
  mark : Char
  old_eq : old = mark :: old.tail
  new_eq : new = mark :: new.tail
  once : mark ∉ old.tail ∧ mark ∉ new.tail
  differ : ¬ old.tail <+: new.tail ∧ ¬ new.tail <+: old.tail
  longer : old.length < new.length
  old_plain : ∀ c ∈ old, isPlain c = true
  new_plain : ∀ c ∈ new, isPlain c = true
  ascii : ∀ c ∈ old ++ new, c.toNat < 128
  slash : '/' ∈ old
  start : mark ∉ escapes ∧ mark ≠ 'u' ∧ isHexDigit mark = false

variable (r : Rewriting)

/-- The replacement in a text. -/
def Rewriting.inText (t : Text) : Text :=
  replaceAll r.old r.new t

/-- The replacement in the spelling of a string. -/
def Rewriting.inPieces (pieces : List Piece) : List Piece :=
  replaceAll (spell r.old r.old_plain) (spell r.new r.new_plain) pieces

def Token.mapPieces (f : List Piece → List Piece) : Token → Token
  | bare c ok => bare c ok
  | str pieces => str (f pieces)

/-- The replacement in a document. -/
def Rewriting.inDoc (doc : Doc) : Doc :=
  doc.map (Token.mapPieces r.inPieces)

theorem isPlain_iff {c : Char} :
    isPlain c = true ↔ c ≠ '"' ∧ c ≠ '\\' ∧ 32 ≤ c.toNat := by
  simp [isPlain, and_assoc]

theorem Rewriting.old_ne_nil : r.old ≠ [] := by
  rw [r.old_eq]
  exact List.cons_ne_nil _ _

theorem Rewriting.mark_mem : r.mark ∈ r.old := by
  rw [r.old_eq]
  exact List.mem_cons_self

theorem Rewriting.mark_ne_quote : r.mark ≠ '"' :=
  (isPlain_iff.1 (r.old_plain _ r.mark_mem)).1

theorem text_str (pieces : List Piece) (doc : Doc) :
    text (Token.str pieces :: doc) =
      '"' :: (pieces.flatMap Piece.text ++ '"' :: text doc) := by
  simp [text, Token.text]

/-- No text with a slash stands between two strings, nor across their quotes. -/
theorem not_prefix_text {w : Text} (hslash : '/' ∈ w) (hquote : '"' ∉ w)
    (doc : Doc) : ¬ w <+: text doc := by
  induction doc generalizing w with
  | nil =>
      intro h
      rw [List.prefix_nil.1 h] at hslash
      cases hslash
  | cons token doc ih =>
      intro h
      obtain ⟨c, w, rfl⟩ := List.exists_cons_of_ne_nil (List.ne_nil_of_mem hslash)
      cases token with
      | bare d ok =>
          obtain ⟨rfl, htail⟩ := List.cons_prefix_cons.1 h
          have hmem : '/' ∈ w :=
            (List.mem_cons.1 hslash).resolve_left (Ne.symm ok.2)
          exact ih hmem (fun hq => hquote (List.mem_cons_of_mem _ hq)) htail
      | str pieces =>
          have hhead := (List.cons_prefix_cons.1 h).1
          exact hquote (by simp [hhead])

/-- A plain word begins the text of a string as it begins its pieces. -/
theorem prefix_pieces_iff {w : Text} (hw : ∀ c ∈ w, isPlain c = true)
    (pieces : List Piece) (t : Text) :
    w <+: pieces.flatMap Piece.text ++ '"' :: t ↔ spell w hw <+: pieces := by
  induction w generalizing pieces with
  | nil => exact iff_of_true (List.nil_prefix) (List.nil_prefix)
  | cons c w ih =>
      have hc := isPlain_iff.1 (hw c List.mem_cons_self)
      have hrest : ∀ d ∈ w, isPlain d = true := fun d hd =>
        hw d (List.mem_cons_of_mem _ hd)
      cases pieces with
      | nil =>
          refine iff_of_false ?_ ?_
          · exact fun h => hc.1 (List.cons_prefix_cons.1 h).1
          · exact fun h => List.cons_ne_nil _ _ (List.prefix_nil.1 h)
      | cons piece pieces =>
          rw [List.flatMap_cons, List.append_assoc]
          change _ ↔ Piece.plain c _ :: spell w hrest <+: _
          rw [List.cons_prefix_cons]
          cases piece with
          | plain d ok =>
              change c :: w <+: d :: (pieces.flatMap Piece.text ++ '"' :: t) ↔ _
              rw [List.cons_prefix_cons, ih hrest, Piece.plain.injEq]
          | escape d ok =>
              refine iff_of_false ?_ ?_
              · exact fun h => hc.2.1 (List.cons_prefix_cons.1 h).1
              · exact fun h => nomatch h.1
          | unicode digits =>
              refine iff_of_false ?_ ?_
              · exact fun h => hc.2.1 (List.cons_prefix_cons.1 h).1
              · exact fun h => nomatch h.1

/-- Behind its first character no piece has the first letter of the word. -/
theorem Rewriting.text_eq_cons (piece : Piece) :
    ∃ c x, piece.text = c :: x ∧ r.mark ∉ x := by
  obtain ⟨hescape, hu, hhex⟩ := r.start
  cases piece with
  | plain c ok => exact ⟨c, [], rfl, List.not_mem_nil⟩
  | escape c ok =>
      refine ⟨'\\', [c], rfl, ?_⟩
      rw [List.mem_singleton]
      rintro rfl
      exact hescape ok
  | unicode digits =>
      refine ⟨'\\', _, rfl, ?_⟩
      intro h
      rcases List.mem_cons.1 h with h | h
      · exact hu h
      · obtain ⟨i, hi⟩ := (List.mem_ofFn' _ _).1 h
        rw [← hi, (digits i).2] at hhex
        cases hhex

theorem text_spell (t : Text) (plain : ∀ c ∈ t, isPlain c = true) :
    (spell t plain).flatMap Piece.text = t := by
  induction t with
  | nil => rfl
  | cons c t ih =>
      exact congrArg (c :: ·) (ih fun d hd =>
        plain d (List.mem_cons_of_mem _ hd))

theorem Rewriting.spell_ne_nil : spell r.old r.old_plain ≠ [] := by
  intro h
  exact r.old_ne_nil (by rw [← text_spell r.old r.old_plain, h]; rfl)

/-- Text without the first letter of the word is passed. -/
theorem Rewriting.inText_pass {x : Text} (hx : r.mark ∉ x) (t : Text) :
    r.inText (x ++ t) = x ++ r.inText t := by
  unfold inText
  rw [r.old_eq]
  exact replaceAll_pass hx t

/-- The word does not stand in the text any more. -/
theorem Rewriting.not_infix_inText (t : Text) : ¬ r.old <:+: r.inText t := by
  have h := not_infix_replaceAll r.once.1 r.once.2 r.differ.1 r.differ.2 t
  rwa [← r.old_eq, ← r.new_eq] at h

/-- The replacement in the text of a string is one of its pieces. -/
theorem Rewriting.inText_pieces (pieces : List Piece) (t : Text) :
    r.inText (pieces.flatMap Piece.text ++ '"' :: t) =
      (r.inPieces pieces).flatMap Piece.text ++ '"' :: r.inText t := by
  have hold := r.spell_ne_nil
  unfold inText inPieces
  induction pieces using replace_induction hold with
  | nil =>
      have hquote : r.mark ∉ ['"'] := by
        rw [List.mem_singleton]
        exact r.mark_ne_quote
      exact r.inText_pass hquote t
  | found rest ih =>
      rw [replaceAll_append hold, List.flatMap_append, List.flatMap_append,
        text_spell, text_spell, List.append_assoc,
        replaceAll_append r.old_ne_nil, ih,
        List.append_assoc]
  | pass piece rest hpiece ih =>
      obtain ⟨c, x, htext, hx⟩ := r.text_eq_cons piece
      have hnot : ¬ r.old <+:
          c :: (x ++ (rest.flatMap Piece.text ++ '"' :: t)) := by
        rw [← prefix_pieces_iff r.old_plain _ t, List.flatMap_cons, htext,
          List.append_assoc] at hpiece
        exact hpiece
      have hpass := r.inText_pass hx (rest.flatMap Piece.text ++ '"' :: t)
      unfold inText at hpass
      rw [replaceAll_cons hpiece, List.flatMap_cons, List.flatMap_cons, htext,
        List.append_assoc, List.append_assoc, List.cons_append,
        replaceAll_cons hnot, hpass, ih]
      rfl

/-- The replacement in the text of a document is one in its strings. -/
theorem Rewriting.inText_text (doc : Doc) :
    r.inText (text doc) = text (r.inDoc doc) := by
  have hquote : '"' ∉ r.old := fun h => (isPlain_iff.1 (r.old_plain _ h)).1 rfl
  induction doc with
  | nil => rfl
  | cons token doc ih =>
      have hnot := not_prefix_text r.slash hquote (token :: doc)
      cases token with
      | bare c ok =>
          change r.inText (c :: text doc) = c :: text (r.inDoc doc)
          rw [← ih]
          exact replaceAll_cons hnot
      | str pieces =>
          rw [text_str] at hnot ⊢
          have hpieces := r.inText_pieces pieces (text doc)
          unfold inText at hpieces ih ⊢
          rw [replaceAll_cons hnot, hpieces, ih]
          simp [inDoc, text, Token.text, Token.mapPieces]

end Words

section Reading

theorem Piece.text_inj {p q : Piece} {a b : Text}
    (h : p.text ++ a = q.text ++ b) : p = q ∧ a = b := by
  cases p with
  | plain c ok =>
      cases q with
      | plain d ok' =>
          obtain ⟨rfl, rfl⟩ := List.cons.inj h
          exact ⟨rfl, rfl⟩
      | escape d ok' =>
          exact absurd (List.cons.inj h).1 (isPlain_iff.1 ok).2.1
      | unicode digits =>
          exact absurd (List.cons.inj h).1 (isPlain_iff.1 ok).2.1
  | escape c ok =>
      cases q with
      | plain d ok' =>
          exact absurd (List.cons.inj h).1.symm (isPlain_iff.1 ok').2.1
      | escape d ok' =>
          obtain ⟨rfl, rfl⟩ := List.cons.inj (List.cons.inj h).2
          exact ⟨rfl, rfl⟩
      | unicode digits =>
          obtain ⟨rfl, -⟩ := List.cons.inj (List.cons.inj h).2
          exact absurd ok (by decide)
  | unicode digits =>
      cases q with
      | plain d ok' =>
          exact absurd (List.cons.inj h).1.symm (isPlain_iff.1 ok').2.1
      | escape d ok' =>
          obtain ⟨rfl, -⟩ := List.cons.inj (List.cons.inj h).2
          exact absurd ok' (by decide)
      | unicode digits' =>
          have htail := (List.cons.inj (List.cons.inj h).2).2
          obtain ⟨hdigits, hrest⟩ := List.append_inj htail (by simp)
          have hsame := List.ofFn_injective hdigits
          refine ⟨congrArg Piece.unicode ?_, hrest⟩
          funext i
          exact Subtype.ext (congrFun hsame i)

theorem pieces_inj {ps qs : List Piece} {t u : Text}
    (h : ps.flatMap Piece.text ++ '"' :: t = qs.flatMap Piece.text ++ '"' :: u) :
    ps = qs ∧ t = u := by
  have hne : ∀ (p : Piece) (a b : Text), '"' :: a ≠ p.text ++ b := by
    intro p a b heq
    cases p with
    | plain c ok =>
        exact (isPlain_iff.1 ok).1 (List.cons.inj heq).1.symm
    | escape c ok => exact absurd (List.cons.inj heq).1 (by decide)
    | unicode digits => exact absurd (List.cons.inj heq).1 (by decide)
  induction ps generalizing qs with
  | nil =>
      cases qs with
      | nil => exact ⟨rfl, (List.cons.inj h).2⟩
      | cons q qs =>
          rw [List.flatMap_cons, List.append_assoc] at h
          exact absurd h (hne q t _)
  | cons p ps ih =>
      cases qs with
      | nil =>
          rw [List.flatMap_cons, List.append_assoc] at h
          exact absurd h.symm (hne p u _)
      | cons q qs =>
          rw [List.flatMap_cons, List.flatMap_cons, List.append_assoc,
            List.append_assoc] at h
          obtain ⟨rfl, hrest⟩ := Piece.text_inj h
          obtain ⟨rfl, htail⟩ := ih hrest
          exact ⟨rfl, htail⟩

/-- A text spells one document only. -/
theorem text_injective : Function.Injective text := by
  intro doc
  induction doc with
  | nil =>
      intro doc' h
      cases doc' with
      | nil => rfl
      | cons token doc' => cases token <;> exact absurd h (by simp [text, Token.text])
  | cons token doc ih =>
      intro doc' h
      cases token with
      | bare c ok =>
          cases doc' with
          | nil => cases h
          | cons token' doc' =>
              cases token' with
              | bare d ok' =>
                  obtain ⟨rfl, hrest⟩ := List.cons.inj h
                  rw [ih hrest]
              | str pieces' => exact absurd (List.cons.inj h).1 ok.1
      | str pieces =>
          cases doc' with
          | nil => cases h
          | cons token' doc' =>
              cases token' with
              | bare d ok' => exact absurd (List.cons.inj h).1.symm ok'.1
              | str pieces' =>
                  rw [text_str, text_str] at h
                  obtain ⟨rfl, hrest⟩ := pieces_inj (List.cons.inj h).2
                  rw [ih hrest]

/-- White space between the strings. -/
def Token.isGap : Token → Bool
  | bare c _ => c = ' ' || c = '\t' || c = '\n' || c = '\r'
  | str _ => false

/-- The document without its white space. -/
def marks (doc : Doc) : List Token :=
  doc.filter fun token => !token.isGap

def lineFeed : Token :=
  Token.bare '\n' (by decide)

theorem notMem_pieces (pieces : List Piece) :
    '\r' ∉ pieces.flatMap Piece.text := by
  rw [List.mem_flatMap]
  rintro ⟨piece, -, h⟩
  cases piece with
  | plain c ok =>
      obtain rfl := List.mem_singleton.1 h
      exact absurd ok (by decide)
  | escape c ok =>
      rcases List.mem_cons.1 h with h | h
      · exact absurd h (by decide)
      · obtain rfl := List.mem_singleton.1 h
        exact absurd ok (by decide)
  | unicode digits =>
      rcases List.mem_cons.1 h with h | h
      · exact absurd h (by decide)
      · rcases List.mem_cons.1 h with h | h
        · exact absurd h (by decide)
        · obtain ⟨i, hi⟩ := (List.mem_ofFn' _ _).1 h
          have hhex := (digits i).2
          change (digits i).1 = '\r' at hi
          rw [hi] at hhex
          exact absurd hhex (by decide)

/-- Text mode reads the same document, with other line ends. -/
theorem exists_universalNewlines (doc : Doc) :
    ∃ doc', universalNewlines (text doc) = text doc' ∧
      marks doc' = marks doc := by
  induction doc with
  | nil => exact ⟨[], rfl, rfl⟩
  | cons token doc ih =>
      obtain ⟨doc', hread, hmarks⟩ := ih
      cases token with
      | str pieces =>
          refine ⟨Token.str pieces :: doc', ?_, ?_⟩
          · have hstr : universalNewlines
                  (['"'] ++ (pieces.flatMap Piece.text ++
                    (['"'] ++ text doc))) =
                ['"'] ++ (pieces.flatMap Piece.text ++
                  (['"'] ++ universalNewlines (text doc))) := by
              rw [universalNewlines_append (by decide),
                universalNewlines_append (notMem_pieces pieces),
                universalNewlines_append (by decide)]
            rw [text_str, text_str, ← hread]
            exact hstr
          · exact congrArg (Token.str pieces :: ·) hmarks
      | bare c ok =>
          by_cases hc : c = '\r'
          · subst hc
            by_cases hfeed : ∃ u, text doc = '\n' :: u
            · -- the line feed that follows is the whole line end
              obtain ⟨u, hu⟩ := hfeed
              refine ⟨doc', ?_, hmarks⟩
              rw [← hread, hu]
              exact (congrArg (fun t => universalNewlines ('\r' :: t)) hu).trans
                (universalNewlines_return_feed u)
            · refine ⟨lineFeed :: doc', ?_, hmarks⟩
              have hnot : ∀ u, text doc ≠ '\n' :: u := fun u hu => hfeed ⟨u, hu⟩
              exact (universalNewlines_return hnot).trans
                (congrArg ('\n' :: ·) hread)
          · refine ⟨Token.bare c ok :: doc', ?_, ?_⟩
            · have hchar : '\r' ∉ [c] := by
                simpa using Ne.symm hc
              change universalNewlines ([c] ++ text doc) = [c] ++ text doc'
              rw [universalNewlines_append hchar, hread]
            · unfold marks at hmarks ⊢
              rw [List.filter_cons, List.filter_cons, hmarks]

end Reading

section Values

variable (r : Rewriting)

/-- The replacement at the beginning of a text only. -/
def Rewriting.atFront (v : List Nat) : List Nat :=
  if unitsOf r.old <+: v then unitsOf r.new ++ v.drop (unitsOf r.old).length
  else v

/-- The word is nowhere in the spelling. -/
def Rewriting.Spares (pieces : List Piece) : Prop :=
  ¬ spell r.old r.old_plain <:+: pieces

/-- The word is at most at the beginning, and then spelled without escapes. -/
def Rewriting.Leads (pieces : List Piece) : Prop :=
  (spell r.old r.old_plain <+: pieces ∧ r.Spares (pieces.drop r.old.length)) ∨
    (¬ unitsOf r.old <+: value pieces ∧ r.Spares pieces)

instance (pieces : List Piece) : Decidable (r.Spares pieces) :=
  inferInstanceAs (Decidable (¬ _))

instance (pieces : List Piece) : Decidable (r.Leads pieces) :=
  inferInstanceAs (Decidable (_ ∨ _))

theorem value_spell (t : Text) (plain : ∀ c ∈ t, isPlain c = true) :
    value (spell t plain) = unitsOf t := by
  induction t with
  | nil => rfl
  | cons c t ih =>
      exact congrArg (utf16 c ++ ·) (ih fun d hd =>
        plain d (List.mem_cons_of_mem _ hd))

theorem unitsOf_ascii {t : Text} (h : ∀ c ∈ t, c.toNat < 128) :
    unitsOf t = t.map Char.toNat := by
  induction t with
  | nil => rfl
  | cons c t ih =>
      have hc := h c List.mem_cons_self
      have hrest := ih fun d hd => h d (List.mem_cons_of_mem _ hd)
      unfold unitsOf at hrest ⊢
      rw [List.flatMap_cons, List.map_cons, hrest, utf16, if_pos (by omega)]
      rfl

theorem Rewriting.ascii_old : ∀ c ∈ r.old, c.toNat < 128 := fun c hc =>
  r.ascii c (List.mem_append_left _ hc)

theorem Rewriting.ascii_new : ∀ c ∈ r.new, c.toNat < 128 := fun c hc =>
  r.ascii c (List.mem_append_right _ hc)

theorem toNat_injective : Function.Injective Char.toNat := fun _ _ h =>
  Char.toNat_inj.1 h

/-- A word in units begins with the mark, which does not come again. -/
theorem unitsOf_mark {t : Text} {mark : Char} (hascii : ∀ c ∈ t, c.toNat < 128)
    (ht : t = mark :: t.tail) (honce : mark ∉ t.tail) :
    unitsOf t = mark.toNat :: t.tail.map Char.toNat ∧
      mark.toNat ∉ t.tail.map Char.toNat := by
  refine ⟨?_, ?_⟩
  · rw [unitsOf_ascii hascii]
    conv_lhs => rw [ht]
    rfl
  · rw [List.mem_map_of_injective toNat_injective]
    exact honce

theorem Rewriting.unitsOf_old :
    unitsOf r.old = r.mark.toNat :: r.old.tail.map Char.toNat ∧
      r.mark.toNat ∉ r.old.tail.map Char.toNat :=
  unitsOf_mark r.ascii_old r.old_eq r.once.1

theorem Rewriting.unitsOf_new :
    unitsOf r.new = r.mark.toNat :: r.new.tail.map Char.toNat ∧
      r.mark.toNat ∉ r.new.tail.map Char.toNat :=
  unitsOf_mark r.ascii_new r.new_eq r.once.2

theorem prefix_of_map_toNat {s t : Text}
    (h : s.map Char.toNat <+: t.map Char.toNat) : s <+: t := by
  obtain ⟨t', hprefix, hmap⟩ := List.prefix_map_iff.1 h
  rwa [List.map_injective_iff.2 toNat_injective hmap]

theorem Piece.units_eq_cons (piece : Piece) :
    ∃ u us, piece.units = u :: us := by
  cases piece with
  | plain c ok =>
      unfold Piece.units utf16
      dsimp only
      split
      · exact ⟨_, _, rfl⟩
      · exact ⟨_, _, rfl⟩
  | escape c ok => exact ⟨_, _, rfl⟩
  | unicode digits => exact ⟨_, _, rfl⟩

/-- A string stands for the same text as before exactly when the word is not in
its spelling. -/
theorem Rewriting.value_inPieces_eq_iff (pieces : List Piece) :
    value (r.inPieces pieces) = value pieces ↔ r.Spares pieces := by
  apply flatMap_replaceAll_eq_iff r.spell_ne_nil
  have hold := value_spell r.old r.old_plain
  have hnew := value_spell r.new r.new_plain
  unfold value at hold hnew
  rw [hold, hnew, unitsOf_ascii r.ascii_old, unitsOf_ascii r.ascii_new,
    List.length_map, List.length_map]
  exact r.longer

/-- It stands for the text with another beginning exactly when the word is at
most there. -/
theorem Rewriting.value_inPieces_atFront_iff (pieces : List Piece) :
    value (r.inPieces pieces) = r.atFront (value pieces) ↔ r.Leads pieces := by
  by_cases hfront : spell r.old r.old_plain <+: pieces
  · obtain ⟨rest, rfl⟩ := hfront
    have hdrop : (spell r.old r.old_plain ++ rest).drop r.old.length = rest :=
      List.drop_left' (List.length_pmap)
    have hvalue : value (spell r.old r.old_plain ++ rest) =
        unitsOf r.old ++ value rest := by
      rw [← value_spell r.old r.old_plain]
      exact List.flatMap_append
    have hnew : value (r.inPieces (spell r.old r.old_plain ++ rest)) =
        unitsOf r.new ++ value (r.inPieces rest) := by
      rw [inPieces, replaceAll_append r.spell_ne_nil,
        ← value_spell r.new r.new_plain]
      exact List.flatMap_append
    have hprefix : unitsOf r.old <+: unitsOf r.old ++ value rest :=
      List.prefix_append _ _
    unfold atFront Leads
    rw [hvalue, hnew, if_pos hprefix, List.drop_left, hdrop,
      List.append_cancel_left_eq, r.value_inPieces_eq_iff]
    constructor
    · exact fun h => Or.inl ⟨List.prefix_append _ _, h⟩
    · rintro (h | h)
      · exact h.2
      · exact absurd hprefix h.1
  · unfold Leads
    rw [or_iff_right fun h => hfront h.1]
    by_cases hunits : unitsOf r.old <+: value pieces
    · refine iff_of_false ?_ fun h => h.1 hunits
      intro heq
      unfold atFront at heq
      rw [if_pos hunits] at heq
      obtain ⟨hold, hmark⟩ := r.unitsOf_old
      rw [hold] at hunits
      cases pieces with
      | nil => exact List.cons_ne_nil _ _ (List.prefix_nil.1 hunits)
      | cons piece rest =>
          obtain ⟨u, us, hpiece⟩ := piece.units_eq_cons
          have hpass : r.inPieces (piece :: rest) = piece :: r.inPieces rest :=
            replaceAll_cons hfront
          have hcons : ∀ rest, value (piece :: rest) = u :: (us ++ value rest) := by
            intro rest
            unfold value
            rw [List.flatMap_cons, hpiece]
            rfl
          rw [hcons] at hunits
          rw [hpass, hcons, hcons, r.unitsOf_new.1] at heq
          have hkept : r.old.tail.map Char.toNat <+:
              us ++ value (r.inPieces rest) := by
            have hiff := prefix_append_congr (m := r.mark.toNat)
              (a := value (r.inPieces rest)) (b := value rest)
              (fun x hx => prefix_flatMap_replaceAll_iff r.spell_ne_nil
                ?_ ?_ hx rest) us hmark
            · exact hiff.2 (List.cons_prefix_cons.1 hunits).2
            · rw [← value, value_spell, hold]
              rfl
            · rw [← value, value_spell, r.unitsOf_new.1]
              rfl
          have hwritten : r.new.tail.map Char.toNat <+:
              us ++ value (r.inPieces rest) := by
            rw [(List.cons.inj heq).2]
            exact List.prefix_append _ _
          rcases List.prefix_or_prefix_of_prefix hkept hwritten with hle | hle
          · exact r.differ.1 (prefix_of_map_toNat hle)
          · exact r.differ.2 (prefix_of_map_toNat hle)
    · unfold atFront
      rw [if_neg hunits, r.value_inPieces_eq_iff]
      exact (and_iff_right hunits).symm

end Values

section Documents

/-- What stands before a token: a string, a string and a colon, or something
else. -/
inductive Place where
  | other
  | name (v : List Nat)
  | member (v : List Nat)
deriving DecidableEq

def Place.next : Place → Token → Place
  | _, .str pieces => name (value pieces)
  | name v, .bare c _ => if c = ':' then member v else other
  | _, .bare _ _ => other

/-- The same document but for the texts that are members of a name, which `f`
has changed. -/
def Edited (key : List Nat) (f : List Nat → List Nat) :
    Place → List Token → List Token → Prop
  | _, [], [] => True
  | place, .bare c ok :: rest, .bare c' _ :: rest' =>
      c = c' ∧ Edited key f (place.next (.bare c ok)) rest rest'
  | place, .str pieces :: rest, .str pieces' :: rest' =>
      (value pieces' = if place = .member key then f (value pieces)
        else value pieces) ∧
        Edited key f (place.next (.str pieces)) rest rest'
  | _, _, _ => False

/-- All strings are good, those that are members of a name and the others. -/
def EachString (key : List Nat) (member other : List Piece → Prop) :
    Place → List Token → Prop
  | _, [] => True
  | place, .bare c ok :: rest =>
      EachString key member other (place.next (.bare c ok)) rest
  | place, .str pieces :: rest =>
      (if place = .member key then member pieces else other pieces) ∧
        EachString key member other (place.next (.str pieces)) rest

instance decidableEachString (key : List Nat)
    (member other : List Piece → Prop) [DecidablePred member]
    [DecidablePred other] (place : Place) :
    (tokens : List Token) → Decidable (EachString key member other place tokens)
  | [] => inferInstanceAs (Decidable True)
  | .bare c ok :: rest =>
      decidableEachString key member other (place.next (.bare c ok)) rest
  | .str pieces :: rest =>
      have := decidableEachString key member other (place.next (.str pieces)) rest
      inferInstanceAs (Decidable
        ((if place = .member key then member pieces else other pieces) ∧
          EachString key member other (place.next (.str pieces)) rest))

/-- Whether an edit of all strings is one of the members only is told string by
string. -/
theorem edited_map_iff {key : List Nat} {f : List Nat → List Nat}
    {g : List Piece → List Piece} {member other : List Piece → Prop}
    (hmember : ∀ pieces, value (g pieces) = f (value pieces) ↔ member pieces)
    (hother : ∀ pieces, value (g pieces) = value pieces ↔ other pieces)
    (place : Place) (tokens : List Token) :
    Edited key f place tokens (tokens.map (Token.mapPieces g)) ↔
      EachString key member other place tokens := by
  induction tokens generalizing place with
  | nil => rfl
  | cons token rest ih =>
      rw [List.map_cons]
      cases token with
      | bare c ok =>
          unfold Token.mapPieces Edited EachString
          rw [eq_self, true_and]
          exact ih _
      | str pieces =>
          unfold Token.mapPieces Edited EachString
          refine and_congr ?_ (ih _)
          by_cases hplace : place = .member key
          · rw [if_pos hplace, if_pos hplace]
            exact hmember pieces
          · rw [if_neg hplace, if_neg hplace]
            exact hother pieces

variable (r : Rewriting)

/-- The file is the same document, and the texts that are members of a name have
the new word at the beginning in place of the old one. -/
def Rewriting.Carried (key : List Nat) (t t' : Text) : Prop :=
  ∃ doc doc', t = text doc ∧ t' = text doc' ∧
    Edited key r.atFront .other (marks doc) (marks doc')

/-- The word is at the beginning of those texts only. -/
def Rewriting.Fits (key : List Nat) (doc : Doc) : Prop :=
  EachString key r.Leads r.Spares .other (marks doc)

instance (key : List Nat) (doc : Doc) : Decidable (r.Fits key doc) :=
  decidableEachString _ _ _ _ _

theorem marks_inDoc (doc : Doc) :
    marks (r.inDoc doc) = (marks doc).map (Token.mapPieces r.inPieces) := by
  unfold marks Rewriting.inDoc
  rw [List.filter_map]
  congr 1
  apply List.filter_congr
  intro token _
  cases token <;> rfl

/-- The replacement in a document is right exactly for these documents. -/
theorem Rewriting.carried_iff {key : List Nat} {doc doc' : Doc}
    (hdoc : marks doc' = (marks doc).map (Token.mapPieces r.inPieces)) :
    r.Carried key (text doc) (text doc') ↔ r.Fits key doc := by
  unfold Fits
  rw [← edited_map_iff r.value_inPieces_atFront_iff r.value_inPieces_eq_iff,
    ← hdoc]
  constructor
  · rintro ⟨before, after, hbefore, hafter, h⟩
    rwa [← text_injective hbefore, ← text_injective hafter] at h
  · exact fun h => ⟨doc, doc', rfl, rfl, h⟩

end Documents

end JsonText
end Kelt
