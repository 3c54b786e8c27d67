import Kelt.Lib.PyText

/-!
# Words of a shell command

How a POSIX shell cuts a text into words and operators: outside quotes at blanks
and operator characters, a single quote up to the next one, a double quote up to
the next one. Where the text would be expanded or ends in a quote, `tokens` gives
nothing. A token has no more characters than the text it is from
(`size_scan_le`), and has as many only where the text stands for itself
(`ordinary_of_size`, `notMem_of_size`). `quote` is Python's `shlex.quote`.
-/

namespace Kelt
namespace Shell

inductive Token where
  | word (text : Text)
  | op (c : Char)
  deriving DecidableEq

inductive Quote where
  | none
  | single
  | double
  deriving DecidableEq

section Scan

/-- The tokens that are complete, the word that is not, and the open quote. -/
structure Scan where
  done : List Token
  cur : Option Text
  quote : Quote
  deriving DecidableEq

def Scan.init : Scan :=
  ⟨[], none, .none⟩

def Scan.flush (s : Scan) : List Token :=
  s.done ++ (s.cur.map Token.word).toList

/-- The word in hand. -/
def Scan.text (s : Scan) : Text :=
  s.cur.getD []

def isSeparator (c : Char) : Bool :=
  c = ' ' || c = '\t'

def isOperator (c : Char) : Bool :=
  ['\n', ';', '&', '|', '<', '>', '(', ')'].contains c

def isQuote (c : Char) : Bool :=
  c = '\'' || c = '"'

/-- What may be expanded outside quotes. -/
def isActive (c : Char) : Bool :=
  ['\\', '$', '`', '*', '?', '[', '~', '!', '\x7b', '\x7d'].contains c

/-- What may be expanded between double quotes. -/
def isActiveQuoted (c : Char) : Bool :=
  ['\\', '$', '`', '!'].contains c

/-- A character that stands for itself. -/
def isOrdinary (c : Char) : Bool :=
  !isSeparator c && !isOperator c && !isQuote c && !isActive c

def Scan.push (s : Scan) (c : Char) : Scan :=
  { s with cur := some (s.text ++ [c]) }

def Scan.step (s : Scan) (c : Char) : Option Scan :=
  match s.quote with
  | .none =>
      if isSeparator c then some ⟨s.flush, none, .none⟩
      else if isOperator c then some ⟨s.flush ++ [.op c], none, .none⟩
      else if c = '\'' then some ⟨s.done, some s.text, .single⟩
      else if c = '"' then some ⟨s.done, some s.text, .double⟩
      else if isActive c || c = '#' && s.cur.isNone then none
      else some (s.push c)
  | .single =>
      if c = '\'' then some { s with quote := .none } else some (s.push c)
  | .double =>
      if c = '"' then some { s with quote := .none }
      else if isActiveQuoted c then none
      else some (s.push c)

def scan (s : Scan) (text : Text) : Option Scan :=
  text.foldlM Scan.step s

def Scan.finish (s : Scan) : Option (List Token) :=
  if s.quote = .none then some s.flush else none

/-- The tokens of a command. -/
def tokens (text : Text) : Option (List Token) :=
  (scan Scan.init text).bind Scan.finish

/-- A word that stands for itself. -/
def Literal (word : Text) : Prop :=
  word ≠ [] ∧ word.head? ≠ some '#' ∧ word.all isOrdinary = true

instance decidableLiteral (word : Text) : Decidable (Literal word) :=
  inferInstanceAs (Decidable (_ ∧ _ ∧ _))

@[simp] theorem scan_nil (s : Scan) : scan s [] = some s :=
  rfl

@[simp] theorem scan_cons (s : Scan) (c : Char) (text : Text) :
    scan s (c :: text) = (s.step c).bind fun s' => scan s' text := by
  rfl

theorem scan_append (s : Scan) (text text' : Text) :
    scan s (text ++ text') = (scan s text).bind fun s' => scan s' text' := by
  unfold scan
  rw [List.foldlM_append]
  rfl

theorem step_separator {s : Scan} {c : Char} (hs : s.quote = .none)
    (hc : isSeparator c = true) : s.step c = some ⟨s.flush, none, .none⟩ := by
  unfold Scan.step
  rw [hs]
  simp only [hc, if_true]

theorem step_operator {s : Scan} {c : Char} (hs : s.quote = .none)
    (hc : isOperator c = true) :
    s.step c = some ⟨s.flush ++ [.op c], none, .none⟩ := by
  have hsep : isSeparator c = false := by
    unfold isOperator at hc
    unfold isSeparator
    simp only [List.contains_iff_mem, List.mem_cons, List.not_mem_nil,
      or_false] at hc
    rcases hc with rfl | rfl | rfl | rfl | rfl | rfl | rfl | rfl <;> decide
  unfold Scan.step
  rw [hs]
  simp only [hsep, hc, if_true, Bool.false_eq_true, if_false]

theorem step_ordinary {s : Scan} {c : Char} (hs : s.quote = .none)
    (hc : isOrdinary c = true) (hhash : c = '#' → s.cur ≠ none) :
    s.step c = some (s.push c) := by
  unfold isOrdinary isQuote at hc
  simp only [Bool.and_eq_true, Bool.not_eq_true', Bool.or_eq_false_iff,
    decide_eq_false_iff_not] at hc
  obtain ⟨⟨⟨hsep, hop⟩, hsingle, hdouble⟩, hactive⟩ := hc
  have hcomment : (decide (c = '#') && s.cur.isNone) = false := by
    by_cases h : c = '#'
    · simp [h, Option.isNone_eq_false_iff, Option.isSome_iff_ne_none, hhash h]
    · simp [h]
  unfold Scan.step
  rw [hs]
  simp only [hsep, hop, hsingle, hdouble, hactive, hcomment, Bool.false_or,
    Bool.false_eq_true, if_false]

theorem step_single {s : Scan} {c : Char} (hs : s.quote = .single)
    (hc : c ≠ '\'') : s.step c = some (s.push c) := by
  unfold Scan.step
  rw [hs]
  exact if_neg hc

end Scan

section Words

/-- Characters that stand for themselves are added to the word in hand. -/
theorem scan_ordinary {d : List Token} {w text : Text}
    (h : text.all isOrdinary = true) :
    scan ⟨d, some w, .none⟩ text = some ⟨d, some (w ++ text), .none⟩ := by
  induction text generalizing w with
  | nil => rw [scan_nil, List.append_nil]
  | cons c rest ih =>
      rw [List.all_cons, Bool.and_eq_true] at h
      rw [scan_cons, step_ordinary rfl h.1 fun _ => Option.some_ne_none w]
      exact (ih h.2).trans (by rw [List.append_assoc]; rfl)

theorem scan_literal {d : List Token} {word : Text} (h : Literal word) :
    scan ⟨d, none, .none⟩ word = some ⟨d, some word, .none⟩ := by
  obtain ⟨hne, hhash, hall⟩ := h
  cases word with
  | nil => exact absurd rfl hne
  | cons c rest =>
      rw [List.all_cons, Bool.and_eq_true] at hall
      have hc : c = '#' → (none : Option Text) ≠ none := fun heq =>
        absurd (congrArg some heq) hhash
      rw [scan_cons, step_ordinary rfl hall.1 hc]
      exact scan_ordinary hall.2

/-- A separator ends the word in hand. -/
theorem scan_separator {d : List Token} {cur : Option Text} {c : Char}
    (hc : isSeparator c = true) (rest : Text) :
    scan ⟨d, cur, .none⟩ (c :: rest) =
      scan ⟨d ++ (cur.map Token.word).toList, none, .none⟩ rest := by
  rw [scan_cons, step_separator rfl hc]
  rfl

theorem scan_operator {d : List Token} {cur : Option Text} {c : Char}
    (hc : isOperator c = true) (rest : Text) :
    scan ⟨d, cur, .none⟩ (c :: rest) =
      scan ⟨d ++ (cur.map Token.word).toList ++ [.op c], none, .none⟩ rest := by
  rw [scan_cons, step_operator rfl hc]
  rfl

/-- A word and the separator behind it. -/
theorem scan_word {d : List Token} {word : Text} {c : Char}
    (h : Literal word) (hc : isSeparator c = true) (rest : Text) :
    scan ⟨d, none, .none⟩ (word ++ c :: rest) =
      scan ⟨d ++ [.word word], none, .none⟩ rest := by
  rw [scan_append, scan_literal h]
  exact scan_separator hc rest

theorem scan_single {d : List Token} {w text : Text} (h : '\'' ∉ text) :
    scan ⟨d, some w, .single⟩ text = some ⟨d, some (w ++ text), .single⟩ := by
  induction text generalizing w with
  | nil => rw [scan_nil, List.append_nil]
  | cons c rest ih =>
      rw [List.mem_cons, not_or] at h
      rw [scan_cons, step_single rfl (Ne.symm h.1)]
      exact (ih h.2).trans (by rw [List.append_assoc]; rfl)

/-- What stands between single quotes is added to the word in hand. -/
theorem scan_quoted {d : List Token} {cur : Option Text} {text : Text}
    (h : '\'' ∉ text) (rest : Text) :
    scan ⟨d, cur, .none⟩ ('\'' :: (text ++ '\'' :: rest)) =
      scan ⟨d, some (cur.getD [] ++ text), .none⟩ rest := by
  have hopen : Scan.step ⟨d, cur, .none⟩ '\'' =
      some ⟨d, some (cur.getD []), .single⟩ := rfl
  rw [scan_cons, hopen, Option.bind_some, scan_append, scan_single h]
  rfl

/-- The tokens that are complete do not matter. -/
theorem scan_done (d : List Token) (s : Scan) (text : Text) :
    scan { s with done := d ++ s.done } text =
      (scan s text).map fun s' => { s' with done := d ++ s'.done } := by
  induction text generalizing s with
  | nil => rfl
  | cons c rest ih =>
      have hstep : Scan.step { s with done := d ++ s.done } c =
          (s.step c).map fun s' => { s' with done := d ++ s'.done } := by
        unfold Scan.step Scan.flush Scan.push Scan.text
        cases s.quote <;> dsimp only <;> split_ifs <;>
          simp only [Option.map_some, Option.map_none, List.append_assoc]
      rw [scan_cons, scan_cons, hstep]
      cases s.step c with
      | none => rfl
      | some s' => exact ih s'

/-- A text behind complete tokens is read like one of its own. -/
theorem scan_finish (d : List Token) (text : Text) :
    (scan ⟨d, none, .none⟩ text).bind Scan.finish =
      (tokens text).map (d ++ ·) := by
  have hdone := scan_done d .init text
  rw [Scan.init, List.append_nil] at hdone
  unfold tokens
  rw [hdone, Scan.init]
  cases scan ⟨[], none, .none⟩ text with
  | none => rfl
  | some s =>
      simp only [Option.map_some, Option.bind_some, Scan.finish, Scan.flush]
      split_ifs
      · rw [List.append_assoc]
        rfl
      · rfl

/-- A command behind an operator is read like one of its own. -/
theorem tokens_operator {d : List Token} {cur : Option Text} {c : Char}
    (hc : isOperator c = true) (rest : Text) :
    (scan ⟨d, cur, .none⟩ (c :: rest)).bind Scan.finish =
      (tokens rest).map fun ts =>
        d ++ (cur.map Token.word).toList ++ .op c :: ts := by
  rw [scan_operator hc, scan_finish]
  simp only [List.append_assoc, List.singleton_append]

/-- The words of a command that is joined by blanks, and what follows them. -/
theorem scan_intercalate {d : List Token} {words : List Text} {c : Char}
    (hne : words ≠ []) (h : ∀ w ∈ words, Literal w)
    (hc : isSeparator c = true) (rest : Text) :
    scan ⟨d, none, .none⟩ ([' '].intercalate words ++ c :: rest) =
      scan ⟨d ++ words.map Token.word, none, .none⟩ rest := by
  induction words generalizing d with
  | nil => exact absurd rfl hne
  | cons w ws ih =>
      have hw := h w List.mem_cons_self
      cases ws with
      | nil =>
          rw [List.intercalate_singleton, scan_word hw hc]
          rfl
      | cons w' ws =>
          rw [List.intercalate_cons_cons, List.append_assoc, List.append_assoc,
            List.singleton_append, scan_word hw rfl,
            ih (List.cons_ne_nil w' ws) fun v hv =>
              h v (List.mem_cons_of_mem w hv), List.append_assoc]
          rfl

/-- A command in front of an operator is read like one of its own. -/
theorem tokens_append_operator {command : Text} {ts : List Token} {c : Char}
    (h : tokens command = some ts) (hc : isOperator c = true) (rest : Text) :
    tokens (command ++ c :: rest) =
      (tokens rest).map fun ts' => ts ++ .op c :: ts' := by
  obtain ⟨s, hscan, hfinish⟩ := Option.bind_eq_some_iff.1 h
  have hquote : s.quote = .none := by
    by_contra hne
    rw [Scan.finish, if_neg hne] at hfinish
    cases hfinish
  rw [Scan.finish, if_pos hquote] at hfinish
  obtain ⟨done, cur, quote⟩ := s
  obtain rfl : quote = .none := hquote
  rw [tokens, scan_append, hscan, Option.bind_some, tokens_operator hc,
    ← Option.some.inj hfinish]
  rfl

end Words

section Size

/-- The number of characters of a word. -/
def Token.size : Token → Nat
  | .word text => text.length
  | .op _ => 0

def size (ts : List Token) : Nat :=
  (ts.map Token.size).sum

def Scan.size (s : Scan) : Nat :=
  Shell.size s.done + s.text.length

@[simp] theorem size_append (ts ts' : List Token) :
    size (ts ++ ts') = size ts + size ts' := by
  simp [size]

@[simp] theorem size_cons (t : Token) (ts : List Token) :
    size (t :: ts) = t.size + size ts := by
  simp [size]

@[simp] theorem size_flush (s : Scan) : size s.flush = s.size := by
  unfold Scan.flush Scan.size Scan.text
  cases s.cur <;> simp [size, Token.size]

@[simp] theorem size_push (s : Scan) (c : Char) :
    (s.push c).size = s.size + 1 := by
  simp [Scan.size, Scan.push, Scan.text, Nat.add_assoc]

/-- A step keeps the number of characters or takes its character as it is, which
leaves the quote. -/
theorem size_step {s s' : Scan} {c : Char} (h : s.step c = some s') :
    s'.size = s.size ∨
      s'.size = s.size + 1 ∧ s'.quote = s.quote ∧
        (s.quote = .none → isOrdinary c = true) ∧
        (s.quote = .single → c ≠ '\'') := by
  have hflush : (⟨s.flush, none, .none⟩ : Scan).size = s.size := size_flush s
  have hop : (⟨s.flush ++ [.op c], none, .none⟩ : Scan).size = s.size := by
    change size (s.flush ++ [.op c]) = s.size
    rw [size_append, size_flush]
    rfl
  unfold Scan.step at h
  split at h
  · rename_i hquote
    split at h
    · exact .inl (Option.some.inj h ▸ hflush)
    rename_i hsep
    split at h
    · exact .inl (Option.some.inj h ▸ hop)
    rename_i hoperator
    split at h
    · exact .inl (Option.some.inj h ▸ rfl)
    rename_i hsingle
    split at h
    · exact .inl (Option.some.inj h ▸ rfl)
    rename_i hdouble
    split at h
    · cases h
    rename_i hactive
    refine .inr (Option.some.inj h ▸ ⟨size_push s c, rfl, fun _ => ?_, ?_⟩)
    · simp only [Bool.or_eq_true, not_or, Bool.not_eq_true] at hactive
      simp only [Bool.not_eq_true] at hsep hoperator
      simp [isOrdinary, isQuote, hsep, hoperator, hsingle, hdouble, hactive.1]
    · intro h'
      rw [hquote] at h'
      cases h'
  · rename_i hquote
    split at h
    · exact .inl (Option.some.inj h ▸ rfl)
    rename_i hc
    refine .inr (Option.some.inj h ▸ ⟨size_push s c, rfl, ?_, fun _ => hc⟩)
    intro h'
    rw [hquote] at h'
    cases h'
  · rename_i hquote
    split at h
    · exact .inl (Option.some.inj h ▸ rfl)
    split at h
    · cases h
    refine .inr (Option.some.inj h ▸ ⟨size_push s c, rfl, ?_, ?_⟩) <;>
    · intro h'
      rw [hquote] at h'
      cases h'

theorem size_scan_le {s s' : Scan} {text : Text} (h : scan s text = some s') :
    s'.size ≤ s.size + text.length := by
  induction text generalizing s with
  | nil => exact Option.some.inj h ▸ le_rfl
  | cons c rest ih =>
      rw [scan_cons] at h
      obtain ⟨s₁, hstep, hrest⟩ := Option.bind_eq_some_iff.1 h
      have hle := ih hrest
      rw [List.length_cons]
      rcases size_step hstep with heq | ⟨heq, -⟩ <;> omega

/-- Where no character is lost, each step took its character as it is. -/
theorem size_scan_cons {s s' : Scan} {c : Char} {rest : Text}
    (h : scan s (c :: rest) = some s')
    (hsize : s'.size = s.size + (c :: rest).length) :
    ∃ s₁, s.step c = some s₁ ∧ scan s₁ rest = some s' ∧
      s'.size = s₁.size + rest.length ∧ s₁.quote = s.quote ∧
      (s.quote = .none → isOrdinary c = true) ∧
      (s.quote = .single → c ≠ '\'') := by
  rw [scan_cons] at h
  obtain ⟨s₁, hstep, hrest⟩ := Option.bind_eq_some_iff.1 h
  have hle := size_scan_le hrest
  rw [List.length_cons] at hsize
  rcases size_step hstep with heq | ⟨heq, hquote, hnone, hsingle⟩
  · omega
  · exact ⟨s₁, hstep, hrest, by omega, hquote, hnone, hsingle⟩

/-- A text of which no character is lost stands for itself. -/
theorem ordinary_of_size {s s' : Scan} {text : Text} (hs : s.quote = .none)
    (h : scan s text = some s') (hsize : s'.size = s.size + text.length) :
    text.all isOrdinary = true := by
  induction text generalizing s with
  | nil => rfl
  | cons c rest ih =>
      obtain ⟨s₁, -, hrest, hsize₁, hquote, hnone, -⟩ := size_scan_cons h hsize
      rw [List.all_cons, hnone hs, Bool.true_and]
      exact ih (hquote.trans hs) hrest hsize₁

/-- Between single quotes, a text of which no character is lost has none. -/
theorem notMem_of_size {s s' : Scan} {text : Text} (hs : s.quote = .single)
    (h : scan s text = some s') (hsize : s'.size = s.size + text.length) :
    '\'' ∉ text := by
  induction text generalizing s with
  | nil => exact List.not_mem_nil
  | cons c rest ih =>
      obtain ⟨s₁, -, hrest, hsize₁, hquote, -, hsingle⟩ := size_scan_cons h hsize
      rw [List.mem_cons, not_or]
      exact ⟨Ne.symm (hsingle hs), ih (hquote.trans hs) hrest hsize₁⟩

/-- A quote stays open as long as no quote comes. -/
theorem quote_scan {s s' : Scan} {text : Text} (hs : s.quote ≠ .none)
    (htext : text.all (fun c => !isQuote c) = true)
    (h : scan s text = some s') : s'.quote = s.quote := by
  induction text generalizing s with
  | nil => exact Option.some.inj h ▸ rfl
  | cons c rest ih =>
      rw [List.all_cons, Bool.and_eq_true] at htext
      rw [scan_cons] at h
      obtain ⟨s₁, hstep, hrest⟩ := Option.bind_eq_some_iff.1 h
      have hc : ¬ c = '\'' ∧ ¬ c = '"' := by
        simpa [isQuote] using htext.1
      have hquote : s₁.quote = s.quote := by
        unfold Scan.step at hstep
        split at hstep
        · exact absurd ‹_› hs
        · rw [if_neg hc.1] at hstep
          exact Option.some.inj hstep ▸ rfl
        · rw [if_neg hc.2] at hstep
          split at hstep
          · cases hstep
          · exact Option.some.inj hstep ▸ rfl
      exact (ih (hquote ▸ hs) htext.2 hrest).trans hquote

end Size

section Arguments

variable {pre word : Text} {d : List Token}

/-- A text at the end of a command is one argument, as it is, exactly when it
stands for itself. -/
theorem tokens_append_iff (hpre : scan .init pre = some ⟨d, none, .none⟩) :
    tokens (pre ++ word) = some (d ++ [.word word]) ↔ Literal word := by
  unfold tokens
  rw [scan_append, hpre, Option.bind_some]
  constructor
  · intro h
    obtain ⟨s, hscan, hfinish⟩ := Option.bind_eq_some_iff.1 h
    unfold Scan.finish at hfinish
    split at hfinish
    · have hflush : s.flush = d ++ [.word word] := Option.some.inj hfinish
      have hne : word ≠ [] := by
        rintro rfl
        obtain rfl := Option.some.inj hscan
        have hlen := congrArg List.length hflush
        simp [Scan.flush] at hlen
      refine ⟨hne, ?_, ordinary_of_size rfl hscan ?_⟩
      · intro hhash
        obtain ⟨rest, rfl⟩ := List.head?_eq_some_iff.1 hhash
        cases hscan
      · rw [← size_flush, hflush, size_append]
        simp [Scan.size, Scan.text, size, Token.size]
    · cases hfinish
  · intro h
    rw [scan_literal h]
    rfl

/-- A quote is open only in a word. -/
def Scan.Open (s : Scan) : Prop :=
  s.quote ≠ .none → s.cur.isSome = true

theorem Scan.open_of_step {s s' : Scan} {c : Char} (h : s.step c = some s') :
    s'.Open := by
  unfold Scan.step at h
  intro hquote
  split at h
  · split at h
    · exact absurd (Option.some.inj h ▸ rfl) hquote
    split at h
    · exact absurd (Option.some.inj h ▸ rfl) hquote
    split at h
    · exact Option.some.inj h ▸ rfl
    split at h
    · exact Option.some.inj h ▸ rfl
    split at h
    · cases h
    · exact Option.some.inj h ▸ rfl
  · split at h
    · exact absurd (Option.some.inj h ▸ rfl) hquote
    · exact Option.some.inj h ▸ rfl
  · split at h
    · exact absurd (Option.some.inj h ▸ rfl) hquote
    split at h
    · cases h
    · exact Option.some.inj h ▸ rfl

theorem Scan.Open.scan {s s' : Scan} {text : Text} (hs : s.Open)
    (h : scan s text = some s') : s'.Open := by
  induction text generalizing s with
  | nil => exact Option.some.inj h ▸ hs
  | cons c rest ih =>
      rw [scan_cons] at h
      obtain ⟨s₁, hstep, hrest⟩ := Option.bind_eq_some_iff.1 h
      exact ih (Scan.open_of_step hstep) hrest

/-- The quote that leaves no quote open is the end of a single one. -/
theorem quote_of_close {s s' : Scan} (h : s.step '\'' = some s')
    (hs' : s'.quote = .none) :
    s.quote = .single ∧ s'.size = s.size ∧ s'.cur = s.cur ∧ s'.done = s.done := by
  unfold Scan.step at h
  split at h
  · obtain rfl := Option.some.inj h
    cases hs'
  · obtain rfl := Option.some.inj h
    exact ⟨‹_›, rfl, rfl, rfl⟩
  · rename_i hquote
    obtain rfl := Option.some.inj h
    exact absurd (hquote.symm.trans hs') (by decide)

/-- A text in single quotes is one argument, as it is, exactly when it has no
single quote. -/
theorem tokens_quoted_iff {post : Text} {ts : List Token}
    (hpre : scan .init pre = some ⟨d, none, .none⟩)
    (hquotes : post.all (fun c => !isQuote c) = true)
    (hpost : ∀ d w, (scan ⟨d, some w, .none⟩ post).bind Scan.finish =
      some (d ++ .word w :: ts)) :
    tokens (pre ++ '\'' :: (word ++ '\'' :: post)) =
      some (d ++ .word word :: ts) ↔ '\'' ∉ word := by
  unfold tokens
  rw [scan_append, hpre, Option.bind_some]
  constructor
  · intro h
    obtain ⟨s₄, hscan, hfinish⟩ := Option.bind_eq_some_iff.1 h
    have hopen : Scan.step ⟨d, none, .none⟩ '\'' =
        some ⟨d, some [], .single⟩ := rfl
    rw [scan_cons, hopen, Option.bind_some, scan_append] at hscan
    obtain ⟨s₂, hword, hscan⟩ := Option.bind_eq_some_iff.1 hscan
    rw [scan_cons] at hscan
    obtain ⟨s₃, hclose, hrest⟩ := Option.bind_eq_some_iff.1 hscan
    have hs₄ : s₄.quote = .none := by
      by_contra hne
      rw [Scan.finish, if_neg hne] at hfinish
      cases hfinish
    have hs₃ : s₃.quote = .none := by
      by_contra hne
      exact hne ((quote_scan hne hquotes hrest).symm.trans hs₄)
    obtain ⟨hsingle, hsize, hcur, hdone⟩ := quote_of_close hclose hs₃
    have hsome : s₂.cur.isSome = true :=
      Scan.Open.scan (fun _ => rfl) hword (by rw [hsingle]; exact nofun)
    obtain ⟨w, hw⟩ := Option.isSome_iff_exists.1 hsome
    have hs₃_eq : s₃ = ⟨s₂.done, some w, .none⟩ := by
      cases s₃
      simp_all
    have htokens := hpost s₂.done w
    rw [← hs₃_eq, hrest, Option.bind_some, hfinish] at htokens
    have htotal := congrArg size (Option.some.inj htokens)
    refine notMem_of_size rfl hword ?_
    simp only [size_append, size_cons, Token.size] at htotal
    simp only [Scan.size, Scan.text, hw, Option.getD_some, List.length_nil]
    omega
  · intro h
    rw [scan_quoted h]
    exact hpost d _

end Arguments

section Quoting

/-- What `shlex.quote` leaves bare. -/
def isSafe (c : Char) : Bool :=
  c.isAlphanum || ['_', '@', '%', '+', '=', ':', ',', '.', '/', '-'].contains c

/-- `shlex.quote` -/
def quote (text : Text) : Text :=
  if text = [] then "''".toList
  else if text.all isSafe then text
  else
    '\'' :: (text.flatMap fun c =>
      if c = '\'' then "'\"'\"'".toList else [c]) ++ ['\'']

/-- Every character that does not stand for itself. -/
def special : Text :=
  [' ', '\t', '\n', ';', '&', '|', '<', '>', '(', ')', '\'', '"', '\\', '$',
    '`', '*', '?', '[', '~', '!', '\x7b', '\x7d']

/-- A class without special characters has only ordinary ones. -/
theorem isOrdinary_of_class {p : Char → Bool}
    (hp : ∀ c ∈ special, p c = false) {c : Char} (h : p c = true) :
    isOrdinary c = true := by
  have hnot : c ∉ special := fun hmem =>
    Bool.false_ne_true ((hp c hmem).symm.trans h)
  simp only [special, List.mem_cons, List.not_mem_nil, or_false, not_or]
    at hnot
  simp [isOrdinary, isSeparator, isOperator, isQuote, isActive, hnot]

theorem isOrdinary_of_isSafe {c : Char} (h : isSafe c = true) :
    isOrdinary c = true :=
  isOrdinary_of_class (by decide) h

theorem scan_escaped {d : List Token} {w : Text} (text : Text) :
    scan ⟨d, some w, .single⟩ (text.flatMap fun c =>
        if c = '\'' then "'\"'\"'".toList else [c]) =
      some ⟨d, some (w ++ text), .single⟩ := by
  induction text generalizing w with
  | nil => rw [List.flatMap_nil, scan_nil, List.append_nil]
  | cons c rest ih =>
      rw [List.flatMap_cons, scan_append]
      by_cases hc : c = '\''
      · subst hc
        exact (ih (w := w ++ ['\''])).trans (by rw [List.append_assoc]; rfl)
      · rw [if_neg hc, scan_cons, step_single rfl hc]
        exact (ih (w := w ++ [c])).trans (by rw [List.append_assoc]; rfl)

/-- What is quoted is read back as one word. -/
theorem scan_quote {d : List Token} (text rest : Text) :
    scan ⟨d, none, .none⟩ (quote text ++ rest) =
      scan ⟨d, some text, .none⟩ rest := by
  unfold quote
  split
  · subst_vars
    rfl
  rename_i hne
  split
  · rename_i hsafe
    rw [List.all_eq_true] at hsafe
    have hliteral : Literal text := by
      refine ⟨hne, fun hhash => ?_, List.all_eq_true.2 fun c hc =>
        isOrdinary_of_isSafe (hsafe c hc)⟩
      have hmem := hsafe '#' (List.mem_of_head? hhash)
      revert hmem
      decide
    rw [scan_append, scan_literal hliteral]
    rfl
  · have hopen : Scan.step ⟨d, none, .none⟩ '\'' =
        some ⟨d, some [], .single⟩ := rfl
    simp only [List.cons_append, List.append_assoc]
    rw [scan_cons, hopen, Option.bind_some, scan_append, scan_escaped]
    rfl

end Quoting

end Shell
end Kelt
