import Mathlib.Data.List.DropRight
import Mathlib.Tactic

/-!
# Text as Python's `str` methods read it

A text is a list of characters. The definitions follow the documented behaviour
of the `str` methods: `splitlines` breaks at every Unicode line boundary and
takes a carriage return with a following line feed as one, `strip` removes
Unicode white space, and reading a text file translates every line ending to a
line feed (universal newlines).

The lemmas say how the operations undo each other: lines without a line break
that are each ended by a line feed are what `splitlines` gives back
(`splitlines_unlines`), and a text without a carriage return is read as it is.
-/

namespace Kelt

section PyText

abbrev Text := List Char

instance lawfulBEqText : LawfulBEq Text :=
  inferInstance

/-- What all characters of a text are asked is asked of these only, and not of
all that there are. -/
instance decidableForallMem (t : Text) (P : Char → Prop) [DecidablePred P] :
    Decidable (∀ c ∈ t, P c) :=
  List.decidableBAll P t

/-- A boundary at which `splitlines` breaks. -/
def isLineBreak (c : Char) : Bool :=
  (10 ≤ c.toNat && c.toNat ≤ 13) || (28 ≤ c.toNat && c.toNat ≤ 30) ||
    c.toNat == 0x85 || c.toNat == 0x2028 || c.toNat == 0x2029

/-- White space in the sense of `str.isspace`. -/
def isBlank (c : Char) : Bool :=
  isLineBreak c || c.toNat == 9 || c.toNat == 31 || c.toNat == 32 ||
    c.toNat == 0xa0 || c.toNat == 0x1680 ||
    (0x2000 ≤ c.toNat && c.toNat ≤ 0x200a) ||
    c.toNat == 0x202f || c.toNat == 0x205f || c.toNat == 0x3000

/-- Remove the characters of a kind from both ends. -/
def stripBy (p : Char → Bool) (t : Text) : Text :=
  (t.dropWhile p).rdropWhile p

def strip (t : Text) : Text :=
  stripBy isBlank t

def lstrip (t : Text) : Text :=
  t.dropWhile isBlank

/-- `t.split(c, 1)[0]`. -/
def before (c : Char) (t : Text) : Text :=
  t.takeWhile (fun x => x != c)

/-- What follows the first `c`. -/
def after (c : Char) (t : Text) : Text :=
  (t.dropWhile (fun x => x != c)).tail

/-- The text of a file as text mode reads it. -/
def universalNewlines : Text → Text
  | [] => []
  | [c] => [if c = '\r' then '\n' else c]
  | c :: d :: rest =>
      if c = '\r' then
        (if d = '\n' then '\n' :: universalNewlines rest
         else '\n' :: universalNewlines (d :: rest))
      else c :: universalNewlines (d :: rest)

/-- The lines of a text; `line` is what stands since the last break. -/
def splitlinesFrom (line : Text) : Text → List Text
  | [] => if line = [] then [] else [line]
  | [c] => if isLineBreak c then [line] else [line ++ [c]]
  | c :: d :: rest =>
      if c = '\r' ∧ d = '\n' then line :: splitlinesFrom [] rest
      else if isLineBreak c then line :: splitlinesFrom [] (d :: rest)
      else splitlinesFrom (line ++ [c]) (d :: rest)

def splitlines (t : Text) : List Text :=
  splitlinesFrom [] t

/-- Each line ended by a line feed. -/
def unlines (lines : List Text) : Text :=
  lines.flatMap (fun line => line ++ ['\n'])

/-- The lines that a line feed ends, and what stands after the last one: how
line-oriented tools cut a text. -/
def cutLines : Text → List Text × Text
  | [] => ([], [])
  | c :: rest =>
      if c = '\n' then ([] :: (cutLines rest).1, (cutLines rest).2)
      else
        match (cutLines rest).1 with
        | [] => ([], c :: (cutLines rest).2)
        | l :: ls => ((c :: l) :: ls, (cutLines rest).2)

/-- A line without the carriage return that may end it. -/
def chomp (l : Text) : Text :=
  if l.getLast? = some '\r' then l.dropLast else l

/-- A text without any line boundary. -/
def OneLine (t : Text) : Prop :=
  ∀ c ∈ t, isLineBreak c = false

instance (t : Text) : Decidable (OneLine t) :=
  inferInstanceAs (Decidable (∀ c ∈ t, isLineBreak c = false))

theorem isLineBreak_newline : isLineBreak '\n' = true := by
  decide

theorem isLineBreak_return : isLineBreak '\r' = true := by
  decide

theorem isBlank_of_isLineBreak {c : Char} (h : isLineBreak c = true) :
    isBlank c = true := by
  simp [isBlank, h]

theorem OneLine.ne_return {t : Text} (h : OneLine t) {c : Char}
    (hc : c ∈ t) : c ≠ '\r' := by
  rintro rfl
  simpa [isLineBreak_return] using h _ hc

theorem OneLine.append {s t : Text} (hs : OneLine s) (ht : OneLine t) :
    OneLine (s ++ t) := by
  intro c hc
  rcases List.mem_append.1 hc with hc | hc
  · exact hs c hc
  · exact ht c hc

/-- A text without a carriage return is read as it is. -/
theorem universalNewlines_eq_self {t : Text} (h : '\r' ∉ t) :
    universalNewlines t = t := by
  induction t with
  | nil => rfl
  | cons c rest ih =>
      have hc : c ≠ '\r' := fun hc => h (by simp [hc])
      have hrest : '\r' ∉ rest := fun hr => h (List.mem_cons_of_mem _ hr)
      cases rest with
      | nil => simp [universalNewlines, hc]
      | cons d rest =>
          rw [universalNewlines, if_neg hc, ih hrest]

/-- One step of `splitlinesFrom` at a character that is no carriage return. -/
theorem splitlinesFrom_cons {c : Char} (hc : c ≠ '\r')
    (line rest : Text) :
    splitlinesFrom line (c :: rest) =
      if isLineBreak c then line :: splitlinesFrom [] rest
      else splitlinesFrom (line ++ [c]) rest := by
  cases rest with
  | nil => simp [splitlinesFrom]
  | cons d rest => simp [splitlinesFrom, hc]

theorem splitlinesFrom_append {line : Text} (t rest : Text)
    (ht : OneLine t) :
    splitlinesFrom line (t ++ rest) = splitlinesFrom (line ++ t) rest := by
  induction t generalizing line with
  | nil => simp
  | cons c t ih =>
      have hc := ht c List.mem_cons_self
      have hne := ht.ne_return List.mem_cons_self
      have ht' : OneLine t := fun x hx => ht x (List.mem_cons_of_mem _ hx)
      rw [List.cons_append, splitlinesFrom_cons hne, hc,
        if_neg Bool.false_ne_true, ih ht', List.append_assoc,
        List.singleton_append]

/-- `splitlines` gives back lines that were each ended by a line feed. -/
theorem splitlines_unlines {lines : List Text}
    (h : ∀ line ∈ lines, OneLine line) :
    splitlines (unlines lines) = lines := by
  unfold splitlines unlines
  induction lines with
  | nil => rfl
  | cons line rest ih =>
      have hline := h line List.mem_cons_self
      have hrest := ih (fun l hl => h l (List.mem_cons_of_mem _ hl))
      rw [List.flatMap_cons, List.append_assoc,
        splitlinesFrom_append line _ hline, List.nil_append,
        List.singleton_append, splitlinesFrom_cons (by decide),
        if_pos isLineBreak_newline, hrest]

/-- No line of `splitlines` has a line boundary inside. -/
theorem oneLine_of_mem_splitlinesFrom {line t : Text}
    (hline : OneLine line) {l : Text} (hl : l ∈ splitlinesFrom line t) :
    OneLine l := by
  fun_induction splitlinesFrom line t with
  | case1 => simp at hl
  | case2 line h =>
      rw [List.mem_singleton.1 hl]
      exact hline
  | case3 line c hc =>
      rw [List.mem_singleton.1 hl]
      exact hline
  | case4 line c hc =>
      rw [List.mem_singleton.1 hl]
      refine hline.append ?_
      intro x hx
      rw [List.mem_singleton.1 hx]
      simpa using hc
  | case5 line c d rest hcd ih =>
      rcases List.mem_cons.1 hl with rfl | hl
      · exact hline
      · exact ih (by simp [OneLine]) hl
  | case6 line c d rest hcd hc ih =>
      rcases List.mem_cons.1 hl with rfl | hl
      · exact hline
      · exact ih (by simp [OneLine]) hl
  | case7 line c d rest hcd hc ih =>
      refine ih (hline.append ?_) hl
      intro x hx
      rw [List.mem_singleton.1 hx]
      simpa using hc

theorem oneLine_of_mem_splitlines {t l : Text} (hl : l ∈ splitlines t) :
    OneLine l :=
  oneLine_of_mem_splitlinesFrom (by simp [OneLine]) hl

theorem return_notMem_unlines {lines : List Text}
    (h : ∀ line ∈ lines, OneLine line) : '\r' ∉ unlines lines := by
  intro hmem
  obtain ⟨line, hline, hr⟩ := List.mem_flatMap.1 hmem
  rcases List.mem_append.1 hr with hr | hr
  · exact (h line hline).ne_return hr rfl
  · simp at hr

/-- `"\n".join(lines) + "\n"` ends each line, when there is one. -/
theorem intercalate_newline {lines : List Text} (h : lines ≠ []) :
    List.intercalate ['\n'] lines ++ ['\n'] = unlines lines := by
  induction lines with
  | nil => exact absurd rfl h
  | cons line rest ih =>
      cases rest with
      | nil => simp [unlines]
      | cons line' rest =>
          have hrest := ih (by simp)
          rw [List.intercalate_cons_cons, List.append_assoc,
            List.append_assoc, hrest]
          simp [unlines]

/-- Cutting loses nothing. -/
theorem unlines_cutLines (t : Text) :
    unlines (cutLines t).1 ++ (cutLines t).2 = t := by
  induction t with
  | nil => rfl
  | cons c rest ih =>
      unfold cutLines
      split_ifs with hc
      · simp only [unlines, List.flatMap_cons, List.nil_append]
        rw [hc, List.append_assoc]
        exact congrArg (List.cons '\n') ih
      · cases hls : (cutLines rest).1 with
        | nil =>
            rw [hls] at ih
            exact congrArg (List.cons c) ih
        | cons l ls =>
            rw [hls] at ih
            exact congrArg (List.cons c) ih

/-- Lines and a rest without line feeds are what a text is cut into. -/
theorem cutLines_unlines_append {lines : List Text} {tail : Text}
    (hlines : ∀ l ∈ lines, '\n' ∉ l) (htail : '\n' ∉ tail) :
    cutLines (unlines lines ++ tail) = (lines, tail) := by
  have hcons : ∀ (l t : Text), '\n' ∉ l →
      cutLines (l ++ '\n' :: t) = (l :: (cutLines t).1, (cutLines t).2) := by
    intro l t hl
    induction l with
    | nil => simp [cutLines]
    | cons c l ih =>
        have hc : c ≠ '\n' := fun h => hl (by simp [h])
        have hl' : '\n' ∉ l := fun h => hl (List.mem_cons_of_mem _ h)
        rw [List.cons_append, cutLines, if_neg hc, ih hl']
  induction lines with
  | nil =>
      induction tail with
      | nil => rfl
      | cons c tail ih =>
          have hc : c ≠ '\n' := fun h => htail (by simp [h])
          have htail' : '\n' ∉ tail :=
            fun h => htail (List.mem_cons_of_mem _ h)
          have hrest := ih htail'
          simp only [unlines, List.flatMap_nil, List.nil_append] at hrest ⊢
          rw [cutLines, if_neg hc, hrest]
  | cons l lines ih =>
      have hl := hlines l List.mem_cons_self
      have hrest := ih (fun x hx => hlines x (List.mem_cons_of_mem _ hx))
      have hsplit : unlines (l :: lines) ++ tail =
          l ++ '\n' :: (unlines lines ++ tail) := by
        simp [unlines]
      rw [hsplit, hcons l _ hl, hrest]

theorem universalNewlines_append {s : Text} (hs : '\r' ∉ s) (t : Text) :
    universalNewlines (s ++ t) = s ++ universalNewlines t := by
  induction s with
  | nil => rfl
  | cons c s ih =>
      have hc : c ≠ '\r' := fun h => hs (by simp [h])
      have hs' : '\r' ∉ s := fun h => hs (List.mem_cons_of_mem _ h)
      cases hst : s ++ t with
      | nil =>
          obtain ⟨rfl, rfl⟩ := List.append_eq_nil_iff.1 hst
          simp [universalNewlines, hc]
      | cons d rest =>
          rw [List.cons_append, hst, universalNewlines, if_neg hc, ← hst,
            ih hs', List.cons_append]

theorem universalNewlines_return_feed (t : Text) :
    universalNewlines ('\r' :: '\n' :: t) = universalNewlines ('\n' :: t) := by
  have hfeed : universalNewlines (['\n'] ++ t) = ['\n'] ++ universalNewlines t :=
    universalNewlines_append (by decide) t
  rw [universalNewlines, if_pos rfl, if_pos rfl]
  exact hfeed.symm

theorem universalNewlines_return {t : Text} (ht : ∀ u, t ≠ '\n' :: u) :
    universalNewlines ('\r' :: t) = '\n' :: universalNewlines t := by
  cases t with
  | nil => rfl
  | cons c t =>
      have hc : c ≠ '\n' := by
        rintro rfl
        exact ht t rfl
      rw [universalNewlines, if_pos rfl, if_neg hc]

/-- Text that has been read has no carriage return. -/
theorem return_notMem_universalNewlines (t : Text) :
    '\r' ∉ universalNewlines t := by
  induction t using universalNewlines.induct with
  | case1 => exact List.not_mem_nil
  | case2 c =>
      rw [universalNewlines, List.mem_singleton]
      split
      · decide
      · rename_i hc
        exact Ne.symm hc
  | case3 rest ih =>
      rw [universalNewlines, if_pos rfl, if_pos rfl, List.mem_cons]
      exact not_or.2 ⟨by decide, ih⟩
  | case4 d rest hd ih =>
      rw [universalNewlines, if_pos rfl, if_neg hd, List.mem_cons]
      exact not_or.2 ⟨by decide, ih⟩
  | case5 c d rest hc ih =>
      rw [universalNewlines, if_neg hc, List.mem_cons]
      exact not_or.2 ⟨Ne.symm hc, ih⟩

/-- The first line of a file, whether a line feed ends it or the pair. -/
theorem splitlines_universalNewlines_line {l : Text}
    (hl : OneLine (chomp l)) (rest : Text) :
    splitlines (universalNewlines (l ++ '\n' :: rest)) =
      chomp l :: splitlines (universalNewlines rest) := by
  have hcore : '\r' ∉ chomp l := fun h => hl.ne_return h rfl
  have hread : universalNewlines (l ++ '\n' :: rest) =
      chomp l ++ '\n' :: universalNewlines rest := by
    unfold chomp at hcore ⊢
    split_ifs at hcore ⊢ with hr
    · obtain ⟨s, rfl⟩ := List.getLast?_eq_some_iff.1 hr
      rw [List.dropLast_concat] at hcore ⊢
      rw [List.append_assoc, universalNewlines_append hcore]
      rfl
    · rw [universalNewlines_append hcore]
      cases rest <;> rfl
  unfold splitlines
  rw [hread, splitlinesFrom_append _ _ hl, List.nil_append,
    splitlinesFrom_cons (by decide), if_pos isLineBreak_newline]

/-- The last line of a file that no line feed ends. -/
theorem splitlines_universalNewlines_tail {l : Text}
    (hl : OneLine (chomp l)) :
    splitlines (universalNewlines l) = [chomp l] ∨
      splitlines (universalNewlines l) = [] ∧ l = [] := by
  have hcore : '\r' ∉ chomp l := fun h => hl.ne_return h rfl
  by_cases hr : l.getLast? = some '\r'
  · have hchomp : chomp l = l.dropLast := if_pos hr
    rw [hchomp] at hl hcore ⊢
    obtain ⟨s, rfl⟩ := List.getLast?_eq_some_iff.1 hr
    rw [List.dropLast_concat] at hl hcore ⊢
    have hread : universalNewlines (s ++ ['\r']) = s ++ '\n' :: [] :=
      universalNewlines_append hcore _
    left
    unfold splitlines
    rw [hread, splitlinesFrom_append _ _ hl, List.nil_append,
      splitlinesFrom_cons (by decide), if_pos isLineBreak_newline]
    rfl
  · have hchomp : chomp l = l := if_neg hr
    rw [hchomp] at hl hcore ⊢
    have hsplit : splitlines l = if l = [] then [] else [l] := by
      have happend := @splitlinesFrom_append [] l [] hl
      rw [List.append_nil, List.nil_append] at happend
      exact happend
    rw [universalNewlines_eq_self hcore, hsplit]
    split_ifs with hnil
    · exact Or.inr ⟨rfl, hnil⟩
    · exact Or.inl rfl

theorem suffix_splitlinesFrom_cons {lines : List Text} {c : Char} {t : Text}
    (hc : c ≠ '\r') (h : ∀ line, lines <:+ splitlinesFrom line t)
    (line : Text) : lines <:+ splitlinesFrom line (c :: t) := by
  rw [splitlinesFrom_cons hc]
  split_ifs
  · exact (h []).trans (List.suffix_cons _ _)
  · exact h (line ++ [c])

/-- What follows a line feed is cut into lines on its own. -/
theorem splitlines_suffix (l rest : Text) :
    splitlines (universalNewlines rest) <:+
      splitlines (universalNewlines (l ++ '\n' :: rest)) := by
  have hfeed : ∀ line, splitlines (universalNewlines rest) <:+
      splitlinesFrom line ('\n' :: universalNewlines rest) := by
    intro line
    rw [splitlinesFrom_cons (by decide), if_pos isLineBreak_newline]
    exact List.suffix_cons _ _
  have hread : universalNewlines ('\n' :: rest) =
      '\n' :: universalNewlines rest := by
    cases rest <;> rfl
  have hall : ∀ line, splitlines (universalNewlines rest) <:+
      splitlinesFrom line (universalNewlines (l ++ '\n' :: rest)) := by
    induction l using universalNewlines.induct with
    | case1 =>
        rw [List.nil_append, hread]
        exact hfeed
    | case2 c =>
        by_cases hc : c = '\r'
        · subst hc
          exact hfeed
        · have hcons : universalNewlines ([c] ++ '\n' :: rest) =
              c :: '\n' :: universalNewlines rest := by
            rw [List.singleton_append, universalNewlines, if_neg hc, hread]
          rw [hcons]
          exact suffix_splitlinesFrom_cons hc hfeed
    | case3 l ih => exact suffix_splitlinesFrom_cons (by decide) ih
    | case4 d l hd ih =>
        have hcons : universalNewlines ('\r' :: d :: l ++ '\n' :: rest) =
            '\n' :: universalNewlines (d :: l ++ '\n' :: rest) := by
          simp [universalNewlines, hd]
        rw [hcons]
        exact suffix_splitlinesFrom_cons (by decide) ih
    | case5 c d l hc ih =>
        have hcons : universalNewlines (c :: d :: l ++ '\n' :: rest) =
            c :: universalNewlines (d :: l ++ '\n' :: rest) := by
          simp [universalNewlines, hc]
        rw [hcons]
        exact suffix_splitlinesFrom_cons hc ih
  exact hall []

theorem strip_append_blank {c : Char} (hc : isBlank c = true) (t : Text) :
    strip (t ++ [c]) = strip t := by
  unfold strip stripBy
  have hdrop : (t ++ [c]).dropWhile isBlank = t.dropWhile isBlank ++ [c] ∨
      (t ++ [c]).dropWhile isBlank = [] ∧ t.dropWhile isBlank = [] := by
    induction t with
    | nil => right; simp [hc]
    | cons x t ih =>
        by_cases hx : isBlank x = true
        · simpa [hx] using ih
        · left; simp [hx]
  rcases hdrop with h | ⟨h, h'⟩
  · rw [h, List.rdropWhile_concat_pos _ _ _ hc]
  · rw [h, h']

theorem notMem_before (c : Char) (t : Text) : c ∉ before c t := by
  intro h
  have hp := List.mem_takeWhile_imp h
  simp at hp

/-- The text around its first `c`. -/
theorem before_append_after {c : Char} {t : Text} (h : c ∈ t) :
    t = before c t ++ c :: after c t := by
  unfold before after
  induction t with
  | nil => cases h
  | cons x t ih =>
      by_cases hx : x = c
      · subst hx
        simp
      · have hmem : c ∈ t := by
          rcases List.mem_cons.1 h with h | h
          · exact absurd h.symm hx
          · exact h
        simp only [List.takeWhile_cons, List.dropWhile_cons, bne_iff_ne,
          ne_eq, hx, not_false_eq_true, if_true, List.cons_append]
        rw [← ih hmem]

theorem before_append_cons {c : Char} {k : Text} (h : c ∉ k) (v : Text) :
    before c (k ++ c :: v) = k := by
  unfold before
  rw [List.takeWhile_append_of_pos]
  · simp
  · intro x hx
    have hne : x ≠ c := fun hxc => h (hxc ▸ hx)
    simpa using hne

theorem after_append_cons {c : Char} {k : Text} (h : c ∉ k) (v : Text) :
    after c (k ++ c :: v) = v := by
  unfold after
  rw [List.dropWhile_append_of_pos]
  · simp
  · intro x hx
    have hne : x ≠ c := fun hxc => h (hxc ▸ hx)
    simpa using hne

theorem dropWhile_append_cons {p : Char → Bool} {c : Char}
    (hc : p c = false) (s t : Text) :
    (s ++ c :: t).dropWhile p = s.dropWhile p ++ c :: t := by
  induction s with
  | nil => simp [hc]
  | cons x s ih =>
      by_cases hx : p x = true
      · simp [hx, ih]
      · simp [hx]

theorem rdropWhile_append_cons {p : Char → Bool} {c : Char}
    (hc : p c = false) (s t : Text) :
    (s ++ c :: t).rdropWhile p = s ++ c :: t.rdropWhile p := by
  unfold List.rdropWhile
  rw [List.reverse_append, List.reverse_cons, List.append_assoc,
    List.singleton_append, dropWhile_append_cons hc]
  simp

/-- Stripping around a character that stays. -/
theorem stripBy_append_cons {p : Char → Bool} {c : Char}
    (hc : p c = false) (s t : Text) :
    stripBy p (s ++ c :: t) = s.dropWhile p ++ c :: t.rdropWhile p := by
  unfold stripBy
  rw [dropWhile_append_cons hc, rdropWhile_append_cons hc]

theorem stripBy_eq_self_of_notMem {p : Char → Bool} {t : Text}
    (h : ∀ c ∈ t, p c = false) : stripBy p t = t := by
  have hdrop : t.dropWhile p = t := by
    cases t with
    | nil => rfl
    | cons c t => simp [h c List.mem_cons_self]
  unfold stripBy
  rw [hdrop, List.rdropWhile_eq_self_iff]
  intro hne
  simp [h _ (List.getLast_mem hne)]

/-- A stripped text begins where the dropped characters end. -/
theorem head?_stripBy (p : Char → Bool) (t : Text) :
    (stripBy p t).head? = (t.dropWhile p).head? := by
  unfold stripBy
  cases hdrop : t.dropWhile p with
  | nil => rfl
  | cons c rest =>
      have hc : p c = false := by
        have hhead := List.head?_dropWhile_not p t
        rw [hdrop] at hhead
        simpa using hhead
      have hsplit := rdropWhile_append_cons hc [] rest
      rw [List.nil_append] at hsplit
      rw [hsplit, List.nil_append, List.head?_cons, List.head?_cons]

/-- A prefix without `c` ends before the first `c`. -/
theorem prefix_of_prefix_append_cons {c : Char} {p s t : Text}
    (hc : c ∉ p) (h : p <+: s ++ c :: t) : p <+: s := by
  have hs : s ++ [c] <+: s ++ c :: t := ⟨t, by simp⟩
  rcases List.prefix_or_prefix_of_prefix h hs with hp | hp
  · rcases List.prefix_concat_iff.1 hp with rfl | hp
    · exact absurd (by simp) hc
    · exact hp
  · exact absurd (hp.subset (by simp)) hc

/-- Both ends of a stripped text stay when something is stripped again. -/
theorem dropWhile_of_stripBy_eq {p : Char → Bool} {t : Text}
    (h : stripBy p t = t) : t.dropWhile p = t := by
  have hlen : t.length ≤ (t.dropWhile p).length := by
    calc t.length = (stripBy p t).length := by rw [h]
      _ ≤ (t.dropWhile p).length := by
          unfold stripBy List.rdropWhile
          rw [List.length_reverse]
          refine le_trans (List.dropWhile_suffix p).length_le ?_
          rw [List.length_reverse]
  exact (List.dropWhile_suffix p).eq_of_length_le hlen

theorem rdropWhile_of_stripBy_eq {p : Char → Bool} {t : Text}
    (h : stripBy p t = t) : t.rdropWhile p = t := by
  have hdrop := dropWhile_of_stripBy_eq h
  unfold stripBy at h
  rwa [hdrop] at h

/-- A stripped text does not begin with what was stripped. -/
theorem not_of_head?_stripBy {p : Char → Bool} {t : Text} {c : Char}
    (h : (stripBy p t).head? = some c) : p c = false := by
  have hnot := List.head?_dropWhile_not p t
  rw [head?_stripBy] at h
  rwa [h] at hnot

theorem stripBy_stripBy (p : Char → Bool) (t : Text) :
    stripBy p (stripBy p t) = stripBy p t := by
  have hdrop : (stripBy p t).dropWhile p = stripBy p t := by
    cases hs : stripBy p t with
    | nil => rfl
    | cons c rest =>
        have hc : p c = false := not_of_head?_stripBy (t := t) (by rw [hs]; rfl)
        rw [List.dropWhile_cons_of_neg (by simp [hc])]
  calc stripBy p (stripBy p t)
      = ((stripBy p t).dropWhile p).rdropWhile p := rfl
    _ = ((t.dropWhile p).rdropWhile p).rdropWhile p := by rw [hdrop]; rfl
    _ = stripBy p t := List.rdropWhile_idempotent p _

theorem strip_strip (t : Text) : strip (strip t) = strip t :=
  stripBy_stripBy isBlank t

/-- What is stripped of more is stripped of less. -/
theorem stripBy_eq_self_of_imp {p q : Char → Bool}
    (hpq : ∀ c, p c = true → q c = true) {t : Text} (h : stripBy q t = t) :
    stripBy p t = t := by
  have hdrop : t.dropWhile p = t := by
    rw [List.dropWhile_eq_self_iff]
    intro hl hp
    exact List.dropWhile_eq_self_iff.1 (dropWhile_of_stripBy_eq h) hl (hpq _ hp)
  have hrdrop : t.rdropWhile p = t := by
    rw [List.rdropWhile_eq_self_iff]
    intro hl hp
    exact List.rdropWhile_eq_self_iff.1 (rdropWhile_of_stripBy_eq h) hl
      (hpq _ hp)
  unfold stripBy
  rw [hdrop, hrdrop]

end PyText

end Kelt
