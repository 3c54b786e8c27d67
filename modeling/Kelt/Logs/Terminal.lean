import Kelt.Logs.Lines

/-!
# What reaches the terminal

The log page writes what it receives into a terminal. `_sanitize_for_terminal`
gives texts without control characters, apart from tabs, line ends and whole
control sequences (`Clean`), and gives all of them: it leaves such a text as it
is, and replaces no character of another one but the control characters.
-/

namespace Kelt
namespace Logs

section Clean

variable {c : Char} {s t : Text}

/-- A character a terminal shows, or a tab or the end of a line. -/
def isPlain (c : Char) : Bool :=
  c == '\t' || c == '\n' || c == '\r' ||
    (0x20 ≤ c.toNat && c.toNat != 0x7f)

/-- `[\x20-\x3f]` -/
def isParam (c : Char) : Bool :=
  0x20 ≤ c.toNat && c.toNat ≤ 0x3f

/-- `[\x40-\x7e]` -/
def isFinal (c : Char) : Bool :=
  0x40 ≤ c.toNat && c.toNat ≤ 0x7e

/-- Plain characters and whole control sequences. -/
inductive Clean : Text → Prop
  | nil : Clean []
  | plain {c : Char} {t : Text} (hc : isPlain c = true) (ht : Clean t) :
      Clean (c :: t)
  | csi {params : Text} {final : Char} {t : Text}
      (hparams : ∀ p ∈ params, isParam p = true) (hfinal : isFinal final = true)
      (ht : Clean t) : Clean (escape :: '[' :: (params ++ final :: t))

theorem Clean.append (hs : Clean s) (ht : Clean t) : Clean (s ++ t) := by
  induction hs with
  | nil => exact ht
  | plain hc _ ih => exact .plain hc ih
  | csi hparams hfinal _ ih =>
      simpa only [List.cons_append, List.append_assoc] using
        Clean.csi hparams hfinal ih

theorem clean_of_isPlain (h : ∀ c ∈ t, isPlain c = true) : Clean t := by
  induction t with
  | nil => exact .nil
  | cons c t ih =>
      rw [List.forall_mem_cons] at h
      exact .plain h.1 (ih h.2)

/-- Clean texts, line by line. -/
theorem clean_intercalate {batch : List Text} (h : ∀ t ∈ batch, Clean t) :
    Clean (['\n'].intercalate batch) := by
  have hfeed : Clean ['\n'] := clean_of_isPlain (by decide)
  induction batch with
  | nil => exact .nil
  | cons t rest ih =>
      rw [List.forall_mem_cons] at h
      cases rest with
      | nil => simpa using h.1
      | cons u rest =>
          rw [List.intercalate_cons_cons]
          exact (h.1.append hfeed).append (ih h.2)

end Clean

section Sanitize

variable {c : Char} {t s rest : Text}

theorem literal?_eq_some {x : Char} :
    literal? x t = some rest ↔ t = x :: rest := by
  cases t with
  | nil => simp [literal?]
  | cons y t =>
      simp only [literal?, Option.ite_none_right_eq_some, Option.some.injEq,
        List.cons.injEq]

theorem not_isParam_of_isFinal (h : isFinal c = true) :
    isParam c = false := by
  rw [isFinal, Bool.and_eq_true, decide_eq_true_eq, decide_eq_true_eq] at h
  rw [isParam, Bool.and_eq_false_iff]
  exact .inr (decide_eq_false (by omega))

/-- A control sequence at the front. -/
theorem csi?_append {params : Text} {final : Char}
    (hparams : ∀ p ∈ params, isParam p = true) (hfinal : isFinal final = true)
    (rest : Text) :
    csi? (escape :: '[' :: (params ++ final :: rest)) =
      some (escape :: '[' :: (params ++ [final]), rest) := by
  have hnot := not_isParam_of_isFinal hfinal
  have htake : (params ++ final :: rest).takeWhile isParam = params := by
    rw [List.takeWhile_append_of_pos hparams,
      List.takeWhile_cons_of_neg (by simp [hnot]), List.append_nil]
  have hdrop : (params ++ final :: rest).dropWhile isParam = final :: rest := by
    rw [List.dropWhile_append_of_pos hparams,
      List.dropWhile_cons_of_neg (by simp [hnot])]
  rw [isFinal, Bool.and_eq_true, decide_eq_true_eq, decide_eq_true_eq] at hfinal
  unfold isParam at htake hdrop
  simp [csi?, literal?, htake, hdrop, hfinal]

theorem exists_of_csi? (h : csi? t = some (s, rest)) :
    ∃ params final, (∀ p ∈ params, isParam p = true) ∧
      isFinal final = true ∧ s = escape :: '[' :: (params ++ [final]) ∧
      t = escape :: '[' :: (params ++ final :: rest) := by
  obtain ⟨t₁, h₁, h⟩ := Option.bind_eq_some_iff.1 h
  obtain ⟨t₂, h₂, h⟩ := Option.bind_eq_some_iff.1 h
  have hsplit := List.takeWhile_append_dropWhile (p := isParam) (l := t₂)
  have hparam : (fun c : Char => decide (0x20 ≤ c.toNat) &&
      decide (c.toNat ≤ 0x3f)) = isParam := rfl
  dsimp only at h
  rw [hparam] at h
  cases hd : t₂.dropWhile isParam with
  | nil =>
      rw [hd] at h
      cases h
  | cons c rest' =>
      rw [hd] at h hsplit
      simp only [Option.ite_none_right_eq_some, Option.some.injEq,
        Prod.mk.injEq] at h
      obtain ⟨hc, rfl, rfl⟩ := h
      refine ⟨t₂.takeWhile isParam, c, fun p hp => List.mem_takeWhile_imp hp,
        ?_, rfl, ?_⟩
      · simpa [isFinal] using hc
      · rw [hsplit, literal?_eq_some.1 h₁, literal?_eq_some.1 h₂]

/-- Only a control character is not left as it is, and a full stop stands for
it. -/
def Kept (c d : Char) : Prop :=
  d = c ∨ isPlain c = false ∧ d = '.'

/-- What the loop writes for a character that begins no control sequence. -/
def shown (c : Char) : Char :=
  if c = '\t' ∨ c = '\n' ∨ c = '\r' then c
  else if c.toNat < 0x20 ∨ c.toNat = 0x7f then '.'
  else c

theorem shown_of_isPlain (hc : isPlain c = true) : shown c = c := by
  unfold shown
  split
  · rfl
  · rename_i hne
    simp only [isPlain, Bool.or_eq_true, beq_iff_eq, Bool.and_eq_true,
      decide_eq_true_eq, bne_iff_ne, or_assoc] at hc
    have hprinted : 0x20 ≤ c.toNat ∧ c.toNat ≠ 0x7f := by tauto
    rw [if_neg (by omega)]

theorem shown_of_not_isPlain (hc : isPlain c = false) : shown c = '.' := by
  simp only [isPlain, Bool.or_eq_false_iff, beq_eq_false_iff_ne,
    Bool.and_eq_false_iff, decide_eq_false_iff_not, bne_eq_false_iff_eq] at hc
  rw [shown, if_neg (by tauto), if_pos (by omega)]

theorem isPlain_shown (c : Char) : isPlain (shown c) = true := by
  cases hc : isPlain c with
  | true => rwa [shown_of_isPlain hc]
  | false =>
      rw [shown_of_not_isPlain hc]
      decide

theorem kept_shown (c : Char) : Kept c (shown c) := by
  cases hc : isPlain c with
  | true => exact .inl (shown_of_isPlain hc)
  | false => exact .inr ⟨hc, shown_of_not_isPlain hc⟩

theorem sanitizeFrom_csi {fuel : Nat} (h : csi? (c :: t) = some (s, rest)) :
    sanitizeFrom (fuel + 1) (c :: t) = s ++ sanitizeFrom fuel rest := by
  rw [sanitizeFrom, h]

theorem sanitizeFrom_cons {fuel : Nat} (h : csi? (c :: t) = none) :
    sanitizeFrom (fuel + 1) (c :: t) = shown c :: sanitizeFrom fuel t := by
  rw [sanitizeFrom, h]
  rfl

theorem clean_sanitizeFrom (fuel : Nat) (t : Text) :
    Clean (sanitizeFrom fuel t) := by
  induction fuel generalizing t with
  | zero => exact .nil
  | succ fuel ih =>
      cases t with
      | nil => exact .nil
      | cons c t =>
          cases h : csi? (c :: t) with
          | none =>
              rw [sanitizeFrom_cons h]
              exact .plain (isPlain_shown c) (ih t)
          | some found =>
              obtain ⟨params, final, hparams, hfinal, hs, -⟩ := exists_of_csi? h
              rw [sanitizeFrom_csi h, hs]
              simpa using Clean.csi hparams hfinal (ih found.2)

/-- The loop reaches the end of the text. -/
theorem kept_sanitizeFrom {fuel : Nat} (h : t.length ≤ fuel) :
    List.Forall₂ Kept t (sanitizeFrom fuel t) := by
  induction fuel generalizing t with
  | zero =>
      rw [List.length_eq_zero_iff.1 (Nat.le_zero.1 h)]
      exact .nil
  | succ fuel ih =>
      cases t with
      | nil => exact .nil
      | cons c t =>
          cases hcsi : csi? (c :: t) with
          | none =>
              rw [sanitizeFrom_cons hcsi]
              exact .cons (kept_shown c) (ih (Nat.le_of_succ_le_succ h))
          | some found =>
              obtain ⟨params, final, -, -, hs, ht⟩ := exists_of_csi? hcsi
              have hshort : found.2.length ≤ fuel := by
                rw [ht] at h
                simp only [List.length_cons, List.length_append] at h
                omega
              have hsame : c :: t = found.1 ++ found.2 := by
                rw [ht, hs]
                simp
              rw [sanitizeFrom_csi hcsi, hsame]
              refine List.rel_append ?_ (ih hshort)
              exact List.forall₂_same.2 fun _ _ => .inl rfl

theorem csi?_cons_of_isPlain (hc : isPlain c = true) :
    csi? (c :: t) = none := by
  have hne : c ≠ escape := by
    rintro rfl
    revert hc
    decide
  simp [csi?, literal?, hne]

theorem sanitizeFrom_of_clean {fuel : Nat} (ht : Clean t)
    (h : t.length ≤ fuel) : sanitizeFrom fuel t = t := by
  induction ht generalizing fuel with
  | nil => cases fuel <;> rfl
  | plain hc _ ih =>
      cases fuel with
      | zero => simp at h
      | succ fuel =>
          rw [sanitizeFrom_cons (csi?_cons_of_isPlain hc), shown_of_isPlain hc,
            ih (Nat.le_of_succ_le_succ h)]
  | csi hparams hfinal _ ih =>
      cases fuel with
      | zero => simp at h
      | succ fuel =>
          simp only [List.length_cons, List.length_append] at h
          rw [sanitizeFrom_csi (csi?_append hparams hfinal _), ih (by omega)]
          simp

/-- `raw.replace("\x00", "").replace("\x07", "")` -/
def dropNullAndBell (raw : Text) : Text :=
  raw.filter fun c => c.toNat != 0 && c.toNat != 7

theorem dropNullAndBell_of_clean (ht : Clean t) : dropNullAndBell t = t := by
  rw [dropNullAndBell, List.filter_eq_self]
  have hlarge : ∀ {p : Char}, 0x20 ≤ p.toNat →
      (p.toNat != 0 && p.toNat != 7) = true := by
    intro p hp
    rw [Bool.and_eq_true, bne_iff_ne, bne_iff_ne]
    omega
  induction ht with
  | nil => exact fun _ h => nomatch h
  | @plain c t hc _ ih =>
      refine List.forall_mem_cons.2 ⟨?_, ih⟩
      simp only [isPlain, Bool.or_eq_true, beq_iff_eq, Bool.and_eq_true,
        decide_eq_true_eq] at hc
      obtain ((rfl | rfl) | rfl) | hc := hc
      · decide
      · decide
      · decide
      · exact hlarge hc.1
  | @csi params final t hparams hfinal _ ih =>
      simp only [isParam, isFinal, Bool.and_eq_true, decide_eq_true_eq] at *
      simp only [List.forall_mem_cons, List.forall_mem_append]
      refine ⟨by decide, by decide, fun p hp => ?_, ?_, ih⟩
      · exact hlarge (hparams p hp).1
      · exact hlarge (by omega)

theorem clean_sanitizeForTerminal (raw : Text) :
    Clean (sanitizeForTerminal raw) :=
  clean_sanitizeFrom _ _

end Sanitize

section Format

variable {c : Char} {t rest clock : Text}

theorem isPlain_of_isDecimal (h : isDecimal c = true) :
    isPlain c = true := by
  rw [isDecimal, decimalValue?, Option.isSome_map, List.find?_isSome] at h
  obtain ⟨first, hmem, hc⟩ := h
  have hall : ∀ z ∈ decimalZeros, z = 0x30 ∨ 0x80 ≤ z := by decide
  have hfirst := hall first hmem
  simp only [Bool.and_eq_true, decide_eq_true_eq] at hc
  simp only [isPlain, Bool.or_eq_true, beq_iff_eq, Bool.and_eq_true,
    decide_eq_true_eq, bne_iff_ne]
  omega

theorem plain_digits? {n : Nat} {d : Text}
    (h : digits? n t = some (d, rest)) : ∀ c ∈ d, isPlain c = true := by
  simp only [digits?, Option.ite_none_right_eq_some, Option.some.injEq,
    Prod.mk.injEq] at h
  obtain ⟨⟨-, hall⟩, rfl, -⟩ := h
  exact fun c hc => isPlain_of_isDecimal (List.all_eq_true.1 hall c hc)

theorem plain_clock? (h : clock? t = some (clock, rest)) :
    ∀ c ∈ clock, isPlain c = true := by
  obtain ⟨hour, hhour, h⟩ := Option.bind_eq_some_iff.1 h
  obtain ⟨t₁, -, h⟩ := Option.bind_eq_some_iff.1 h
  obtain ⟨minute, hminute, h⟩ := Option.bind_eq_some_iff.1 h
  obtain ⟨t₂, -, h⟩ := Option.bind_eq_some_iff.1 h
  obtain ⟨second, hsecond, h⟩ := Option.bind_eq_some_iff.1 h
  obtain ⟨rfl, -⟩ := Prod.mk.inj (Option.some.inj h)
  simp only [List.forall_mem_append, List.forall_mem_cons]
  exact ⟨⟨plain_digits? hhour, by decide, plain_digits? hminute⟩, by decide,
    plain_digits? hsecond⟩

theorem plain_k8sTs? (h : k8sTs? t = some (clock, rest)) :
    ∀ c ∈ clock, isPlain c = true := by
  unfold k8sTs? at h
  simp only [Option.bind_eq_bind, Option.bind_eq_some_iff] at h
  obtain ⟨_, -, _, -, _, -, _, -, _, -, _, -, ⟨found, rest'⟩, hclock, _, -, _,
    -, _, -, _, -, h⟩ := h
  obtain ⟨rfl, -⟩ := Prod.mk.inj (Option.some.inj h)
  exact plain_clock? hclock

theorem clean_formatLogLine (raw : Text) : Clean (formatLogLine raw) := by
  unfold formatLogLine
  split
  · exact clean_sanitizeForTerminal raw
  · rename_i clock rest hts
    have hclock := clean_of_isPlain (plain_k8sTs? hts)
    have hgrey : Clean (escape :: "[90m".toList) :=
      @Clean.csi "90".toList 'm' [] (by decide) (by decide) .nil
    have hreset : Clean (escape :: "[0m ".toList) :=
      @Clean.csi "0".toList 'm' [' '] (by decide) (by decide)
        (clean_of_isPlain (by decide))
    dsimp only
    split
    · exact clean_sanitizeForTerminal rest
    · exact ((hgrey.append hclock).append hreset).append
        (clean_sanitizeForTerminal rest)

end Format

section Messages

/-- The text of a message. -/
def Message.text : Message → Text
  | .lines batch => ['\n'].intercalate batch
  | .note text => text

variable {p : Pass} {st : Stream}

/-- Nothing that has been sent or waits to be harms the terminal. -/
structure Pass.IsClean (p : Pass) : Prop where
  out : ∀ m ∈ p.stream.out, Clean m.text
  batch : ∀ t ∈ p.batch, Clean t

theorem Pass.IsClean.flush (h : p.IsClean) : p.flush.IsClean := by
  unfold Pass.flush
  split
  · exact h
  · refine ⟨?_, nofun⟩
    simp only [Stream.send, List.forall_mem_append, List.forall_mem_singleton]
    exact ⟨h.out, clean_intercalate h.batch⟩

theorem Pass.IsClean.line (h : p.IsClean) (line : Text) :
    (p.line line).IsClean := by
  have hemit : (p.emit line).IsClean := by
    unfold Pass.emit
    split
    · refine ⟨?_, h.flush.batch⟩
      simp only [Stream.send, List.forall_mem_append, List.forall_mem_singleton]
      refine ⟨h.flush.out, clean_intercalate ?_⟩
      simpa using clean_formatLogLine line
    · refine ⟨h.out, ?_⟩
      simp only [List.forall_mem_append, List.forall_mem_singleton]
      exact ⟨h.batch, clean_formatLogLine line⟩
  unfold Pass.line Pass.note
  split
  · split
    · exact hemit
    · exact ⟨hemit.out, hemit.batch⟩
  · exact h

theorem Pass.IsClean.lines (h : p.IsClean) (lines : List Text) :
    (lines.foldl Pass.line p).IsClean := by
  induction lines generalizing p with
  | nil => exact h
  | cons line lines ih => exact ih (h.line line)

theorem clean_poll (h : ∀ m ∈ st.out, Clean m.text) (answer : Text) :
    ∀ m ∈ (st.poll answer).out, Clean m.text := by
  have hread : ∀ m ∈ (st.read answer).out, Clean m.text := by
    unfold Stream.read
    split
    · exact h
    · have hstart : (⟨st, st.effectiveLast, []⟩ : Pass).IsClean := ⟨h, nofun⟩
      exact (hstart.lines _).flush.out
  unfold Stream.poll
  dsimp only
  split
  · simp only [List.forall_mem_append, List.forall_mem_singleton]
    exact ⟨hread, clean_of_isPlain (by decide)⟩
  · exact hread

end Messages

end Logs
end Kelt
