import Kelt.Env.Readers

/-!
# The secrets file as the dashboard reads and writes it

`read_secret` and `_write_secret` of `iam_service.py`, on the content of
`.testbed.secrets`. The writer replaces the first line that assigns the key,
the reader lets the last one win; and the writer joins with line feeds what
`splitlines` cut at any line boundary.

`written_iff` says on which files this does not show: no second assignment of
the key has the last word, and no other line has a line boundary inside.
-/

namespace Kelt
namespace Iam

open Env

section SecretFile

/-- The test of the loop: the line assigns the key. -/
def isAssignment (key ln : Text) : Bool :=
  writerKey ln == key && ln.contains '='

/-- The first assignment of the key is replaced, or the line is appended. -/
def setLine (key value : Text) : List Text → List Text
  | [] => [assignment key value]
  | ln :: rest =>
      if isAssignment key ln then assignment key value :: rest
      else ln :: setLine key value rest

/-- The text that `_write_secret` gives the file. -/
def writeSecret (key value : Text) (file : Option Text) : Text :=
  List.intercalate ['\n'] (setLine key value (fileLines file)) ++ ['\n']

/-- `read_secret`. -/
def readSecret (key : Text) (file : Option Text) : Option Text :=
  (sourceEnvFile file).get? key

/-- The characters of `token_urlsafe`. -/
def isUrlSafe (c : Char) : Bool :=
  ('A' ≤ c && c ≤ 'Z') || ('a' ≤ c && c ≤ 'z') || ('0' ≤ c && c ≤ '9') ||
    c == '-' || c == '_'

/-- A value made of these characters. -/
structure Token where
  text : Text
  urlSafe : ∀ c ∈ text, isUrlSafe c = true

/-- A line of the file, cut at line feeds only, that assigns the key to a
reader that cuts at every line boundary. -/
def assignsKey (key l : Text) : Bool :=
  (fileLines (some l)).any (isAssignment key)

/-- What a write of a secret is to do. -/
structure Written (key : Text) (v : Token) (file : Option Text) : Prop where
  read : readSecret key (some (writeSecret key v.text file)) = some v.text
  others : ∀ k, k ≠ key →
    readSecret k (some (writeSecret key v.text file)) = readSecret k file
  intact : ((grepLines file).filter (fun l => !assignsKey key l)).Sublist
    (grepLines (some (writeSecret key v.text file)))

/-- A name that a line can assign. -/
structure SecretKey (key : Text) : Prop where
  noEquals : '=' ∉ key
  oneLine : OneLine key
  stripped : strip key = key
  noComment : key.head? ≠ some '#'

theorem toNat_of_isUrlSafe {c : Char} (hc : isUrlSafe c = true) :
    c.toNat = 45 ∨ (48 ≤ c.toNat ∧ c.toNat ≤ 57) ∨
      (65 ≤ c.toNat ∧ c.toNat ≤ 90) ∨ c.toNat = 95 ∨
      (97 ≤ c.toNat ∧ c.toNat ≤ 122) := by
  simp only [isUrlSafe, Bool.or_eq_true, Bool.and_eq_true,
    decide_eq_true_eq, beq_iff_eq, Char.le_def, UInt32.le_iff_toNat_le] at hc
  rcases hc with (((hc | hc) | hc) | rfl) | rfl
  · exact Or.inr (Or.inr (Or.inl hc))
  · exact Or.inr (Or.inr (Or.inr (Or.inr hc)))
  · exact Or.inr (Or.inl hc)
  · exact Or.inl rfl
  · exact Or.inr (Or.inr (Or.inr (Or.inl rfl)))

theorem isBlank_of_isUrlSafe {c : Char} (hc : isUrlSafe c = true) :
    isBlank c = false := by
  have hn := toNat_of_isUrlSafe hc
  simp only [isBlank, isLineBreak, Bool.or_eq_false_iff,
    Bool.and_eq_false_iff, decide_eq_false_iff_not, beq_eq_false_iff_ne,
    ne_eq]
  omega

theorem Token.stripped (v : Token) : strip v.text = v.text :=
  stripBy_eq_self_of_notMem
    (fun c hc => isBlank_of_isUrlSafe (v.urlSafe c hc))

theorem Token.oneLine (v : Token) : OneLine v.text := by
  intro c hc
  have hblank := isBlank_of_isUrlSafe (v.urlSafe c hc)
  cases hbreak : isLineBreak c with
  | false => rfl
  | true =>
      rw [isBlank_of_isLineBreak hbreak] at hblank
      cases hblank

section Lines

variable {key : Text} {v : Token}

theorem SecretKey.oneLine_assignment (hkey : SecretKey key) (v : Token) :
    OneLine (assignment key v.text) := by
  refine hkey.oneLine.append ?_
  intro c hc
  rcases List.mem_cons.1 hc with rfl | hc
  · decide
  · exact v.oneLine c hc

theorem setLine_ne_nil (key value : Text) (lines : List Text) :
    setLine key value lines ≠ [] := by
  cases lines with
  | nil => simp [setLine]
  | cons ln rest =>
      rw [setLine]
      split_ifs <;> simp

theorem mem_setLine {value ln : Text} {lines : List Text}
    (h : ln ∈ setLine key value lines) :
    ln = assignment key value ∨ ln ∈ lines := by
  induction lines with
  | nil => exact Or.inl (List.mem_singleton.1 h)
  | cons l rest ih =>
      rw [setLine] at h
      split_ifs at h
      · rcases List.mem_cons.1 h with h | h
        · exact Or.inl h
        · exact Or.inr (List.mem_cons_of_mem _ h)
      · rcases List.mem_cons.1 h with rfl | h
        · exact Or.inr List.mem_cons_self
        · exact (ih h).imp_right (List.mem_cons_of_mem _)

/-- The lines that do not assign the key stay, in order. -/
theorem filter_sublist_setLine (key value : Text) (lines : List Text) :
    (lines.filter (fun ln => !isAssignment key ln)).Sublist
      (setLine key value lines) := by
  induction lines with
  | nil => exact List.nil_sublist _
  | cons ln rest ih =>
      rw [setLine]
      by_cases h : isAssignment key ln = true
      · rw [if_pos h, List.filter_cons_of_neg (by simp [h])]
        exact List.filter_sublist.trans (List.sublist_cons_self _ _)
      · rw [if_neg h, List.filter_cons_of_pos (by simpa using h)]
        exact ih.cons_cons ln

theorem oneLine_of_mem_setLine (hkey : SecretKey key) {file : Option Text}
    {ln : Text} (h : ln ∈ setLine key v.text (fileLines file)) :
    OneLine ln := by
  rcases mem_setLine h with rfl | h
  · exact hkey.oneLine_assignment v
  · exact oneLine_of_mem_fileLines h

theorem writeSecret_eq (key value : Text) (file : Option Text) :
    writeSecret key value file =
      unlines (setLine key value (fileLines file)) :=
  intercalate_newline (setLine_ne_nil _ _ _)

/-- The written file is cut into the lines that were written. -/
theorem fileLines_writeSecret (hkey : SecretKey key) (file : Option Text) :
    fileLines (some (writeSecret key v.text file)) =
      setLine key v.text (fileLines file) := by
  rw [writeSecret_eq,
    fileLines_unlines (fun ln hln => oneLine_of_mem_setLine hkey hln)]

theorem grepLines_writeSecret (hkey : SecretKey key) (file : Option Text) :
    grepLines (some (writeSecret key v.text file)) =
      setLine key v.text (fileLines file) := by
  rw [writeSecret_eq, grepLines_unlines]
  intro ln hln
  exact (EnvLine.of_oneLine (oneLine_of_mem_setLine hkey hln)).notMem

theorem isAssignment_assignment (hkey : SecretKey key) (value : Text) :
    isAssignment key (assignment key value) = true := by
  have hwriter : writerKey (assignment key value) = key := by
    unfold writerKey assignment
    rw [before_append_cons hkey.noEquals, hkey.stripped]
  have hmem : '=' ∈ assignment key value := by simp [assignment]
  simp [isAssignment, hwriter, hmem]

/-- One assignment is replaced, the others stay. -/
theorem filter_setLine (hkey : SecretKey key) (value : Text)
    (lines : List Text) :
    (setLine key value lines).filter (isAssignment key) =
      assignment key value :: (lines.filter (isAssignment key)).tail := by
  have hnew := isAssignment_assignment hkey value
  induction lines with
  | nil => simp [setLine, hnew]
  | cons ln rest ih =>
      rw [setLine]
      by_cases h : isAssignment key ln = true
      · rw [if_pos h, List.filter_cons_of_pos hnew, List.filter_cons_of_pos h,
          List.tail_cons]
      · rw [if_neg h, List.filter_cons_of_neg h, List.filter_cons_of_neg h, ih]

/-- What no assignment of the key has anything to say about is as before. -/
theorem lastOf_setLine {f : Text → Option Text} {value : Text}
    {lines : List Text} (hold : ∀ ln, isAssignment key ln = true → f ln = none)
    (hnew : f (assignment key value) = none) :
    lastOf f (setLine key value lines) = lastOf f lines := by
  induction lines with
  | nil => simp [setLine, lastOf, hnew]
  | cons ln rest ih =>
      rw [setLine]
      split_ifs with h
      · rw [lastOf, lastOf, hnew, hold ln h]
      · rw [lastOf, lastOf, ih]

theorem readSecret_eq (hkey : key.head? ≠ some '#') (file : Option Text) :
    readSecret key file =
      (lastWith (isAssignment key) (fileLines file)).map
        (fun ln => strip (after '=' ln)) := by
  have hcomm : isAssignment key =
      fun ln => ln.contains '=' && writerKey ln == key := by
    funext ln
    exact Bool.and_comm _ _
  rw [hcomm]
  exact sourceEnvFile_get? file hkey

/-- The value that is read back: that of the last assignment after the first,
or else the new one. -/
theorem readSecret_writeSecret (hkey : SecretKey key) (file : Option Text) :
    readSecret key (some (writeSecret key v.text file)) =
      some (((((fileLines file).filter (isAssignment key)).tail.getLast?).map
        (fun ln => strip (after '=' ln))).getD v.text) := by
  have hvalue : strip (after '=' (assignment key v.text)) = v.text := by
    have hafter : after '=' (assignment key v.text) = v.text :=
      after_append_cons hkey.noEquals _
    rw [hafter, v.stripped]
  rw [readSecret_eq hkey.noComment, fileLines_writeSecret hkey]
  unfold lastWith
  rw [filter_setLine hkey, List.getLast?_cons]
  cases ((fileLines file).filter (isAssignment key)).tail.getLast? with
  | none => exact congrArg some hvalue
  | some ln => rfl

/-- Other keys are read as before. -/
theorem readSecret_writeSecret_ne (hkey : SecretKey key) {k : Text}
    (hne : k ≠ key) (file : Option Text) :
    readSecret k (some (writeSecret key v.text file)) = readSecret k file := by
  have hother : ∀ ln, isAssignment key ln = true →
      valueIn sourceLine k ln = none := by
    intro ln hln
    simp only [isAssignment, Bool.and_eq_true, beq_iff_eq,
      List.contains_iff_mem] at hln
    have hvalue := valueIn_sourceLine hkey.noComment ln
    rw [if_pos ⟨hln.2, hln.1⟩] at hvalue
    unfold valueIn at hvalue ⊢
    cases hline : sourceLine ln with
    | none => rfl
    | some kv =>
        rw [hline] at hvalue
        dsimp only at hvalue ⊢
        split_ifs at hvalue with hk
        rw [if_neg]
        rintro rfl
        exact hne hk
  unfold readSecret sourceEnvFile
  rw [readWith_get?, readWith_get?, fileLines_writeSecret hkey,
    lastOf_setLine hother (hother _ (isAssignment_assignment hkey _))]

/-- Only a name that a line can assign is ever read. -/
theorem secretKey_of_sourceLine {ln k w : Text} (hln : OneLine ln)
    (h : sourceLine ln = some (k, w)) : SecretKey k := by
  unfold sourceLine at h
  dsimp only at h
  split_ifs at h with hcase
  obtain ⟨rfl, -⟩ := Prod.mk.inj (Option.some.inj h)
  have hsub : strip (before '=' (strip ln)) ⊆ before '=' (strip ln) :=
    strip_subset _
  have hone : OneLine (strip (before '=' (strip ln))) := by
    intro c hc
    exact hln c (strip_subset ln
      ((List.takeWhile_prefix _).subset (hsub hc)))
  refine ⟨fun hc => notMem_before _ _ (hsub hc), hone, strip_strip _, ?_⟩
  cases hs : strip ln with
  | nil => exact fun hc => by cases hc
  | cons c rest =>
      have hc : isBlank c = false :=
        not_of_head?_stripBy (t := ln) (congrArg List.head? hs)
      rw [hs] at hcase
      by_cases heq : c = '='
      · subst heq
        exact fun hc => by cases hc
      · have hbefore : before '=' (c :: rest) = c :: before '=' rest := by
          simp [before, heq]
        unfold strip
        rw [hbefore, head?_stripBy, List.dropWhile_cons_of_neg (by simp [hc])]
        exact hcase.2.1

/-- On a line without a boundary inside both views are the same. -/
theorem assignsKey_of_oneLine {l : Text} (hl : OneLine l) :
    assignsKey key l = isAssignment key l := by
  have hchomp := chomp_of_oneLine hl
  rcases splitlines_universalNewlines_tail (l := l) (by rwa [hchomp]) with
    h | ⟨-, hnil⟩
  · have hlines : fileLines (some l) = [l] := h.trans (by rw [hchomp])
    rw [assignsKey, hlines, List.any_cons, List.any_nil, Bool.or_false]
  · subst hnil
    simp [assignsKey, isAssignment, fileLines, universalNewlines, splitlines,
      splitlinesFrom]

/-- The lines cut at line feeds that do not assign the key are among the lines
cut at any boundary, when these have no boundary inside. -/
theorem filter_cut_sublist (key : Text) {ls : List Text} (tail : Text)
    (hls : ∀ l ∈ ls, assignsKey key l = false → OneLine l)
    (htail : assignsKey key tail = false → OneLine tail) :
    ((ls ++ if tail = [] then [] else [tail]).filter
        (fun l => !assignsKey key l)).Sublist
      ((fileLines (some (unlines ls ++ tail))).filter
        (fun ln => !isAssignment key ln)) := by
  induction ls with
  | nil =>
      by_cases hnil : tail = []
      · rw [if_pos hnil]
        exact List.nil_sublist _
      · rw [if_neg hnil, List.nil_append]
        cases hassigns : assignsKey key tail with
        | true => simp [hassigns]
        | false =>
            have hone := htail hassigns
            have hchomp := chomp_of_oneLine hone
            have hlines : fileLines (some tail) = [tail] := by
              rcases splitlines_universalNewlines_tail (l := tail)
                (by rwa [hchomp]) with h | ⟨-, h⟩
              · exact h.trans (by rw [hchomp])
              · exact absurd h hnil
            have hnot := hassigns
            rw [assignsKey_of_oneLine hone] at hnot
            simp [unlines, hlines, hassigns, hnot]
  | cons l ls ih =>
      have hrest := ih (fun x hx => hls x (List.mem_cons_of_mem _ hx))
      have hsplit : unlines (l :: ls) ++ tail =
          l ++ '\n' :: (unlines ls ++ tail) := by
        simp [unlines]
      rw [hsplit, List.cons_append]
      cases hassigns : assignsKey key l with
      | true =>
          rw [List.filter_cons_of_neg (by simp [hassigns])]
          exact hrest.trans
            ((splitlines_suffix l (unlines ls ++ tail)).sublist.filter _)
      | false =>
          have hone := hls l List.mem_cons_self hassigns
          have hchomp := chomp_of_oneLine hone
          have hlines : fileLines (some (l ++ '\n' :: (unlines ls ++ tail))) =
              l :: fileLines (some (unlines ls ++ tail)) := by
            have hline := splitlines_universalNewlines_line
              (l := l) (by rwa [hchomp]) (unlines ls ++ tail)
            rwa [hchomp] at hline
          have hnot := hassigns
          rw [assignsKey_of_oneLine hone] at hnot
          rw [hlines, List.filter_cons_of_pos (by simp [hassigns]),
            List.filter_cons_of_pos (by simp [hnot])]
          exact hrest.cons_cons l

theorem filter_grepLines_sublist {file : Option Text}
    (h : ∀ l ∈ grepLines file, assignsKey key l = false → OneLine l) :
    ((grepLines file).filter (fun l => !assignsKey key l)).Sublist
      ((fileLines file).filter (fun ln => !isAssignment key ln)) := by
  cases file with
  | none => exact List.nil_sublist _
  | some content =>
      have hcut := unlines_cutLines content
      have hall : grepLines (some content) = (cutLines content).1 ++
          if (cutLines content).2 = [] then [] else [(cutLines content).2] :=
        rfl
      rw [hall] at h ⊢
      have hlines := filter_cut_sublist key (cutLines content).2
        (fun l hl => h l (List.mem_append_left _ hl)) (by
          intro hassigns
          by_cases hnil : (cutLines content).2 = []
          · rw [hnil]
            exact fun c hc => by cases hc
          · exact h _ (List.mem_append_right _ (by simp [hnil])) hassigns)
      rwa [hcut] at hlines

end Lines

/-- A write of a secret does what it is to do on exactly these files and keys:
the key is a name that a line can assign, the last of several assignments gives
the new value already, and no line with a boundary other than a line feed
inside is left that does not assign the key. -/
theorem written_iff (key : Text) (v : Token) (file : Option Text) :
    Written key v file ↔
      SecretKey key ∧
      (∀ ln, ((fileLines file).filter (isAssignment key)).tail.getLast? =
        some ln → strip (after '=' ln) = v.text) ∧
      ∀ l ∈ grepLines file, assignsKey key l = false → OneLine l := by
  constructor
  · intro h
    have hkey : SecretKey key := by
      have hread := h.read
      unfold readSecret sourceEnvFile at hread
      rw [readWith_get?] at hread
      obtain ⟨ln, hln, hvalue⟩ := exists_of_lastOf hread
      unfold valueIn at hvalue
      cases hline : sourceLine ln with
      | none =>
          rw [hline] at hvalue
          cases hvalue
      | some kv =>
          rw [hline] at hvalue
          dsimp only at hvalue
          split_ifs at hvalue with hk
          have hvalid := secretKey_of_sourceLine
            (oneLine_of_mem_fileLines hln) hline
          rwa [hk] at hvalid
    refine ⟨hkey, ?_, ?_⟩
    · intro ln hln
      have hread := h.read
      rw [readSecret_writeSecret hkey, hln] at hread
      exact Option.some.inj hread
    · intro l hl hassigns
      have hmem : l ∈ (grepLines file).filter (fun l => !assignsKey key l) :=
        List.mem_filter.2 ⟨hl, by simp [hassigns]⟩
      have hnew := h.intact.subset hmem
      rw [grepLines_writeSecret hkey] at hnew
      exact oneLine_of_mem_setLine hkey hnew
  · rintro ⟨hkey, hlast, hone⟩
    refine ⟨?_, ?_, ?_⟩
    · rw [readSecret_writeSecret hkey]
      cases htail :
          ((fileLines file).filter (isAssignment key)).tail.getLast? with
      | none => rfl
      | some ln => exact congrArg some (hlast ln htail)
    · exact fun k hk => readSecret_writeSecret_ne hkey hk file
    · rw [grepLines_writeSecret hkey]
      exact (filter_grepLines_sublist hone).trans
        (filter_sublist_setLine _ _ _)

def camaraKey : Text :=
  "CAMARA_CLIENT_SECRET".toList

def newSecret : Token where
  text := "n3w_Secret-".toList
  urlSafe := by decide

/-- An older assignment is left behind the one that is replaced. -/
def assignedTwice : Text :=
  "CAMARA_CLIENT_SECRET=old\nCAMARA_CLIENT_SECRET=older\n".toList

theorem assignedTwice_reads_old :
    ¬ ∀ key v file, SecretKey key → Written key v file := by
  intro h
  have hkey : SecretKey camaraKey :=
    ⟨by decide, by decide, by decide, by decide⟩
  have hread := (h camaraKey newSecret (some assignedTwice) hkey).read
  revert hread
  decide

end SecretFile

end Iam
end Kelt
