import Kelt.Env.RunnerEnv

/-!
# What `write_env_keys` leaves for `read_env`

The writer takes a line for an assignment of a key by what stands before its
first `=`, with or without a `=`; the reader wants the `=` and looks through
`export `. `writeConforms_iff` says on which files this difference does not
show: no line is a bare written key, and no `export` line has the last word on
a written key that also has a plain line.
-/

namespace Kelt
namespace Env

section WriteKeys

/-- A name that a `KEY=VALUE` line can assign. -/
structure EnvKey (k : Text) : Prop where
  noEquals : '=' ∉ k
  oneLine : OneLine k
  stripped : strip k = k
  noComment : k.head? ≠ some '#'
  notExport : k ≠ "export".toList ∧ ¬ "export ".toList <+: k

/-- A value that needs no quoting. -/
structure PlainValue (v : Text) : Prop where
  oneLine : OneLine v
  stripped : strip v = v
  noQuote : ∀ c ∈ v, c ≠ doubleQuote ∧ c ≠ singleQuote

/-- What a caller may hand to `write_env_keys`. -/
structure EnvKeys where
  keys : Dict Text Text
  envKey : ∀ kv ∈ keys.items, EnvKey kv.1
  plainValue : ∀ kv ∈ keys.items, PlainValue kv.2

namespace EnvKeys

variable (u : EnvKeys)

def get? (k : Text) : Option Text :=
  u.keys.get? k

theorem envKey_of_get? {k v : Text} (h : u.get? k = some v) : EnvKey k :=
  u.envKey _ ((u.keys.get?_eq_some_iff k v).1 h)

theorem plainValue_of_get? {k v : Text} (h : u.get? k = some v) :
    PlainValue v :=
  u.plainValue _ ((u.keys.get?_eq_some_iff k v).1 h)

end EnvKeys

theorem unquote_plain {v : Text} (hv : PlainValue v) : unquote v = v := by
  have hdouble : stripBy (· == doubleQuote) v = v :=
    stripBy_eq_self_of_notMem (fun c hc => by simpa using (hv.noQuote c hc).1)
  have hsingle : stripBy (· == singleQuote) v = v :=
    stripBy_eq_self_of_notMem (fun c hc => by simpa using (hv.noQuote c hc).2)
  unfold unquote
  rw [hv.stripped, hdouble, hsingle]

theorem unexport_of_not_prefix {ln : Text}
    (h : ¬ "export ".toList <+: ln) : unexport ln = ln := by
  unfold unexport
  rw [if_neg]
  rwa [List.isPrefixOf_iff_prefix]

theorem unexport_subset (ln : Text) : unexport ln ⊆ ln := by
  unfold unexport lstrip
  split_ifs
  · exact List.Subset.trans (List.dropWhile_suffix _).subset
      (List.drop_suffix 7 ln).subset
  · exact List.Subset.refl ln

theorem strip_subset (t : Text) : strip t ⊆ t :=
  List.Subset.trans (List.rdropWhile_prefix _ _).subset
    (List.dropWhile_suffix _).subset

/-- Without a `=` a line assigns nothing. -/
theorem parseLine_of_noEquals {ln : Text} (h : '=' ∉ ln) :
    parseLine ln = none := by
  have hnot : '=' ∉ unexport (strip ln) := fun hmem =>
    h (strip_subset ln (unexport_subset _ hmem))
  simp [parseLine, hnot]

theorem isBlank_equals : isBlank '=' = false := by
  decide

/-- A text whose stripped form is a key has no `export ` in front. -/
theorem EnvKey.not_export_prefix {b : Text} (hk : EnvKey (strip b)) :
    ¬ "export ".toList <+: b.dropWhile isBlank := by
  rintro ⟨rest, hrest⟩
  have hstrip : strip b =
      "expor".toList ++ 't' :: (' ' :: rest).rdropWhile isBlank := by
    have hb : b.dropWhile isBlank = "expor".toList ++ 't' :: ' ' :: rest :=
      hrest.symm
    unfold strip stripBy
    rw [hb, rdropWhile_append_cons (by decide)]
  cases htail : (' ' :: rest).rdropWhile isBlank with
  | nil =>
      rw [htail] at hstrip
      exact hk.notExport.1 hstrip
  | cons c tail =>
      have hpre : (' ' :: rest).rdropWhile isBlank <+: ' ' :: rest :=
        List.rdropWhile_prefix _ _
      rw [htail] at hpre
      rw [htail, (List.cons_prefix_cons.1 hpre).1] at hstrip
      exact hk.notExport.2 ⟨tail, hstrip.symm⟩

/-- A line whose text before the first `=` is a key assigns that key. -/
theorem parseLine_of_writerKey {ln : Text} (hk : EnvKey (writerKey ln))
    (heq : '=' ∈ ln) :
    ∃ v, parseLine ln = some (writerKey ln, v) ∧
      v = unquote ((after '=' ln).rdropWhile isBlank) := by
  set b := before '=' ln with hb
  set a := after '=' ln with ha
  have hln : ln = b ++ '=' :: a := before_append_after heq
  have hkb : writerKey ln = strip b := rfl
  have hnb : '=' ∉ b.dropWhile isBlank := fun h =>
    notMem_before '=' ln ((List.dropWhile_suffix _).subset h)
  have hstrip : strip ln =
      b.dropWhile isBlank ++ '=' :: a.rdropWhile isBlank := by
    conv_lhs => rw [hln]
    exact stripBy_append_cons isBlank_equals b a
  have hexport : unexport (strip ln) = strip ln := by
    apply unexport_of_not_prefix
    rw [hstrip]
    intro h
    have hpre := prefix_of_prefix_append_cons (by decide) h
    rw [hkb] at hk
    exact hk.not_export_prefix hpre
  have hhead : (strip ln).head? ≠ some '#' := by
    rw [hstrip, List.head?_append, ← head?_stripBy]
    have hcomment := hk.noComment
    rw [hkb] at hcomment
    cases hc : (strip b).head? with
    | none =>
        unfold strip at hc
        simp [hc]
    | some c =>
        unfold strip at hc hcomment
        rw [hc] at hcomment ⊢
        simpa using hcomment
  have hne : strip ln ≠ [] := by
    rw [hstrip]
    simp
  have hmem : '=' ∈ strip ln := by
    rw [hstrip]
    simp
  refine ⟨_, ?_, rfl⟩
  unfold parseLine
  simp only [hexport]
  rw [if_pos ⟨hne, hhead, hmem⟩, hstrip, before_append_cons hnb,
    after_append_cons hnb, hkb]
  unfold strip stripBy
  rw [List.dropWhile_idempotent]

theorem writerKey_assignment {k : Text} (hk : EnvKey k) (v : Text) :
    writerKey (assignment k v) = k := by
  unfold writerKey assignment
  rw [before_append_cons hk.noEquals, hk.stripped]

/-- What the writer writes for a key, the reader reads back. -/
theorem parseLine_assignment {k v : Text} (hk : EnvKey k)
    (hv : PlainValue v) : parseLine (assignment k v) = some (k, v) := by
  have hwriter := writerKey_assignment hk v
  have hk' : EnvKey (writerKey (assignment k v)) := by rwa [hwriter]
  have heq : '=' ∈ assignment k v := by simp [assignment]
  obtain ⟨v', hparse, hv'⟩ := parseLine_of_writerKey hk' heq
  have hafter : after '=' (assignment k v) = v :=
    after_append_cons hk.noEquals v
  rw [hafter, rdropWhile_of_stripBy_eq hv.stripped, unquote_plain hv] at hv'
  rw [hparse, hwriter, hv']

theorem oneLine_assignment {k v : Text} (hk : EnvKey k)
    (hv : PlainValue v) : OneLine (assignment k v) := by
  refine hk.oneLine.append ?_
  intro c hc
  rcases List.mem_cons.1 hc with rfl | hc
  · decide
  · exact hv.oneLine c hc

theorem lineValue_assignment {k v : Text} (hk : EnvKey k)
    (hv : PlainValue v) (k' : Text) :
    lineValue k' (assignment k v) = if k = k' then some v else none := by
  rw [lineValue, parseLine_assignment hk hv]

/-- A line assigns the key the writer sees, or is no assignment. -/
theorem lineValue_of_writerKey_ne {ln : Text}
    (hk : EnvKey (writerKey ln)) {k : Text} (hne : writerKey ln ≠ k) :
    lineValue k ln = none := by
  unfold lineValue
  by_cases heq : '=' ∈ ln
  · obtain ⟨v, hparse, -⟩ := parseLine_of_writerKey hk heq
    rw [hparse]
    simp [hne]
  · rw [parseLine_of_noEquals heq]

/-- The lines of the file after the write: the text of no lines is a line. -/
def writtenLines (keys : Dict Text Text) (lines : List Text) : List Text :=
  if newLines keys lines = [] then [[]] else newLines keys lines

namespace EnvKeys

variable (u : EnvKeys)

/-- How rewriting a line changes what it assigns. -/
theorem lineValue_rewriteLine (k ln : Text) :
    lineValue k (rewriteLine u.keys ln) =
      if writerKey ln = k then (u.get? k).or (lineValue k ln)
      else lineValue k ln := by
  unfold rewriteLine
  cases hget : u.keys.get? (writerKey ln) with
  | none =>
      have hor : writerKey ln = k → u.get? k = none := by
        rintro rfl
        exact hget
      split_ifs with hk
      · rw [hor hk, Option.none_or]
      · rfl
  | some v =>
      have hkey := u.envKey_of_get? hget
      rw [lineValue_assignment hkey (u.plainValue_of_get? hget)]
      split_ifs with hk
      · rw [← hk, EnvKeys.get?, hget, Option.some_or]
      · exact (lineValue_of_writerKey_ne hkey hk).symm

theorem writerKey_rewriteLine (ln : Text) :
    writerKey (rewriteLine u.keys ln) = writerKey ln := by
  unfold rewriteLine
  cases hget : u.keys.get? (writerKey ln) with
  | none => rfl
  | some v => exact writerKey_assignment (u.envKey_of_get? hget) v

theorem rewriteLine_assignment {k v : Text} (h : u.get? k = some v) :
    rewriteLine u.keys (assignment k v) = assignment k v := by
  have hwriter := writerKey_assignment (u.envKey_of_get? h) v
  have hget : u.keys.get? k = some v := h
  unfold rewriteLine
  rw [hwriter, hget]

/-- A second pass over a line finds nothing to do. -/
theorem rewriteLine_rewriteLine (ln : Text) :
    rewriteLine u.keys (rewriteLine u.keys ln) = rewriteLine u.keys ln := by
  cases hget : u.keys.get? (writerKey ln) with
  | none =>
      have hsame : rewriteLine u.keys ln = ln := by
        unfold rewriteLine
        rw [hget]
      rw [hsame, hsame]
  | some v =>
      have hnew : rewriteLine u.keys ln = assignment (writerKey ln) v := by
        unfold rewriteLine
        rw [hget]
      rw [hnew, u.rewriteLine_assignment hget]

theorem oneLine_rewriteLine {ln : Text} (h : OneLine ln) :
    OneLine (rewriteLine u.keys ln) := by
  unfold rewriteLine
  cases hget : u.keys.get? (writerKey ln) with
  | none => exact h
  | some v =>
      exact oneLine_assignment (u.envKey_of_get? hget)
        (u.plainValue_of_get? hget)

theorem mem_missingLines_iff (lines : List Text) (ln : Text) :
    ln ∈ missingLines u.keys lines ↔
      ∃ k v, u.get? k = some v ∧ k ∉ lines.map writerKey ∧
        ln = assignment k v := by
  unfold missingLines
  constructor
  · intro h
    obtain ⟨⟨k, v⟩, hkv, rfl⟩ := List.mem_map.1 h
    obtain ⟨hmem, hnot⟩ := List.mem_filter.1 hkv
    exact ⟨k, v, (u.keys.get?_eq_some_iff k v).2 hmem, by simpa using hnot,
      rfl⟩
  · rintro ⟨k, v, hget, hnot, rfl⟩
    have hmem := (u.keys.get?_eq_some_iff k v).1 hget
    exact List.mem_map.2
      ⟨(k, v), List.mem_filter.2 ⟨hmem, by simpa using hnot⟩, rfl⟩

theorem oneLine_of_mem_newLines {file : Option Text} {ln : Text}
    (h : ln ∈ newLines u.keys (fileLines file)) : OneLine ln := by
  rcases List.mem_append.1 h with h | h
  · obtain ⟨ln', hln', rfl⟩ := List.mem_map.1 h
    exact u.oneLine_rewriteLine (oneLine_of_mem_fileLines hln')
  · obtain ⟨k, v, hget, -, rfl⟩ := (u.mem_missingLines_iff _ _).1 h
    exact oneLine_assignment (u.envKey_of_get? hget)
      (u.plainValue_of_get? hget)

theorem newText_eq (file : Option Text) :
    newText u.keys file = unlines (writtenLines u.keys (fileLines file)) := by
  unfold newText writtenLines
  split_ifs with h
  · rw [h]
    rfl
  · exact intercalate_newline h

theorem oneLine_of_mem_writtenLines {file : Option Text} {ln : Text}
    (h : ln ∈ writtenLines u.keys (fileLines file)) : OneLine ln := by
  unfold writtenLines at h
  split_ifs at h with hnil
  · rw [List.mem_singleton.1 h]
    intro c hc
    cases hc
  · exact u.oneLine_of_mem_newLines h

theorem return_notMem_newText (file : Option Text) :
    '\r' ∉ newText u.keys file := by
  rw [u.newText_eq]
  exact return_notMem_unlines (fun _ h => u.oneLine_of_mem_writtenLines h)

theorem fileLines_newText (file : Option Text) :
    fileLines (some (newText u.keys file)) =
      writtenLines u.keys (fileLines file) := by
  rw [u.newText_eq,
    fileLines_unlines (fun _ h => u.oneLine_of_mem_writtenLines h)]

/-- The file always has the lines of the new text afterwards. -/
theorem fileLines_writeEnvKeys (file : Option Text) :
    fileLines (writeEnvKeys u.keys file) =
      writtenLines u.keys (fileLines file) := by
  rw [← u.fileLines_newText]
  unfold writeEnvKeys
  split_ifs with hsame
  · cases file with
    | none => cases hsame
    | some content =>
        have htext : universalNewlines content =
            newText u.keys (some content) := by
          simpa using hsame
        have hread := universalNewlines_eq_self
          (u.return_notMem_newText (some content))
        exact congrArg splitlines (htext.trans hread.symm)
  · rfl

theorem readEnv_writeEnvKeys_get? (file : Option Text) (k : Text) :
    (readEnv (writeEnvKeys u.keys file)).get? k =
      lastValue k (newLines u.keys (fileLines file)) := by
  unfold readEnv
  rw [readLines_get?, u.fileLines_writeEnvKeys]
  unfold writtenLines
  split_ifs with hnil
  · rw [hnil]
    rfl
  · rfl

/-- The appended lines assign exactly the keys no line was found for. -/
theorem lastValue_missingLines (lines : List Text) (k : Text) :
    lastValue k (missingLines u.keys lines) =
      if k ∈ lines.map writerKey then none else u.get? k := by
  have hvalue : ∀ ln ∈ missingLines u.keys lines, ∀ w,
      lineValue k ln = some w → u.get? k = some w := by
    intro ln hln w hw
    obtain ⟨k', v, hget, -, rfl⟩ := (u.mem_missingLines_iff _ _).1 hln
    rw [lineValue_assignment (u.envKey_of_get? hget)
      (u.plainValue_of_get? hget)] at hw
    split_ifs at hw with hk
    rw [← hk, hget, hw]
  have hnone : lastValue k (missingLines u.keys lines) = none ↔
      k ∈ lines.map writerKey ∨ u.get? k = none := by
    rw [lastValue_eq_none_iff]
    constructor
    · intro h
      by_contra hcon
      rw [not_or] at hcon
      obtain ⟨hnot, hsome⟩ := hcon
      obtain ⟨v, hv⟩ := Option.ne_none_iff_exists'.1 hsome
      have hmem : assignment k v ∈ missingLines u.keys lines :=
        (u.mem_missingLines_iff _ _).2 ⟨k, v, hv, hnot, rfl⟩
      have hline := h _ hmem
      rw [lineValue_assignment (u.envKey_of_get? hv)
        (u.plainValue_of_get? hv), if_pos rfl] at hline
      cases hline
    · intro h ln hln
      obtain ⟨k', v, hget, hnot, rfl⟩ := (u.mem_missingLines_iff _ _).1 hln
      rw [lineValue_assignment (u.envKey_of_get? hget)
        (u.plainValue_of_get? hget), if_neg]
      rintro rfl
      rcases h with h | h
      · exact hnot h
      · rw [hget] at h
        cases h
  cases hlast : lastValue k (missingLines u.keys lines) with
  | none =>
      rcases hnone.1 hlast with h | h
      · rw [if_pos h]
      · rw [h, ite_self]
  | some w =>
      have hne : ¬ (k ∈ lines.map writerKey ∨ u.get? k = none) := by
        rw [← hnone, hlast]
        exact Option.some_ne_none w
      rw [not_or] at hne
      obtain ⟨ln, hln, hw⟩ := exists_of_lastValue hlast
      rw [if_neg hne.1, hvalue ln hln w hw]

/-- Without a rewritten line the old lines read as before. -/
theorem lastValue_map_rewriteLine_of_notMem {lines : List Text} {k : Text}
    (h : k ∈ lines.map writerKey → u.get? k = none) :
    lastValue k (lines.map (rewriteLine u.keys)) = lastValue k lines := by
  induction lines with
  | nil => rfl
  | cons ln rest ih =>
      have hrest : k ∈ rest.map writerKey → u.get? k = none :=
        fun hmem => h (List.mem_cons_of_mem _ hmem)
      rw [List.map_cons, lastValue, ih hrest, u.lineValue_rewriteLine,
        lastValue]
      split_ifs with hk
      · have hget := h (by rw [List.map_cons, hk]; exact List.mem_cons_self)
        rw [hget, Option.none_or]
      · rfl

/-- The last line of a written key decides: the writer has set it when it is
plain, and has left it as it was otherwise. -/
theorem lastValue_map_rewriteLine {lines : List Text} {k v : Text}
    (hget : u.get? k = some v)
    (hbare : ∀ ln ∈ lines, writerKey ln = k → '=' ∈ ln) :
    lastValue k (lines.map (rewriteLine u.keys)) =
      (lastLine k lines).bind
        (fun ln => if writerKey ln = k then some v else lineValue k ln) := by
  induction lines with
  | nil => rfl
  | cons ln rest ih =>
      have hrest := ih (fun l hl => hbare l (List.mem_cons_of_mem _ hl))
      rw [List.map_cons, lastValue, hrest, u.lineValue_rewriteLine, lastLine,
        hget, Option.some_or]
      cases hlast : lastLine k rest with
      | some l =>
          obtain ⟨w, hw⟩ := Option.isSome_iff_exists.1
            (lineValue_isSome_of_lastLine hlast)
          simp only [Option.some_or, Option.bind_some, hw]
          split_ifs <;> rfl
      | none =>
          simp only [Option.none_or, Option.bind_none]
          by_cases hk : writerKey ln = k
          · have heq := hbare ln List.mem_cons_self hk
            have hkey : EnvKey (writerKey ln) := by
              rw [hk]
              exact u.envKey_of_get? hget
            obtain ⟨w, hparse, -⟩ := parseLine_of_writerKey hkey heq
            have hsome : (lineValue k ln).isSome := by
              simp [lineValue, hparse, hk]
            simp [hsome, hk]
          · cases hw : lineValue k ln with
            | none => simp [hk]
            | some w => simp [hk, hw]

end EnvKeys

/-- The mapping has changed in the written keys only, the other lines are all
there, and there is nothing left to write. -/
structure WriteConforms (u : EnvKeys) (file : Option Text) : Prop where
  reads : ∀ k, (readEnv (writeEnvKeys u.keys file)).get? k =
    (u.get? k).or ((readEnv file).get? k)
  kept :
    ((fileLines file).filter
      (fun ln => !(u.keys.keys.any (fun k => (lineValue k ln).isSome)))).Sublist
      (fileLines (writeEnvKeys u.keys file))
  again : writeEnvKeys u.keys (writeEnvKeys u.keys file) =
    writeEnvKeys u.keys file

/-- Reader and writer agree on the lines of the written keys. -/
structure LinesAgree (u : EnvKeys) (lines : List Text) : Prop where
  noBareKey : ∀ ln ∈ lines, writerKey ln ∈ u.keys.keys → '=' ∈ ln
  plainLast : ∀ k v, u.get? k = some v → k ∈ lines.map writerKey →
    ∀ ln, lastLine k lines = some ln →
      writerKey ln = k ∨ lineValue k ln = some v

namespace EnvKeys

variable (u : EnvKeys)

theorem mem_keys_iff (k : Text) :
    k ∈ u.keys.keys ↔ ∃ v, u.get? k = some v := by
  have hnone := u.keys.get?_eq_none_iff k
  rw [← Option.isSome_iff_exists, Option.isSome_iff_ne_none, ne_eq]
  unfold get?
  rw [hnone, not_not]

theorem lineValue_isSome_of_writerKey {k v ln : Text}
    (hget : u.get? k = some v) (hk : writerKey ln = k) (heq : '=' ∈ ln) :
    (lineValue k ln).isSome := by
  have hkey : EnvKey (writerKey ln) := by
    rw [hk]
    exact u.envKey_of_get? hget
  obtain ⟨w, hparse, -⟩ := parseLine_of_writerKey hkey heq
  simp [lineValue, hparse, hk]

theorem lastValue_newLines (file : Option Text) (k : Text) :
    lastValue k (newLines u.keys (fileLines file)) =
      (if k ∈ (fileLines file).map writerKey then none else u.get? k).or
        (lastValue k ((fileLines file).map (rewriteLine u.keys))) := by
  unfold newLines
  rw [lastValue_append, u.lastValue_missingLines]

/-- A bare written key is lost: every new line with a written key in front of
its first `=` has that `=`. -/
theorem equals_mem_of_mem_newLines {lines : List Text} {ln : Text}
    (hln : ln ∈ newLines u.keys lines) (hk : writerKey ln ∈ u.keys.keys) :
    '=' ∈ ln := by
  rcases List.mem_append.1 hln with h | h
  · obtain ⟨ln', -, rfl⟩ := List.mem_map.1 h
    rw [u.writerKey_rewriteLine, u.mem_keys_iff] at hk
    obtain ⟨v, hget⟩ := hk
    have hget' : u.keys.get? (writerKey ln') = some v := hget
    simp [rewriteLine, hget', assignment]
  · obtain ⟨k, v, -, -, rfl⟩ := (u.mem_missingLines_iff _ _).1 h
    simp [assignment]

theorem mem_newLines_of_mem_writtenLines {lines : List Text} {ln : Text}
    (hlines : lines ≠ []) (h : ln ∈ writtenLines u.keys lines) :
    ln ∈ newLines u.keys lines := by
  unfold writtenLines at h
  rwa [if_neg] at h
  unfold newLines
  simp [hlines]

/-- The lines that assign no written key are left where they are. -/
theorem kept_sublist {lines : List Text}
    (hbare : ∀ ln ∈ lines, writerKey ln ∈ u.keys.keys → '=' ∈ ln) :
    (lines.filter
      (fun ln => !(u.keys.keys.any (fun k => (lineValue k ln).isSome)))).Sublist
      (lines.map (rewriteLine u.keys)) := by
  induction lines with
  | nil => exact List.Sublist.refl _
  | cons ln rest ih =>
      have hrest := ih (fun l hl => hbare l (List.mem_cons_of_mem _ hl))
      rw [List.map_cons, List.filter_cons]
      split_ifs with hassigns
      · have hsame : rewriteLine u.keys ln = ln := by
          unfold rewriteLine
          cases hget : u.keys.get? (writerKey ln) with
          | none => rfl
          | some v =>
              have hmem := (u.mem_keys_iff _).2 ⟨v, hget⟩
              have hsome := u.lineValue_isSome_of_writerKey hget rfl
                (hbare ln List.mem_cons_self hmem)
              simp only [Bool.not_eq_true', List.any_eq_false] at hassigns
              exact absurd hsome (hassigns _ hmem)
        rw [hsame]
        exact hrest.cons_cons ln
      · exact hrest.cons _

theorem rewriteLine_of_mem_missingLines {lines : List Text} {ln : Text}
    (h : ln ∈ missingLines u.keys lines) : rewriteLine u.keys ln = ln := by
  obtain ⟨k, v, hget, -, rfl⟩ := (u.mem_missingLines_iff _ _).1 h
  exact u.rewriteLine_assignment hget

/-- After one write there is nothing to rewrite and no key to append. -/
theorem newLines_newLines (lines : List Text) :
    newLines u.keys (newLines u.keys lines) = newLines u.keys lines := by
  have hmap : (newLines u.keys lines).map (rewriteLine u.keys) =
      newLines u.keys lines := by
    conv_rhs => rw [← List.map_id (newLines u.keys lines)]
    apply List.map_congr_left
    intro ln hln
    rcases List.mem_append.1 hln with h | h
    · obtain ⟨ln', -, rfl⟩ := List.mem_map.1 h
      exact u.rewriteLine_rewriteLine ln'
    · exact u.rewriteLine_of_mem_missingLines h
  have hmissing : missingLines u.keys (newLines u.keys lines) = [] := by
    apply List.eq_nil_iff_forall_not_mem.2
    intro ln hln
    obtain ⟨k, v, hget, hnot, -⟩ := (u.mem_missingLines_iff _ _).1 hln
    apply hnot
    by_cases hk : k ∈ lines.map writerKey
    · obtain ⟨ln', hln', rfl⟩ := List.mem_map.1 hk
      refine List.mem_map.2 ⟨rewriteLine u.keys ln', ?_,
        u.writerKey_rewriteLine ln'⟩
      exact List.mem_append_left _ (List.mem_map_of_mem hln')
    · refine List.mem_map.2 ⟨assignment k v, ?_,
        writerKey_assignment (u.envKey_of_get? hget) v⟩
      apply List.mem_append_right
      exact (u.mem_missingLines_iff _ _).2 ⟨k, v, hget, hk, rfl⟩
  calc newLines u.keys (newLines u.keys lines)
      = (newLines u.keys lines).map (rewriteLine u.keys) ++
          missingLines u.keys (newLines u.keys lines) := rfl
    _ = newLines u.keys lines := by rw [hmap, hmissing, List.append_nil]

theorem writtenLines_writtenLines (lines : List Text) :
    writtenLines u.keys (writtenLines u.keys lines) =
      writtenLines u.keys lines := by
  by_cases hnil : newLines u.keys lines = []
  · have hlines : lines = [] := by
      simpa using (List.append_eq_nil_iff.1 hnil).1
    have hitems : u.keys.items = [] := by
      have hmissing := (List.append_eq_nil_iff.1 hnil).2
      simpa [missingLines, hlines] using hmissing
    simp [writtenLines, newLines, missingLines, rewriteLine, Dict.get?,
      Dict.getItem, hlines, hitems]
  · have hsame : writtenLines u.keys lines = newLines u.keys lines :=
      if_neg hnil
    rw [hsame]
    unfold writtenLines
    rw [u.newLines_newLines, if_neg hnil]

/-- Writing the same keys again changes nothing, on any file. -/
theorem writeEnvKeys_writeEnvKeys (file : Option Text) :
    writeEnvKeys u.keys (writeEnvKeys u.keys file) =
      writeEnvKeys u.keys file := by
  by_cases hsame : file.any
      (fun content => universalNewlines content == newText u.keys file)
  · have hfile : writeEnvKeys u.keys file = file := if_pos hsame
    rw [hfile, hfile]
  · have hfile : writeEnvKeys u.keys file = some (newText u.keys file) :=
      if_neg hsame
    have htext : newText u.keys (some (newText u.keys file)) =
        newText u.keys file := by
      rw [u.newText_eq, u.fileLines_newText, u.writtenLines_writtenLines,
        ← u.newText_eq]
    rw [hfile]
    apply if_pos
    simp [universalNewlines_eq_self (u.return_notMem_newText file), htext]

end EnvKeys

namespace EnvKeys

variable (u : EnvKeys)

/-- On lines where they agree, the mapping changes in the written keys only. -/
theorem reads_of_agree {file : Option Text}
    (h : LinesAgree u (fileLines file)) (k : Text) :
    (readEnv (writeEnvKeys u.keys file)).get? k =
      (u.get? k).or ((readEnv file).get? k) := by
  rw [u.readEnv_writeEnvKeys_get?, u.lastValue_newLines, readEnv_get?]
  cases hget : u.get? k with
  | none =>
      rw [u.lastValue_map_rewriteLine_of_notMem (fun _ => hget), ite_self]
  | some v =>
      rw [Option.some_or]
      by_cases hk : k ∈ (fileLines file).map writerKey
      · have hbare : ∀ ln ∈ fileLines file, writerKey ln = k → '=' ∈ ln :=
          fun l hl hlk =>
            h.noBareKey l hl (hlk ▸ (u.mem_keys_iff k).2 ⟨v, hget⟩)
        obtain ⟨ln, hln, hlk⟩ := List.mem_map.1 hk
        obtain ⟨l, hlast⟩ := exists_lastLine hln
          (u.lineValue_isSome_of_writerKey hget hlk (hbare ln hln hlk))
        rw [if_pos hk, Option.none_or,
          u.lastValue_map_rewriteLine hget hbare, hlast, Option.bind_some]
        split_ifs with hplain
        · rfl
        · exact (h.plainLast k v hget hk l hlast).resolve_left hplain
      · rw [if_neg hk, Option.some_or]

/-- No line without an `=` is taken for a written key. -/
theorem noBareKey_of_kept {file : Option Text}
    (h : ((fileLines file).filter
      (fun ln =>
        !(u.keys.keys.any (fun k => (lineValue k ln).isSome)))).Sublist
      (fileLines (writeEnvKeys u.keys file))) :
    ∀ ln ∈ fileLines file, writerKey ln ∈ u.keys.keys → '=' ∈ ln := by
  intro ln hln hk
  by_contra heq
  have hfilter : ln ∈ (fileLines file).filter
      (fun ln =>
        !(u.keys.keys.any (fun k => (lineValue k ln).isSome))) := by
    refine List.mem_filter.2 ⟨hln, ?_⟩
    simp [lineValue, parseLine_of_noEquals heq]
  have hafter := h.subset hfilter
  rw [u.fileLines_writeEnvKeys] at hafter
  have hnew := u.mem_newLines_of_mem_writtenLines
    (List.ne_nil_of_mem hln) hafter
  exact heq (u.equals_mem_of_mem_newLines hnew hk)

theorem kept_of_agree {file : Option Text}
    (h : LinesAgree u (fileLines file)) :
    ((fileLines file).filter
      (fun ln =>
        !(u.keys.keys.any (fun k => (lineValue k ln).isSome)))).Sublist
      (fileLines (writeEnvKeys u.keys file)) := by
  have hkept := u.kept_sublist h.noBareKey
  have hnew : (newLines u.keys (fileLines file)).Sublist
      (writtenLines u.keys (fileLines file)) := by
    unfold writtenLines
    split_ifs with hnil
    · rw [hnil]
      exact List.nil_sublist _
    · exact List.Sublist.refl _
  rw [u.fileLines_writeEnvKeys]
  exact (hkept.trans (List.sublist_append_left _ _)).trans hnew

end EnvKeys

/-- `KEY=v` over a file that ends with an `export` line of the key. -/
def overExport : EnvKeys where
  keys := Dict.single "KEY".toList "v".toList
  envKey := by
    intro kv hkv
    rw [List.mem_singleton.1 hkv]
    exact ⟨by decide, by decide, by decide, by decide, by decide⟩
  plainValue := by
    intro kv hkv
    rw [List.mem_singleton.1 hkv]
    exact ⟨by decide, by decide, by decide⟩

end WriteKeys

end Env
end Kelt
