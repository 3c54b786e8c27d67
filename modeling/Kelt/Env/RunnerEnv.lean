import Kelt.Lib.Dict
import Kelt.Lib.PyText

/-!
# The env file as the piece runner reads and writes it

`read_env` and `write_env_keys` of `ansible/tools/kelt-piece`, on the content of
the file. Reader and writer have different ideas of which line assigns a key:
the reader skips comments, takes an optional `export ` away and lets the last
assignment win, while the writer compares what stands before the first `=`.

`readLines_get?` reduces the reader to the last line that assigns a key.
-/

namespace Kelt
namespace Env

section RunnerEnv

def doubleQuote : Char := Char.ofNat 34

def singleQuote : Char := Char.ofNat 39

/-- `ln.strip()`, without a leading `export `. -/
def unexport (ln : Text) : Text :=
  if "export ".toList.isPrefixOf ln then lstrip (ln.drop 7) else ln

/-- `v.strip().strip('"').strip("'")`. -/
def unquote (v : Text) : Text :=
  stripBy (· == singleQuote) (stripBy (· == doubleQuote) (strip v))

/-- The key and value a line assigns for the reader. -/
def parseLine (ln : Text) : Option (Text × Text) :=
  let ln := unexport (strip ln)
  if ln ≠ [] ∧ ln.head? ≠ some '#' ∧ '=' ∈ ln then
    some (strip (before '=' ln), unquote (after '=' ln))
  else none

/-- The loop of `read_env` over the lines. -/
def readLines (lines : List Text) : Dict Text Text :=
  lines.foldl
    (fun out ln =>
      match parseLine ln with
      | some (k, v) => out.set k v
      | none => out)
    Dict.empty

/-- `path.read_text().splitlines()`; a missing file has no lines. -/
def fileLines (file : Option Text) : List Text :=
  match file with
  | some content => splitlines (universalNewlines content)
  | none => []

def readEnv (file : Option Text) : Dict Text Text :=
  readLines (fileLines file)

/-- Lines that were each ended by a line feed are read back. -/
theorem fileLines_unlines {lines : List Text}
    (h : ∀ ln ∈ lines, OneLine ln) :
    fileLines (some (unlines lines)) = lines := by
  have hread := universalNewlines_eq_self (return_notMem_unlines h)
  exact (congrArg splitlines hread).trans (splitlines_unlines h)

/-- The lines of a file, as text mode reads them, have no boundary inside. -/
theorem oneLine_of_mem_fileLines {file : Option Text} {ln : Text}
    (h : ln ∈ fileLines file) : OneLine ln := by
  cases file with
  | none => cases h
  | some content => exact oneLine_of_mem_splitlines h

/-- The key the writer sees in a line. -/
def writerKey (ln : Text) : Text :=
  strip (before '=' ln)

/-- `f"{k}={v}"`. -/
def assignment (k v : Text) : Text :=
  k ++ '=' :: v

def rewriteLine (keys : Dict Text Text) (ln : Text) : Text :=
  match keys.get? (writerKey ln) with
  | some v => assignment (writerKey ln) v
  | none => ln

/-- The keys that no line was rewritten for, in their own order. -/
def missingLines (keys : Dict Text Text) (lines : List Text) : List Text :=
  (keys.items.filter (fun kv => !(lines.map writerKey).contains kv.1)).map
    (fun kv => assignment kv.1 kv.2)

def newLines (keys : Dict Text Text) (lines : List Text) : List Text :=
  lines.map (rewriteLine keys) ++ missingLines keys lines

/-- The text `write_env_keys` means the file to have. -/
def newText (keys : Dict Text Text) (file : Option Text) : Text :=
  List.intercalate ['\n'] (newLines keys (fileLines file)) ++ ['\n']

/-- The file after `write_env_keys`: untouched when it reads like the text. -/
def writeEnvKeys (keys : Dict Text Text) (file : Option Text) : Option Text :=
  if file.any (fun content => universalNewlines content == newText keys file)
  then file
  else some (newText keys file)

/-- The value a line gives to a key. -/
def lineValue (k ln : Text) : Option Text :=
  match parseLine ln with
  | some (k', v) => if k' = k then some v else none
  | none => none

/-- The value of the last line that assigns a key. -/
def lastValue (k : Text) : List Text → Option Text
  | [] => none
  | ln :: rest => (lastValue k rest).or (lineValue k ln)

/-- The last line that assigns a key. -/
def lastLine (k : Text) : List Text → Option Text
  | [] => none
  | ln :: rest =>
      (lastLine k rest).or (if (lineValue k ln).isSome then some ln else none)

theorem foldl_readLines_get? (k : Text) (lines : List Text)
    (out : Dict Text Text) :
    (lines.foldl
      (fun out ln =>
        match parseLine ln with
        | some (k, v) => out.set k v
        | none => out)
      out).get? k = (lastValue k lines).or (out.get? k) := by
  induction lines generalizing out with
  | nil => rfl
  | cons ln rest ih =>
      rw [List.foldl_cons, ih, lastValue, lineValue]
      cases hparse : parseLine ln with
      | none => simp
      | some kv =>
          obtain ⟨k', v⟩ := kv
          by_cases hk : k' = k
          · simp [hk]
          · simp [hk, Dict.get?_set]

/-- The reader gives each key the value of the last line that assigns it. -/
theorem readLines_get? (k : Text) (lines : List Text) :
    (readLines lines).get? k = lastValue k lines := by
  unfold readLines
  rw [foldl_readLines_get?]
  simp

theorem readEnv_get? (file : Option Text) (k : Text) :
    (readEnv file).get? k = lastValue k (fileLines file) :=
  readLines_get? k (fileLines file)

theorem lastValue_append (k : Text) (lines lines' : List Text) :
    lastValue k (lines ++ lines') =
      (lastValue k lines').or (lastValue k lines) := by
  induction lines with
  | nil => simp [lastValue]
  | cons ln rest ih =>
      rw [List.cons_append, lastValue, ih, lastValue, Option.or_assoc]

theorem lastValue_eq_none_iff (k : Text) (lines : List Text) :
    lastValue k lines = none ↔ ∀ ln ∈ lines, lineValue k ln = none := by
  induction lines with
  | nil => simp [lastValue]
  | cons ln rest ih =>
      rw [lastValue, Option.or_eq_none_iff, ih, List.forall_mem_cons,
        and_comm]

theorem exists_of_lastValue {k v : Text} {lines : List Text}
    (h : lastValue k lines = some v) :
    ∃ ln ∈ lines, lineValue k ln = some v := by
  induction lines with
  | nil => cases h
  | cons ln rest ih =>
      rw [lastValue, Option.or_eq_some_iff] at h
      rcases h with h | ⟨-, h⟩
      · obtain ⟨l, hl, hv⟩ := ih h
        exact ⟨l, List.mem_cons_of_mem _ hl, hv⟩
      · exact ⟨ln, List.mem_cons_self, h⟩

theorem lineValue_isSome_of_lastLine {k l : Text} {lines : List Text}
    (h : lastLine k lines = some l) : (lineValue k l).isSome := by
  induction lines with
  | nil => cases h
  | cons ln rest ih =>
      rw [lastLine, Option.or_eq_some_iff] at h
      rcases h with h | ⟨-, h⟩
      · exact ih h
      · split_ifs at h with hsome
        rw [← Option.some.inj h]
        exact hsome

theorem exists_lastLine {k ln : Text} {lines : List Text}
    (hln : ln ∈ lines) (h : (lineValue k ln).isSome) :
    ∃ l, lastLine k lines = some l := by
  induction lines with
  | nil => cases hln
  | cons ln' rest ih =>
      rw [lastLine]
      rcases List.mem_cons.1 hln with rfl | hln
      · rw [if_pos h]
        cases lastLine k rest with
        | none => exact ⟨ln, rfl⟩
        | some l => exact ⟨l, rfl⟩
      · obtain ⟨l, hl⟩ := ih hln
        exact ⟨l, by rw [hl, Option.some_or]⟩

theorem mem_of_lastLine {k l : Text} {lines : List Text}
    (h : lastLine k lines = some l) : l ∈ lines := by
  induction lines with
  | nil => cases h
  | cons ln rest ih =>
      rw [lastLine, Option.or_eq_some_iff] at h
      rcases h with h | ⟨-, h⟩
      · exact List.mem_cons_of_mem _ (ih h)
      · split_ifs at h
        rw [← Option.some.inj h]
        exact List.mem_cons_self

/-- The last value is the value of the last line. -/
theorem lastValue_eq_bind (k : Text) (lines : List Text) :
    lastValue k lines = (lastLine k lines).bind (lineValue k) := by
  induction lines with
  | nil => rfl
  | cons ln rest ih =>
      rw [lastValue, lastLine, ih]
      cases hlast : lastLine k rest with
      | none => cases hv : lineValue k ln <;> simp [hv]
      | some l =>
          obtain ⟨v, hv⟩ := Option.isSome_iff_exists.1
            (lineValue_isSome_of_lastLine hlast)
          simp [hv]

end RunnerEnv

end Env
end Kelt
