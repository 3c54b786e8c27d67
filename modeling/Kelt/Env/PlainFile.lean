import Kelt.Env.RoundTrip

/-!
# Files on which all readers agree

A plain file consists of comments, empty lines and `KEY=value` lines without
quotes, each ended by a line feed. The runner, bash's `read` and the grep of a
save see the same assignments in it, and both programs write plain files.
-/

namespace Kelt
namespace Env

section PlainFile

/-- A value that both programs read as it stands. -/
structure Settable (v : Text) : Prop where
  plain : PlainValue v
  noLoneEquals : dropLoneEquals v = v

inductive PlainLine : Text → Prop
  | empty : PlainLine []
  | comment {ln : Text} (h : ln.head? = some '#') (hone : OneLine ln) :
      PlainLine ln
  | assign {k v : Text} (hk : EnvKey k) (hne : k ≠ []) (hv : Settable v) :
      PlainLine (assignment k v)

/-- A file and its lines. -/
structure PlainFile (file : Option Text) (lines : List Text) : Prop where
  text : file = some (unlines lines) ∨ file = none ∧ lines = []
  plain : ∀ ln ∈ lines, PlainLine ln

theorem PlainLine.oneLine {ln : Text} (h : PlainLine ln) : OneLine ln := by
  cases h with
  | empty => exact fun c hc => by cases hc
  | comment _ hone => exact hone
  | assign hk _ hv => exact oneLine_assignment hk hv.plain

theorem PlainLine.lineValue_comment {ln : Text} (h : ln.head? = some '#')
    (k : Text) : lineValue k ln = none := by
  unfold lineValue
  rw [parseLine_comment h]

/-- `read` gives a name the value that the runner reads. -/
theorem PlainLine.bashRead_eq {ln k : Text} (h : PlainLine ln)
    (hk : shellName k = true) :
    (if (bashRead ln).1 = k then some (bashRead ln).2 else none) =
      lineValue k ln := by
  cases h with
  | empty =>
      have hne : (bashRead []).1 ≠ k := by
        rintro rfl
        cases hk
      rw [if_neg hne]
      rfl
  | comment h _ =>
      have hne : (bashRead ln).1 ≠ k := by
        rintro rfl
        obtain ⟨rest, rfl⟩ := List.head?_eq_some_iff.1 h
        exact notMem_of_shellName hk (by decide)
          (List.mem_cons_self : '#' ∈ '#' :: before '=' rest)
      rw [if_neg hne, PlainLine.lineValue_comment h]
  | @assign k' v hkey _ hv =>
      have hread : bashRead (assignment k' v) = (k', v) := by
        unfold bashRead assignment
        rw [before_append_cons hkey.noEquals, after_append_cons hkey.noEquals,
          hv.noLoneEquals]
      rw [hread, lineValue_assignment hkey hv.plain]

theorem lastRead_eq_lastValue {lines : List Text}
    (h : ∀ ln ∈ lines, PlainLine ln) {k : Text} (hk : shellName k = true) :
    lastRead k lines = lastValue k lines := by
  induction lines with
  | nil => rfl
  | cons ln rest ih =>
      have hrest := ih (fun l hl => h l (List.mem_cons_of_mem _ hl))
      rw [lastRead, lastValue, hrest,
        (h ln List.mem_cons_self).bashRead_eq hk]

/-- The grep of a save drops every assignment of an owned key. -/
theorem PlainLine.lineValue_of_kept {owned : List Text} {ln k : Text}
    (h : PlainLine ln) (hkept : grepDrops owned ln = false)
    (hk : k ∈ owned) : lineValue k ln = none := by
  cases h with
  | empty => rfl
  | comment h _ => exact PlainLine.lineValue_comment h k
  | @assign k' v hkey _ hv =>
      rw [lineValue_assignment hkey hv.plain, if_neg]
      rintro rfl
      have hdrops : assignsOwned owned (assignment k' v) = true := by
        unfold assignsOwned assignment
        rw [before_append_cons hkey.noEquals]
        simpa using hk
      simp [grepDrops, hdrops] at hkept

namespace PlainFile

variable {file : Option Text} {lines : List Text}

theorem oneLine (h : PlainFile file lines) :
    ∀ ln ∈ lines, OneLine ln :=
  fun ln hln => (h.plain ln hln).oneLine

theorem fileLines_eq (h : PlainFile file lines) : fileLines file = lines := by
  rcases h.text with htext | ⟨hnone, hlines⟩
  · rw [htext, fileLines_unlines h.oneLine]
  · rw [hnone, hlines]
    rfl

theorem notMem (h : PlainFile file lines) : ∀ l ∈ lines, '\n' ∉ l :=
  fun l hl => (EnvLine.of_oneLine (h.oneLine l hl)).notMem

theorem bashLines_eq (h : PlainFile file lines) : bashLines file = lines := by
  rcases h.text with htext | ⟨hnone, hlines⟩
  · rw [htext]
    exact congrArg Prod.fst (cutLines_unlines h.notMem)
  · rw [hnone, hlines]
    rfl

theorem grepLines_eq (h : PlainFile file lines) : grepLines file = lines := by
  rcases h.text with htext | ⟨hnone, hlines⟩
  · rw [htext, grepLines_unlines h.notMem]
  · rw [hnone, hlines]
    rfl

theorem kept_eq (h : PlainFile file lines) (m : Managed) (vars : Vars) :
    m.kept vars file = lines.filter (fun ln => !grepDrops m.names ln) := by
  unfold Managed.kept
  rw [h.grepLines_eq, m.filterMap_body]

/-- What the CLI loads is what the runner reads. -/
theorem loadConfig_eq (h : PlainFile file lines) (secretsFile : Option Text)
    {k v : Text} (hk : k ∈ envNames)
    (hv : (readEnv file).get? k = some v) :
    loadConfig file secretsFile k = v := by
  rw [readEnv_get?, h.fileLines_eq] at hv
  have hname : shellName k = true := envManaged.named k hk
  rw [loadConfig_env file secretsFile hk, h.bashLines_eq,
    lastRead_eq_lastValue h.plain hname, hv, Option.getD_some]

/-- Without an assignment it is the default. -/
theorem loadConfig_settable (h : PlainFile file lines)
    (secretsFile : Option Text) {k : Text} (hk : k ∈ envNames) :
    Settable (loadConfig file secretsFile k) := by
  have hname : shellName k = true := envManaged.named k hk
  rw [loadConfig_env file secretsFile hk, h.bashLines_eq,
    lastRead_eq_lastValue h.plain hname]
  cases hv : lastValue k lines with
  | none =>
      obtain ⟨hone, hstrip, hquote, hlone⟩ :
          OneLine (defaultVars k) ∧
          strip (defaultVars k) = defaultVars k ∧
          (∀ c ∈ defaultVars k, c ≠ doubleQuote ∧ c ≠ singleQuote) ∧
          dropLoneEquals (defaultVars k) = defaultVars k :=
        forall_defaultVars (P := fun v => OneLine v ∧ strip v = v ∧
            (∀ c ∈ v, c ≠ doubleQuote ∧ c ≠ singleQuote) ∧
            dropLoneEquals v = v)
          (by decide) (by decide) k
      exact ⟨⟨hone, hstrip, hquote⟩, hlone⟩
  | some v =>
      obtain ⟨ln, hln, hvalue⟩ := exists_of_lastValue hv
      cases h.plain ln hln with
      | empty => cases hvalue
      | comment hcomment _ =>
          rw [PlainLine.lineValue_comment hcomment] at hvalue
          cases hvalue
      | assign hkey _ hset =>
          rw [lineValue_assignment hkey hset.plain] at hvalue
          split_ifs at hvalue
          rw [← Option.some.inj hvalue]
          exact hset

end PlainFile

/-- The keys of a write that all programs can read back. -/
structure Update extends EnvKeys where
  named : ∀ kv ∈ keys.items, kv.1 ≠ []
  settable : ∀ kv ∈ keys.items, dropLoneEquals kv.2 = kv.2

namespace Update

variable (u : Update)

/-- On a plain file reader and writer agree. -/
theorem linesAgree {lines : List Text} (h : ∀ ln ∈ lines, PlainLine ln) :
    LinesAgree u.toEnvKeys lines := by
  constructor
  · intro ln hln hk
    obtain ⟨v, hget⟩ := (u.mem_keys_iff _).1 hk
    have hmem := (u.keys.get?_eq_some_iff _ v).1 hget
    cases h ln hln with
    | empty => exact absurd rfl (u.named _ hmem)
    | comment hcomment _ =>
        obtain ⟨rest, rfl⟩ := List.head?_eq_some_iff.1 hcomment
        have hhead : (writerKey ('#' :: rest)).head? = some '#' := by
          unfold writerKey strip
          rw [head?_stripBy]
          rfl
        exact absurd hhead (u.envKey_of_get? hget).noComment
    | assign => simp [assignment]
  · intro k v hget hk ln hlast
    left
    have hsome := lineValue_isSome_of_lastLine hlast
    cases h ln (mem_of_lastLine hlast) with
    | empty => cases hsome
    | comment hcomment _ =>
        rw [PlainLine.lineValue_comment hcomment] at hsome
        cases hsome
    | assign hkey _ hset =>
        rw [lineValue_assignment hkey hset.plain] at hsome
        split_ifs at hsome with hk'
        · rw [writerKey_assignment hkey, hk']
        · cases hsome

theorem plainLine_assignment {k v : Text} (hget : u.get? k = some v) :
    PlainLine (assignment k v) := by
  have hmem := (u.keys.get?_eq_some_iff k v).1 hget
  exact .assign (u.envKey_of_get? hget) (u.named _ hmem)
    ⟨u.plainValue_of_get? hget, u.settable _ hmem⟩

theorem plainLine_of_mem_newLines {lines : List Text}
    (h : ∀ ln ∈ lines, PlainLine ln) :
    ∀ ln ∈ newLines u.keys lines, PlainLine ln := by
  intro ln hln
  rcases List.mem_append.1 hln with hln | hln
  · obtain ⟨l, hl, rfl⟩ := List.mem_map.1 hln
    unfold rewriteLine
    cases hget : u.keys.get? (writerKey l) with
    | none => exact h l hl
    | some v => exact u.plainLine_assignment hget
  · obtain ⟨k, v, hget, -, rfl⟩ := (u.mem_missingLines_iff _ _).1 hln
    exact u.plainLine_assignment hget

/-- The runner writes a plain file. -/
theorem plainFile_newText {file : Option Text} {lines : List Text}
    (h : PlainFile file lines) :
    PlainFile (some (newText u.keys file))
      (writtenLines u.keys (fileLines file)) := by
  refine ⟨Or.inl (by rw [u.newText_eq]), ?_⟩
  intro ln hln
  unfold writtenLines at hln
  split_ifs at hln
  · rw [List.mem_singleton.1 hln]
    exact .empty
  · rw [h.fileLines_eq] at hln
    exact u.plainLine_of_mem_newLines h.plain ln hln

end Update

/-- The CLI writes a plain file. -/
theorem plainFile_save {lines : List Text} {vars : Vars}
    (hvars : ∀ k ∈ envNames, Settable (vars k))
    (hkept : ∀ ln ∈ lines, PlainLine ln) :
    PlainFile (some (unlines (envManaged.body vars ++ lines)))
      (envManaged.body vars ++ lines) := by
  refine ⟨Or.inl rfl, ?_⟩
  intro ln hln
  rcases List.mem_append.1 hln with hln | hln
  · rcases List.mem_cons.1 hln with rfl | hln
    · exact .comment envManaged.comment envManaged.oneLine
    · obtain ⟨n, hn, rfl⟩ := List.mem_map.1 hln
      have hname : shellName n = true := envManaged.named n hn
      refine .assign (envKey_of_shellName hname) ?_ (hvars n hn)
      rintro rfl
      cases hname
  · exact hkept ln hln

end PlainFile

end Env
end Kelt
