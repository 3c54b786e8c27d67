import Kelt.Env.RoundTrip

/-!
# The four readers of an env file

`_source_env_file` and `_read_testbed_env` of the dashboard beside the runner's
`read_env` and the CLI's `load_config`. All let the last assignment of a key
win, but they take different lines for an assignment and trim the value
differently: only the runner looks through `export ` and quotes, the RAN page
and the CLI want the key at the start of the line and take the rest as it is,
and the CLI cuts a lone `=` off the end.

`readersAgree_iff` says on which texts this does not show.
-/

namespace Kelt
namespace Env

section Readers

/-- The assignment of a line for `_source_env_file`. -/
def sourceLine (ln : Text) : Option (Text × Text) :=
  let ln := strip ln
  if ln ≠ [] ∧ ln.head? ≠ some '#' ∧ '=' ∈ ln then
    some (strip (before '=' ln), strip (after '=' ln))
  else none

/-- The assignment of a line for `_read_testbed_env`. -/
def testbedLine (ln : Text) : Option (Text × Text) :=
  if '=' ∈ ln ∧ ln.head? ≠ some '#' then
    some (before '=' ln, after '=' ln)
  else none

/-- A dictionary from the lines that assign. -/
def readWith (assigns : Text → Option (Text × Text)) (lines : List Text) :
    Dict Text Text :=
  lines.foldl
    (fun out ln =>
      match assigns ln with
      | some (k, v) => out.set k v
      | none => out)
    Dict.empty

/-- `_source_env_file`. -/
def sourceEnvFile (file : Option Text) : Dict Text Text :=
  readWith sourceLine (fileLines file)

/-- `_read_testbed_env`. -/
def readTestbedEnv (file : Option Text) : Dict Text Text :=
  readWith testbedLine (fileLines file)

/-- The value a line gives to a key, for any reader. -/
def valueIn (assigns : Text → Option (Text × Text)) (k ln : Text) :
    Option Text :=
  match assigns ln with
  | some (k', v) => if k' = k then some v else none
  | none => none

/-- What the last line with a value has. -/
def lastOf (f : Text → Option Text) : List Text → Option Text
  | [] => none
  | ln :: rest => (lastOf f rest).or (f ln)

theorem foldl_readWith_get? (assigns : Text → Option (Text × Text))
    (k : Text) (lines : List Text) (out : Dict Text Text) :
    (lines.foldl
      (fun out ln =>
        match assigns ln with
        | some (k, v) => out.set k v
        | none => out)
      out).get? k = (lastOf (valueIn assigns k) lines).or (out.get? k) := by
  induction lines generalizing out with
  | nil => rfl
  | cons ln rest ih =>
      rw [List.foldl_cons, ih, lastOf, valueIn]
      cases hassigns : assigns ln with
      | none => simp
      | some kv =>
          obtain ⟨k', v⟩ := kv
          by_cases hk : k' = k
          · simp [hk]
          · simp [hk, Dict.get?_set]

/-- A reader gives each key the value of its last assignment. -/
theorem readWith_get? (assigns : Text → Option (Text × Text)) (k : Text)
    (lines : List Text) :
    (readWith assigns lines).get? k = lastOf (valueIn assigns k) lines := by
  have hfold := foldl_readWith_get? assigns k lines Dict.empty
  rwa [Dict.get?_empty, Option.or_none] at hfold

theorem exists_of_lastOf {f : Text → Option Text} {v : Text}
    {lines : List Text} (h : lastOf f lines = some v) :
    ∃ ln ∈ lines, f ln = some v := by
  induction lines with
  | nil => cases h
  | cons ln rest ih =>
      rw [lastOf, Option.or_eq_some_iff] at h
      rcases h with h | ⟨-, h⟩
      · obtain ⟨l, hl, hv⟩ := ih h
        exact ⟨l, List.mem_cons_of_mem _ hl, hv⟩
      · exact ⟨ln, List.mem_cons_self, h⟩

theorem strip_append_blanks {s : Text} (hs : ∀ c ∈ s, isBlank c = true)
    (t : Text) : strip (t ++ s) = strip t := by
  induction s generalizing t with
  | nil => rw [List.append_nil]
  | cons c s ih =>
      have hrest := ih (fun x hx => hs x (List.mem_cons_of_mem _ hx)) (t ++ [c])
      rw [List.append_assoc, List.singleton_append] at hrest
      rw [hrest, strip_append_blank (hs c List.mem_cons_self)]

theorem strip_rdropWhile (t : Text) :
    strip (t.rdropWhile isBlank) = strip t := by
  have hsplit : t.rdropWhile isBlank ++ t.rtakeWhile isBlank = t :=
    List.rdropWhile_append_rtakeWhile
  have hblank : ∀ c ∈ t.rtakeWhile isBlank, isBlank c = true :=
    fun c hc => List.mem_rtakeWhile_imp hc
  calc strip (t.rdropWhile isBlank)
      = strip (t.rdropWhile isBlank ++ t.rtakeWhile isBlank) :=
        (strip_append_blanks hblank _).symm
    _ = strip t := by rw [hsplit]

/-- `_source_env_file` finds a key by what stands before the first `=`, blanks
taken off, as `write_env_keys` does. -/
theorem valueIn_sourceLine {k : Text} (hk : k.head? ≠ some '#')
    (ln : Text) :
    valueIn sourceLine k ln =
      if '=' ∈ ln ∧ writerKey ln = k then some (strip (after '=' ln))
      else none := by
  by_cases heq : '=' ∈ ln
  · set b := before '=' ln with hb
    set a := after '=' ln with ha
    have hln : ln = b ++ '=' :: a := before_append_after heq
    have hnb : '=' ∉ b.dropWhile isBlank := fun h =>
      notMem_before '=' ln ((List.dropWhile_suffix _).subset h)
    have hstrip : strip ln =
        b.dropWhile isBlank ++ '=' :: a.rdropWhile isBlank := by
      conv_lhs => rw [hln]
      exact stripBy_append_cons isBlank_equals b a
    have hkey : strip (before '=' (strip ln)) = writerKey ln := by
      have hidem : strip (b.dropWhile isBlank) = strip b := by
        unfold strip stripBy
        rw [List.dropWhile_idempotent]
      rw [hstrip, before_append_cons hnb, hidem]
      rfl
    have hvalue : strip (after '=' (strip ln)) = strip a := by
      rw [hstrip, after_append_cons hnb, strip_rdropWhile]
    have hne : strip ln ≠ [] := by
      rw [hstrip]
      simp
    have hmem : '=' ∈ strip ln := by
      rw [hstrip]
      simp
    by_cases hcomment : (strip ln).head? = some '#'
    · have hwriter : (writerKey ln).head? = some '#' := by
        unfold writerKey strip
        rw [head?_stripBy]
        rw [hstrip] at hcomment
        cases hd : b.dropWhile isBlank with
        | nil =>
            rw [hd] at hcomment
            cases hcomment
        | cons c rest =>
            rw [hd] at hcomment
            exact hcomment
      have hother : writerKey ln ≠ k := by
        rintro rfl
        exact hk hwriter
      rw [if_neg (fun h => hother h.2)]
      unfold valueIn sourceLine
      simp only [hcomment, ne_eq, not_true_eq_false, false_and, and_false,
        if_false]
    · unfold valueIn sourceLine
      simp only [ne_eq, hne, not_false_eq_true, hcomment, hmem, and_self,
        if_true, hkey, hvalue, heq, true_and]
  · have hnot : '=' ∉ strip ln := fun h => heq (strip_subset ln h)
    unfold valueIn sourceLine
    simp only [hnot, heq, and_false, false_and, if_false]

/-- `_read_testbed_env` wants the key as the line begins. -/
theorem valueIn_testbedLine {k : Text} (hk : k.head? ≠ some '#')
    (ln : Text) :
    valueIn testbedLine k ln =
      if '=' ∈ ln ∧ before '=' ln = k then some (after '=' ln)
      else none := by
  unfold valueIn testbedLine
  by_cases heq : '=' ∈ ln
  · by_cases hcomment : ln.head? = some '#'
    · have hother : before '=' ln ≠ k := by
        rintro rfl
        obtain ⟨rest, rfl⟩ := List.head?_eq_some_iff.1 hcomment
        exact hk rfl
      simp [hcomment, hother]
    · simp [heq, hcomment]
  · simp [heq]

/-- The runner reads what the two others take for an assignment, and trims it
further. -/
theorem lineValue_of_writerKey_eq {k : Text} (hk : EnvKey k) {ln : Text}
    (heq : '=' ∈ ln) (hkey : writerKey ln = k) :
    lineValue k ln = some (unquote (after '=' ln)) := by
  subst hkey
  obtain ⟨v, hparse, hv⟩ := parseLine_of_writerKey hk heq
  have htrim : v = unquote (after '=' ln) := by
    rw [hv]
    unfold unquote
    rw [strip_rdropWhile]
  simp [lineValue, hparse, htrim]

/-- The readers of the two files. -/
inductive Reader where
  | runner
  | update
  | ranPage
  | cliEnv
  | cliSecrets

/-- A reader finds a value for a key in the text. The CLI finds one when it sets
the variable whatever it was before. -/
def Reader.Gives (file : Option Text) (k v : Text) : Reader → Prop
  | .runner => (readEnv file).get? k = some v
  | .update => (sourceEnvFile file).get? k = some v
  | .ranPage => (readTestbedEnv file).get? k = some v
  | .cliEnv =>
      ∀ vars, loadLines (envNames ++ [adminPassword]) vars (bashLines file) k =
        v
  | .cliSecrets =>
      ∀ vars, loadLines secretNames vars (bashLines file) k = v

/-- All give the same value for a key that they find. -/
def ReadersAgree (file : Option Text) : Prop :=
  ∀ k, EnvKey k → ∀ (r s : Reader) (v w : Text),
    r.Gives file k v → s.Gives file k w → v = w

/-- The last line of a kind. -/
def lastWith (p : Text → Bool) (lines : List Text) : Option Text :=
  (lines.filter p).getLast?

/-- `v` is what stands in the last line that each of the others takes for an
assignment of the key, where there is one. -/
structure SaidByAll (file : Option Text) (k v : Text) : Prop where
  padded : ∀ ln,
    lastWith (fun ln => ln.contains '=' && writerKey ln == k)
      (fileLines file) = some ln → strip (after '=' ln) = v
  plain : ∀ ln,
    lastWith (fun ln => ln.contains '=' && before '=' ln == k)
      (fileLines file) = some ln → after '=' ln = v
  shell : k ∈ envNames ++ secretNames → ∀ ln,
    lastWith (fun ln => before '=' ln == k) (bashLines file) = some ln →
      dropLoneEquals (after '=' ln) = v

theorem lastOf_eq_map (p : Text → Bool) (g : Text → Text)
    (lines : List Text) :
    lastOf (fun ln => if p ln then some (g ln) else none) lines =
      (lastWith p lines).map g := by
  unfold lastWith
  induction lines with
  | nil => rfl
  | cons ln rest ih =>
      rw [lastOf, ih]
      by_cases hp : p ln = true
      · rw [List.filter_cons_of_pos hp, List.getLast?_cons, if_pos hp]
        cases (rest.filter p).getLast? <;> rfl
      · rw [List.filter_cons_of_neg hp, if_neg hp, Option.or_none]

theorem sourceEnvFile_get? (file : Option Text) {k : Text}
    (hk : k.head? ≠ some '#') :
    (sourceEnvFile file).get? k =
      (lastWith (fun ln => ln.contains '=' && writerKey ln == k)
        (fileLines file)).map (fun ln => strip (after '=' ln)) := by
  have hline : valueIn sourceLine k = fun ln =>
      if ln.contains '=' && writerKey ln == k then some (strip (after '=' ln))
      else none := by
    funext ln
    simp [valueIn_sourceLine hk]
  unfold sourceEnvFile
  rw [readWith_get?, hline, lastOf_eq_map]

theorem readTestbedEnv_get? (file : Option Text) {k : Text}
    (hk : k.head? ≠ some '#') :
    (readTestbedEnv file).get? k =
      (lastWith (fun ln => ln.contains '=' && before '=' ln == k)
        (fileLines file)).map (after '=') := by
  have hline : valueIn testbedLine k = fun ln =>
      if ln.contains '=' && before '=' ln == k then some (after '=' ln)
      else none := by
    funext ln
    simp [valueIn_testbedLine hk]
  unfold readTestbedEnv
  rw [readWith_get?, hline, lastOf_eq_map]

theorem lastRead_eq_map (k : Text) (lines : List Text) :
    lastRead k lines =
      (lastWith (fun ln => before '=' ln == k) lines).map
        (fun ln => dropLoneEquals (after '=' ln)) := by
  have hlast : lastRead k lines =
      lastOf (fun ln => if before '=' ln == k then
        some (dropLoneEquals (after '=' ln)) else none) lines := by
    induction lines with
    | nil => rfl
    | cons ln rest ih =>
        rw [lastRead, lastOf, ih]
        by_cases hk : (bashRead ln).1 = k
        · have hkey : (before '=' ln == k) = true := beq_iff_eq.2 hk
          rw [if_pos hk, if_pos hkey]
          rfl
        · have hkey : ¬ (before '=' ln == k) = true :=
            fun h => hk (beq_iff_eq.1 h)
          rw [if_neg hk, if_neg hkey]
  rw [hlast, lastOf_eq_map]

/-- A loop over the lines gives a value to the keys of its list that begin a
line. -/
theorem loadLines_gives_iff {names : List Text}
    (hnamed : ∀ n ∈ names, shellName n = true) (lines : List Text)
    (k v : Text) :
    (∀ vars, loadLines names vars lines k = v) ↔
      k ∈ names ∧ lastRead k lines = some v := by
  constructor
  · intro h
    have hvalue : ∀ vars : Vars, vars k = v ∨
        (k ∈ names ∧ lastRead k lines = some v) := by
      intro vars
      have hv := h vars
      rw [loadLines_apply hnamed] at hv
      by_cases hk : k ∈ names
      · rw [if_pos hk] at hv
        cases hlast : lastRead k lines with
        | none =>
            rw [hlast] at hv
            exact Or.inl hv
        | some w =>
            rw [hlast] at hv
            exact Or.inr ⟨hk, congrArg some hv⟩
      · rw [if_neg hk] at hv
        exact Or.inl hv
    -- a variable that was longer than `v` before shows that a line set it
    rcases hvalue (fun _ => 'x' :: v) with hold | hset
    · exact absurd hold (List.cons_ne_self _ _)
    · exact hset
  · rintro ⟨hk, hlast⟩ vars
    rw [loadLines_apply hnamed, if_pos hk, hlast, Option.getD_some]

/-- What stands in the last lines is what each reader gives. -/
theorem SaidByAll.eq_of_gives {file : Option Text} {k v : Text}
    (hsaid : SaidByAll file k v) (hk : EnvKey k)
    (hlast : lastValue k (fileLines file) = some v) {r : Reader} {w : Text}
    (h : r.Gives file k w) : w = v := by
  cases r with
  | runner =>
      have hw : (readEnv file).get? k = some w := h
      rw [readEnv_get?, hlast] at hw
      exact (Option.some.inj hw).symm
  | update =>
      have hw : (sourceEnvFile file).get? k = some w := h
      rw [sourceEnvFile_get? file hk.noComment] at hw
      obtain ⟨ln, hln, rfl⟩ := Option.map_eq_some_iff.1 hw
      exact hsaid.padded ln hln
  | ranPage =>
      have hw : (readTestbedEnv file).get? k = some w := h
      rw [readTestbedEnv_get? file hk.noComment] at hw
      obtain ⟨ln, hln, rfl⟩ := Option.map_eq_some_iff.1 hw
      exact hsaid.plain ln hln
  | cliEnv =>
      obtain ⟨hmem, hw⟩ := (loadLines_gives_iff loadNames_named _ k w).1 h
      rw [lastRead_eq_map] at hw
      obtain ⟨ln, hln, rfl⟩ := Option.map_eq_some_iff.1 hw
      have hname : k ∈ envNames ++ secretNames := by
        rcases List.mem_append.1 hmem with hmem | hmem
        · exact List.mem_append_left _ hmem
        · rw [List.mem_singleton.1 hmem]
          exact List.mem_append_right _ (by decide)
      exact hsaid.shell hname ln hln
  | cliSecrets =>
      obtain ⟨hmem, hw⟩ := (loadLines_gives_iff secretNames_named _ k w).1 h
      rw [lastRead_eq_map] at hw
      obtain ⟨ln, hln, rfl⟩ := Option.map_eq_some_iff.1 hw
      exact hsaid.shell (List.mem_append_right _ hmem) ln hln

/-- A key that the runner does not find can only be one that bash finds. -/
theorem lastRead_of_gives {file : Option Text} {k : Text} (hk : EnvKey k)
    (hnone : lastValue k (fileLines file) = none) {r : Reader} {w : Text}
    (h : r.Gives file k w) : lastRead k (bashLines file) = some w := by
  have hno : ∀ ln ∈ fileLines file, '=' ∈ ln → writerKey ln ≠ k := by
    intro ln hln heq hkey
    have hvalue := (lastValue_eq_none_iff k _).1 hnone ln hln
    rw [lineValue_of_writerKey_eq hk heq hkey] at hvalue
    cases hvalue
  cases r with
  | runner =>
      have hw : (readEnv file).get? k = some w := h
      rw [readEnv_get?, hnone] at hw
      cases hw
  | update =>
      have hw : (sourceEnvFile file).get? k = some w := h
      rw [sourceEnvFile_get? file hk.noComment] at hw
      obtain ⟨ln, hln, -⟩ := Option.map_eq_some_iff.1 hw
      obtain ⟨hmem, hp⟩ := List.mem_filter.1 (List.mem_of_getLast? hln)
      simp only [Bool.and_eq_true, List.contains_iff_mem, beq_iff_eq] at hp
      exact absurd hp.2 (hno ln hmem hp.1)
  | ranPage =>
      have hw : (readTestbedEnv file).get? k = some w := h
      rw [readTestbedEnv_get? file hk.noComment] at hw
      obtain ⟨ln, hln, -⟩ := Option.map_eq_some_iff.1 hw
      obtain ⟨hmem, hp⟩ := List.mem_filter.1 (List.mem_of_getLast? hln)
      simp only [Bool.and_eq_true, List.contains_iff_mem, beq_iff_eq] at hp
      have hpadded : writerKey ln = k := by
        unfold writerKey
        rw [hp.2, hk.stripped]
      exact absurd hpadded (hno ln hmem hp.1)
  | cliEnv => exact ((loadLines_gives_iff loadNames_named _ k w).1 h).2
  | cliSecrets => exact ((loadLines_gives_iff secretNames_named _ k w).1 h).2

/-- The readers agree on exactly the texts in which, for every key, the last
lines that they take for its assignment say what the last of all says. -/
theorem readersAgree_iff (file : Option Text) :
    ReadersAgree file ↔
      ∀ k, EnvKey k → ∀ ln v, lastLine k (fileLines file) = some ln →
        lineValue k ln = some v → SaidByAll file k v := by
  have hlast : ∀ k ln v, lastLine k (fileLines file) = some ln →
      lineValue k ln = some v → lastValue k (fileLines file) = some v := by
    intro k ln v hln hv
    rw [lastValue_eq_bind, hln, Option.bind_some, hv]
  constructor
  · intro hagree k hk ln v hln hv
    have hrunner : Reader.runner.Gives file k v := by
      have hget := readEnv_get? file k
      rwa [hlast k ln v hln hv] at hget
    refine ⟨?_, ?_, ?_⟩
    · intro l hl
      have hupdate : Reader.update.Gives file k (strip (after '=' l)) := by
        have hget := sourceEnvFile_get? file hk.noComment
        rwa [hl] at hget
      exact hagree k hk _ _ _ _ hupdate hrunner
    · intro l hl
      have hran : Reader.ranPage.Gives file k (after '=' l) := by
        have hget := readTestbedEnv_get? file hk.noComment
        rwa [hl] at hget
      exact hagree k hk _ _ _ _ hran hrunner
    · intro hname l hl
      have hread := lastRead_eq_map k (bashLines file)
      rw [hl, Option.map_some] at hread
      rcases List.mem_append.1 hname with hname | hname
      · have hcli : Reader.cliEnv.Gives file k
            (dropLoneEquals (after '=' l)) :=
          (loadLines_gives_iff loadNames_named _ _ _).2
            ⟨List.mem_append_left _ hname, hread⟩
        exact hagree k hk _ _ _ _ hcli hrunner
      · have hcli : Reader.cliSecrets.Gives file k
            (dropLoneEquals (after '=' l)) :=
          (loadLines_gives_iff secretNames_named _ _ _).2 ⟨hname, hread⟩
        exact hagree k hk _ _ _ _ hcli hrunner
  · intro h k hk r s v w hr hs
    cases hline : lastLine k (fileLines file) with
    | none =>
        have hnone : lastValue k (fileLines file) = none := by
          rw [lastValue_eq_bind, hline, Option.bind_none]
        have hv := lastRead_of_gives hk hnone hr
        rw [lastRead_of_gives hk hnone hs] at hv
        exact (Option.some.inj hv).symm
    | some ln =>
        obtain ⟨u, hu⟩ := Option.isSome_iff_exists.1
          (lineValue_isSome_of_lastLine hline)
        have hsaid := h k hk ln u hline hu
        have hvalue := hlast k ln u hline hu
        rw [hsaid.eq_of_gives hk hvalue hr, hsaid.eq_of_gives hk hvalue hs]

/-- A quoted value. -/
def quotedMode : Text :=
  "DEPLOY_MODE=".toList ++
    doubleQuote :: "core_only".toList ++ [doubleQuote, '\n']

/-- The runner takes the quotes off and the dashboard keeps them. -/
theorem quotedMode_disagrees : ¬ ∀ file, ReadersAgree file := by
  intro h
  have hk : EnvKey "DEPLOY_MODE".toList := envKey_of_shellName (by decide)
  have hrunner : Reader.runner.Gives (some quotedMode) "DEPLOY_MODE".toList
      "core_only".toList := by
    change (readEnv (some quotedMode)).get? _ = _
    decide
  have hupdate : Reader.update.Gives (some quotedMode) "DEPLOY_MODE".toList
      (doubleQuote :: "core_only".toList ++ [doubleQuote]) := by
    change (sourceEnvFile (some quotedMode)).get? _ = _
    decide
  have heq := h _ _ hk _ _ _ _ hrunner hupdate
  revert heq
  decide

end Readers

end Env
end Kelt
