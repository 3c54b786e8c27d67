import Kelt.Env.Cli

/-!
# Loading and saving without a change

The CLI loads both config files and saves them again. What the runner then
reads is worked out line by line (`lastValue_save`), and `roundTrip_iff` says on
which texts it is what the runner read before.
-/

namespace Kelt
namespace Env

section RoundTrip

/-- A line that is one for every reader; a carriage return may end it. -/
def EnvLine (l : Text) : Prop :=
  OneLine (chomp l)

/-- The text of a config file, in lines. -/
structure ConfigText where
  text : Text
  lines : ∀ l ∈ (cutLines text).1, EnvLine l
  tail : EnvLine (cutLines text).2
  noNul : Char.ofNat 0 ∉ text

/-- All lines of a text, the last one ended by a line feed or not. -/
def allLines (t : Text) : List Text :=
  (cutLines t).1 ++ [(cutLines t).2]

theorem chomp_of_oneLine {l : Text} (h : OneLine l) : chomp l = l := by
  unfold chomp
  rw [if_neg]
  intro hr
  exact h.ne_return (List.mem_of_mem_getLast? hr) rfl

theorem EnvLine.of_oneLine {l : Text} (h : OneLine l) : EnvLine l := by
  unfold EnvLine
  rwa [chomp_of_oneLine h]

theorem EnvLine.notMem {l : Text} (h : EnvLine l) : '\n' ∉ l := by
  intro hmem
  unfold EnvLine chomp at h
  split_ifs at h with hr
  · obtain ⟨s, rfl⟩ := List.getLast?_eq_some_iff.1 hr
    rw [List.dropLast_concat] at h
    rcases List.mem_append.1 hmem with hmem | hmem
    · exact absurd (h _ hmem) (by decide)
    · exact absurd hmem (by decide)
  · exact absurd (h _ hmem) (by decide)

theorem chomp_append {s t : Text} (ht : t ≠ []) :
    chomp (s ++ t) = s ++ chomp t := by
  unfold chomp
  rw [List.getLast?_append_of_ne_nil s ht]
  split_ifs
  · rw [List.dropLast_append_of_ne_nil ht]
  · rfl

theorem EnvLine.append {s t : Text} (hs : OneLine s) (ht : EnvLine t) :
    EnvLine (s ++ t) := by
  by_cases hnil : t = []
  · rw [hnil, List.append_nil]
    exact EnvLine.of_oneLine hs
  · unfold EnvLine
    rw [chomp_append hnil]
    exact hs.append ht

theorem EnvLine.suffix {s t : Text} (h : EnvLine (s ++ t)) : EnvLine t := by
  by_cases hnil : t = []
  · rw [hnil]
    exact EnvLine.of_oneLine (fun c hc => by cases hc)
  · unfold EnvLine at h
    rw [chomp_append hnil] at h
    exact fun c hc => h c (List.mem_append_right s hc)

/-- The runner does not see the carriage return at the end of a line. -/
theorem lineValue_chomp (k l : Text) :
    lineValue k (chomp l) = lineValue k l := by
  have hstrip : strip (chomp l) = strip l := by
    unfold chomp
    split_ifs with hr
    · obtain ⟨s, rfl⟩ := List.getLast?_eq_some_iff.1 hr
      rw [List.dropLast_concat, strip_append_blank (by decide)]
    · rfl
  unfold lineValue parseLine
  rw [hstrip]

/-- The runner's reading of a text, from lines that all readers see. -/
theorem readEnv_unlines {lines : List Text} {tail : Text}
    (hlines : ∀ l ∈ lines, EnvLine l) (htail : EnvLine tail) (k : Text) :
    (readEnv (some (unlines lines ++ tail))).get? k =
      lastValue k (lines ++ [tail]) := by
  rw [readEnv_get?]
  unfold fileLines
  simp only
  induction lines with
  | nil =>
      rw [List.nil_append]
      change lastValue k (splitlines (universalNewlines tail)) = _
      rcases splitlines_universalNewlines_tail htail with h | ⟨h, hnil⟩
      · rw [h, lastValue, lastValue, lineValue_chomp]
        rfl
      · rw [h, hnil]
        rfl
  | cons l rest ih =>
      have hsplit : unlines (l :: rest) ++ tail =
          l ++ '\n' :: (unlines rest ++ tail) := by
        simp [unlines]
      have hl := hlines l List.mem_cons_self
      rw [hsplit, splitlines_universalNewlines_line hl, lastValue,
        ih (fun x hx => hlines x (List.mem_cons_of_mem _ hx)),
        lineValue_chomp]
      rfl

theorem ConfigText.readEnv_get? (t : ConfigText) (k : Text) :
    (readEnv (some t.text)).get? k = lastValue k (allLines t.text) := by
  have hread := readEnv_unlines t.lines t.tail k
  rwa [unlines_cutLines] at hread

/-- Dropping lines that do not assign a key keeps its reading. -/
theorem lastValue_filter {k : Text} {q : Text → Bool} {lines : List Text}
    (h : ∀ ln ∈ lines, q ln = false → lineValue k ln = none) :
    lastValue k (lines.filter q) = lastValue k lines := by
  induction lines with
  | nil => rfl
  | cons ln rest ih =>
      have hrest := ih (fun l hl => h l (List.mem_cons_of_mem _ hl))
      rw [List.filter_cons]
      split_ifs with hq
      · rw [lastValue, hrest, lastValue]
      · rw [hrest, lastValue, h ln List.mem_cons_self (by simpa using hq),
          Option.or_none]

/-- The lines of a text that a save keeps. -/
def keptLines (owned : List Text) (t : Text) : List Text :=
  (allLines t).filter (fun ln => !grepDrops owned ln)

theorem Managed.kept_eq (m : Managed) (vars : Vars) (t : Text) :
    m.kept vars (some t) = keptLines m.names t := by
  unfold Managed.kept keptLines grepLines allLines
  rw [m.filterMap_body]
  simp only [List.filter_append]
  split_ifs with htail
  · rw [htail]
    rfl
  · rfl

/-- The here-document assigns the owned keys. -/
theorem Managed.lastValue_body (m : Managed) (vars : Vars) (k : Text) :
    lastValue k (m.body vars) =
      if k ∈ m.names then lineValue k (assignment k (vars k)) else none := by
  have hcomment : lineValue k m.header = none := by
    unfold lineValue
    rw [parseLine_comment m.comment]
  have hnamed := m.named
  unfold Managed.body
  rw [lastValue, hcomment, Option.or_none]
  generalize m.names = names at hnamed
  induction names with
  | nil => rfl
  | cons n rest ih =>
      have hn := envKey_of_shellName (hnamed n List.mem_cons_self)
      have hrest := ih (fun x hx => hnamed x (List.mem_cons_of_mem _ hx))
      rw [List.map_cons, lastValue, hrest]
      by_cases hk : n = k
      · subst hk
        rw [if_pos List.mem_cons_self]
        split_ifs
        · rw [Option.or_self]
        · rw [Option.none_or]
      · have hne : lineValue k (assignment n (vars n)) = none := by
          have hwriter := writerKey_assignment hn (vars n)
          apply lineValue_of_writerKey_ne
          · rwa [hwriter]
          · rwa [hwriter]
        have hmem : k ∈ n :: rest ↔ k ∈ rest := by
          rw [List.mem_cons]
          exact or_iff_right (fun h => hk h.symm)
        rw [hne, Option.or_none]
        simp only [hmem]

/-- What the runner reads after a save. -/
theorem Managed.lastValue_save (m : Managed) (vars : Vars) (t : ConfigText)
    (hvars : ∀ n ∈ m.names, EnvLine (vars n)) (k : Text) :
    (readEnv (some (m.save vars (some t.text)))).get? k =
      (lastValue k (keptLines m.names t.text)).or
        (if k ∈ m.names then lineValue k (assignment k (vars k))
          else none) := by
  have hall : ∀ l ∈ allLines t.text, EnvLine l := by
    intro l hl
    rcases List.mem_append.1 hl with hl | hl
    · exact t.lines l hl
    · rw [List.mem_singleton.1 hl]
      exact t.tail
  have hlines : ∀ l ∈ m.body vars ++ keptLines m.names t.text,
      EnvLine l := by
    intro l hl
    rcases List.mem_append.1 hl with hl | hl
    · rcases List.mem_cons.1 hl with rfl | hl
      · exact EnvLine.of_oneLine m.oneLine
      · obtain ⟨n, hn, rfl⟩ := List.mem_map.1 hl
        have hone := (envKey_of_shellName (m.named n hn)).oneLine
        have heq : OneLine ['='] := by decide
        have hsplit : assignment n (vars n) = (n ++ ['=']) ++ vars n := by
          simp [assignment]
        rw [hsplit]
        exact EnvLine.append (hone.append heq) (hvars n hn)
    · exact hall l (List.mem_filter.1 hl).1
  have hread := readEnv_unlines hlines
    (EnvLine.of_oneLine (fun c hc => by cases hc) : EnvLine []) k
  have hempty : lineValue k [] = none := rfl
  unfold Managed.save
  rw [m.kept_eq, ← List.append_nil (unlines _), hread, lastValue_append,
    lastValue, lastValue, hempty, Option.or_none, Option.none_or,
    lastValue_append, m.lastValue_body]

/-- The runner reads every key that the text assigned as before. -/
def KeepsReading (t after : Text) : Prop :=
  ∀ k v, (readEnv (some t)).get? k = some v →
    (readEnv (some after)).get? k = some v

/-- Where each owned key that the text assigns gets its value back from: the
last line that is kept and assigns it, or else the line written for the value
that was loaded. -/
def OwnedKept (m : Managed) (loaded : Vars) (t : Text) : Prop :=
  ∀ k ∈ m.names, ∀ v, lastValue k (allLines t) = some v →
    lastValue k (keptLines m.names t) = some v ∨
      (lastValue k (keptLines m.names t) = none ∧
        lineValue k (assignment k (loaded k)) = some v)

theorem Managed.keepsReading_iff (m : Managed) (vars : Vars)
    (t : ConfigText) (hvars : ∀ n ∈ m.names, EnvLine (vars n)) :
    KeepsReading t.text (m.save vars (some t.text)) ↔
      OwnedKept m vars t.text := by
  constructor
  · intro h k hk v hv
    have hafter := h k v (by rw [t.readEnv_get?, hv])
    rw [m.lastValue_save vars t hvars, if_pos hk,
      Option.or_eq_some_iff] at hafter
    exact hafter
  · intro h k v hv
    rw [t.readEnv_get?] at hv
    rw [m.lastValue_save vars t hvars]
    by_cases hk : k ∈ m.names
    · rw [if_pos hk, Option.or_eq_some_iff]
      exact h k hk v hv
    · have hkept : lastValue k (keptLines m.names t.text) =
          lastValue k (allLines t.text) := by
        apply lastValue_filter
        intro ln _ hdrop
        exact lineValue_of_grepDrops m.named (by simpa using hdrop) hk
      rw [if_neg hk, Option.or_none, hkept, hv]

/-- The value a `read` loop has for a key at the end. -/
theorem loadLines_apply {names : List Text}
    (hnamed : ∀ n ∈ names, shellName n = true) (vars : Vars)
    (lines : List Text) (k : Text) :
    loadLines names vars lines k =
      if k ∈ names then (lastRead k lines).getD (vars k) else vars k := by
  induction lines generalizing vars with
  | nil => simp [loadLines, lastRead]
  | cons ln rest ih =>
      have hfold : loadLines names vars (ln :: rest) =
          loadLines names
            (if (bashRead ln).1 = [] ∨ (bashRead ln).1.head? = some '#' then
                vars
              else if (bashRead ln).1 ∈ names then
                Function.update vars (bashRead ln).1 (bashRead ln).2
              else vars) rest := rfl
      rw [hfold, ih, lastRead]
      by_cases hk : k ∈ names
      · rw [if_pos hk, if_pos hk]
        have hname := hnamed k hk
        by_cases hkey : (bashRead ln).1 = k
        · have hcase : ¬ ((bashRead ln).1 = [] ∨
              (bashRead ln).1.head? = some '#') := by
            rw [hkey]
            rintro (hnil | hcomment)
            · rw [hnil] at hname
              cases hname
            · exact (envKey_of_shellName hname).noComment hcomment
          have hmem : (bashRead ln).1 ∈ names := by rwa [hkey]
          rw [if_neg hcase, if_pos hmem, if_pos hkey, hkey,
            Function.update_self]
          cases lastRead k rest <;> rfl
        · rw [if_neg hkey, Option.or_none]
          split_ifs
          · rfl
          · rw [Function.update_of_ne (fun h => hkey h.symm)]
          · rfl
      · rw [if_neg hk, if_neg hk]
        split_ifs with _ hmem
        · rfl
        · rw [Function.update_of_ne]
          rintro rfl
          exact hk hmem
        · rfl

/-- What is loaded of an owned key of `.testbed.env`: the last line that a
line feed ends and that begins with the key, up to a lone `=` at its end. -/
def loadedEnv (envText : Text) : Vars :=
  fun k => (lastRead k (cutLines envText).1).getD (defaultVars k)

/-- The same for `.testbed.secrets`; the admin password may still come from
the other file. -/
def loadedSecret (envText secretsText : Text) : Vars :=
  fun k => (lastRead k (cutLines secretsText).1).getD
    (if k = adminPassword then (lastRead k (cutLines envText).1).getD []
      else [])

theorem secretNames_named : ∀ n ∈ secretNames, shellName n = true :=
  secretsManaged.named

theorem loadNames_named :
    ∀ n ∈ envNames ++ [adminPassword], shellName n = true := by
  intro n hn
  rcases List.mem_append.1 hn with henv | hadmin
  · exact envManaged.named n henv
  · rw [List.mem_singleton.1 hadmin]
    decide

/-- The two files have no variable in common. -/
theorem notMem_envNames {k : Text} (hk : k ∈ secretNames) : k ∉ envNames := by
  revert k
  decide

theorem defaultVars_of_notMem {k : Text} (hk : k ∉ envNames) :
    defaultVars k = [] := by
  have hnone : envDefaults.lookup k = none :=
    List.lookup_eq_none_iff.2 fun kv hkv => by
      have hne : kv.1 ≠ k := fun heq =>
        hk (List.mem_map.2 ⟨kv, hkv, heq⟩)
      exact bne_iff_ne.2 hne.symm
  rw [defaultVars, hnone]
  rfl

/-- What holds of every default and of no text holds of each variable before a
file is read. -/
theorem forall_defaultVars {P : Text → Prop}
    (h : ∀ kv ∈ envDefaults, P kv.2) (hempty : P []) (k : Text) :
    P (defaultVars k) := by
  unfold defaultVars
  cases hv : envDefaults.lookup k with
  | none => exact hempty
  | some v =>
      obtain ⟨l₁, l₂, hsplit, -⟩ := List.lookup_eq_some_iff.1 hv
      have hmem : (k, v) ∈ envDefaults := by
        rw [hsplit]
        exact List.mem_append_right _ List.mem_cons_self
      exact h (k, v) hmem

theorem loadConfig_env (envFile secretsFile : Option Text) {k : Text}
    (hk : k ∈ envNames) :
    loadConfig envFile secretsFile k =
      (lastRead k (bashLines envFile)).getD (defaultVars k) := by
  have hsecret : k ∉ secretNames := fun h => notMem_envNames h hk
  have hmem : k ∈ envNames ++ [adminPassword] := List.mem_append_left _ hk
  unfold loadConfig loadEnv
  rw [loadLines_apply secretNames_named, if_neg hsecret,
    loadLines_apply loadNames_named, if_pos hmem]

theorem loadConfig_secret (envText secretsText : Text) {k : Text}
    (hk : k ∈ secretNames) :
    loadConfig (some envText) (some secretsText) k =
      loadedSecret envText secretsText k := by
  have hnot : k ∉ envNames := notMem_envNames hk
  have hmem : k ∈ envNames ++ [adminPassword] ↔ k = adminPassword := by
    rw [List.mem_append, List.mem_singleton]
    exact or_iff_right hnot
  unfold loadConfig loadEnv loadedSecret
  rw [loadLines_apply secretNames_named, if_pos hk,
    loadLines_apply loadNames_named, defaultVars_of_notMem hnot]
  simp only [hmem]
  rfl

theorem envLine_bashRead {ln : Text} (h : EnvLine ln) :
    EnvLine (bashRead ln).2 := by
  have hafter : EnvLine (after '=' ln) := by
    by_cases heq : '=' ∈ ln
    · rw [before_append_after heq] at h
      exact EnvLine.suffix (s := before '=' ln ++ ['=']) (by simpa using h)
    · have hnil : after '=' ln = [] := by
        unfold after
        rw [List.dropWhile_eq_nil_iff.2]
        · rfl
        · intro c hc
          have hne : c ≠ '=' := fun h => heq (h ▸ hc)
          simpa using hne
      rw [hnil]
      exact EnvLine.of_oneLine (fun c hc => by cases hc)
  change EnvLine (dropLoneEquals (after '=' ln))
  unfold dropLoneEquals
  split_ifs with hlone
  · obtain ⟨w, hw⟩ := List.getLast?_eq_some_iff.1 hlone.1
    rw [hw] at hafter ⊢
    have hone : OneLine (w ++ ['=']) := by
      unfold EnvLine at hafter
      rw [chomp_append (by simp)] at hafter
      exact hafter
    rw [List.dropLast_concat]
    exact EnvLine.of_oneLine
      (fun c hc => hone c (List.mem_append_left _ hc))
  · exact hafter

theorem envLine_lastRead {lines : List Text}
    (h : ∀ l ∈ lines, EnvLine l) {k v : Text}
    (hv : lastRead k lines = some v) : EnvLine v := by
  induction lines with
  | nil => cases hv
  | cons ln rest ih =>
      rw [lastRead, Option.or_eq_some_iff] at hv
      rcases hv with hv | ⟨-, hv⟩
      · exact ih (fun l hl => h l (List.mem_cons_of_mem _ hl)) hv
      · split_ifs at hv
        rw [← Option.some.inj hv]
        exact envLine_bashRead (h ln List.mem_cons_self)

theorem envLine_lastRead_getD {lines : List Text}
    (h : ∀ l ∈ lines, EnvLine l) {k d : Text} (hd : EnvLine d) :
    EnvLine ((lastRead k lines).getD d) := by
  cases hv : lastRead k lines with
  | none => exact hd
  | some v => exact envLine_lastRead h hv

theorem ownedKept_congr {m : Managed} {loaded loaded' : Vars} {t : Text}
    (h : ∀ k ∈ m.names, loaded k = loaded' k) :
    OwnedKept m loaded t ↔ OwnedKept m loaded' t := by
  unfold OwnedKept
  constructor
  · intro howned k hk v hv
    rw [← h k hk]
    exact howned k hk v hv
  · intro howned k hk v hv
    rw [h k hk]
    exact howned k hk v hv

theorem envLine_loadConfig_env (envText : ConfigText)
    (secretsFile : Option Text) :
    ∀ k ∈ envManaged.names,
      EnvLine (loadConfig (some envText.text) secretsFile k) := by
  intro k hk
  have hdefault : OneLine (defaultVars k) :=
    forall_defaultVars (by decide) (by decide) k
  rw [loadConfig_env _ secretsFile hk]
  exact envLine_lastRead_getD envText.lines (EnvLine.of_oneLine hdefault)

/-- Loading and saving leaves the runner's reading of both files as it was
exactly when every owned key that they assign gets its value back. -/
theorem roundTrip_iff (envText secretsText : ConfigText) :
    (KeepsReading envText.text
        (saveConfig (loadConfig (some envText.text) (some secretsText.text))
          (some envText.text)) ∧
      KeepsReading secretsText.text
        (saveSecrets (loadConfig (some envText.text) (some secretsText.text))
          (some secretsText.text))) ↔
      OwnedKept envManaged (loadedEnv envText.text) envText.text ∧
        OwnedKept secretsManaged
          (loadedSecret envText.text secretsText.text) secretsText.text := by
  set vars := loadConfig (some envText.text) (some secretsText.text)
    with hvars
  have henv : ∀ k ∈ envManaged.names, vars k = loadedEnv envText.text k :=
    fun k hk => loadConfig_env (some envText.text) _ hk
  have hsecret : ∀ k ∈ secretsManaged.names,
      vars k = loadedSecret envText.text secretsText.text k :=
    fun k hk => loadConfig_secret envText.text secretsText.text hk
  have henvLine : ∀ k ∈ envManaged.names, EnvLine (vars k) :=
    envLine_loadConfig_env envText _
  have hsecretLine : ∀ k ∈ secretsManaged.names, EnvLine (vars k) := by
    have hempty : EnvLine [] :=
      EnvLine.of_oneLine (fun c hc => by cases hc)
    intro k hk
    rw [hsecret k hk]
    apply envLine_lastRead_getD secretsText.lines
    split_ifs
    · exact envLine_lastRead_getD envText.lines hempty
    · exact hempty
  rw [← ownedKept_congr henv, ← ownedKept_congr hsecret]
  exact and_congr (envManaged.keepsReading_iff vars envText henvLine)
    (secretsManaged.keepsReading_iff vars secretsText hsecretLine)

/-- An `export` line of an owned key. -/
def exportedEdge : Text :=
  "export EDGE_ENABLED=false\n".toList

/-- The CLI loads no `export` line and keeps none of an owned key: the default
takes its place. -/
theorem exportedEdge_lost :
    ¬ KeepsReading exportedEdge
      (saveConfig (loadConfig (some exportedEdge) (some []))
        (some exportedEdge)) := by
  intro h
  let t : ConfigText :=
    { text := exportedEdge
      lines := by
        unfold EnvLine
        decide
      tail := by
        unfold EnvLine
        decide
      noNul := by decide }
  have howned : OwnedKept envManaged _ exportedEdge :=
    (envManaged.keepsReading_iff _ t (envLine_loadConfig_env t (some []))).1 h
  have hedge : "EDGE_ENABLED".toList ∈ envManaged.names := by
    decide
  rcases howned _ hedge "false".toList (by decide) with
    hkept | ⟨-, hwritten⟩
  · revert hkept
    decide
  · rw [loadConfig_env _ _ hedge] at hwritten
    revert hwritten
    decide

end RoundTrip

end Env
end Kelt
