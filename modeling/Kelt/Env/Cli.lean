import Kelt.Env.WriteKeys

/-!
# How the CLI loads and saves the config files

`load_config`, `save_config` and `save_secrets` of `testbed-config`. Loading is
a loop over bash's `read`: it sees the lines that a line feed ends, takes what
stands before the first `=` for the key as it is, and cuts a lone `=` off the
end of the value. Saving writes the keys it owns anew and keeps the other lines
through `grep`.

The two files differ in their keys only, so saving is one definition over what
a file owns (`Managed`).
-/

namespace Kelt
namespace Env

section Cli

/-- The shell variables; one that is not set is empty. -/
abbrev Vars := Text → Text

/-- `read` takes a lone delimiter at the end of the last field away. -/
def dropLoneEquals (r : Text) : Text :=
  if r.getLast? = some '=' ∧ '=' ∉ r.dropLast then r.dropLast else r

/-- `IFS='=' read -r key value`. -/
def bashRead (ln : Text) : Text × Text :=
  (before '=' ln, dropLoneEquals (after '=' ln))

/-- The lines that a `read` loop gets to see. -/
def bashLines (file : Option Text) : List Text :=
  match file with
  | some content => (cutLines content).1
  | none => []

/-- The loop of `load_config` over one file. -/
def loadLines (names : List Text) (vars : Vars) (lines : List Text) : Vars :=
  lines.foldl
    (fun vars ln =>
      let key := (bashRead ln).1
      if key = [] ∨ key.head? = some '#' then vars
      else if key ∈ names then Function.update vars key (bashRead ln).2
      else vars)
    vars

/-- `[A-Z_]`. -/
def isUpper (c : Char) : Bool :=
  ('A' ≤ c && c ≤ 'Z') || c == '_'

/-- `[A-Z0-9_]`. -/
def isShellChar (c : Char) : Bool :=
  isUpper c || ('0' ≤ c && c ≤ '9')

/-- `[A-Z_][A-Z0-9_]*`. -/
def shellName (t : Text) : Bool :=
  match t with
  | [] => false
  | c :: rest => isUpper c && rest.all isShellChar

/-- `sed -n 's/^\([A-Z_][A-Z0-9_]*\)=.*/\1/p'` on a line. -/
def sedName (ln : Text) : Option Text :=
  if '=' ∈ ln ∧ shellName (before '=' ln) then some (before '=' ln) else none

/-- `(owned)=` at the start of a line. -/
def assignsOwned (owned : List Text) (ln : Text) : Bool :=
  ln.contains '=' && owned.contains (before '=' ln)

/-- `^(#|$|(export +)?(owned)=)`. -/
def grepDrops (owned : List Text) (ln : Text) : Bool :=
  ln.isEmpty || ln.head? == some '#' || assignsOwned owned ln ||
    ("export ".toList.isPrefixOf ln &&
      assignsOwned owned ((ln.drop 6).dropWhile (· == ' ')))

/-- The lines of a file for `grep`: the last one needs no line feed. -/
def grepLines (file : Option Text) : List Text :=
  match file with
  | some content =>
      (cutLines content).1 ++
        if (cutLines content).2 = [] then [] else [(cutLines content).2]
  | none => []

theorem cutLines_unlines {lines : List Text} (h : ∀ l ∈ lines, '\n' ∉ l) :
    cutLines (unlines lines) = (lines, []) := by
  have hcut := cutLines_unlines_append h List.not_mem_nil
  rwa [List.append_nil] at hcut

theorem grepLines_unlines {lines : List Text} (h : ∀ l ∈ lines, '\n' ∉ l) :
    grepLines (some (unlines lines)) = lines := by
  simp only [grepLines, cutLines_unlines h, if_true, List.append_nil]

/-- What a config file owns, and the comment it begins with. -/
structure Managed where
  header : Text
  names : List Text
  comment : header.head? = some '#'
  oneLine : OneLine header
  named : ∀ n ∈ names, shellName n = true

namespace Managed

variable (m : Managed)

/-- The here-document: one line for each owned key. -/
def body (vars : Vars) : List Text :=
  m.header :: m.names.map (fun n => assignment n (vars n))

/-- The lines of the file that are kept. -/
def kept (vars : Vars) (file : Option Text) : List Text :=
  (grepLines file).filter
    (fun ln => !grepDrops ((m.body vars).filterMap sedName) ln)

/-- The content that a save gives to `write_file_atomic`. -/
def save (vars : Vars) (file : Option Text) : Text :=
  unlines (m.body vars ++ m.kept vars file)

end Managed

/-- The keys of `.testbed.env` with their defaults. -/
def envDefaults : List (Text × Text) :=
  [("TESTBED_PROFILE", "laptop"), ("EDGE_ENABLED", "true"),
    ("DEPLOY_MODE", "core_only"), ("PHYSICAL_RAN_ENABLED", "false"),
    ("PHYSICAL_RAN_BRIDGE", ""), ("NORTHBOUND_ENABLED", "false"),
    ("APPS_ENABLED", "false"), ("APPS_REGISTRY_USERNAME", "kelt"),
    ("APPS_REGISTRY_HOST", ""), ("DASHBOARD_DEV_ENABLED", "false"),
    ("DASHBOARD_AUTH_ENABLED", "true"), ("EXTERNAL_BASE_DOMAIN", ""),
    ("KEYCLOAK_PATH_PREFIX", ""), ("DASHBOARD_KEYCLOAK_EXTERNAL_URL", ""),
    ("DASHBOARD_KEYCLOAK_PATH_PREFIX", ""),
    ("DASHBOARD_EXTERNAL_ORIGIN", ""), ("DASHBOARD_DEV_EXTERNAL_URL", ""),
    ("CAMARA_GATEWAY_EXTERNAL_ORIGIN", ""),
    ("POSITIONING_DEMO_EXTERNAL_ORIGIN", ""),
    ("KEYCLOAK_REALM_RECONCILE", "ask")].map
      (fun kv => (kv.1.toList, kv.2.toList))

/-- The keys of `.testbed.secrets`, all empty by default. -/
def secretNames : List Text :=
  ["KEYCLOAK_ADMIN_PASSWORD", "CAMARA_CLIENT_SECRET",
    "CAMARA_API_DEMO_SECRET", "DASHBOARD_READONLY_SECRET",
    "PLACEMENT_EDITOR_PROXY_SECRET", "APPS_REGISTRY_PASSWORD",
    "DASHBOARD_ADMIN_TOKEN"].map String.toList

def adminPassword : Text :=
  "KEYCLOAK_ADMIN_PASSWORD".toList

def envNames : List Text :=
  envDefaults.map Prod.fst

/-- The variables before a file is read. -/
def defaultVars : Vars :=
  fun k => (envDefaults.lookup k).getD []

/-- The variables after `.testbed.env`, where an old admin password is read
as well. -/
def loadEnv (envFile : Option Text) : Vars :=
  loadLines (envNames ++ [adminPassword]) defaultVars (bashLines envFile)

def loadConfig (envFile secretsFile : Option Text) : Vars :=
  loadLines secretNames (loadEnv envFile) (bashLines secretsFile)

/-- What `save_config` owns. -/
def envManaged : Managed where
  header := "# Generated by testbed-config — do not edit manually".toList
  names := envNames
  comment := by decide
  oneLine := by decide
  named := by decide +kernel

/-- What `save_secrets` owns. -/
def secretsManaged : Managed where
  header := "# Generated by testbed-config — secrets".toList
  names := secretNames
  comment := by decide
  oneLine := by decide
  named := by decide

def saveConfig (vars : Vars) (envFile : Option Text) : Text :=
  envManaged.save vars envFile

def saveSecrets (vars : Vars) (secretsFile : Option Text) : Text :=
  secretsManaged.save vars secretsFile

/-- The value of the last line that `read` gives to a key. -/
def lastRead (k : Text) : List Text → Option Text
  | [] => none
  | ln :: rest =>
      (lastRead k rest).or
        (if (bashRead ln).1 = k then some (bashRead ln).2 else none)

theorem toNat_of_isShellChar {c : Char} (hc : isShellChar c = true) :
    (48 ≤ c.toNat ∧ c.toNat ≤ 57) ∨ (65 ≤ c.toNat ∧ c.toNat ≤ 90) ∨
      c.toNat = 95 := by
  simp only [isShellChar, isUpper, Bool.or_eq_true, Bool.and_eq_true,
    decide_eq_true_eq, beq_iff_eq, Char.le_def, UInt32.le_iff_toNat_le] at hc
  rcases hc with (hc | rfl) | hc
  · exact Or.inr (Or.inl hc)
  · exact Or.inr (Or.inr rfl)
  · exact Or.inl hc

theorem isBlank_of_isShellChar {c : Char} (hc : isShellChar c = true) :
    isBlank c = false := by
  have hn := toNat_of_isShellChar hc
  simp only [isBlank, isLineBreak, Bool.or_eq_false_iff,
    Bool.and_eq_false_iff, decide_eq_false_iff_not, beq_eq_false_iff_ne,
    ne_eq]
  omega

theorem isShellChar_of_mem {n : Text} (hn : shellName n = true) {c : Char}
    (hc : c ∈ n) : isShellChar c = true := by
  cases n with
  | nil => cases hc
  | cons d rest =>
      unfold shellName at hn
      rw [Bool.and_eq_true, List.all_eq_true] at hn
      rcases List.mem_cons.1 hc with rfl | hc
      · simp [isShellChar, hn.1]
      · exact hn.2 c hc

theorem notMem_of_shellName {n : Text} (hn : shellName n = true) {c : Char}
    (hc : isShellChar c = false) : c ∉ n := by
  intro hmem
  rw [isShellChar_of_mem hn hmem] at hc
  cases hc

/-- The name of a shell variable is a key for the runner. -/
theorem envKey_of_shellName {n : Text} (hn : shellName n = true) :
    EnvKey n where
  noEquals := notMem_of_shellName hn (by decide)
  oneLine := by
    intro c hc
    have hblank := isBlank_of_isShellChar (isShellChar_of_mem hn hc)
    simp only [isBlank, Bool.or_eq_false_iff] at hblank
    tauto
  stripped := stripBy_eq_self_of_notMem
    (fun c hc => isBlank_of_isShellChar (isShellChar_of_mem hn hc))
  noComment := by
    intro h
    exact notMem_of_shellName hn (by decide) (List.mem_of_mem_head? h)
  notExport := by
    have he : 'e' ∉ n := notMem_of_shellName hn (by decide)
    refine ⟨?_, ?_⟩
    · rintro rfl
      exact he (by decide)
    · intro hpre
      exact he (hpre.subset (by decide))

theorem sedName_assignment {n : Text} (hn : shellName n = true) (v : Text) :
    sedName (assignment n v) = some n := by
  have hbefore : before '=' (assignment n v) = n :=
    before_append_cons (envKey_of_shellName hn).noEquals v
  unfold sedName
  rw [hbefore, if_pos ⟨by simp [assignment], hn⟩]

theorem sedName_comment {ln : Text} (h : ln.head? = some '#') :
    sedName ln = none := by
  obtain ⟨rest, rfl⟩ := List.head?_eq_some_iff.1 h
  have hbefore : before '=' ('#' :: rest) = '#' :: before '=' rest := rfl
  unfold sedName
  rw [if_neg]
  rintro ⟨-, hname⟩
  rw [hbefore] at hname
  cases hname

/-- The `sed` line recovers what the here-document was made of. -/
theorem Managed.filterMap_body (m : Managed) (vars : Vars) :
    (m.body vars).filterMap sedName = m.names := by
  have hnamed := m.named
  unfold Managed.body
  rw [List.filterMap_cons, sedName_comment m.comment]
  simp only
  generalize m.names = names at hnamed
  induction names with
  | nil => rfl
  | cons n rest ih =>
      have hn := hnamed n List.mem_cons_self
      rw [List.map_cons, List.filterMap_cons, sedName_assignment hn]
      simp only
      rw [ih (fun x hx => hnamed x (List.mem_cons_of_mem _ hx))]

/-- A comment assigns nothing. -/
theorem parseLine_comment {ln : Text} (h : ln.head? = some '#') :
    parseLine ln = none := by
  obtain ⟨rest, rfl⟩ := List.head?_eq_some_iff.1 h
  have hhead : (strip ('#' :: rest)).head? = some '#' := by
    unfold strip
    rw [head?_stripBy]
    rfl
  have hexport : unexport (strip ('#' :: rest)) = strip ('#' :: rest) := by
    apply unexport_of_not_prefix
    rintro ⟨s, hs⟩
    rw [← hs] at hhead
    cases hhead
  unfold parseLine
  simp only [hexport]
  rw [if_neg]
  exact fun hparse => hparse.2.1 hhead

theorem lineValue_of_assignsOwned {owned : List Text}
    (howned : ∀ n ∈ owned, shellName n = true) {ln k : Text}
    (h : assignsOwned owned ln = true) (hk : k ∉ owned) :
    lineValue k ln = none := by
  simp only [assignsOwned, Bool.and_eq_true, List.contains_iff_mem] at h
  have hkey := envKey_of_shellName (howned _ h.2)
  have hwriter : writerKey ln = before '=' ln := hkey.stripped
  rw [← hwriter] at hkey
  apply lineValue_of_writerKey_ne hkey
  rintro rfl
  rw [hwriter] at hk
  exact hk h.2

/-- An `export` line of a name assigns that name. -/
theorem parseLine_export {n : Text} (hn : shellName n = true)
    {spaces : Text} (hspaces : ∀ c ∈ spaces, c = ' ') (r : Text) :
    ∃ v, parseLine ("export ".toList ++ (spaces ++ (n ++ '=' :: r))) =
      some (n, v) := by
  have hkey := envKey_of_shellName hn
  have hblank : ∀ c ∈ spaces, isBlank c = true := by
    intro c hc
    rw [hspaces c hc]
    decide
  obtain ⟨c, rest, rfl⟩ : ∃ c rest, n = c :: rest := by
    cases n with
    | nil => cases hn
    | cons c rest => exact ⟨c, rest, rfl⟩
  have hc : isBlank c = false :=
    isBlank_of_isShellChar (isShellChar_of_mem hn List.mem_cons_self)
  have hstrip :
      strip ("export ".toList ++ (spaces ++ (c :: rest ++ '=' :: r))) =
        "export ".toList ++ (spaces ++
          (c :: rest ++ '=' :: r.rdropWhile isBlank)) := by
    have hsplit : "export ".toList ++ (spaces ++ (c :: rest ++ '=' :: r)) =
        ("export ".toList ++ (spaces ++ c :: rest)) ++ '=' :: r := by
      simp
    have hdrop : ("export ".toList ++ (spaces ++ c :: rest)).dropWhile isBlank
        = "export ".toList ++ (spaces ++ c :: rest) := rfl
    unfold strip
    rw [hsplit, stripBy_append_cons isBlank_equals, hdrop]
    simp
  have hunexport :
      unexport ("export ".toList ++ (spaces ++
        (c :: rest ++ '=' :: r.rdropWhile isBlank))) =
        c :: rest ++ '=' :: r.rdropWhile isBlank := by
    have hlstrip : lstrip (spaces ++
        (c :: rest ++ '=' :: r.rdropWhile isBlank)) =
        c :: rest ++ '=' :: r.rdropWhile isBlank := by
      unfold lstrip
      rw [List.dropWhile_append_of_pos hblank, List.cons_append,
        List.dropWhile_cons_of_neg (by simp [hc])]
    unfold unexport
    rw [if_pos (by simp)]
    exact hlstrip
  have hhead : (c :: rest ++ '=' :: r.rdropWhile isBlank).head? ≠ some '#' := by
    exact hkey.noComment
  refine ⟨unquote (r.rdropWhile isBlank), ?_⟩
  unfold parseLine
  simp only [hstrip, hunexport]
  rw [if_pos ⟨by simp, hhead, by simp⟩, before_append_cons hkey.noEquals,
    after_append_cons hkey.noEquals, hkey.stripped]

/-- What `grep` drops assigns owned keys only. -/
theorem lineValue_of_grepDrops {owned : List Text}
    (howned : ∀ n ∈ owned, shellName n = true) {ln k : Text}
    (h : grepDrops owned ln = true) (hk : k ∉ owned) :
    lineValue k ln = none := by
  simp only [grepDrops, Bool.or_eq_true, Bool.and_eq_true, beq_iff_eq,
    List.isEmpty_iff] at h
  rcases h with ((rfl | h) | h) | ⟨hexport, h⟩
  · rfl
  · unfold lineValue
    rw [parseLine_comment h]
  · exact lineValue_of_assignsOwned howned h hk
  · obtain ⟨rest, rfl⟩ := List.isPrefixOf_iff_prefix.1 hexport
    have hrest : (("export ".toList ++ rest).drop 6).dropWhile (· == ' ') =
        rest.dropWhile (· == ' ') := rfl
    rw [hrest] at h
    simp only [assignsOwned, Bool.and_eq_true, List.contains_iff_mem] at h
    set ln := rest.dropWhile (· == ' ') with hln
    have hsplit : rest = rest.takeWhile (· == ' ') ++
        (before '=' ln ++ '=' :: after '=' ln) := by
      rw [← before_append_after h.1, hln, List.takeWhile_append_dropWhile]
    have hspaces : ∀ c ∈ rest.takeWhile (· == ' '), c = ' ' :=
      fun c hc => by simpa using List.mem_takeWhile_imp hc
    obtain ⟨v, hparse⟩ :=
      parseLine_export (howned _ h.2) hspaces (after '=' ln)
    unfold lineValue
    rw [hsplit, hparse]
    have hne : before '=' ln ≠ k := fun heq => hk (heq ▸ h.2)
    simp [hne]

end Cli

end Env
end Kelt
