import Kelt.Lib.Base64
import Kelt.Lib.PyInt
import Kelt.Lib.ShellWords
import Kelt.Northbound.FileMap

/-!
# Shell commands made of request data

Where the backend and the probe hand a text to a shell, a part of it comes from a
request, from a pod or from a registry. A bridge name goes to the worker as it
is: it is one argument exactly when it stands for itself, and any command can be
put behind it (`dumpFlows_runs`). A capture filter is one argument exactly when it
has no single quote (`snifferStream_exact_iff`). A path that the pod commands
accept names the file exactly when no line feed ends it, and the content arrives
byte by byte (`writeCommand_exact_iff`). The digests of a registry and the names
that `shlex.quote` has quoted are always arguments (`sizeCommand_exact`,
`terminalCommands_exact`).
-/

namespace Kelt
namespace Remote

open Shell

section Ovs

def words (ws : List String) : List Text :=
  ws.map String.toList

/-- `" ".join(command)` -/
def joined (command : List Text) : Text :=
  [' '].intercalate command

/-- An `HTTPException`. -/
structure Refused where
  status : Nat
  detail : Text

def allowedPrefixes : List (List Text) :=
  [words ["sudo", "ovs-vsctl", "list-br"],
    words ["sudo", "ovs-vsctl", "list-ports"],
    words ["sudo", "ovs-ofctl", "dump-flows"]]

/-- `_is_allowed` -/
def isAllowed (command : List Text) : Bool :=
  allowedPrefixes.any fun p => command.take p.length == p

/-- `_run_remote`: the text that the shell of the worker gets. -/
def runRemote (command : List Text) : Except Refused Text :=
  if isAllowed command then .ok (joined command)
  else .error ⟨400, "Command is not allowed by policy".toList⟩

def listBridges : Except Refused Text :=
  runRemote (words ["sudo", "ovs-vsctl", "list-br"])

def listBridgePorts (bridge : Text) : Except Refused Text :=
  runRemote (words ["sudo", "ovs-vsctl", "list-ports"] ++ [bridge])

def dumpFlows (bridge : Text) : Except Refused Text :=
  runRemote (words ["sudo", "ovs-ofctl", "dump-flows"] ++ [bridge])

def dumpFlowsArgs : List Token :=
  (words ["sudo", "ovs-ofctl", "dump-flows"]).map Token.word

theorem joined_append {ws : List Text} (h : ws ≠ []) (w : Text) :
    joined (ws ++ [w]) = joined ws ++ [' '] ++ w := by
  induction ws with
  | nil => exact absurd rfl h
  | cons v rest ih =>
      cases rest with
      | nil => simp [joined]
      | cons v' rest =>
          have hrest := ih (List.cons_ne_nil v' rest)
          simp only [joined, List.cons_append, List.intercalate_cons_cons,
            List.append_assoc] at hrest ⊢
          rw [hrest]

def dumpFlowsText : Text :=
  joined (words ["sudo", "ovs-ofctl", "dump-flows"]) ++ [' ']

theorem dumpFlows_eq (bridge : Text) :
    dumpFlows bridge = .ok (dumpFlowsText ++ bridge) := by
  have hallowed : isAllowed (words ["sudo", "ovs-ofctl", "dump-flows"] ++
      [bridge]) = true := by
    simp [isAllowed, allowedPrefixes, words]
  unfold dumpFlows runRemote
  rw [if_pos hallowed, joined_append (by decide)]
  rfl

theorem scan_dumpFlowsText :
    scan .init dumpFlowsText = some ⟨dumpFlowsArgs, none, .none⟩ := by
  decide

/-- The worker runs the allowed command on the bridge exactly when the name
stands for itself; behind a semicolon it runs every command. -/
theorem dumpFlows_runs :
    (∀ bridge, ∃ text, dumpFlows bridge = .ok text ∧
      (tokens text = some (dumpFlowsArgs ++ [.word bridge]) ↔
        Literal bridge)) ∧
      ∀ command, ∃ text, dumpFlows (';' :: command) = .ok text ∧
        tokens text = (tokens command).map fun ts =>
          dumpFlowsArgs ++ .op ';' :: ts := by
  refine ⟨fun bridge => ⟨_, dumpFlows_eq bridge,
    tokens_append_iff scan_dumpFlowsText⟩, fun command =>
    ⟨_, dumpFlows_eq _, ?_⟩⟩
  unfold tokens
  rw [scan_append, scan_dumpFlowsText, Option.bind_some,
    tokens_operator (by decide)]
  rw [Option.map_none, Option.toList_none, List.append_nil]
  rfl

end Ovs

section Sniffer

/-- An entry of `CAPTURE_POINTS`; one without a pod is reached over SSH. -/
structure CapturePoint where
  id : Text
  pod : Option Text
  interface : Text
  defaultFilter : Text
  deriving DecidableEq

def gtpuFilter : Text :=
  "udp port 2152".toList

def upfCloud : Option Text :=
  some "upf-cloud".toList

def capturePoints : List CapturePoint :=
  [⟨"br-n3".toList, none, "br-n3".toList, gtpuFilter⟩,
    ⟨"upf-n3".toList, upfCloud, "n3".toList, gtpuFilter⟩,
    ⟨"upf-ogstun".toList, upfCloud, "ogstun".toList, []⟩,
    ⟨"upf-n6c".toList, upfCloud, "n6c".toList, []⟩,
    ⟨"br-n6m".toList, none, "br-n6m".toList, []⟩,
    ⟨"br-n2".toList, none, "br-n2".toList, "sctp".toList⟩]

/-- What captures: a text for the shell of the worker, or the arguments of a
program in a pod. -/
inductive Capture where
  | unknown (point : Text)
  | ssh (text : Text)
  | pod (app : Text) (argv : List Text)

/-- `_ssh_capture_cmd`: the text for the shell. -/
def sshCaptureCmd (interface filter : Text) (count duration : Int) : Text :=
  "sudo timeout ".toList ++ intText duration ++ " tcpdump -i ".toList ++
    interface ++ " -l -n".toList ++
    (if 0 < count then " -c ".toList ++ intText count else []) ++
    (if filter ≠ [] then " '".toList ++ filter ++ "'".toList else []) ++
    " 2>&1".toList

/-- The command of `_live_capture_pod`. -/
def podCaptureCmd (interface filter : Text) (count duration : Int) :
    List Text :=
  ["timeout".toList, intText duration, "tcpdump".toList, "-i".toList, interface,
      "-l".toList, "-n".toList] ++
    (if 0 < count then ["-c".toList, intText count] else []) ++
    (filter.splitOnP isBlank).filter (· ≠ [])

/-- `live_capture` -/
def liveCapture (point : Text) (bpfFilter : Option Text)
    (count duration : Int) : Capture :=
  match capturePoints.find? (fun p => p.id == point) with
  | none => .unknown point
  | some p =>
      let filter := bpfFilter.getD p.defaultFilter
      match p.pod with
      | none => .ssh (sshCaptureCmd p.interface filter count duration)
      | some app => .pod app (podCaptureCmd p.interface filter count duration)

/-- The query of `sniffer_stream`. -/
structure SnifferQuery where
  filter : Option Text
  count : Option Text
  duration : Option Text

def SnifferQuery.countOf (q : SnifferQuery) : Int :=
  max ((int10 (q.count.getD ['0'])).getD 0) 0

def SnifferQuery.durationOf (q : SnifferQuery) : Int :=
  min (max ((int10 (q.duration.getD "300".toList)).getD 300) 5) 600

/-- `sniffer_stream`, up to the capture. -/
def snifferStream (point : Text) (q : SnifferQuery) : Capture :=
  liveCapture point q.filter q.countOf q.durationOf

/-- The arguments in front of the filter. -/
def captureArgs (interface : Text) (count duration : Int) : List Text :=
  ["sudo".toList, "timeout".toList, intText duration, "tcpdump".toList,
      "-i".toList, interface, "-l".toList, "-n".toList] ++
    if 0 < count then ["-c".toList, intText count] else []

/-- `2>&1` -/
def stderrToStdout : List Token :=
  [.word ['2'], .op '>', .op '&', .word ['1']]

theorem isOrdinary_of_isDigit {c : Char} (h : c.isDigit = true) :
    isOrdinary c = true ∧ c ≠ '#' := by
  have hsafe : isSafe c = true := by
    simp [isSafe, Char.isAlphanum, h]
  refine ⟨isOrdinary_of_isSafe hsafe, ?_⟩
  rintro rfl
  cases h

theorem literal_intText {n : Int} (h : 0 ≤ n) : Literal (intText n) := by
  have hdigit : ∀ c ∈ Nat.toDigits 10 n.natAbs, c.isDigit = true :=
    fun c hc => Nat.isDigit_of_mem_toDigits (by decide) (by decide) hc
  unfold intText
  rw [if_neg (by omega)]
  refine ⟨Nat.toDigits_ne_nil, fun hhash => ?_, List.all_eq_true.2 fun c hc =>
    (isOrdinary_of_isDigit (hdigit c hc)).1⟩
  exact (isOrdinary_of_isDigit (hdigit _ (List.mem_of_head? hhash))).2 rfl

theorem joined_captureArgs (interface : Text) (count duration : Int) :
    joined (captureArgs interface count duration) =
      "sudo timeout ".toList ++ intText duration ++ " tcpdump -i ".toList ++
        interface ++ " -l -n".toList ++
        if 0 < count then " -c ".toList ++ intText count else [] := by
  unfold captureArgs joined
  split <;> simp [List.intercalate_cons_cons]

theorem literal_captureArgs {p : CapturePoint} (hp : p ∈ capturePoints)
    {count duration : Int} (hduration : 0 ≤ duration) :
    ∀ w ∈ captureArgs p.interface count duration, Literal w := by
  have hinterface : ∀ p ∈ capturePoints, Literal p.interface := by
    decide
  intro w hw
  rcases List.mem_append.1 hw with hw | hw
  · simp only [List.mem_cons, List.not_mem_nil, or_false] at hw
    rcases hw with rfl | rfl | rfl | rfl | rfl | rfl | rfl | rfl
    · decide
    · decide
    · exact literal_intText hduration
    · decide
    · decide
    · exact hinterface p hp
    · decide
    · decide
  · split at hw
    · simp only [List.mem_cons, List.not_mem_nil, or_false] at hw
      rcases hw with rfl | rfl
      · decide
      · exact literal_intText (Int.le_of_lt ‹_›)
    · cases hw

theorem scan_captureArgs {p : CapturePoint} (hp : p ∈ capturePoints)
    {count duration : Int} (hduration : 0 ≤ duration) :
    scan .init (joined (captureArgs p.interface count duration) ++ [' ']) =
      some ⟨(captureArgs p.interface count duration).map Token.word, none,
        .none⟩ := by
  have hne : captureArgs p.interface count duration ≠ [] := by
    simp [captureArgs]
  have hscan := scan_intercalate (d := []) (c := ' ') hne
    (literal_captureArgs hp hduration) rfl []
  rw [List.nil_append, scan_nil] at hscan
  exact hscan

/-- The command ends in the filter between quotes. -/
theorem sshCaptureCmd_eq {filter : Text} (hne : filter ≠ []) (interface : Text)
    (count duration : Int) :
    sshCaptureCmd interface filter count duration =
      joined (captureArgs interface count duration) ++ [' '] ++
        '\'' :: (filter ++ '\'' :: " 2>&1".toList) := by
  unfold sshCaptureCmd
  rw [joined_captureArgs]
  simp [hne]

theorem snifferStream_eq {p : CapturePoint} (hp : p ∈ capturePoints)
    (hssh : p.pod = none) {filter : Text} (hne : filter ≠ [])
    (q : SnifferQuery) :
    snifferStream p.id { q with filter := some filter } =
      .ssh (joined (captureArgs p.interface q.countOf q.durationOf) ++ [' '] ++
        '\'' :: (filter ++ '\'' :: " 2>&1".toList)) := by
  have hfind : ∀ p ∈ capturePoints,
      capturePoints.find? (fun p' => p'.id == p.id) = some p := by
    decide
  unfold snifferStream liveCapture
  rw [hfind p hp]
  simp only [hssh, Option.getD_some, sshCaptureCmd_eq hne]
  rfl

theorem scan_stderrToStdout (d : List Token) (w : Text) :
    (scan ⟨d, some w, .none⟩ " 2>&1".toList).bind Scan.finish =
      some (d ++ .word w :: stderrToStdout) := by
  change (scan ⟨d, some w, .none⟩ (' ' :: "2>&1".toList)).bind _ = _
  rw [scan_separator rfl]
  change some (((d ++ [.word w]) ++ [.word ['2']] ++ [.op '>'] ++ [] ++
    [.op '&']) ++ [.word ['1']]) = _
  simp [stderrToStdout]

/-- What a filter says when it ends the quote, runs a command, and opens the
quote again. -/
def breakout (command : Text) : Text :=
  '\'' :: ';' :: (command ++ [';', '\''])

end Sniffer

section PodFile

/-- The command of `_write_pod_file`; `content` is in UTF-8. -/
def writeCommand (path : Text) (content : Bytes) : Text :=
  "echo ".toList ++ Base64.encode content ++ " | base64 -d > ".toList ++ path ++
    " && echo WRITE_OK".toList

/-- The command of `_read_pod_file`. -/
def readCommand (path : Text) : Text :=
  "cat ".toList ++ path ++ " 2>/dev/null".toList

/-- `echo` with the content, unless there is none. -/
def echoArgs (content : Bytes) : List Token :=
  .word "echo".toList ::
    if content = [] then [] else [.word (Base64.encode content)]

/-- `| base64 -d >` -/
def decodeInto : List Token :=
  .op '|' :: (words ["base64", "-d"]).map Token.word ++ [.op '>']

/-- `&& echo WRITE_OK` -/
def thenReport : List Token :=
  .op '&' :: .op '&' :: (words ["echo", "WRITE_OK"]).map Token.word

def stderrToNull : List Token :=
  [.word ['2'], .op '>', .word "/dev/null".toList]

theorem isOrdinary_of_mem_encode {content : Bytes} {c : Char}
    (h : c ∈ Base64.encode content) : isOrdinary c = true ∧ c ≠ '#' := by
  have hall : ∀ n < 64, isOrdinary (Base64.digit n) = true ∧
      Base64.digit n ≠ '#' := by decide
  rcases Base64.mem_encode h with rfl | ⟨n, hn, rfl⟩
  · decide
  · exact hall n hn

theorem encode_ne_nil {content : Bytes} (h : content ≠ []) :
    Base64.encode content ≠ [] := by
  fun_cases Base64.encode content
  · exact absurd rfl h
  all_goals exact List.cons_ne_nil _ _

theorem literal_encode {content : Bytes} (h : content ≠ []) :
    Literal (Base64.encode content) :=
  ⟨encode_ne_nil h, fun hhash =>
    (isOrdinary_of_mem_encode (List.mem_of_head? hhash)).2 rfl,
    List.all_eq_true.2 fun _ hc => (isOrdinary_of_mem_encode hc).1⟩

/-- The command up to the path. -/
theorem scan_writeCommand (content : Bytes) :
    scan .init ("echo ".toList ++ Base64.encode content ++
      " | base64 -d > ".toList) =
        some ⟨echoArgs content ++ decodeInto, none, .none⟩ := by
  have hecho : scan .init "echo ".toList =
      some ⟨[.word "echo".toList], none, .none⟩ := by decide
  have hrest (d : List Token) : scan ⟨d, none, .none⟩
      "| base64 -d > ".toList = some ⟨d ++ decodeInto, none, .none⟩ := by
    have hdone := scan_done d .init "| base64 -d > ".toList
    have hinit : scan .init "| base64 -d > ".toList =
        some ⟨decodeInto, none, .none⟩ := by decide
    rw [hinit, Option.map_some] at hdone
    simpa [Scan.init] using hdone
  change scan .init (_ ++ ' ' :: "| base64 -d > ".toList) = _
  rw [List.append_assoc, scan_append, hecho, Option.bind_some]
  unfold echoArgs
  split
  · subst_vars
    rw [Base64.encode, List.nil_append, scan_separator rfl, hrest]
    rfl
  · rename_i hne
    rw [scan_word (literal_encode hne) rfl, hrest]
    rfl

theorem getLast?_ne_of_literal {word : Text} (h : Literal word) :
    word.getLast? ≠ some '\n' := by
  intro hlast
  have hordinary :=
    List.all_eq_true.1 h.2.2 '\n' (List.mem_of_getLast? hlast)
  revert hordinary
  decide

/-- `$` also lets a line feed through, which ends the command. -/
theorem exact_iff_of_dollar {pre rest path : Text} {d ts : List Token}
    {body : Text → Bool} (hbody : ∀ t, body t = true → Literal t)
    (hpath : Piece.dollar body path = true)
    (hpre : scan .init pre = some ⟨d, none, .none⟩)
    (hrest : tokens rest = some ts) :
    tokens (pre ++ path ++ ' ' :: rest) = some (d ++ .word path :: ts) ↔
      path.getLast? ≠ some '\n' := by
  unfold tokens
  rw [List.append_assoc, scan_append, hpre, Option.bind_some]
  rcases Bool.or_eq_true_iff.1 hpath with h | h
  · have hliteral := hbody path h
    rw [scan_word hliteral rfl, scan_finish, hrest, Option.map_some,
      List.append_assoc]
    exact iff_of_true rfl (getLast?_ne_of_literal hliteral)
  · rw [Bool.and_eq_true, beq_iff_eq] at h
    obtain ⟨t, rfl⟩ := List.getLast?_eq_some_iff.1 h.1
    rw [List.dropLast_concat] at h
    have hline : tokens (' ' :: rest) = some ts := by
      unfold tokens
      rw [Scan.init, scan_separator rfl]
      exact hrest
    have hscan : (scan ⟨d, none, .none⟩ (t ++ ['\n'] ++ ' ' :: rest)).bind
        Scan.finish = some (d ++ [.word t] ++ .op '\n' :: ts) := by
      rw [List.append_assoc, scan_append, scan_literal (hbody t h.2),
        Option.bind_some, List.singleton_append, tokens_operator rfl, hline]
      rfl
    rw [hscan]
    refine iff_of_false (fun heq => ?_) fun hne => hne h.1
    have hlength := congrArg List.length (Option.some.inj heq)
    simp at hlength

theorem literal_of_podPathBody {w : Northbound.World}
    (hword : ∀ c, w.word c = true → isOrdinary c = true) {path : Text}
    (h : w.podPathBody path = true) : Literal path := by
  unfold Northbound.World.podPathBody at h
  split at h
  · rename_i rest
    rw [Bool.and_eq_true, List.all_eq_true] at h
    refine ⟨List.cons_ne_nil _ _, nofun, List.all_eq_true.2 fun c hc => ?_⟩
    rcases List.mem_cons.1 hc with rfl | hc
    · decide
    · have hclass := h.2 c hc
      simp only [Bool.or_eq_true, beq_iff_eq] at hclass
      rcases hclass with ((hclass | rfl) | rfl) | rfl
      · exact hword c hclass
      · decide
      · decide
      · decide
  · cases h

/-- An accepted path names the file, to write and to read, exactly when no line
feed ends it; what comes out of the pipe is the content, byte by byte. -/
theorem writeCommand_exact_iff (w : Northbound.World)
    (hword : ∀ c, w.word c = true → isOrdinary c = true) (path : Text)
    (hpath : w.podPath path = true) (content : Bytes) :
    (tokens (writeCommand path content) = some (echoArgs content ++ decodeInto ++
      .word path :: thenReport) ↔ path.getLast? ≠ some '\n') ∧
      (tokens (readCommand path) = some ([.word "cat".toList, .word path] ++
        stderrToNull) ↔ path.getLast? ≠ some '\n') ∧
      Base64.decode (Base64.encode content ++ ['\n']) = some content := by
  have hbody : ∀ t, w.podPathBody t = true → Literal t :=
    fun _ h => literal_of_podPathBody hword h
  have hreport : tokens "&& echo WRITE_OK".toList = some thenReport := by
    decide
  have hcat : scan .init "cat ".toList =
      some ⟨[.word "cat".toList], none, .none⟩ := by decide
  have hnull : tokens "2>/dev/null".toList = some stderrToNull := by decide
  exact ⟨exact_iff_of_dollar hbody hpath (scan_writeCommand content) hreport,
    exact_iff_of_dollar hbody hpath hcat hnull, Base64.decode_encode content⟩

/-- A document that is read again, and the bytes `1` and a line feed. -/
theorem writeCommand_exact_schema :
    tokens (writeCommand "/data/schema.json".toList [49, 10]) =
      some (echoArgs [49, 10] ++ decodeInto ++
        .word "/data/schema.json".toList :: thenReport) := by
  refine (writeCommand_exact_iff Northbound.vendorAdapter (fun c hc => ?_)
    "/data/schema.json".toList (by decide) [49, 10]).1.2 (by decide)
  exact isOrdinary_of_class (p := Apps.isAlnum) (by decide) hc

end PodFile

section Registry

def isHex (c : Char) : Bool :=
  '0' ≤ c && c ≤ '9' || 'a' ≤ c && c ≤ 'f'

def digestPrefix : Text :=
  "sha256:".toList

/-- `sha256:[0-9a-f]{64}` -/
def isDigest (t : Text) : Bool :=
  digestPrefix.isPrefixOf t && t.length == 71 && (t.drop 7).all isHex

def eligiblePrefix : Text :=
  "blob eligible for deletion: ".toList

/-- `_BLOB_LINE` in one line. -/
def blobLine (line : Text) : Option Text :=
  let rest := line.drop eligiblePrefix.length
  if eligiblePrefix.isPrefixOf line && isDigest (rest.take 71) &&
      (rest.drop 71).all isBlank then
    some (rest.take 71)
  else none

/-- `_BLOB_LINE.findall(out)` -/
def blobDigests (out : Text) : List Text :=
  (out.splitOn '\n').filterMap blobLine

/-- `REGISTRY_BLOB_ROOT` -/
def registryBlobRoot : Text :=
  "/var/lib/registry/docker/registry/v2/blobs/sha256".toList

/-- `f"{REGISTRY_BLOB_ROOT}/{d[7:9]}/{d[7:]}/data"` -/
def blobPath (digest : Text) : Text :=
  registryBlobRoot ++ '/' :: ((digest.drop 7).take 2 ++ '/' :: (digest.drop 7 ++
    "/data".toList))

def sumProgram : Text :=
  "\x7bt+=$1\x7d END \x7bprint t+0\x7d".toList

/-- The command of `_blob_bytes`; without digests there is none. -/
def statCommand (digests : List Text) : Option Text :=
  if digests = [] then none
  else
    some ("stat -c %s ".toList ++ joined (digests.map blobPath) ++
      " 2>/dev/null | awk '".toList ++ sumProgram ++ ['\''])

/-- The command that sizes the blobs of a dry run of `garbage_collect_registry`. -/
def sizeCommand (out : Text) : Option Text :=
  statCommand (blobDigests out)

/-- `2>/dev/null | awk` and the program. -/
def summed : List Token :=
  stderrToNull ++ [.op '|', .word "awk".toList, .word sumProgram]

theorem isDigest_of_mem {out digest : Text} (h : digest ∈ blobDigests out) :
    isDigest digest = true := by
  obtain ⟨line, -, hline⟩ := List.mem_filterMap.1 h
  dsimp only [blobLine] at hline
  split at hline
  · rename_i hparts
    simp only [Bool.and_eq_true] at hparts
    exact Option.some.inj hline ▸ hparts.1.2
  · cases hline

theorem literal_blobPath {digest : Text} (h : isDigest digest = true) :
    Literal (blobPath digest) := by
  have hroot : ∀ c ∈ registryBlobRoot, isOrdinary c = true := by
    decide
  have hdata : ∀ c ∈ "/data".toList, isOrdinary c = true := by decide
  have hhex : ∀ c ∈ digest.drop 7, isOrdinary c = true := fun c hc =>
    isOrdinary_of_class (p := isHex) (by decide) (by
      simp only [isDigest, Bool.and_eq_true, List.all_eq_true] at h
      exact h.2 c hc)
  refine ⟨List.cons_ne_nil _ _, nofun, List.all_eq_true.2 fun c hc => ?_⟩
  simp only [blobPath, List.mem_append, List.mem_cons] at hc
  rcases hc with hc | rfl | hc | rfl | hc | hc
  · exact hroot c hc
  · decide
  · exact hhex c (List.mem_of_mem_take hc)
  · decide
  · exact hhex c hc
  · exact hdata c hc

theorem scan_summed (d : List Token) :
    (scan ⟨d, none, .none⟩ ("2>/dev/null | awk '".toList ++ sumProgram ++
      ['\''])).bind Scan.finish = some (d ++ summed) := by
  have hsummed : tokens ("2>/dev/null | awk '".toList ++ sumProgram ++ ['\'']) =
      some summed := by decide
  rw [scan_finish, hsummed]
  rfl

/-- Whatever the registry prints, `stat` gets the paths of blobs and nothing
else. -/
theorem sizeCommand_exact (out : Text) :
    sizeCommand out = none ∧ blobDigests out = [] ∨
      ∃ text, sizeCommand out = some text ∧
        tokens text = some ((words ["stat", "-c", "%s"] ++
          (blobDigests out).map blobPath).map Token.word ++ summed) := by
  unfold sizeCommand statCommand
  split
  · exact .inl ⟨rfl, ‹_›⟩
  rename_i hne
  refine .inr ⟨_, rfl, ?_⟩
  have hpaths : ∀ w ∈ (blobDigests out).map blobPath, Literal w := by
    intro w hw
    obtain ⟨digest, hmem, rfl⟩ := List.mem_map.1 hw
    exact literal_blobPath (isDigest_of_mem hmem)
  have hstat : scan .init "stat -c %s ".toList =
      some ⟨(words ["stat", "-c", "%s"]).map Token.word, none, .none⟩ := by
    decide
  have hpre := scan_intercalate (d := (words ["stat", "-c", "%s"]).map .word)
    (c := ' ') (mt List.map_eq_nil_iff.1 hne) hpaths rfl
    ("2>/dev/null | awk '".toList ++ sumProgram ++ ['\''])
  unfold tokens joined
  rw [List.append_assoc, List.append_assoc, List.append_assoc, scan_append,
    hstat, Option.bind_some]
  refine (congrArg (Option.bind · Scan.finish) hpre).trans ?_
  rw [scan_summed, List.map_append]

end Registry

section Netns

/-- A command with a name in it, quoted. -/
def quotedCommand (pre post name : Text) : Text :=
  pre ++ quote name ++ ' ' :: post

/-- `shell_cmd` of `open_netns_terminal` -/
def shellCmd : Text → Text :=
  quotedCommand "sudo ip netns exec ".toList "bash".toList

def innerAsRoot : Text → Text :=
  quotedCommand "ip netns exec ".toList "bash -i".toList

def innerAsLoginNopass : Text → Text :=
  quotedCommand "sudo -n ip netns exec ".toList "bash -i".toList

def innerAsLoginInteractive : Text → Text :=
  quotedCommand "sudo ip netns exec ".toList "bash -i".toList

/-- `inner` of `_login_user_can_sudo_n_netns` -/
def sudoProbe : Text → Text :=
  quotedCommand "sudo -n ip netns exec ".toList "true".toList

/-- `inner` of `open_terminal` -/
def innerInDirectory : Text → Text :=
  quotedCommand "cd ".toList "&& exec bash -i".toList

theorem tokens_quotedCommand {pre rest : Text} {d ts : List Token}
    (hpre : scan .init pre = some ⟨d, none, .none⟩)
    (hrest : tokens rest = some ts) (name : Text) :
    tokens (quotedCommand pre rest name) =
      some (d ++ .word name :: ts) := by
  unfold tokens quotedCommand
  rw [List.append_assoc, scan_append, hpre, Option.bind_some, scan_quote,
    scan_separator rfl, scan_finish, hrest, Option.map_some, List.append_assoc]
  rfl

def netnsExec (front : List String) : List Token :=
  (words (front ++ ["ip", "netns", "exec"])).map Token.word

/-- The name of a namespace and a directory are one argument each in every
terminal that is opened, whatever characters they have. -/
theorem terminalCommands_exact (name : Text) :
    tokens (shellCmd name) = some (netnsExec ["sudo"] ++ .word name ::
      (words ["bash"]).map Token.word) ∧
      tokens (innerAsRoot name) = some (netnsExec [] ++ .word name ::
        (words ["bash", "-i"]).map Token.word) ∧
      tokens (innerAsLoginNopass name) = some (netnsExec ["sudo", "-n"] ++
        .word name :: (words ["bash", "-i"]).map Token.word) ∧
      tokens (innerAsLoginInteractive name) = some (netnsExec ["sudo"] ++
        .word name :: (words ["bash", "-i"]).map Token.word) ∧
      tokens (sudoProbe name) = some (netnsExec ["sudo", "-n"] ++
        .word name :: (words ["true"]).map Token.word) ∧
      tokens (innerInDirectory name) = some ([.word "cd".toList] ++
        .word name :: .op '&' :: .op '&' ::
          (words ["exec", "bash", "-i"]).map Token.word) := by
  refine ⟨?_, ?_, ?_, ?_, ?_, ?_⟩
  · refine tokens_quotedCommand ?_ ?_ name <;> decide
  · refine tokens_quotedCommand ?_ ?_ name <;> decide
  · refine tokens_quotedCommand ?_ ?_ name <;> decide
  · refine tokens_quotedCommand ?_ ?_ name <;> decide
  · refine tokens_quotedCommand ?_ ?_ name <;> decide
  · refine tokens_quotedCommand ?_ ?_ name <;> decide

end Netns

end Remote
end Kelt
