import Kelt.Lib.Regex
import Kelt.Ue.Events

/-!
# The log lines of the network functions

`_parse_amf_logs`, `_parse_smf_logs` and `_parse_upf_logs` try their patterns on
each line in turn; the first one that matches makes the event of the line. A
chain is a list of patterns here, each with what it makes of its groups.

What `str.isalnum` says of characters beyond ASCII is left open.
-/

namespace Kelt
namespace Ue
namespace Logs

open Re

section Classes

/-- `\d` -/
def isDecimal (c : Char) : Bool :=
  (decimalValue? c).isSome

/-- `.` -/
def notNewline (c : Char) : Bool :=
  c != '\n'

/-- `[^\]]` -/
def notBracket (c : Char) : Bool :=
  c != ']'

/-- `\w` -/
def isWord (isalnum : Char → Bool) (c : Char) : Bool :=
  if c.toNat < 128 then c.isAlphanum || c == '_' else isalnum c

/-- `\d+` -/
def digits : Re :=
  .many isDecimal 1 none false

/-- `.*` -/
def anything : Re :=
  .many notNewline 0 none false

/-- `.*?` -/
def anythingLazy : Re :=
  .many notNewline 0 none true

/-- `[^\]]*` -/
def inBrackets : Re :=
  .many notBracket 0 none false

/-- `[^\]]+` -/
def someInBrackets : Re :=
  .many notBracket 1 none false

/-- `\s*` -/
def blanks : Re :=
  .many isBlank 0 none false

/-- `\s+` -/
def someBlanks : Re :=
  .many isBlank 1 none false

def oneOf (cs : List Char) : Re :=
  .many (fun c => cs.contains c) 1 (some 1) false

def maybeOf (cs : List Char) : Re :=
  .many (fun c => cs.contains c) 0 (some 1) false

end Classes

section Patterns

variable (isalnum : Char → Bool)

/-- `suci-[^\]]+|imsi-\d+` -/
def idRe : Re :=
  .alt (cat [word "suci-", someInBrackets]) (cat [word "imsi-", digits])

/-- The same without regard to case. -/
def idReNoCase : Re :=
  .alt (cat [noCase "suci-", someInBrackets]) (cat [noCase "imsi-", digits])

/-- `_RE_REG_REQ` -/
def reRegReq : Re :=
  cat [opt (cat [word "[", .group 1 idRe, word "]", anythingLazy]),
    word "Registration request"]

/-- `_RE_REG_OK` -/
def reRegOk : Re :=
  cat [word "[imsi-", .group 1 digits, word "]", anything,
    word "Registration complete"]

/-- `_RE_REG_FAIL` -/
def reRegFail : Re :=
  cat [word "[", .group 1 idReNoCase, word "]", anything,
    noCase "Registration reject"]

/-- `_RE_DEREG_REQ` -/
def reDeregReq : Re :=
  cat [noCase "[imsi-", .group 1 digits, word "]", anything,
    .alt (cat [noCase "UE-initiated de", maybeOf ['-'],
        noCase "registration"])
      (noCase "Deregistration request")]

/-- `_RE_DEREG_OK` -/
def reDeregOk : Re :=
  cat [noCase "[imsi-", .group 1 digits, word "]", anything,
    noCase "Deregistration accept"]

/-- `_RE_GNB_ADDED` -/
def reGnbAdded : Re :=
  cat [word "gNB-N2 accepted[", .group 1 someInBrackets, word "]"]

/-- A line with a number at its end. -/
def countRe (what : String) : Re :=
  cat [word what, .group 1 digits]

/-- `_RE_GNB_UE_ADDED` -/
def reGnbUeAdded : Re :=
  countRe "[Added] Number of gNB-UEs is now "

/-- `_RE_AMF_UE_ADDED` -/
def reAmfUeAdded : Re :=
  countRe "[Added] Number of AMF-UEs is now "

/-- `_RE_AMF_SESSION_ADDED` -/
def reAmfSessionAdded : Re :=
  countRe "[Added] Number of AMF-Sessions is now "

/-- `_RE_AMF_UE_SUPI` -/
def reAmfUeSupi : Re :=
  cat [word "UE SUPI[imsi-", .group 1 digits, word "]", anything,
    word "DNN[", .group 2 inBrackets, word "]", anything,
    word "S_NSSAI[", .group 3 inBrackets, word "]"]

/-- `_RE_SMF_PDU_EST` -/
def reSmfPduEst : Re :=
  cat [word "UE SUPI[imsi-", .group 1 digits, word "]", anythingLazy,
    word "DNN[", .group 2 inBrackets, word "]", anythingLazy,
    word "IPv4[", .group 3 inBrackets, word "]"]

/-- `_RE_SMF_SESSION_ADDED` -/
def reSmfSessionAdded : Re :=
  countRe "[Added] Number of SMF-Sessions is now "

/-- `_RE_SMF_SESSION_REMOVED` -/
def reSmfSessionRemoved : Re :=
  countRe "[Removed] Number of SMF-Sessions is now "

/-- `_RE_SMF_REMOVED_SESSION` -/
def reSmfRemovedSession : Re :=
  cat [noCase "Removed Session:", anythingLazy,
    .alt (noCase "imsi-") (cat [noCase "IMSI:[", opt (noCase "imsi-")]),
    .group 1 digits, maybeOf [']'], anythingLazy, noCase "DNN[",
    .group 2 inBrackets, word "]", anythingLazy, noCase "IPv4[",
    .group 3 inBrackets, word "]"]

/-- `_RE_SMF_UE_ADDED` -/
def reSmfUeAdded : Re :=
  countRe "[Added] Number of SMF-UEs is now "

/-- `_RE_SMF_UE_REMOVED` -/
def reSmfUeRemoved : Re :=
  countRe "[Removed] Number of SMF-UEs is now "

/-- `_RE_UPF_SESSION_ADDED` -/
def reUpfSessionAdded : Re :=
  countRe "[Added] Number of UPF-Sessions is now "

/-- `_RE_UPF_SESSION_REMOVED` -/
def reUpfSessionRemoved : Re :=
  countRe "[Removed] Number of UPF-Sessions is now "

/-- `_RE_GNB_UE_REMOVED` -/
def reGnbUeRemoved : Re :=
  countRe "[Removed] Number of gNB-UEs is now "

/-- `_RE_AMF_UE_REMOVED` -/
def reAmfUeRemoved : Re :=
  countRe "[Removed] Number of AMF-UEs is now "

/-- `_RE_AMF_SESSION_REMOVED` -/
def reAmfSessionRemoved : Re :=
  countRe "[Removed] Number of AMF-Sessions is now "

/-- `_RE_UE_CONTEXT_RELEASE` -/
def reUeContextRelease : Re :=
  cat [noCase "[imsi-", .group 1 digits, word "]", anything,
    .alt (cat [noCase "UE", oneOf ['-', ' '], noCase "Context",
        oneOf ['-', ' '], noCase "Release"])
      (.alt (noCase "context released")
        (.alt (cat [noCase "Release", someBlanks, noCase "context"])
          (cat [noCase "ngap", anything, noCase "release"])))]

/-- `_RE_RELEASE_REASON` -/
def reReleaseReason : Re :=
  cat [noCase "Release", someBlanks, noCase "context", someBlanks,
    noCase "reason", blanks, maybeOf [':', '='], blanks,
    .group 1 (.many (fun c => c != '\n' && c != '\r' && c != ',') 1 none false)]

/-- `_RE_SERVICE_REQ` -/
def reServiceReq : Re :=
  cat [noCase "[imsi-", .group 1 digits, word "]", anything,
    .boundary (isWord isalnum), noCase "Service", blanks, noCase "Request",
    .boundary (isWord isalnum)]

/-- `\bauth(?:entication)?\b` and one of the words for a failure. -/
def authFailed : List Re :=
  [.boundary (isWord isalnum), noCase "auth", opt (noCase "entication"),
    .boundary (isWord isalnum), anything, .boundary (isWord isalnum),
    .alt (noCase "reject") (.alt (noCase "failure") (noCase "fail")),
    .boundary (isWord isalnum)]

/-- `_RE_AUTH_REJECT` -/
def reAuthReject : Re :=
  .alt (cat ([word "[", .group 1 idReNoCase, word "]", anything] ++
      authFailed isalnum))
    (.alt (cat (authFailed isalnum ++
        [anything, word "[", .group 2 idReNoCase, word "]"]))
      (cat (authFailed isalnum)))

/-- `_RE_CAUSE_CODE` -/
def reCauseCode : Re :=
  .alt (cat [.boundary (isWord isalnum), noCase "auth",
      opt (noCase "entication"), someBlanks,
      .alt (noCase "reject") (.alt (noCase "failure") (noCase "fail")),
      blanks, word "[", .group 1 digits, word "]"])
    (cat [.boundary (isWord isalnum), noCase "cause", oneOf ['[', '('],
      .group 2 digits, oneOf [']', ')']])

/-- `_RE_SUCI_PARTS` -/
def reSuciParts : Re :=
  cat [word "suci-", .group 1 digits, word "-",
    .group 2 (.many isDecimal 3 (some 3) false), word "-",
    .group 3 (.many isDecimal 2 (some 3) false), word "-",
    .group 4 (.many isDecimal 0 none false), word "-", .group 5 digits,
    word "-", .group 6 (.many isDecimal 0 none false), word "-",
    .group 7 (.many (fun c => c != ']' && !isBlank c && c != ',') 1 none
      false)]

/-- `_RE_ANSI` -/
def reAnsi : Re :=
  cat [.lit [Char.ofNat 27, '['],
    .many (fun c => ('0' ≤ c && c ≤ '9') || c == ';') 0 none false, word "m"]

/-- `_RE_K8S_TS` -/
def reK8sTs : Re :=
  .group 1 (cat [.many isDecimal 4 (some 4) false, word "-",
    .many isDecimal 2 (some 2) false, word "-",
    .many isDecimal 2 (some 2) false, word "T",
    .many isDecimal 2 (some 2) false, word ":",
    .many isDecimal 2 (some 2) false, word ":",
    .many isDecimal 2 (some 2) false, opt (cat [word ".", digits]),
    maybeOf ['Z']])

/-- `_strip_ansi` -/
def stripAnsi (line : Text) : Text :=
  reAnsi.remove line

/-- `_extract_ts` -/
def extractTs (line : Text) : Text :=
  ((reK8sTs.first none line).bind fun m => captured m.2 1).getD []

/-- `_suci_to_display` -/
def suciToDisplay (ueId : Text) : Text :=
  if ¬ "suci-".toList <+: ueId then
    (if "imsi-".toList <+: ueId then ueId.drop 5 else ueId)
  else
    match reSuciParts.first none ueId with
    | none => ueId
    | some (_, groups) =>
        if captured groups 5 = some ['0'] then
          (captured groups 2).getD [] ++ (captured groups 3).getD [] ++
            (captured groups 7).getD []
        else ueId

end Patterns

section Reasons

variable (isalnum : Char → Bool)

/-- `_5GMM_CAUSES` -/
def fiveGmmCauses : List (Int × Text) :=
  [(3, "Illegal UE — IMSI not provisioned or subscriber JSON malformed"),
    (6, "Illegal ME"),
    (7, "5GS services not allowed"),
    (11, "PLMN not allowed — MCC/MNC in subscriber does not match network"),
    (12, "Tracking area not allowed"),
    (15, "No suitable cells in tracking area"),
    (20, "MAC failure — K/OPc mismatch (SIM key != database value)"),
    (21, "Synch failure — SQN out of sync (delete and re-provision " ++
      "subscriber)"),
    (22, "Congestion"),
    (24, "Security mode rejected, unspecified"),
    (26, "Non-5G authentication unacceptable"),
    (27, "N1 mode not allowed"),
    (31, "Redirection to EPC required"),
    (71, "ngKSI already in use"),
    (90, "Payload was not forwarded")].map fun cause =>
      (cause.1, cause.2.toList)

/-- `_AUTH_FAIL_REASONS` -/
def authFailReasons : List (Text × Text) :=
  let mac := "MAC failure — K/OPc mismatch (SIM key != database value)"
  let synch := "Synch failure — SQN out of sync (delete and re-provision " ++
    "subscriber)"
  let missing := "Subscriber not found in database — check IMSI and JSON format"
  [("mac failure", mac), ("mac", mac), ("synch failure", synch),
    ("sqn failure", synch), ("sqn", synch), ("unknown", missing),
    ("not found", missing),
    ("serving network", "Serving network name mismatch (PLMN/MCC-MNC)"),
    ("illegal ue", "Illegal UE — subscriber not provisioned or JSON " ++
      "malformed")].map fun reason => (reason.1.toList, reason.2.toList)

/-- `str.lower`, as far as it gives ASCII characters. -/
def lower (t : Text) : Text :=
  t.flatMap fun c =>
    if c = Char.ofNat 0x130 then ['i', Char.ofNat 0x307]
    else if c = Char.ofNat 0x212a then ['k']
    else [c.toLower]

/-- The cause code of a line. -/
def causeCode (text : Text) : Option Int :=
  ((reCauseCode isalnum).search text).bind fun groups =>
    ((captured groups 1).or (captured groups 2)).bind int10

/-- `_extract_auth_reason` -/
def extractAuthReason (text : Text) : Text :=
  match causeCode isalnum text with
  | some code =>
      "5GMM Cause [".toList ++ intText code ++ "]: ".toList ++
        ((fiveGmmCauses.find? fun cause => cause.1 == code).map
          Prod.snd).getD "unknown cause".toList
  | none =>
      ((authFailReasons.find? fun reason => decide (reason.1 <:+: lower text)).map
        Prod.snd).getD "Check AMF logs for detailed cause".toList

/-- `_raw_excerpt` -/
def rawExcerpt (line : Text) : Text :=
  (strip (if ' ' ∈ line then after ' ' line else line)).take 350

end Reasons

section Chains

variable (isalnum : Char → Bool)

/-- The fields of an event that only the rows of the list show. -/
structure Detail where
  severity : Text
  detail : Text
  reason : Text
  slice : Text
  rawLog : Text
  causeCode : Option Int

abbrev LogEvent := Event Detail

/-- One block of a parser: a pattern, and the event that its groups make with
the time and the text of the line. -/
structure Rule where
  re : Re
  event : Text → Text → List (ℕ × Text) → LogEvent

/-- An event of a network function. -/
def logEvent (source type severity : String) (ts detail reason : Text) :
    LogEvent :=
  { type := type.toList, ts, imsi := [], gnbIp := [],
    source := source.toList, ueIp := [], dnn := [],
    rest := ⟨severity.toList, detail, reason, [], [], none⟩ }

/-- A block for a number that has changed. -/
def countRule (re : Re) (source type severity detail reason : String) : Rule :=
  { re
    event := fun ts _ groups =>
      logEvent source type severity ts
        (detail.toList ++ (captured groups 1).getD []) reason.toList }

/-- A block for the UE of group 1. -/
def ueRule (re : Re) (type before after reason : String) : Rule :=
  { re
    event := fun ts _ groups =>
      let imsi := (captured groups 1).getD []
      { logEvent "amf" type "info" ts
          (before.toList ++ imsi ++ after.toList) reason.toList with imsi } }

/-- The subscriber of a tag, if there is one. -/
def taggedImsi (tag : Option Text) : Text :=
  match tag with
  | none => []
  | some [] => []
  | some (c :: rest) => suciToDisplay (c :: rest)

/-- `detail` with the subscriber, or without. -/
def ueDetail (imsi : Text) (before after without : String) : Text :=
  if imsi = [] then without.toList
  else before.toList ++ imsi ++ after.toList

/-- The reason that a release gives. -/
def releaseReason (text : Text) : Text :=
  match reReleaseReason.search text with
  | some groups =>
      "gNB reported: ".toList ++ strip ((captured groups 1).getD [])
  | none =>
      ("UE entered CM-IDLE. N2 context released, " ++
        "registration retained.").toList

def gnbAddedRule : Rule :=
  { re := reGnbAdded
    event := fun ts _ groups =>
      let gnbIp := (captured groups 1).getD []
      { logEvent "amf" "gnb_connect" "info" ts
          ("gNB connected from ".toList ++ gnbIp) [] with gnbIp } }

def regFailRule : Rule :=
  { re := reRegFail
    event := fun ts _ groups =>
      let imsi := taggedImsi (captured groups 1)
      { logEvent "amf" "registration_fail" "warning" ts
          (ueDetail imsi "UE " " registration rejected"
            "UE registration rejected")
          ("Network rejected Registration Request — check subscriber " ++
            "provisioning").toList with imsi } }

def regReqRule : Rule :=
  { re := reRegReq
    event := fun ts _ groups =>
      let imsi := taggedImsi (captured groups 1)
      { logEvent "amf" "registration_req" "info" ts
          (ueDetail imsi "Registration request from " ""
            "Registration request received") [] with imsi } }

def pduRequestRule : Rule :=
  { re := reAmfUeSupi
    event := fun ts _ groups =>
      let imsi := (captured groups 1).getD []
      let dnn := (captured groups 2).getD []
      let slice := (captured groups 3).getD []
      let detail := "UE ".toList ++ imsi ++ " PDU request DNN:".toList ++
        dnn ++ " S-NSSAI:".toList ++ slice
      { logEvent "amf" "pdu_request" "info" ts detail [] with
        imsi, dnn, rest := ⟨"info".toList, detail, [], slice, [], none⟩ } }

def contextReleaseRule : Rule :=
  { re := reUeContextRelease
    event := fun ts text groups =>
      let imsi := (captured groups 1).getD []
      { logEvent "amf" "ue_context_release" "info" ts
          ("UE ".toList ++ imsi ++ " went idle (N2 released)".toList)
          (releaseReason text) with imsi } }

def authRejectRule : Rule :=
  { re := reAuthReject isalnum
    event := fun ts text groups =>
      let imsi := taggedImsi ((captured groups 1).or (captured groups 2))
      let detail := ueDetail imsi "Authentication rejected for " ""
        "Authentication rejected"
      { logEvent "amf" "auth_reject" "error" ts detail [] with
        imsi,
        rest := ⟨"error".toList, detail, extractAuthReason isalnum text, [],
          rawExcerpt text, causeCode isalnum text⟩ } }

/-- The blocks of `_parse_amf_logs`. -/
def amfRules : List Rule :=
  [gnbAddedRule,
    ueRule reRegOk "registration_ok" "UE " " registered" "",
    regFailRule,
    ueRule reDeregOk "deregistration_ok" "UE " " deregistration complete"
      ("UE has been removed from AMF context (normal shutdown, SIM pulled, " ++
        "or network release)"),
    ueRule reDeregReq "deregistration_req" "UE " " deregistration requested"
      ("UE is disconnecting (power-off, airplane mode, or " ++
        "network-initiated release)"),
    regReqRule,
    countRule reGnbUeAdded "amf" "ue_count_change" "info" "gNB-UE count now "
      "",
    countRule reAmfUeAdded "amf" "ue_count_change" "info" "AMF-UE count now "
      "",
    countRule reAmfSessionAdded "amf" "session_count_change" "info"
      "AMF session count now " "",
    pduRequestRule,
    countRule reGnbUeRemoved "amf" "ue_count_change" "warning"
      "gNB-UE count decreased to "
      ("A UE detached from the gNB — may indicate UE power-off or " ++
        "signal loss"),
    countRule reAmfUeRemoved "amf" "ue_count_change" "warning"
      "AMF-UE count decreased to "
      ("UE deregistered from AMF — normal shutdown or network-initiated " ++
        "release"),
    countRule reAmfSessionRemoved "amf" "session_count_change" "warning"
      "AMF session count decreased to "
      "AMF session ended (UE disconnect or idle timeout)",
    contextReleaseRule,
    ueRule (reServiceReq isalnum) "service_request" "UE "
      " service request (returning from idle)" "",
    authRejectRule isalnum]

/-- A block for a session of a UE. -/
def sessionRule (re : Re) (type before between reason : String) : Rule :=
  { re
    event := fun ts _ groups =>
      let imsi := (captured groups 1).getD []
      let dnn := (captured groups 2).getD []
      let ueIp := (captured groups 3).getD []
      { logEvent "smf" type "info" ts
          (before.toList ++ imsi ++ between.toList ++ ueIp ++
            " (DNN: ".toList ++ dnn ++ ")".toList) reason.toList with
        imsi, dnn, ueIp } }

/-- The blocks of `_parse_smf_logs`. -/
def smfRules : List Rule :=
  [sessionRule reSmfPduEst "pdu_session_est" "PDU session: " " -> " "",
    sessionRule reSmfRemovedSession "pdu_session_rel"
      "PDU session released: " " "
      "PDU session ended — UE disconnect or session timeout",
    countRule reSmfSessionRemoved "smf" "session_count_change" "info"
      "SMF session count now " "",
    countRule reSmfSessionAdded "smf" "session_count_change" "info"
      "SMF session count now " "",
    countRule reSmfUeAdded "smf" "ue_count_change" "info" "SMF-UE count now "
      "",
    countRule reSmfUeRemoved "smf" "ue_count_change" "warning"
      "SMF-UE count decreased to "
      "A UE was removed from SMF — session cleanup"]

/-- The blocks of `_parse_upf_logs`. -/
def upfRules : List Rule :=
  [countRule reUpfSessionAdded "upf" "session_count_change" "info"
      "UPF session count now " "",
    countRule reUpfSessionRemoved "upf" "session_count_change" "warning"
      "UPF session count decreased to " "A UPF GTP-U session was removed"]

/-- The event of a line: that of the first block whose pattern matches. -/
def lineEvent (rules : List Rule) (line : Text) : Option LogEvent :=
  let text := stripAnsi line
  rules.findSome? fun rule =>
    (rule.re.search text).map (rule.event (extractTs line) text)

/-- The events of a log. -/
def parseLogs (rules : List Rule) (raw : Text) : List LogEvent :=
  (splitlines raw).filterMap (lineEvent rules)

/-- Each line of a log is taken on its own. -/
theorem parseLogs_unlines {rules : List Rule} {lines : List Text}
    (h : ∀ l ∈ lines, OneLine l) :
    parseLogs rules (unlines lines) = lines.filterMap (lineEvent rules) := by
  unfold parseLogs
  rw [splitlines_unlines h]

end Chains

end Logs
end Ue
end Kelt
