import Kelt.Ue.LogPatterns

/-!
# The forms of the log lines

The comments of the parsers give forms of lines, with a subscriber by its IMSI
or by its SUCI, behind a time and with colour codes anywhere. A form of the AMF
is told from the patterns above its own by its letters: a pattern needs words
that the line does not have, whatever the digits are
(`search_eq_none_of_take`). In the lines of the SMF the names of the network and
the address may be any text without brackets, and the brackets decide.

Each form makes its one event, but for the session that is removed: its pattern
asks for `DNN[` where the form has `DNN:[` (`reports_iff`).
-/

namespace Kelt
namespace Ue
namespace Logs

open Re

section Forms

def Digits (t : Text) : Prop :=
  ∀ c ∈ t, c.isDigit = true

/-- A subscriber, with what its SUCI with the null scheme says besides. -/
structure Subscriber where
  mcc : Text
  mnc : Text
  msin : Text
  supiType : Text
  routing : Text
  keyId : Text
  mcc_length : mcc.length = 3
  mnc_length : mnc.length = 2 ∨ mnc.length = 3
  msin_ne_nil : msin ≠ []
  supiType_ne_nil : supiType ≠ []
  digits : ∀ t ∈ [mcc, mnc, msin, supiType, routing, keyId], Digits t

def Subscriber.imsi (s : Subscriber) : Text :=
  s.mcc ++ s.mnc ++ s.msin

/-- `suci-{supi_type}-{mcc}-{mnc}-{ri}-0-{hpki}-{msin}` -/
def Subscriber.suci (s : Subscriber) : Text :=
  "suci-".toList ++ (s.supiType ++ ("-".toList ++ (s.mcc ++ ("-".toList ++
    (s.mnc ++ ("-".toList ++ (s.routing ++ ("-".toList ++ (['0'] ++
      ("-".toList ++ (s.keyId ++ ("-".toList ++ s.msin))))))))))))

/-- A subscriber is written by its IMSI or by its SUCI. -/
inductive Tag where
  | imsi
  | suci
deriving DecidableEq

def Tag.text (s : Subscriber) : Tag → Text
  | .imsi => "imsi-".toList ++ s.imsi
  | .suci => s.suci

/-- A text without brackets, in one line. -/
structure Inner where
  text : Text
  plain : '[' ∉ text ∧ ']' ∉ text
  oneLine : OneLine text

/-- The number of a cause. -/
structure Cause where
  text : Text
  digits : Digits text

inductive AmfForm where
  | registrationRequest (tag : Option Tag)
  | registrationComplete
  | registrationReject (tag : Tag)
  | deregistrationAccept
  | deregistrationRequest
  | ueInitiated
  | contextReleaseRequest
  | contextReleaseComplete
  | releaseContext
  | contextReleaseDashed
  | serviceRequest
  | authenticationFailure (tag : Tag) (cause : Cause)
  | macFailure
  | authenticationReject (tag : Tag)

/-- How the line names the subscriber. -/
def AmfForm.tag : AmfForm → Option Tag
  | .registrationRequest tag => tag
  | .registrationReject tag => some tag
  | .authenticationFailure tag _ => some tag
  | .authenticationReject tag => some tag
  | .macFailure => none
  | _ => some .imsi

/-- The message is made of a fixed text and of digits, in brackets. -/
def AmfForm.message : AmfForm → Text
  | .registrationRequest _ => "Registration request".toList
  | .registrationComplete => "Registration complete".toList
  | .registrationReject _ => "Registration reject".toList
  | .deregistrationAccept => "Deregistration accept".toList
  | .deregistrationRequest => "Deregistration request".toList
  | .ueInitiated => "UE-initiated De-registration".toList
  | .contextReleaseRequest => "UE Context Release Request".toList
  | .contextReleaseComplete => "UE Context Release Complete".toList
  | .releaseContext =>
      "Release context reason:Radio Connection With UE Lost".toList
  | .contextReleaseDashed => "UE-Context-Release-Complete".toList
  | .serviceRequest => "Service Request".toList
  | .authenticationFailure _ cause =>
      "Authentication failure [".toList ++ (cause.text ++ "]".toList)
  | .macFailure => "Authentication failure(MAC failure)".toList
  | .authenticationReject _ => "Authentication reject".toList

/-- The event that is meant. -/
def AmfForm.type : AmfForm → Text
  | .registrationRequest _ => "registration_req".toList
  | .registrationComplete => "registration_ok".toList
  | .registrationReject _ => "registration_fail".toList
  | .deregistrationAccept => "deregistration_ok".toList
  | .deregistrationRequest => "deregistration_req".toList
  | .ueInitiated => "deregistration_req".toList
  | .contextReleaseRequest => "ue_context_release".toList
  | .contextReleaseComplete => "ue_context_release".toList
  | .releaseContext => "ue_context_release".toList
  | .contextReleaseDashed => "ue_context_release".toList
  | .serviceRequest => "service_request".toList
  | .authenticationFailure _ _ => "auth_reject".toList
  | .macFailure => "auth_reject".toList
  | .authenticationReject _ => "auth_reject".toList

/-- The subscriber in brackets, before a message. -/
def tagged (tag : Option Tag) (s : Subscriber) (message : Text) : Text :=
  match tag with
  | none => message
  | some tag => ['['] ++ (tag.text s ++ ([']'] ++ (' ' :: message)))

inductive Form where
  | amf (form : AmfForm)
  | established (dnn address : Inner) (sNssai : Option Inner)
  | removedSession (dnn address : Inner)

/-- The S-NSSAI that may stand before the address. -/
def sNssaiText : Option Inner → Text
  | none => " ".toList
  | some sNssai => " S-NSSAI[".toList ++ (sNssai.text ++ "] ".toList)

def Form.text (s : Subscriber) : Form → Text
  | .amf form => tagged form.tag s form.message
  | .established dnn address sNssai =>
      "UE SUPI[imsi-".toList ++ (s.imsi ++ ("]".toList ++ (" ".toList ++
        ("DNN[".toList ++ (dnn.text ++ ("]".toList ++ (sNssaiText sNssai ++
          ("IPv4[".toList ++ (address.text ++ ("]".toList ++ []))))))))))
  | .removedSession dnn address =>
      "Removed Session: UE IMSI:".toList ++ '[' :: ("imsi-".toList ++
        s.imsi ++ "] DNN:".toList ++ '[' :: (dnn.text ++
          "] IPv4:".toList ++ '[' :: (address.text ++ "]".toList)))

def Form.type : Form → Text
  | .amf form => form.type
  | .established _ _ _ => "pdu_session_est".toList
  | .removedSession _ _ => "pdu_session_rel".toList

/-- The subscriber that the event is to have. -/
def Form.imsi (s : Subscriber) : Form → Text
  | .amf form => if form.tag = none then [] else s.imsi
  | .established _ _ _ => s.imsi
  | .removedSession _ _ => s.imsi

def Form.dnn : Form → Text
  | .amf _ => []
  | .established dnn _ _ => dnn.text
  | .removedSession dnn _ => dnn.text

def Form.address : Form → Text
  | .amf _ => []
  | .established _ address _ => address.text
  | .removedSession _ address => address.text

/-- The parser of the log that the form stands in. -/
def Form.rules (isalnum : Char → Bool) : Form → List Rule
  | .amf _ => amfRules isalnum
  | .established _ _ _ => smfRules
  | .removedSession _ _ => smfRules

/-- The characters of a time. -/
def stampChars : List Char :=
  "0123456789-:./+TZ, ".toList

/-- A line with colour codes in it. -/
inductive Coloured : Text → Text → Prop
  | nil : Coloured [] []
  | char (c : Char) {plain line : Text} (h : Coloured plain line) :
      Coloured (c :: plain) (c :: line)
  | code {params plain line : Text}
      (hparams : ∀ c ∈ params, c.isDigit = true ∨ c = ';')
      (h : Coloured plain line) :
      Coloured plain
        (Char.ofNat 27 :: '[' :: (params ++ 'm' :: line))

/-- A line of some form, behind a time. -/
structure LogLine where
  subscriber : Subscriber
  stamp : Text
  form : Form
  line : Text
  stamp_chars : ∀ c ∈ stamp, c ∈ stampChars
  coloured : Coloured (stamp ++ ' ' :: form.text subscriber) line

/-- The line makes one event, the one that is meant. -/
def LogLine.Reports (l : LogLine) (isalnum : Char → Bool) : Prop :=
  ∃ ev, parseLogs (l.form.rules isalnum) (unlines [l.line]) = [ev] ∧
    ev.type = l.form.type ∧ ev.imsi = l.form.imsi l.subscriber ∧
    ev.dnn = l.form.dnn ∧ ev.ueIp = l.form.address

end Forms

section Digits

theorem mem_digitChars {c : Char} (h : c.isDigit = true) :
    c ∈ "0123456789".toList := by
  obtain ⟨hlow, hhigh⟩ := isDigit_toNat h
  rw [← Char.ofNat_toNat c]
  generalize c.toNat = n at hlow hhigh
  interval_cases n <;> decide

theorem of_isDigit {P : Char → Prop} {c : Char}
    (hP : ∀ d ∈ "0123456789".toList, P d) (h : c.isDigit = true) : P c :=
  hP c (mem_digitChars h)

theorem isDecimal_of_isDigit {c : Char} (h : c.isDigit = true) :
    isDecimal c = true :=
  of_isDigit (P := fun c => isDecimal c = true) (by decide) h

theorem notMem_of_digits {c : Char} (hc : c.isDigit = false) {t : Text}
    (h : Digits t) : c ∉ t := by
  intro hmem
  have hdigit := h c hmem
  rw [hc] at hdigit
  cases hdigit

theorem Digits.append {s t : Text} (hs : Digits s) (ht : Digits t) :
    Digits (s ++ t) := by
  intro c hc
  rcases List.mem_append.1 hc with hc | hc
  · exact hs c hc
  · exact ht c hc

theorem Subscriber.imsi_digits (s : Subscriber) : Digits s.imsi :=
  ((s.digits _ (by simp)).append (s.digits _ (by simp))).append
    (s.digits _ (by simp))

theorem Subscriber.imsi_ne_nil (s : Subscriber) : s.imsi ≠ [] :=
  List.append_ne_nil_of_right_ne_nil _ s.msin_ne_nil

end Digits

section Colour

/-- What is taken is skipped. -/
theorem removeFrom_length (r : Re) (taken t : Text) (prev : Option Char) :
    ∃ prev', r.removeFrom taken.length prev (taken ++ t) =
      r.removeFrom 0 prev' t := by
  induction taken generalizing prev with
  | nil => exact ⟨prev, rfl⟩
  | cons c taken ih => exact ih (some c)

theorem reAnsi_first_char {c : Char} {line : Text} (prev : Option Char)
    (h : c = Char.ofNat 27 → line.head? ≠ some '[') :
    reAnsi.first prev (c :: line) = none := by
  cases hfirst : reAnsi.first prev (c :: line) with
  | none => rfl
  | some m =>
      have hpre : [Char.ofNat 27, '['] <+: c :: line :=
        Re.prefix_of_seq_lit (List.ne_nil_of_mem (Re.mem_of_first hfirst))
      rw [List.cons_prefix_cons] at hpre
      obtain ⟨rest, hrest⟩ := hpre.2
      refine absurd ?_ (h hpre.1.symm)
      rw [← hrest]
      rfl

theorem reAnsi_first_code {params : Text} (line : Text) (prev : Option Char)
    (hparams : ∀ c ∈ params, c.isDigit = true ∨ c = ';') :
    reAnsi.first prev (Char.ofNat 27 :: '[' :: (params ++ 'm' :: line)) =
      some (Char.ofNat 27 :: '[' :: (params ++ ['m']), []) := by
  have hp : ∀ c ∈ params,
      (('0' ≤ c && c ≤ '9') || c == ';' : Bool) = true := by
    intro c hc
    rcases hparams c hc with hdigit | rfl
    · exact of_isDigit (P := fun c =>
        (('0' ≤ c && c ≤ '9') || c == ';' : Bool) = true)
        (by decide) hdigit
    · rfl
  have hm : ∀ x : Text, (∀ c ∈ x, (('0' ≤ c && c ≤ '9') || c == ';' : Bool) =
      true) → 'm' ∉ x := fun x hx hmem => absurd (hx 'm' hmem) (by decide)
  have hskip := @Re.first_skip
    (lastChar prev [Char.ofNat 27, '[']) _ false params ['m'] line (.lit [])
    hp fun x z hx heq => by
      have hbefore := congrArg (before 'm') heq
      rwa [List.singleton_append, List.singleton_append,
        before_append_cons (hm x hx), before_append_cons (hm params hp)]
        at hbefore
  refine (Re.first_seq_lit [Char.ofNat 27, '['] _ _).trans ?_
  refine (congrArg (Option.map _) hskip).trans ?_
  rw [show (Re.lit []).first _ line = some ([], []) from
    Re.first_lit [] line, Option.map_some, Option.map_some]
  unfold Found.append
  rw [List.append_nil]
  rfl

theorem head?_of_coloured {plain line : Text} (h : Coloured plain line)
    (hhead : line.head? = some '[') : plain.head? = some '[' := by
  cases h with
  | nil => cases hhead
  | char c h => exact hhead
  | code hparams h => cases hhead

/-- A line without its colour codes. -/
theorem stripAnsi_of_coloured {plain line : Text} (h : Coloured plain line)
    (hplain : ¬ [Char.ofNat 27, '['] <:+: plain) : stripAnsi line = plain := by
  have hremove : ∀ prev, reAnsi.removeFrom 0 prev line = plain := by
    induction h with
    | nil => exact fun _ => rfl
    | @char c plain line h ih =>
        intro prev
        have htail : ¬ [Char.ofNat 27, '['] <:+: plain :=
          fun hinf => hplain (hinf.trans (List.suffix_cons c plain).isInfix)
        rw [Re.removeFrom, reAnsi_first_char]
        · exact congrArg (c :: ·) (ih htail _)
        · intro hesc hhead
          obtain ⟨rest, hrest⟩ :=
            List.head?_eq_some_iff.1 (head?_of_coloured h hhead)
          refine hplain (List.IsPrefix.isInfix ⟨rest, ?_⟩)
          rw [hesc, hrest]
          rfl
    | @code params plain line hparams h ih =>
        intro prev
        rw [Re.removeFrom, reAnsi_first_code line prev hparams]
        obtain ⟨prev', hskip⟩ := removeFrom_length reAnsi
          ('[' :: (params ++ ['m'])) line (some (Char.ofNat 27))
        rw [List.cons_append, List.append_assoc] at hskip
        exact hskip.trans (ih hplain prev')
  exact hremove none

end Colour

section Display

variable (s : Subscriber)

/-- A field of digits before a dash. -/
theorem takes_digits {n least : ℕ} {most : Option ℕ} {r : Re}
    {field rest : Text} {prev : Option Char} {groups : List (ℕ × Text)}
    (hfield : Digits field) (hleast : least ≤ field.length)
    (hmost : ∀ k ∈ most, field.length ≤ k)
    (h : r.Takes (lastChar (lastChar prev field) ['-']) rest groups) :
    (Re.seq (.group n (.many isDecimal least most false))
      (.seq (word "-") r)).Takes prev (field ++ ("-".toList ++ rest))
      ((n, field) :: groups) := by
  have hdash : isDecimal '-' = false := by decide
  exact Re.takes_field (c := '-') (Re.mem_many_append _
      (fun c hc => isDecimal_of_isDigit (hfield c hc)) hleast hmost)
    (congrArg not hdash) rfl h

theorem length_pos {t : Text} (h : t ≠ []) : 1 ≤ t.length :=
  List.length_pos_of_ne_nil h

theorem takes_suci :
    reSuciParts.Takes none s.suci
      [(1, s.supiType), (2, s.mcc), (3, s.mnc), (4, s.routing), (5, ['0']),
        (6, s.keyId), (7, s.msin)] := by
  have hdigits := s.digits
  simp only [List.forall_mem_cons, List.not_mem_nil, false_implies,
    implies_true, and_true] at hdigits
  obtain ⟨hmcc, hmnc, hmsin, htype, hrouting, hkey⟩ := hdigits
  have hscheme : Digits ['0'] := by
    intro c hc
    rw [List.mem_singleton.1 hc]
    rfl
  have hmsin' : ∀ c ∈ s.msin,
      (c != ']' && !isBlank c && c != ',') = true := fun c hc =>
    of_isDigit (P := fun c => (c != ']' && !isBlank c && c != ',') = true)
      (by decide) (hmsin c hc)
  have hnone : ∀ {n : ℕ}, ∀ k ∈ (none : Option ℕ), n ≤ k :=
    fun _ h => (Option.not_mem_none _ h).elim
  refine Re.takes_lit ?_
  refine takes_digits htype (length_pos s.supiType_ne_nil) hnone ?_
  refine takes_digits hmcc s.mcc_length.ge ?_ ?_
  · rintro k ⟨⟩
    exact s.mcc_length.le
  refine takes_digits hmnc ?_ ?_ ?_
  · rcases s.mnc_length with h | h <;> omega
  · rintro k ⟨⟩
    rcases s.mnc_length with h | h <;> omega
  refine takes_digits hrouting (Nat.zero_le _) hnone ?_
  refine takes_digits hscheme le_rfl hnone ?_
  refine takes_digits hkey (Nat.zero_le _) hnone ?_
  exact Re.takes_greedy hmsin' (length_pos s.msin_ne_nil)

/-- The IMSI and the SUCI of a subscriber are shown as the same text. -/
theorem suciToDisplay_text (tag : Tag) :
    suciToDisplay (tag.text s) = s.imsi := by
  cases tag with
  | imsi =>
      have hnot : ¬ "suci-".toList <+: Tag.imsi.text s := by
        rintro ⟨rest, hrest⟩
        exact absurd (List.cons_eq_cons.1 hrest).1 (by decide)
      have hpre : "imsi-".toList <+: Tag.imsi.text s :=
        List.prefix_append _ _
      unfold suciToDisplay
      rw [if_pos hnot, if_pos hpre]
      rfl
  | suci =>
      obtain ⟨taken, htaken⟩ := takes_suci s
      have hpre : "suci-".toList <+: Tag.suci.text s :=
        List.prefix_append _ _
      have hfirst : reSuciParts.first none (Tag.suci.text s) = _ := htaken
      unfold suciToDisplay
      rw [if_neg (not_not.2 hpre), hfirst]
      rfl

end Display

section Letters

/-- Characters that no time and no digit has. -/
def isMark (c : Char) : Bool :=
  c.isLower && c != 't' && c != 'z'

/-- The letters of a text that tell a pattern, without regard to case. -/
def marks (t : Text) : Text :=
  (t.map foldCase).filter isMark

theorem marks_append (s t : Text) : marks (s ++ t) = marks s ++ marks t := by
  unfold marks
  rw [List.map_append, List.filter_append]

theorem marks_infix {word t : Text}
    (h : word.map foldCase <:+: t.map foldCase) : marks word <:+: marks t :=
  h.filter isMark

theorem marks_eq_nil {t : Text} (h : ∀ c ∈ t, isMark (foldCase c) = false) :
    marks t = [] := by
  unfold marks
  rw [List.filter_eq_nil_iff]
  intro c hc
  obtain ⟨d, hd, rfl⟩ := List.mem_map.1 hc
  simp [h d hd]

theorem marks_digits {t : Text} (h : Digits t) : marks t = [] :=
  marks_eq_nil fun _ hc =>
    of_isDigit (P := fun c => isMark (foldCase c) = false) (by decide)
      (h _ hc)

theorem marks_stamp {t : Text} (h : ∀ c ∈ t, c ∈ stampChars) :
    marks t = [] := by
  have hstamp : ∀ c ∈ stampChars, isMark (foldCase c) = false := by decide
  exact marks_eq_nil fun c hc => hstamp c (h c hc)

/-- The letters of a tag. -/
def Tag.marks : Tag → Text
  | .imsi => Logs.marks "imsi".toList
  | .suci => Logs.marks "suci".toList

theorem marks_tag (s : Subscriber) (tag : Tag) :
    marks (tag.text s) = tag.marks := by
  cases tag with
  | imsi =>
      unfold Tag.text
      rw [marks_append, marks_digits s.imsi_digits]
      decide
  | suci =>
      have hdash : marks "-".toList = [] := by decide
      have hscheme : marks ['0'] = [] := by decide
      have hdigits : ∀ t ∈ [s.mcc, s.mnc, s.msin, s.supiType, s.routing,
          s.keyId], marks t = [] := fun t ht => marks_digits (s.digits t ht)
      simp only [List.forall_mem_cons, List.not_mem_nil, false_implies,
        implies_true, and_true] at hdigits
      obtain ⟨hmcc, hmnc, hmsin, htype, hrouting, hkey⟩ := hdigits
      unfold Tag.text Subscriber.suci
      simp only [marks_append, hmcc, hmnc, hmsin, htype, hrouting, hkey, hdash,
        hscheme, List.append_nil]
      decide

end Letters

section Above

variable (isalnum : Char → Bool)

/-- The place of the pattern of a form. -/
def AmfForm.place : AmfForm → ℕ
  | .registrationRequest _ => 5
  | .registrationComplete => 1
  | .registrationReject _ => 2
  | .deregistrationAccept => 3
  | .deregistrationRequest => 4
  | .ueInitiated => 4
  | .contextReleaseRequest => 13
  | .contextReleaseComplete => 13
  | .releaseContext => 13
  | .contextReleaseDashed => 13
  | .serviceRequest => 14
  | .authenticationFailure _ _ => 15
  | .macFailure => 15
  | .authenticationReject _ => 15

/-- The message without its digits. -/
def AmfForm.fixed : AmfForm → Text
  | .authenticationFailure _ _ => "Authentication failure []".toList
  | form => form.message

/-- What is asked of a form where the patterns above its own are concerned: the
place, how the subscriber is named, and the fixed text. -/
def AmfForm.kind (form : AmfForm) : ℕ × Option Tag × Text :=
  (form.place, form.tag, form.fixed)

/-- The number does not count. -/
def someCause : Cause :=
  ⟨[], by simp [Digits]⟩

/-- The kinds of the forms. -/
def amfKinds : List (ℕ × Option Tag × Text) :=
  ([none, some .imsi, some .suci].map fun tag =>
      (AmfForm.registrationRequest tag).kind) ++
    ([.imsi, .suci].flatMap fun tag =>
      [(AmfForm.registrationReject tag).kind,
        (AmfForm.authenticationFailure tag someCause).kind,
        (AmfForm.authenticationReject tag).kind]) ++
    [AmfForm.registrationComplete, .deregistrationAccept,
      .deregistrationRequest, .ueInitiated, .contextReleaseRequest,
      .contextReleaseComplete, .releaseContext, .contextReleaseDashed,
      .serviceRequest, .macFailure].map AmfForm.kind

theorem kind_mem_amfKinds (form : AmfForm) : form.kind ∈ amfKinds := by
  cases form with
  | registrationRequest tag =>
      rcases tag with _ | tag
      · simp [amfKinds]
      · cases tag <;> simp [amfKinds]
  | registrationReject tag => cases tag <;> simp [amfKinds]
  | authenticationFailure tag cause =>
      have hkind : (AmfForm.authenticationFailure tag cause).kind =
          (AmfForm.authenticationFailure tag someCause).kind := rfl
      rw [hkind]
      cases tag <;> simp [amfKinds]
  | authenticationReject tag => cases tag <;> simp [amfKinds]
  | _ => simp [amfKinds]

/-- The words of the patterns of the AMF. -/
def amfClauses : List (List (List Text)) :=
  (amfRules fun _ => false).map fun rule => rule.re.clauses

theorem map_clauses_amfRules :
    (amfRules isalnum).map (fun rule => rule.re.clauses) = amfClauses :=
  rfl

def tagMarks : Option Tag → Text
  | none => []
  | some tag => tag.marks

/-- Each pattern above needs a word with letters that the kind does not have. -/
def isTold (kind : ℕ × Option Tag × Text) : Bool :=
  (amfClauses.take kind.1).all fun clauses =>
    clauses.any fun clause => clause.all fun word =>
      !decide (marks word <:+: tagMarks kind.2.1 ++ marks kind.2.2)

theorem isTold_of_mem : ∀ kind ∈ amfKinds, isTold kind = true := by
  decide

theorem marks_message (form : AmfForm) :
    marks form.message = marks form.fixed := by
  cases form with
  | authenticationFailure tag cause =>
      have hfixed : marks "Authentication failure [".toList ++
          marks "]".toList = marks "Authentication failure []".toList := by
        decide
      unfold AmfForm.message
      rw [marks_append, marks_append, marks_digits cause.digits,
        List.nil_append]
      exact hfixed
  | _ => rfl

theorem marks_tagged (tag : Option Tag) (s : Subscriber) (message : Text) :
    marks (tagged tag s message) = tagMarks tag ++ marks message := by
  cases tag with
  | none => rfl
  | some tag =>
      unfold tagged
      rw [marks_append, marks_append, marks_append, marks_tag]
      rfl

/-- No pattern above its own matches a line of the form. -/
theorem search_eq_none_of_take (s : Subscriber) (form : AmfForm) {stamp : Text}
    (hstamp : ∀ c ∈ stamp, c ∈ stampChars) :
    ∀ rule ∈ (amfRules isalnum).take form.place,
      rule.re.search (stamp ++ ' ' :: tagged form.tag s form.message) =
        none := by
  intro rule hrule
  have hmarks : marks (stamp ++ ' ' :: tagged form.tag s form.message) =
      tagMarks form.tag ++ marks form.fixed := by
    rw [marks_append, marks_stamp hstamp, List.nil_append, ← marks_message,
      ← marks_tagged]
    rfl
  have hclauses : rule.re.clauses ∈ amfClauses.take form.place := by
    rw [← map_clauses_amfRules isalnum, ← List.map_take]
    exact List.mem_map_of_mem hrule
  have htold := isTold_of_mem _ (kind_mem_amfKinds form)
  obtain ⟨clause, hclause, hwords⟩ :=
    List.any_eq_true.1 (List.all_eq_true.1 htold _ hclauses)
  refine Re.search_eq_none hclause fun word hword hinf => ?_
  have habsent := List.all_eq_true.1 hwords word hword
  have hpresent := marks_infix hinf
  rw [hmarks] at hpresent
  change marks word <:+: tagMarks form.kind.2.1 ++ marks form.kind.2.2
    at hpresent
  rw [decide_eq_true hpresent] at habsent
  cases habsent

end Above

section Own

variable (s : Subscriber)

/-- A pattern that no time can start. -/
def Re.Behind (r : Re) : Prop :=
  r.nullable = false ∧ ∀ c ∈ stampChars, r.starts c = false

theorem search_behind {r : Re} {stamp t : Text} {groups : List (ℕ × Text)}
    (hr : Re.Behind r) (hstamp : ∀ c ∈ stamp, c ∈ stampChars)
    (h : r.Takes (some ' ') t groups) :
    r.search (stamp ++ ' ' :: t) = some groups := by
  have hskip : ∀ c ∈ stamp ++ [' '], r.starts c = false := by
    intro c hc
    rcases List.mem_append.1 hc with hc | hc
    · exact hr.2 c (hstamp c hc)
    · rw [List.mem_singleton.1 hc]
      exact hr.2 ' ' (by decide)
  have hsearch := Re.search_of_takes (t := t) hr.1 hskip
    (by rw [List.getLast?_concat]; exact h)
  rwa [List.append_assoc] at hsearch

theorem tagged_imsi (message : Text) :
    tagged (some .imsi) s message =
      "[imsi-".toList ++ (s.imsi ++ ([']'] ++ ' ' :: message)) := by
  have hopen : "[imsi-".toList = ['['] ++ "imsi-".toList := by decide
  rw [hopen, List.append_assoc]
  change ['['] ++ (("imsi-".toList ++ s.imsi) ++ _) = _
  rw [List.append_assoc]

/-- The number of an IMSI before a bracket. -/
theorem takes_imsi {tail : Re} {prev : Option Char} {message : Text}
    (hless : tail.captureless = true)
    (h : tail.results (some ']') (' ' :: message) ≠ []) :
    (Re.seq (.group 1 digits) (.seq (word "]") tail)).Takes prev
      (s.imsi ++ ([']'] ++ ' ' :: message)) [(1, s.imsi)] :=
  Re.takes_field (c := ']') (Re.mem_many_append _
      (fun c hc => isDecimal_of_isDigit (s.imsi_digits c hc))
      (length_pos s.imsi_ne_nil) fun _ hk => (Option.not_mem_none _ hk).elim)
    (by decide) rfl (Re.takes_of_captureless hless h)

theorem takes_imsi_lit {tail : Re} {prev : Option Char} {message : Text}
    (hless : tail.captureless = true)
    (h : tail.results (some ']') (' ' :: message) ≠ []) :
    (Re.seq (word "[imsi-") (.seq (.group 1 digits)
      (.seq (word "]") tail))).Takes prev (tagged (some .imsi) s message)
      [(1, s.imsi)] := by
  rw [tagged_imsi]
  exact Re.takes_lit (takes_imsi s hless h)

theorem takes_imsi_fold {tail : Re} {prev : Option Char} {message : Text}
    (hless : tail.captureless = true)
    (h : tail.results (some ']') (' ' :: message) ≠ []) :
    (Re.seq (noCase "[imsi-") (.seq (.group 1 digits)
      (.seq (word "]") tail))).Takes prev (tagged (some .imsi) s message)
      [(1, s.imsi)] := by
  rw [tagged_imsi]
  exact Re.takes_fold rfl (takes_imsi s hless h)

/-- The characters of an IMSI or a SUCI. -/
def tagChars : List Char :=
  "0123456789-imsuc".toList

theorem mem_tagChars (tag : Tag) : ∀ c ∈ tag.text s, c ∈ tagChars := by
  have hdigits : ∀ t, Digits t → ∀ c ∈ t, c ∈ tagChars := fun t ht c hc =>
    of_isDigit (P := fun c => c ∈ tagChars) (by decide) (ht c hc)
  cases tag with
  | imsi =>
      have hpre : ∀ c ∈ "imsi-".toList, c ∈ tagChars := by decide
      unfold Tag.text
      simp only [List.forall_mem_append]
      exact ⟨hpre, hdigits _ s.imsi_digits⟩
  | suci =>
      have hpre : ∀ c ∈ "suci-".toList, c ∈ tagChars := by decide
      have hdash : ∀ c ∈ "-".toList, c ∈ tagChars := by decide
      have hzero : ∀ c ∈ ['0'], c ∈ tagChars := by decide
      have hfields : ∀ t ∈ [s.mcc, s.mnc, s.msin, s.supiType, s.routing,
          s.keyId], ∀ c ∈ t, c ∈ tagChars := fun t ht =>
        hdigits t (s.digits t ht)
      simp only [List.forall_mem_cons, List.not_mem_nil, false_implies,
        implies_true, and_true] at hfields
      obtain ⟨hmcc, hmnc, hmsin, htype, hrouting, hkey⟩ := hfields
      unfold Tag.text Subscriber.suci
      simp only [List.forall_mem_append]
      exact ⟨hpre, htype, hdash, hmcc, hdash, hmnc, hdash, hrouting, hdash,
        hzero, hdash, hkey, hdash, hmsin⟩

/-- A SUCI behind its prefix. -/
theorem suci_eq : ∃ rest : Text, s.suci = "suci-".toList ++ rest ∧
    rest ≠ [] ∧ ∀ c ∈ rest, notBracket c = true := by
  have hchars : ∀ c ∈ tagChars, notBracket c = true := by decide
  refine ⟨_, rfl, ?_, fun c hc => hchars c ?_⟩
  · exact List.append_ne_nil_of_left_ne_nil s.supiType_ne_nil _
  · exact mem_tagChars s .suci c (List.mem_append_right _ hc)

/-- A tag without its prefix. -/
theorem mem_idRe (tag : Tag) (prev : Option Char) (rest : Text) :
    (tag.text s, []) ∈ idRe.results prev (tag.text s ++ rest) ∧
      (tag.text s, []) ∈ idReNoCase.results prev (tag.text s ++ rest) := by
  have hend : ∀ (p : Option Char) (t : Text),
      (([], []) : Found) ∈ (Re.lit []).results p ([] ++ t) :=
    fun p t => Re.mem_lit.2 ⟨List.nil_prefix, rfl⟩
  cases tag with
  | imsi =>
      have hmany : ∀ (p : Option Char), (s.imsi ++ [], []) ∈
          (Re.seq digits (.lit [])).results p (s.imsi ++ rest) := fun p =>
        Re.mem_seq_append (Re.mem_many_append rest
          (fun c hc => isDecimal_of_isDigit (s.imsi_digits c hc))
          (length_pos s.imsi_ne_nil)
          fun _ hk => (Option.not_mem_none _ hk).elim) (hend _ rest)
      unfold Tag.text
      rw [List.append_assoc]
      simp only [List.append_nil] at hmany
      constructor
      · refine Re.mem_alt.2 (.inr (Re.mem_seq_append ?_ (hmany _)))
        exact Re.mem_lit.2 ⟨List.prefix_append _ _, rfl⟩
      · refine Re.mem_alt.2 (.inr (Re.mem_seq_append ?_ (hmany _)))
        exact Re.mem_fold.2 ⟨List.prefix_append _ _, rfl, rfl⟩
  | suci =>
      obtain ⟨inner, hinner, hne, hbracket⟩ := suci_eq s
      have hmany : ∀ (p : Option Char), (inner ++ [], []) ∈
          (Re.seq someInBrackets (.lit [])).results p (inner ++ rest) :=
        fun p => Re.mem_seq_append (Re.mem_many_append rest hbracket
          (length_pos hne) fun _ hk => (Option.not_mem_none _ hk).elim)
          (hend _ rest)
      unfold Tag.text
      rw [hinner, List.append_assoc]
      simp only [List.append_nil] at hmany
      constructor
      · refine Re.mem_alt.2 (.inl (Re.mem_seq_append ?_ (hmany _)))
        exact Re.mem_lit.2 ⟨List.prefix_append _ _, rfl⟩
      · refine Re.mem_alt.2 (.inl (Re.mem_seq_append ?_ (hmany _)))
        exact Re.mem_fold.2 ⟨List.prefix_append _ _, rfl, rfl⟩

/-- A tag in brackets. -/
theorem takes_tagged {r tail : Re} {prev : Option Char} {message : Text}
    (tag : Tag) (hr : r = idRe ∨ r = idReNoCase)
    (hless : tail.captureless = true)
    (h : tail.results (some ']') (' ' :: message) ≠ []) :
    (Re.seq (word "[") (.seq (.group 1 r) (.seq (word "]") tail))).Takes prev
      (tagged (some tag) s message) [(1, tag.text s)] := by
  have htail : tail.Takes (some ']') (' ' :: message) [] :=
    Re.takes_of_captureless hless h
  refine Re.takes_lit ?_
  rcases hr with rfl | rfl
  · exact Re.takes_field (c := ']') (mem_idRe s tag _ _).1
      (by decide) rfl htail
  · exact Re.takes_field (c := ']') (mem_idRe s tag _ _).2
      (by decide) rfl htail

theorem taggedImsi_text (tag : Tag) :
    taggedImsi (some (tag.text s)) = s.imsi := by
  cases tag with
  | imsi => exact suciToDisplay_text s .imsi
  | suci => exact suciToDisplay_text s .suci

end Own

section Words

variable (isalnum : Char → Bool)

/-- A boundary between a blank and a word, either way round. -/
theorem mem_boundary_of_ne {prev : Option Char} {t : Text}
    (h : prev.any (isWord isalnum) ≠ t.head?.any (isWord isalnum)) :
    ([], []) ∈ (Re.boundary (isWord isalnum)).results prev ([] ++ t) :=
  Re.mem_boundary.2 ⟨h, rfl⟩

theorem mem_noCase {word taken : String} {prev : Option Char} (rest : Text)
    (h : taken.toList.map foldCase = word.toList.map foldCase) :
    (taken.toList, []) ∈ (noCase word).results prev (taken.toList ++ rest) :=
  Re.mem_fold.2 ⟨List.prefix_append _ _, h, rfl⟩

theorem mem_blank {p : Char → Bool} (hp : p ' ' = true) {prev : Option Char}
    (rest : Text) :
    ([' '], []) ∈ (Re.many p 0 none false).results prev ([' '] ++ rest) :=
  Re.mem_many_append rest (by simpa using hp) (Nat.zero_le _)
    fun _ hk => (Option.not_mem_none _ hk).elim

/-- The words for a failure. -/
inductive Verb where
  | reject
  | failure

def Verb.text : Verb → String
  | .reject => "reject"
  | .failure => "failure"

/-- An authentication that has failed, before what is no word. -/
theorem results_authFailed (verb : Verb) {prev : Option Char} {after : Text}
    (hprev : prev.any (isWord isalnum) = false)
    (hafter : after.head?.any (isWord isalnum) = false) :
    (cat (authFailed isalnum)).results prev
      ([] ++ ("Auth".toList ++ ("entication".toList ++ ([] ++ ([' '] ++ ([] ++
        (verb.text.toList ++ ([] ++ ([] ++ after))))))))) ≠ [] := by
  have hblank : isWord isalnum ' ' = false := rfl
  have hauth : ∀ t, (("Auth".toList ++ t).head?).any (isWord isalnum) = true :=
    fun _ => rfl
  have hn : ∀ p, (lastChar p "entication".toList).any (isWord isalnum) =
      true := fun _ => rfl
  have hverb : ∀ t, ((verb.text.toList ++ t).head?).any (isWord isalnum) =
      true := fun _ => by cases verb <;> rfl
  have hverb' : ∀ p, (lastChar p verb.text.toList).any (isWord isalnum) =
      true := fun _ => by cases verb <;> rfl
  have hwords : ∀ p t, (verb.text.toList, []) ∈
      (Re.alt (noCase "reject") (.alt (noCase "failure")
        (noCase "fail"))).results p (verb.text.toList ++ t) := by
    intro p t
    cases verb with
    | reject => exact Re.mem_alt.2 (.inl (mem_noCase t rfl))
    | failure =>
        exact Re.mem_alt.2 (.inr (Re.mem_alt.2 (.inl (mem_noCase t rfl))))
  refine Re.results_seq_ne_nil (mem_boundary_of_ne _ ?_) ?_
  · rw [hprev, hauth]
    exact Bool.false_ne_true
  refine Re.results_seq_ne_nil (@mem_noCase "auth" "Auth" _ _ rfl) ?_
  refine Re.results_seq_ne_nil (Re.mem_alt.2 (.inl (mem_noCase _ rfl))) ?_
  refine Re.results_seq_ne_nil (mem_boundary_of_ne _ ?_) ?_
  · rw [hn]
    exact Bool.noConfusion
  refine Re.results_seq_ne_nil (mem_blank rfl _) ?_
  refine Re.results_seq_ne_nil (mem_boundary_of_ne _ ?_) ?_
  · rw [List.nil_append, hverb]
    exact Bool.noConfusion
  refine Re.results_seq_ne_nil (hwords _ _) ?_
  refine Re.results_seq_ne_nil (mem_boundary_of_ne _ ?_) ?_
  · rw [hverb', List.nil_append, hafter]
    exact Bool.noConfusion
  exact Re.results_nil_ne_nil

end Words

section AmfForms

variable (isalnum : Char → Bool) (s : Subscriber)

/-- The pattern at the place of a form takes its subscriber. -/
structure Owns (form : AmfForm) (rule : Rule) (groups : List (ℕ × Text)) :
    Prop where
  place : (amfRules isalnum)[form.place]? = some rule
  behind : Re.Behind rule.re
  takes : rule.re.Takes (some ' ') (tagged form.tag s form.message) groups
  event : ∀ ts text,
    (rule.event ts text groups).type = form.type ∧
      (rule.event ts text groups).imsi = (Form.amf form).imsi s ∧
      (rule.event ts text groups).dnn = [] ∧
      (rule.event ts text groups).ueIp = []

/-- A pattern for one UE, on a line with its IMSI. -/
theorem owns_of_imsi {form : AmfForm} {rule : Rule}
    (hplace : (amfRules isalnum)[form.place]? = some rule)
    (hbehind : Re.Behind rule.re)
    (htakes : rule.re.Takes (some ' ') (tagged form.tag s form.message)
      [(1, s.imsi)])
    (hevent : ∀ ts text,
      (rule.event ts text [(1, s.imsi)]).type = form.type ∧
        (rule.event ts text [(1, s.imsi)]).imsi = (Form.amf form).imsi s ∧
        (rule.event ts text [(1, s.imsi)]).dnn = [] ∧
        (rule.event ts text [(1, s.imsi)]).ueIp = []) :
    ∃ rule groups, Owns isalnum s form rule groups :=
  ⟨rule, _, hplace, hbehind, htakes, hevent⟩

theorem behind_regReq : Re.Behind reRegReq :=
  ⟨rfl, by decide⟩

theorem behind_serviceReq : Re.Behind (reServiceReq isalnum) := by
  have hclosed : Re.Behind (reServiceReq fun _ => false) :=
    ⟨rfl, by decide⟩
  exact hclosed

theorem behind_authReject : Re.Behind (reAuthReject isalnum) := by
  have hclosed : Re.Behind (reAuthReject fun _ => false) :=
    ⟨rfl, by decide⟩
  exact hclosed

/-- The tag of a registration request may be missing: one branch with it, and
one without. -/
theorem results_regReq (prev : Option Char) (t : Text) :
    reRegReq.results prev t =
      (Re.alt (.seq (word "[") (.seq (.group 1 idRe) (.seq (word "]")
          (.seq (.seq anythingLazy (.lit []))
            (.seq (word "Registration request") (.lit []))))))
        (.seq (.lit [])
          (.seq (word "Registration request") (.lit [])))).results prev t := by
  have hleft : ∀ p t, (Re.seq (cat [word "[", .group 1 idRe, word "]",
      anythingLazy]) (cat [word "Registration request"])).results p t =
      (Re.seq (word "[") (.seq (.group 1 idRe) (.seq (word "]")
        (.seq (.seq anythingLazy (.lit []))
          (.seq (word "Registration request") (.lit [])))))).results p t := by
    intro p t
    refine (Re.results_seq_assoc _ _ _).trans ?_
    refine Re.results_seq_congr fun p t => ?_
    refine (Re.results_seq_assoc _ _ _).trans ?_
    refine Re.results_seq_congr fun p t => ?_
    exact Re.results_seq_assoc _ _ _
  refine (Re.results_seq_alt _ _ _).trans ?_
  exact congrArg (· ++ _) (hleft prev t)

/-- The rest of a line on which an authentication has failed. -/
theorem results_authTail (verb : Verb) {after : Text}
    (hafter : after.head?.any (isWord isalnum) = false) :
    (Re.seq anything (cat (authFailed isalnum))).results (some ']')
      (' ' :: ("Auth".toList ++ ("entication".toList ++ ([' '] ++
        (verb.text.toList ++ after))))) ≠ [] :=
  Re.results_seq_ne_nil (mem_blank rfl _)
    (results_authFailed isalnum verb rfl hafter)

theorem owns_authTagged {form : AmfForm} {tag : Tag} (verb : Verb)
    {after : Text} (hplace : form.place = 15) (htag : form.tag = some tag)
    (htype : form.type = "auth_reject".toList)
    (hmessage : form.message = "Auth".toList ++ ("entication".toList ++
      ([' '] ++ (verb.text.toList ++ after))))
    (hafter : after.head?.any (isWord isalnum) = false) :
    ∃ rule groups, Owns isalnum s form rule groups := by
  refine ⟨authRejectRule isalnum, [(1, tag.text s)], ?_,
    behind_authReject isalnum, ?_, fun ts text => ⟨htype.symm, ?_, rfl, rfl⟩⟩
  · rw [hplace]
    rfl
  · rw [htag, hmessage]
    exact Re.takes_alt_left (takes_tagged s tag (.inr rfl) rfl
      (results_authTail isalnum verb hafter))
  · have hne : form.tag ≠ none := by
      rw [htag]
      exact Option.some_ne_none _
    exact (taggedImsi_text s tag).trans (if_neg hne).symm

theorem results_serviceTail :
    (cat [anything, .boundary (isWord isalnum), noCase "Service", blanks,
      noCase "Request", .boundary (isWord isalnum)]).results (some ']')
      ([' '] ++ ([] ++ ("Service".toList ++ ([' '] ++ ("Request".toList ++
        ([] ++ [])))))) ≠ [] := by
  refine Re.results_seq_ne_nil (mem_blank rfl _) ?_
  refine Re.results_seq_ne_nil (mem_boundary_of_ne _ ?_) ?_
  · have hservice : ∀ t, (("Service".toList ++ t).head?).any
        (isWord isalnum) = true := fun _ => rfl
    rw [List.nil_append, hservice]
    exact Bool.noConfusion
  refine Re.results_seq_ne_nil (@mem_noCase "Service" "Service" _ _ rfl) ?_
  refine Re.results_seq_ne_nil (mem_blank rfl _) ?_
  refine Re.results_seq_ne_nil (@mem_noCase "Request" "Request" _ _ rfl) ?_
  refine Re.results_seq_ne_nil (mem_boundary_of_ne _ ?_)
    Re.results_nil_ne_nil
  have hrequest : ∀ p, (lastChar p "Request".toList).any (isWord isalnum) =
      true := fun _ => rfl
  rw [hrequest]
  exact Bool.noConfusion

/-- The pattern of each form takes its subscriber. -/
theorem owns_amf (form : AmfForm) :
    ∃ rule groups, Owns isalnum s form rule groups := by
  cases form with
  | registrationRequest tag =>
      have hrest : (Re.seq (word "Registration request") (.lit [])).results
          (some ' ') "Registration request".toList ≠ [] := by
        decide
      have hbehind : (Re.seq (.seq anythingLazy (.lit []))
          (.seq (word "Registration request") (.lit []))).results (some ']')
          (' ' :: "Registration request".toList) ≠ [] := by
        decide
      cases tag with
      | none =>
          refine ⟨regReqRule, [], rfl, behind_regReq,
            Re.takes_congr (results_regReq _ _) (Re.takes_alt_right ?_ ?_),
            fun _ _ => ⟨rfl, rfl, rfl, rfl⟩⟩
          · exact Re.first_eq_none_of_starts rfl (by decide)
          · exact @Re.takes_lit (some ' ') [] _ [] _
              (Re.takes_of_captureless rfl hrest)
      | some tag =>
          exact ⟨regReqRule, [(1, tag.text s)], rfl, behind_regReq,
            Re.takes_congr (results_regReq _ _) (Re.takes_alt_left
              (takes_tagged s tag (.inl rfl) rfl hbehind)),
            fun _ _ => ⟨rfl, taggedImsi_text s tag, rfl, rfl⟩⟩
  | registrationComplete =>
      exact owns_of_imsi isalnum s rfl ⟨rfl, by decide⟩
        (takes_imsi_lit s rfl (by decide)) fun _ _ =>
          ⟨rfl, rfl, rfl, rfl⟩
  | registrationReject tag =>
      have hbehind : (cat [anything, noCase "Registration reject"]).results
          (some ']') (' ' :: "Registration reject".toList) ≠ [] := by
        decide
      exact ⟨regFailRule, [(1, tag.text s)], rfl, ⟨rfl, by decide⟩,
        takes_tagged s tag (.inr rfl) rfl hbehind,
        fun _ _ => ⟨rfl, taggedImsi_text s tag, rfl, rfl⟩⟩
  | serviceRequest =>
      exact owns_of_imsi isalnum s rfl (behind_serviceReq isalnum)
        (takes_imsi_fold s rfl (results_serviceTail isalnum)) fun _ _ =>
          ⟨rfl, rfl, rfl, rfl⟩
  | authenticationFailure tag cause =>
      have hmessage : (AmfForm.authenticationFailure tag cause).message =
          "Auth".toList ++ ("entication".toList ++ ([' '] ++
            (Verb.failure.text.toList ++
              (" [".toList ++ (cause.text ++ "]".toList))))) := by
        have hfixed : "Authentication failure [".toList = "Auth".toList ++
            ("entication".toList ++ ([' '] ++ (Verb.failure.text.toList ++
              " [".toList))) := by decide
        unfold AmfForm.message
        rw [hfixed]
        simp only [List.append_assoc]
      exact owns_authTagged isalnum s .failure rfl rfl rfl hmessage rfl
  | macFailure =>
      have hopen : ["[".toList] ∈ (cat (authFailed (fun _ => false) ++
          [anything, word "[", .group 2 idReNoCase, word "]"])).clauses := by
        decide
      have hstarts : (cat ([word "[", .group 1 idReNoCase, word "]",
          anything] ++ authFailed fun _ => false)).starts 'A' = false := by
        decide
      have habsent : ∀ w ∈ ["[".toList], ¬ w.map foldCase <:+:
          "Authentication failure(MAC failure)".toList.map foldCase := by
        decide
      refine ⟨authRejectRule isalnum, [], rfl, behind_authReject isalnum,
        Re.takes_alt_right ?_ (Re.takes_alt_right ?_ ?_),
        fun _ _ => ⟨rfl, rfl, rfl, rfl⟩⟩
      · exact Re.first_eq_none_of_starts rfl hstarts
      · exact Re.first_eq_none_of_clause hopen habsent
      · exact Re.takes_of_captureless rfl
          (@results_authFailed isalnum .failure (some ' ')
            "(MAC failure)".toList rfl rfl)
  | authenticationReject tag =>
      exact @owns_authTagged isalnum s _ tag .reject [] rfl rfl rfl rfl rfl
  | _ =>
      exact owns_of_imsi isalnum s rfl ⟨rfl, by decide⟩
        (takes_imsi_fold s rfl (by decide)) fun _ _ =>
          ⟨rfl, rfl, rfl, rfl⟩

end AmfForms

section Sessions

variable (s : Subscriber)

theorem notMem_append {c : Char} {s t : Text} (hs : c ∉ s) (ht : c ∉ t) :
    c ∉ s ++ t := by
  rw [List.mem_append, not_or]
  exact ⟨hs, ht⟩

/-- A part that ends in a fixed text. -/
theorem cut_append {a b c : Char} (hac : c ≠ a) {s t : Text} (hs : b ∉ s)
    (ht : b ∉ t) (hlast : t.getLast? = some c) :
    b ∉ s ++ t ∧ (s ++ t).getLast? ≠ some a := by
  refine ⟨notMem_append hs ht, ?_⟩
  rw [List.getLast?_append, hlast, Option.some_or]
  exact fun h => hac (Option.some.inj h)

/-- No pair with a bracket stands between the DNN and the end. -/
theorem not_pair_rest {a : Char} (ha : a ∉ ['4', 'I', '['])
    (dnn address : Inner) (sNssai : Option Inner) :
    ¬ [a, '['] <:+: dnn.text ++ ("]".toList ++ (sNssaiText sNssai ++
      ("IPv4[".toList ++ (address.text ++ ("]".toList ++ []))))) := by
  simp only [List.mem_cons, List.not_mem_nil, or_false, not_or] at ha
  obtain ⟨hfour, hi, hopen⟩ := ha
  have hend : '[' ∉ address.text ++ "]".toList :=
    notMem_append address.plain.1 (by decide)
  cases sNssai with
  | none =>
      have hcut := not_pair_cuts hopen
        (List.forall_mem_singleton.2 (cut_append (Ne.symm hfour) dnn.plain.1
          (t := "] IPv4".toList) (by decide) (by decide))) hend
      simp only [List.foldr_cons, List.foldr_nil, List.append_assoc] at hcut
      exact hcut
  | some sNssai =>
      have hcut := not_pair_cuts hopen (List.forall_mem_cons.2
        ⟨cut_append (Ne.symm hi) dnn.plain.1 (t := "] S-NSSAI".toList)
            (by decide) (by decide),
          List.forall_mem_singleton.2 (cut_append (Ne.symm hfour)
            sNssai.plain.1 (t := "] IPv4".toList) (by decide)
            (by decide))⟩) hend
      unfold sNssaiText
      simp only [List.foldr_cons, List.foldr_nil,
        List.append_assoc] at hcut ⊢
      exact hcut

/-- The one DNN. -/
theorem skip_dnn (dnn address : Inner) (sNssai : Option Inner) {x z : Text}
    (h : x ++ ("DNN[".toList ++ z) = " ".toList ++ ("DNN[".toList ++
      (dnn.text ++ ("]".toList ++ (sNssaiText sNssai ++ ("IPv4[".toList ++
        (address.text ++ ("]".toList ++ [])))))))) : x = " ".toList := by
  have hword : "DNN[".toList = "DN".toList ++ ['N', '['] := by decide
  rw [hword] at h
  exact eq_of_pair_once (by decide) (by decide)
    (not_pair_rest (by decide) dnn address sNssai) h

/-- The one address. -/
theorem skip_address (address : Inner) (sNssai : Option Inner) {x z : Text}
    (h : x ++ ("IPv4[".toList ++ z) = sNssaiText sNssai ++
      ("IPv4[".toList ++ (address.text ++ ("]".toList ++ [])))) :
    x = sNssaiText sNssai := by
  have hword : "IPv4[".toList = "IPv".toList ++ ['4', '['] := by decide
  have hend : '[' ∉ address.text ++ ("]".toList ++ []) :=
    notMem_append address.plain.1 (by decide)
  rw [hword] at h
  refine eq_of_pair_once (by decide) ?_
    (fun hinf => hend (hinf.subset (by simp))) h
  cases sNssai with
  | none => decide
  | some sNssai =>
      have hinner : '[' ∉ sNssai.text ++ ("] ".toList ++
          ("IPv".toList ++ ['4'])) :=
        notMem_append sNssai.plain.1 (by decide)
      have hcut := @not_pair_cuts Char '4' '[' (by decide)
        [" S-NSSAI".toList] _ (by decide) hinner
      have hname : " S-NSSAI[".toList = " S-NSSAI".toList ++ ['['] := by decide
      unfold sNssaiText
      rw [hname]
      simp only [List.foldr_cons, List.foldr_nil, List.append_assoc,
        List.cons_append, List.nil_append] at hcut ⊢
      exact hcut

theorem oneLine_newline {c : Char} (h : isLineBreak c = false) :
    notNewline c = true := by
  unfold notNewline
  rw [bne_iff_ne]
  rintro rfl
  cases h

theorem skipped_newline (sNssai : Option Inner) :
    ∀ c ∈ sNssaiText sNssai, notNewline c = true := by
  cases sNssai with
  | none => decide
  | some sNssai =>
      have hfixed : ∀ c ∈ " S-NSSAI[".toList, notNewline c = true := by decide
      have hclose : ∀ c ∈ "] ".toList, notNewline c = true := by decide
      unfold sNssaiText
      simp only [List.forall_mem_append]
      exact ⟨hfixed, fun c hc => oneLine_newline (sNssai.oneLine c hc),
        hclose⟩

theorem mem_inBrackets (inner : Inner) (prev : Option Char) (rest : Text) :
    (inner.text, []) ∈ inBrackets.results prev (inner.text ++ rest) := by
  refine Re.mem_many_append rest (fun c hc => ?_) (Nat.zero_le _)
    fun _ hk => (Option.not_mem_none _ hk).elim
  unfold notBracket
  rw [bne_iff_ne]
  rintro rfl
  exact inner.plain.2 hc

/-- The pattern takes the subscriber, the DNN and the address. -/
theorem takes_established (dnn address : Inner) (sNssai : Option Inner) :
    reSmfPduEst.Takes (some ' ')
      ((Form.established dnn address sNssai).text s)
      [(1, s.imsi), (2, dnn.text), (3, address.text)] := by
  have himsi : ∀ prev rest, (s.imsi, []) ∈
      digits.results prev (s.imsi ++ rest) := fun prev rest =>
    Re.mem_many_append rest
      (fun c hc => isDecimal_of_isDigit (s.imsi_digits c hc))
      (length_pos s.imsi_ne_nil) fun _ hk => (Option.not_mem_none _ hk).elim
  refine Re.takes_lit ?_
  refine Re.takes_field (c := ']') (himsi _ _) (by decide) rfl ?_
  refine Re.takes_skip (by decide)
    (fun x z _ h => skip_dnn dnn address sNssai h) ?_
  refine Re.takes_field (c := ']') (mem_inBrackets dnn _ _) rfl rfl ?_
  refine Re.takes_skip (skipped_newline sNssai)
    (fun x z _ h => skip_address address sNssai h) ?_
  exact Re.takes_field (c := ']') (mem_inBrackets address _ _) rfl rfl
    Re.takes_nil

end Sessions

section Removed

variable (s : Subscriber)

theorem foldCase_eq_bracket {c d : Char} (hc : c = '[' ∨ c = ']')
    (h : foldCase d = c) : d = c := by
  have hnot : ∀ e ∈ ['i', 's', 'k'], e ≠ c := by
    rcases hc with rfl | rfl <;> decide
  simp only [List.forall_mem_cons, List.not_mem_nil, false_implies,
    implies_true, and_true] at hnot
  obtain ⟨hi, hs, hk⟩ := hnot
  unfold foldCase at h
  split at h
  · exact absurd h hi
  · split at h
    · exact absurd h hs
    · split at h
      · exact absurd h hk
      · by_cases hupper : d.isUpper = true
        · have hlower : ∀ e : Char, e = '[' ∨ e = ']' → d.toLower ≠ e := by
            rintro e (rfl | rfl)
            · exact of_isUpper (P := fun c => c.toLower ≠ '[') (by decide)
                hupper
            · exact of_isUpper (P := fun c => c.toLower ≠ ']') (by decide)
                hupper
          exact absurd h (hlower c hc)
        · rwa [toLower_of_not_isUpper hupper] at h

theorem notMem_fold {c : Char} (hc : c = '[' ∨ c = ']') {t : Text}
    (h : c ∉ t) : c ∉ t.map foldCase := by
  intro hmem
  obtain ⟨d, hd, hdc⟩ := List.mem_map.1 hmem
  rw [foldCase_eq_bracket hc hdc] at hd
  exact h hd

theorem notMem_stamp {c : Char} (hc : c ∉ stampChars) {stamp : Text}
    (h : ∀ c ∈ stamp, c ∈ stampChars) : c ∉ stamp :=
  fun hmem => hc (h c hmem)

/-- The line of a session that is removed. -/
def removedLine (stamp : Text) (dnn address : Inner) : Text :=
  stamp ++ ' ' :: (Form.removedSession dnn address).text s

/-- In that line each bracket opens behind a colon. -/
theorem not_pair_removed {stamp : Text} (h : ∀ c ∈ stamp, c ∈ stampChars)
    {a : Char} (hcolon : ':' ≠ a) (hopen : a ≠ '[') (dnn address : Inner) :
    ¬ [a, '['] <:+: (removedLine s stamp dnn address).map foldCase := by
  have himsi : '[' ∉ s.imsi := notMem_of_digits (by decide) s.imsi_digits
  have hcut : ∀ {t w : Text}, '[' ∉ t → '[' ∉ w →
      (w.map foldCase).getLast? = some ':' →
      '[' ∉ (t ++ w).map foldCase ∧
        ((t ++ w).map foldCase).getLast? ≠ some a := by
    intro t w ht hw hlast
    rw [List.map_append]
    exact cut_append hcolon (notMem_fold (.inl rfl) ht)
      (notMem_fold (.inl rfl) hw) hlast
  have hcuts := not_pair_cuts hopen
    (List.forall_mem_cons.2
      ⟨hcut (w := " Removed Session: UE IMSI:".toList)
          (notMem_stamp (by decide) h) (by decide) (by decide),
        List.forall_mem_cons.2
          ⟨hcut (w := "] DNN:".toList)
              (notMem_append (t := s.imsi) (s := "imsi-".toList) (by decide)
                himsi) (by decide) (by decide),
            List.forall_mem_singleton.2 (hcut (w := "] IPv4:".toList)
              dnn.plain.1 (by decide) (by decide))⟩⟩)
    (notMem_fold (.inl rfl)
      (notMem_append (t := "]".toList) address.plain.1 (by decide)))
  have hbracket : foldCase '[' = '[' := by decide
  unfold removedLine Form.text
  simp only [List.foldr_cons, List.foldr_nil, List.map_append, List.map_cons,
    List.append_assoc, hbracket] at hcuts ⊢
  exact hcuts

/-- And no bracket closes before ` n`. -/
theorem not_behind_removed {stamp : Text} (h : ∀ c ∈ stamp, c ∈ stampChars)
    (dnn address : Inner) :
    ¬ "] n".toList <:+: (removedLine s stamp dnn address).map foldCase := by
  have hfold : ∀ t : Text, ']' ∉ t → ']' ∉ t.map foldCase := fun t =>
    notMem_fold (.inr rfl)
  have hname : "] n".toList = ']' :: " n".toList := by decide
  have hpre : ∀ {c : Char} {t : Text}, c ≠ 'n' →
      ¬ " n".toList <+: ' ' :: c :: t := by
    rintro c t hc ⟨rest, hrest⟩
    exact hc (List.cons_eq_cons.1 (List.cons_eq_cons.1 hrest).2).1.symm
  have himsi : ']' ∉ s.imsi := notMem_of_digits (by decide) s.imsi_digits
  have hend : ¬ ']' :: " n".toList <:+:
      (" IPv4:[".toList ++ address.text).map foldCase ++ ']' :: [] :=
    not_behind_append_cons
      (hfold _ (notMem_append (by decide) address.plain.2)) (by decide)
      (by decide)
  have hmid : ¬ ']' :: " n".toList <:+:
      (" DNN:[".toList ++ dnn.text).map foldCase ++ ']' ::
        ((" IPv4:[".toList ++ address.text).map foldCase ++ ']' :: []) :=
    not_behind_append_cons (hfold _ (notMem_append (by decide) dnn.plain.2))
      (hpre (c := 'i') (by decide)) hend
  have hall := not_behind_append_cons
    (s := (stamp ++ (" Removed Session: UE IMSI:[imsi-".toList ++
      s.imsi)).map foldCase)
    (hfold _ (notMem_append (notMem_stamp (by decide) h)
      (notMem_append (by decide) himsi)))
    (hpre (c := 'd') (by decide)) hmid
  have hbracket : foldCase ']' = ']' := by decide
  have htext : removedLine s stamp dnn address =
      (stamp ++ (" Removed Session: UE IMSI:[imsi-".toList ++ s.imsi)) ++
        ']' :: ((" DNN:[".toList ++ dnn.text) ++ ']' ::
          ((" IPv4:[".toList ++ address.text) ++ ']' :: [])) := by
    unfold removedLine Form.text
    simp only [List.append_assoc]
    rfl
  rw [htext, hname]
  simp only [List.map_append, List.map_cons, List.map_nil, hbracket] at hall ⊢
  exact hall

/-- No pattern of the SMF matches the line: two of them have a bracket behind
something else, and the others another word behind a bracket. -/
theorem search_removed {stamp : Text} (h : ∀ c ∈ stamp, c ∈ stampChars)
    (dnn address : Inner) :
    ∀ rule ∈ smfRules,
      rule.re.search (removedLine s stamp dnn address) = none := by
  have hi := not_pair_removed s h (a := 'i') (by decide) (by decide) dnn address
  have hn := not_pair_removed s h (a := 'n') (by decide) (by decide) dnn address
  have hbehind := not_behind_removed s h dnn address
  have hclauses : ∀ rule ∈ smfRules, ∃ clause ∈ rule.re.clauses,
      ∀ word ∈ clause, ['i', '['] <:+: word.map foldCase ∨
        ['n', '['] <:+: word.map foldCase ∨
        "] n".toList <:+: word.map foldCase := by
    decide
  intro rule hrule
  obtain ⟨clause, hclause, hwords⟩ := hclauses rule hrule
  refine Re.search_eq_none hclause fun word hword hinf => ?_
  rcases hwords word hword with hpair | hpair | hpair
  · exact hi (hpair.trans hinf)
  · exact hn (hpair.trans hinf)
  · exact hbehind (hpair.trans hinf)

end Removed

section Lines

/-- The characters of a line of the AMF. -/
theorem forall_mem_amf {P : Char → Prop} (htag : ∀ c ∈ tagChars, P c)
    (hkind : ∀ kind ∈ amfKinds, ∀ c ∈ kind.2.2, P c)
    (hbracket : ∀ c ∈ "[] ".toList, P c) (s : Subscriber) (form : AmfForm) :
    ∀ c ∈ (Form.amf form).text s, P c := by
  have hfixed := hkind _ (kind_mem_amfKinds form)
  have hmessage : ∀ c ∈ form.message, P c := by
    cases form with
    | authenticationFailure tag cause =>
        have hsub : "0123456789".toList ⊆ tagChars := by decide
        have hcut : "Authentication failure []".toList =
            "Authentication failure [".toList ++ "]".toList := by decide
        have hcause : ∀ c ∈ cause.text, P c := fun c hc =>
          of_isDigit (fun d hd => htag d (hsub hd)) (cause.digits c hc)
        unfold AmfForm.kind AmfForm.fixed at hfixed
        unfold AmfForm.message
        rw [hcut, List.forall_mem_append] at hfixed
        simp only [List.forall_mem_append]
        exact ⟨hfixed.1, hcause, hfixed.2⟩
    | _ => exact hfixed
  have hline : ∀ c ∈ tagged form.tag s form.message, P c := by
    cases form.tag with
    | none => exact hmessage
    | some tag =>
        unfold tagged
        simp only [List.forall_mem_append, List.forall_mem_cons,
          List.not_mem_nil, false_implies, implies_true, and_true]
        exact ⟨hbracket _ (by decide),
          fun c hc => htag c (mem_tagChars s tag c hc), hbracket _ (by decide),
          hbracket _ (by decide), hmessage⟩
  exact hline

theorem Subscriber.oneLine_imsi (s : Subscriber) : OneLine s.imsi :=
  fun c hc => of_isDigit (P := fun c => isLineBreak c = false) (by decide)
    (s.imsi_digits c hc)

theorem oneLine_text (s : Subscriber) (form : Form) :
    OneLine (form.text s) := by
  cases form with
  | amf form =>
      exact forall_mem_amf (P := fun c => isLineBreak c = false) (by decide)
        (by decide) (by decide) s form
  | established dnn address sNssai =>
      have hsNssai : OneLine (sNssaiText sNssai) := by
        cases sNssai with
        | none => decide
        | some sNssai =>
            exact OneLine.append (t := sNssai.text ++ _) (by decide)
              (sNssai.oneLine.append (by decide))
      have hend : OneLine ("]".toList ++ []) := by decide
      refine OneLine.append (s := "UE SUPI[imsi-".toList) (by decide) ?_
      refine s.oneLine_imsi.append ?_
      refine OneLine.append (s := "]".toList) (by decide) ?_
      refine OneLine.append (s := " ".toList) (by decide) ?_
      refine OneLine.append (s := "DNN[".toList) (by decide) ?_
      refine dnn.oneLine.append ?_
      refine OneLine.append (s := "]".toList) (by decide) ?_
      refine hsNssai.append ?_
      refine OneLine.append (s := "IPv4[".toList) (by decide) ?_
      exact address.oneLine.append hend
  | removedSession dnn address =>
      have hbracket : isLineBreak '[' = false := by decide
      have himsi : OneLine ("imsi-".toList ++ s.imsi ++ "] DNN:".toList) :=
        (OneLine.append (s := "imsi-".toList) (by decide)
          s.oneLine_imsi).append (by decide)
      have haddress : OneLine (address.text ++ "]".toList) :=
        address.oneLine.append (by decide)
      refine OneLine.append (s := "Removed Session: UE IMSI:".toList)
        (by decide) (List.forall_mem_cons.2 ⟨hbracket, himsi.append ?_⟩)
      have hdnn : OneLine (dnn.text ++ "] IPv4:".toList) :=
        dnn.oneLine.append (by decide)
      exact List.forall_mem_cons.2 ⟨hbracket,
        hdnn.append (List.forall_mem_cons.2 ⟨hbracket, haddress⟩)⟩

theorem oneLine_of_coloured {plain line : Text} (h : Coloured plain line)
    (hplain : OneLine plain) : OneLine line := by
  induction h with
  | nil => exact hplain
  | char c h ih =>
      rw [OneLine, List.forall_mem_cons] at hplain
      exact List.forall_mem_cons.2 ⟨hplain.1, ih hplain.2⟩
  | @code params plain line hparams h ih =>
      have hfixed : ∀ c ∈ [Char.ofNat 27, '[', 'm'], isLineBreak c = false := by
        decide
      simp only [List.forall_mem_cons] at hfixed
      have hp : OneLine params := by
        intro c hc
        rcases hparams c hc with hdigit | rfl
        · exact of_isDigit (P := fun c => isLineBreak c = false) (by decide)
            hdigit
        · decide
      exact List.forall_mem_cons.2 ⟨hfixed.1, List.forall_mem_cons.2
        ⟨hfixed.2.1, hp.append (List.forall_mem_cons.2
          ⟨hfixed.2.2.1, ih hplain⟩)⟩⟩

theorem LogLine.oneLine (l : LogLine) : OneLine l.line := by
  have hstamp : ∀ c ∈ stampChars, isLineBreak c = false := by decide
  have hblank : isLineBreak ' ' = false := by decide
  exact oneLine_of_coloured l.coloured
    (OneLine.append (fun c hc => hstamp c (l.stamp_chars c hc))
      (List.forall_mem_cons.2 ⟨hblank, oneLine_text _ _⟩))

/-- There is no colour code in the line itself. -/
theorem not_code (s : Subscriber) (form : Form) {stamp : Text}
    (h : ∀ c ∈ stamp, c ∈ stampChars) :
    ¬ [Char.ofNat 27, '['] <:+: stamp ++ ' ' :: form.text s := by
  cases form with
  | amf form =>
      have hline : ∀ c ∈ (Form.amf form).text s, c ≠ Char.ofNat 27 :=
        forall_mem_amf (P := fun c => c ≠ Char.ofNat 27) (by decide)
          (by decide) (by decide) s form
      have hstamp : ∀ c ∈ stampChars, c ≠ Char.ofNat 27 := by decide
      intro hinf
      have hmem : Char.ofNat 27 ∈ stamp ++ ' ' :: (Form.amf form).text s :=
        hinf.subset List.mem_cons_self
      rcases List.mem_append.1 hmem with hmem | hmem
      · exact hstamp _ (h _ hmem) rfl
      · rcases List.mem_cons.1 hmem with heq | hmem
        · exact absurd heq (by decide)
        · exact hline _ hmem rfl
  | established dnn address sNssai =>
      have himsi : '[' ∉ "imsi-".toList ++ s.imsi :=
        notMem_append (by decide) (notMem_of_digits (by decide) s.imsi_digits)
      have hname := cut_append (a := Char.ofNat 27) (c := 'N')
        (t := "] DNN".toList) (by decide) himsi (by decide) (by decide)
      have hopen := cut_append (a := Char.ofNat 27) (c := 'I')
        (t := " UE SUPI".toList) (by decide)
        (notMem_stamp (c := '[') (by decide) h) (by decide) (by decide)
      have hall := not_pair_append_cons (by decide) hopen.1 hopen.2
        (not_pair_append_cons (by decide) hname.1 hname.2
          (not_pair_rest (a := Char.ofNat 27) (by decide) dnn address sNssai))
      have hsupi : "UE SUPI[imsi-".toList =
          "UE SUPI".toList ++ '[' :: "imsi-".toList := by decide
      have hspace : " UE SUPI".toList = ' ' :: "UE SUPI".toList := by decide
      have hdnn : "] DNN".toList = "]".toList ++ (" ".toList ++
          "DNN".toList) := by decide
      have hdnn' : "DNN[".toList = "DNN".toList ++ ['['] := by decide
      unfold Form.text
      rw [hsupi, hdnn']
      rw [hspace, hdnn] at hall
      simp only [List.append_assoc, List.cons_append, List.nil_append]
        at hall ⊢
      exact hall
  | removedSession dnn address =>
      intro hinf
      refine not_pair_removed s h (a := Char.ofNat 27) (by decide) (by decide)
        dnn address ?_
      exact hinf.map foldCase

theorem LogLine.stripAnsi_line (l : LogLine) :
    stripAnsi l.line = l.stamp ++ ' ' :: l.form.text l.subscriber :=
  stripAnsi_of_coloured l.coloured
    (not_code l.subscriber l.form l.stamp_chars)

end Lines

section Result

variable (isalnum : Char → Bool)

theorem LogLine.parseLogs_line (l : LogLine) (rules : List Rule) :
    parseLogs rules (unlines [l.line]) = (lineEvent rules l.line).toList := by
  rw [parseLogs_unlines (List.forall_mem_singleton.2 l.oneLine)]
  cases h : lineEvent rules l.line with
  | none => rw [List.filterMap_cons_none h, List.filterMap_nil]; rfl
  | some ev => rw [List.filterMap_cons_some h, List.filterMap_nil]; rfl

/-- The first pattern that matches makes the event. -/
theorem lineEvent_eq {rules : List Rule} {line text : Text} {place : ℕ}
    {rule : Rule} {groups : List (ℕ × Text)}
    (htext : stripAnsi line = text) (hplace : rules[place]? = some rule)
    (habove : ∀ r ∈ rules.take place, r.re.search text = none)
    (hown : rule.re.search text = some groups) :
    lineEvent rules line = some (rule.event (extractTs line) text groups) := by
  obtain ⟨hlt, hget⟩ := List.getElem?_eq_some_iff.1 hplace
  have hsplit : rules = rules.take place ++ rule :: rules.drop (place + 1) := by
    rw [← hget, List.cons_getElem_drop_succ, List.take_append_drop]
  have hnone : (rules.take place).findSome? (fun r =>
      (r.re.search text).map (r.event (extractTs line) text)) = none := by
    rw [List.findSome?_eq_none_iff]
    intro r hr
    rw [habove r hr]
    rfl
  unfold lineEvent
  dsimp only
  rw [htext, hsplit, List.findSome?_append, hnone, Option.none_or,
    List.findSome?_cons, hown]
  rfl

theorem lineEvent_eq_none {rules : List Rule} {line text : Text}
    (htext : stripAnsi line = text)
    (h : ∀ r ∈ rules, r.re.search text = none) :
    lineEvent rules line = none := by
  unfold lineEvent
  dsimp only
  rw [htext, List.findSome?_eq_none_iff]
  intro r hr
  rw [h r hr]
  rfl

/-- A line of the session that is removed makes no event. -/
theorem LogLine.parseLogs_removed (l : LogLine) {dnn address : Inner}
    (hform : l.form = .removedSession dnn address) :
    parseLogs (l.form.rules isalnum) (unlines [l.line]) = [] := by
  have htext := l.stripAnsi_line
  rw [hform] at htext
  have hnone := lineEvent_eq_none htext
    (search_removed l.subscriber l.stamp_chars dnn address)
  rw [l.parseLogs_line, hform]
  exact congrArg Option.toList hnone

theorem LogLine.not_reports_removed (l : LogLine) {dnn address : Inner}
    (hform : l.form = .removedSession dnn address) :
    ¬ l.Reports isalnum := by
  rintro ⟨ev, hev, -⟩
  rw [l.parseLogs_removed isalnum hform] at hev
  cases hev

/-- Each line of the documented forms makes the one event that is meant, but for
those of the session that is removed. -/
theorem reports_iff (l : LogLine) :
    l.Reports isalnum ↔
      ∀ dnn address, l.form ≠ .removedSession dnn address := by
  refine ⟨fun h dnn address hform =>
    l.not_reports_removed isalnum hform h, fun hother => ?_⟩
  have htext := l.stripAnsi_line
  unfold LogLine.Reports
  simp only [l.parseLogs_line]
  cases hform : l.form with
  | amf form =>
      rw [hform] at htext
      obtain ⟨rule, groups, howns⟩ := owns_amf isalnum l.subscriber form
      have habove := search_eq_none_of_take isalnum l.subscriber form
        l.stamp_chars
      have hown := search_behind howns.behind l.stamp_chars howns.takes
      have hevent := lineEvent_eq htext howns.place habove hown
      exact ⟨_, congrArg Option.toList hevent, howns.event _ _⟩
  | established dnn address sNssai =>
      rw [hform] at htext
      have hbehind : Re.Behind reSmfPduEst := ⟨rfl, by decide⟩
      have hown := search_behind hbehind l.stamp_chars
        (takes_established l.subscriber dnn address sNssai)
      have habove : ∀ r ∈ smfRules.take 0,
          r.re.search (l.stamp ++ ' ' ::
            (Form.established dnn address sNssai).text l.subscriber) = none :=
        fun _ hr => (List.not_mem_nil hr).elim
      have hevent := lineEvent_eq htext (by rfl) habove hown
      exact ⟨_, congrArg Option.toList hevent, rfl, rfl, rfl, rfl⟩
  | removedSession dnn address => exact absurd hform (hother dnn address)

theorem coloured_self (t : Text) : Coloured t t := by
  induction t with
  | nil => exact .nil
  | cons c t ih => exact .char c ih

/-- The example in the comment above the pattern of a removed session. -/
def removedExample : LogLine where
  subscriber :=
    { mcc := "001".toList, mnc := "01".toList, msin := "0123456789".toList,
      supiType := "0".toList, routing := "0".toList, keyId := "0".toList,
      mcc_length := by decide, mnc_length := by decide,
      msin_ne_nil := by decide, supiType_ne_nil := by decide,
      digits := by unfold Digits; decide }
  stamp := "2024-01-01T00:00:00.123Z".toList
  form := .removedSession
    ⟨"internet".toList, by decide, by decide⟩
    ⟨"10.45.0.2".toList, by decide, by decide⟩
  line := ("2024-01-01T00:00:00.123Z Removed Session: " ++
    "UE IMSI:[imsi-001010123456789] DNN:[internet] IPv4:[10.45.0.2]").toList
  stamp_chars := by decide
  coloured := coloured_self _

theorem not_reports : ¬ ∀ (isalnum : Char → Bool) (l : LogLine),
    l.Reports isalnum :=
  fun h => removedExample.not_reports_removed (fun _ => false) rfl (h _ _)

end Result

end Logs
end Ue
end Kelt
