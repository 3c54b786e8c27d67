import Kelt.Planes.Crossings
import Kelt.Planes.Labels

/-!
# Writer and readers of the labels agree

`parse_rule` takes every label apart into what its rule was written for, so two
rules with one verdict never share a label (`series_nodup`), and the log prefix
of a sampling rule leads back to the label of the rule that counts. An allowed
transport between two planes shares its label with the rule of the pair: the
verdict keeps the two apart.
-/

namespace Kelt
namespace Planes

section Agreement

theorem run_append_cons {p : Char → Bool} {a : Text} (hne : a ≠ [])
    (ha : ∀ c ∈ a, p c = true) {d : Char} (hd : p d = false) (t : Text) :
    run p (a ++ d :: t) = some (a, d :: t) := by
  have htake : (a ++ d :: t).takeWhile p = a := by
    rw [List.takeWhile_append_of_pos ha, List.takeWhile_cons, hd]
    simp
  have hdrop : (a ++ d :: t).dropWhile p = d :: t := by
    rw [List.dropWhile_append_of_pos ha, List.dropWhile_cons, hd]
    simp
  rw [run, htake, hdrop, if_neg hne]

theorem run_self {p : Char → Bool} {a : Text} (hne : a ≠ [])
    (ha : ∀ c ∈ a, p c = true) : run p a = some (a, []) := by
  have htake : a.takeWhile p = a := List.takeWhile_eq_self_iff.mpr ha
  have hdrop : a.dropWhile p = [] := List.dropWhile_eq_nil_iff.mpr ha
  rw [run, htake, hdrop, if_neg hne]

@[simp] theorem expect_append (lit t : Text) :
    expect lit (lit ++ t) = some t := by
  have hprefix : lit.isPrefixOf (lit ++ t) = true :=
    List.isPrefixOf_iff_prefix.mpr (List.prefix_append lit t)
  rw [expect, if_pos hprefix, List.drop_left]

theorem IfName.nonBlank (n : IfName) : ∀ c ∈ n.text, nonBlank c = true := by
  intro c hc
  have hplain := n.plain c hc
  simp only [isNameChar, Bool.and_eq_true] at hplain
  exact hplain.1

theorem IfName.ne_colon (n : IfName) {c : Char} (hc : c ∈ n.text) :
    c ≠ ':' := by
  rintro rfl
  have hplain := n.plain _ hc
  revert hplain
  decide

/-- A name before a blank. -/
theorem run_name_append (n : IfName) {d : Char} (hd : nonBlank d = false)
    (t : Text) :
    run Planes.nonBlank (n.text ++ d :: t) = some (n.text, d :: t) :=
  run_append_cons n.ne_nil n.nonBlank hd t

theorem run_name (n : IfName) :
    run Planes.nonBlank n.text = some (n.text, []) :=
  run_self n.ne_nil n.nonBlank

theorem run_name_arrow (n : IfName) (t : Text) :
    run Planes.nonBlank (n.text ++ (arrow ++ t)) =
      some (n.text, arrow ++ t) :=
  run_name_append n (by decide) _

theorem run_name_replies (n : IfName) :
    run Planes.nonBlank (n.text ++ repliesMark) =
      some (n.text, repliesMark) :=
  run_name_append n (by decide) _

theorem arrowMatch_pair (a b : IfName) :
    arrowMatch (a.text ++ arrow ++ b.text) =
      some (a.text, b.text, false) := by
  unfold arrowMatch
  rw [List.append_assoc, run_name_arrow]
  simp only [Option.bind_eq_bind, Option.bind_some, expect_append, run_name]
  rfl

theorem arrowMatch_replies (a b : IfName) :
    arrowMatch (a.text ++ arrow ++ b.text ++ repliesMark) =
      some (a.text, b.text, true) := by
  unfold arrowMatch
  rw [List.append_assoc, List.append_assoc, run_name_arrow]
  simp only [Option.bind_eq_bind, Option.bind_some, expect_append,
    run_name_replies]
  rfl

theorem IfName.text_inj {a b : IfName} (h : a.text = b.text) : a = b := by
  cases a
  cases b
  simpa using h

/-- The name of a bridge after its first letters. -/
theorem IfName.bridge_text {n : IfName} (h : n.isBridge = true) :
    ∃ t : Text, n.text = 'b' :: 'r' :: '-' :: t := by
  obtain ⟨t, ht⟩ := List.isPrefixOf_iff_prefix.mp h
  exact ⟨t, ht.symm⟩

/-- What a label is written for. -/
def Label.parsed : Label → Parsed
  | toPools => ⟨.outside, none, none⟩
  | fromPools => ⟨.outside, none, none⟩
  | pair a b => ⟨.pair, some a.text, some b.text⟩
  | egress a e => ⟨.egress, some a.text, some e.text⟩
  | replies e a => ⟨.replies, some e.text, some a.text⟩
  | fromPlane a => ⟨.outside, some a.text, none⟩
  | intoPlane => ⟨.outside, none, none⟩

/-- Planes stand where a label names planes, the breakout leads out of them. -/
def Label.Well : Label → Prop
  | pair a b => a.isBridge = true ∧ b.isBridge = true
  | egress _ e => e.isBridge = false
  | fromPlane a => a.isBridge = true
  | _ => True

theorem arrowMatch_from {a : IfName} (ha : a.isBridge = true) :
    arrowMatch ("from ".toList ++ a.text) = none := by
  obtain ⟨t, ht⟩ := IfName.bridge_text ha
  have hrun : run nonBlank ("from ".toList ++ a.text) =
      some ("from".toList, ' ' :: a.text) :=
    run_append_cons (a := "from".toList) (by decide) (by decide) (by decide) _
  have hexpect : expect arrow (' ' :: a.text) = none := by
    rw [ht]
    rfl
  unfold arrowMatch
  rw [hrun]
  simp only [Option.bind_eq_bind, Option.bind_some, hexpect, Option.bind_none]

theorem parseRule_of_arrow {rule a b : Text}
    (h : arrowMatch rule = some (a, b, false)) :
    parseRule rule =
      if "br-".toList.isPrefixOf a && "br-".toList.isPrefixOf b then
        ⟨.pair, some a, some b⟩
      else
        ⟨.egress, some a, some b⟩ := by
  rw [parseRule, h]

theorem parseRule_of_replies {rule a b : Text}
    (h : arrowMatch rule = some (a, b, true)) :
    parseRule rule = ⟨.replies, some a, some b⟩ := by
  rw [parseRule, h]

theorem parseRule_of_none {rule : Text} (h : arrowMatch rule = none) :
    parseRule rule =
      ⟨.outside,
        if "from br-".toList.isPrefixOf rule then
          some (rule.drop "from ".toList.length)
        else
          none,
        none⟩ := by
  rw [parseRule, h]

/-- `parse_rule` reads a label back. -/
theorem parseRule_text {l : Label} (hl : l.Well) :
    parseRule l.text = l.parsed := by
  cases l with
  | toPools => rfl
  | fromPools => rfl
  | pair a b =>
      have hplanes : ("br-".toList.isPrefixOf a.text &&
          "br-".toList.isPrefixOf b.text) = true :=
        Bool.and_eq_true_iff.mpr hl
      exact (parseRule_of_arrow (arrowMatch_pair a b)).trans
        (if_pos hplanes)
  | egress a e =>
      have hplanes : ¬ ("br-".toList.isPrefixOf a.text &&
          "br-".toList.isPrefixOf e.text) = true := by
        intro h
        have he := (Bool.and_eq_true_iff.mp h).2
        exact absurd he (Bool.eq_false_iff.mp hl)
      exact (parseRule_of_arrow (arrowMatch_pair a e)).trans
        (if_neg hplanes)
  | replies e a => exact parseRule_of_replies (arrowMatch_replies e a)
  | fromPlane a =>
      obtain ⟨t, ht⟩ := IfName.bridge_text hl
      have hfrom : ("from br-".toList).isPrefixOf
          ("from ".toList ++ a.text) = true := by
        rw [ht]
        rfl
      refine (parseRule_of_none (arrowMatch_from hl)).trans ?_
      rw [if_pos hfrom, List.drop_left]
      rfl
  | intoPlane => rfl

/-- Two labels with one text are one label. -/
theorem Label.text_inj {l l' : Label} (hl : l.Well) (hl' : l'.Well)
    (h : l.text = l'.text) : l = l' := by
  have hparsed : l.parsed = l'.parsed := by
    rw [← parseRule_text hl, h, parseRule_text hl']
  cases l <;> cases l' <;>
    first
    | rfl
    | exact absurd h (by decide)
    | (simp only [Label.parsed, Parsed.mk.injEq, Option.some.injEq,
        reduceCtorEq, true_and, false_and, and_false, and_true] at hparsed)
  case pair.pair =>
    rw [IfName.text_inj hparsed.1, IfName.text_inj hparsed.2]
  case egress.egress =>
    rw [IfName.text_inj hparsed.1, IfName.text_inj hparsed.2]
  case replies.replies =>
    rw [IfName.text_inj hparsed.1, IfName.text_inj hparsed.2]
  case fromPlane.fromPlane =>
    rw [IfName.text_inj hparsed]

/-- The verdict and the label under which a rule is counted. -/
def Rule.series (r : Rule) : Option (Bool × Label) :=
  match r.action with
  | .allow label => some (true, label)
  | .deny label => some (false, label)
  | _ => none

/-- The series of a table, in the order of the rules. -/
def Ruleset.series (rs : Ruleset) : List (Bool × Label) :=
  rs.forward.filterMap Rule.series

def ranLabels (bridges : List IfName) : List Label :=
  if brRan ∈ bridges then [.pair brRan brN3, .pair brN3 brRan] else []

def breakoutLabels : Option IfName → List Label
  | none => []
  | some e => [.egress brN6c e, .replies e brN6c]

def pairLabels (bridges : List IfName) : List Label :=
  bridges.flatMap fun a =>
    bridges.flatMap fun b => if a = b then [] else [.pair a b]

/-- The labels of the rules that deny. -/
def denyLabels (bridges : List IfName) : List Label :=
  [.toPools, .fromPools] ++
    (pairLabels bridges ++ (bridges.map .fromPlane ++ [.intoPlane]))

theorem series_ranRules (bridges : List IfName) :
    (ranRules bridges).filterMap Rule.series =
      (ranLabels bridges).map (fun l => (true, l)) := by
  unfold ranRules ranLabels
  split_ifs <;> rfl

theorem series_breakoutRules (egress : Option IfName) :
    (breakoutRules egress).filterMap Rule.series =
      (breakoutLabels egress).map (fun l => (true, l)) := by
  cases egress <;> rfl

theorem series_pairRules (mode : Mode) (bridges : List IfName) :
    (pairRules mode bridges).filterMap Rule.series =
      (pairLabels bridges).map (fun l => (false, l)) := by
  simp only [pairRules, pairLabels, List.filterMap_flatMap,
    List.map_flatMap]
  congr
  funext a
  congr
  funext b
  split_ifs <;> rfl

theorem series_fromRules (mode : Mode) (bridges : List IfName) :
    (fromRules mode bridges).filterMap Rule.series =
      (bridges.map Label.fromPlane).map (fun l => (false, l)) := by
  rw [fromRules, List.filterMap_flatMap, List.map_map]
  induction bridges with
  | nil => rfl
  | cons a rest ih =>
      rw [List.flatMap_cons, ih, List.map_cons]
      rfl

/-- The series of a chain, up to their order. -/
theorem series_perm (mode : Mode) (pools : Pools) (egress : Option IfName)
    (bridges : List IfName) :
    ((forwardRules mode pools egress bridges).filterMap Rule.series).Perm
      ((ranLabels bridges ++ breakoutLabels egress).map (fun l => (true, l)) ++
        (denyLabels bridges).map (fun l => (false, l))) := by
  have hforward :
      (forwardRules mode pools egress bridges).filterMap Rule.series =
        [(false, Label.toPools), (false, Label.fromPools)] ++
          ((ranLabels bridges ++ breakoutLabels egress).map
              (fun l => (true, l)) ++
            (pairLabels bridges ++ (bridges.map Label.fromPlane ++
              [Label.intoPlane])).map (fun l => (false, l))) := by
    simp only [forwardRules, List.filterMap_append, series_ranRules,
      series_breakoutRules, series_pairRules, series_fromRules,
      List.map_append, List.append_assoc]
    rfl
  rw [hforward]
  exact List.perm_append_comm_assoc _ _ _

theorem nodup_ranLabels (bridges : List IfName) :
    (ranLabels bridges).Nodup := by
  unfold ranLabels
  split_ifs
  · decide
  · exact List.nodup_nil

theorem nodup_breakoutLabels (egress : Option IfName) :
    (breakoutLabels egress).Nodup := by
  cases egress with
  | none => exact List.nodup_nil
  | some e => simp [breakoutLabels]

theorem mem_pairLabels {bridges : List IfName} {l : Label} :
    l ∈ pairLabels bridges ↔
      ∃ a ∈ bridges, ∃ b ∈ bridges, a ≠ b ∧ l = .pair a b := by
  simp only [pairLabels, List.mem_flatMap]
  constructor
  · rintro ⟨a, ha, b, hb, hl⟩
    split_ifs at hl with hab
    · cases hl
    · exact ⟨a, ha, b, hb, hab, List.mem_singleton.mp hl⟩
  · rintro ⟨a, ha, b, hb, hab, rfl⟩
    refine ⟨a, ha, b, hb, ?_⟩
    rw [if_neg hab]
    exact List.mem_singleton_self _

theorem mem_pairLabel {a b : IfName} {l : Label}
    (h : l ∈ (if a = b then [] else [Label.pair a b])) : l = .pair a b := by
  split_ifs at h
  · cases h
  · exact List.mem_singleton.mp h

theorem nodup_pairLabels {bridges : List IfName} (h : bridges.Nodup) :
    (pairLabels bridges).Nodup := by
  refine List.nodup_flatMap.mpr ⟨fun a _ => ?_, ?_⟩
  · refine List.nodup_flatMap.mpr ⟨fun b _ => ?_, ?_⟩
    · split_ifs
      · exact List.nodup_nil
      · exact List.nodup_singleton _
    · refine h.imp ?_
      intro b c hbc l hb hc
      have heq := (mem_pairLabel hb).symm.trans (mem_pairLabel hc)
      cases heq
      exact hbc rfl
  · refine h.imp ?_
    intro a c hac l ha hc
    obtain ⟨b, _, hb⟩ := List.mem_flatMap.mp ha
    obtain ⟨d, _, hd⟩ := List.mem_flatMap.mp hc
    have heq := (mem_pairLabel hb).symm.trans (mem_pairLabel hd)
    cases heq
    exact hac rfl

theorem nodup_denyLabels {bridges : List IfName} (h : bridges.Nodup) :
    (denyLabels bridges).Nodup := by
  have hfrom : (bridges.map Label.fromPlane ++ [Label.intoPlane]).Nodup := by
    refine List.nodup_append.mpr
      ⟨h.map (fun a b hab => by cases hab; rfl), List.nodup_singleton _, ?_⟩
    rintro l hl l' hl' rfl
    obtain ⟨a, _, rfl⟩ := List.mem_map.mp hl
    simp at hl'
  have hpairs : (pairLabels bridges ++
      (bridges.map Label.fromPlane ++ [Label.intoPlane])).Nodup := by
    refine List.nodup_append.mpr ⟨nodup_pairLabels h, hfrom, ?_⟩
    rintro l hl l' hl' rfl
    obtain ⟨a, _, b, _, _, rfl⟩ := mem_pairLabels.mp hl
    simp at hl'
  refine List.nodup_append.mpr ⟨by decide, hpairs, ?_⟩
  rintro l hl l' hl' rfl
  simp only [List.mem_append, mem_pairLabels, List.mem_map,
    List.mem_singleton] at hl'
  simp only [List.mem_cons, List.not_mem_nil, or_false] at hl
  rcases hl with rfl | rfl <;> simp at hl'

theorem nodup_allowLabels (egress : Option IfName) (bridges : List IfName) :
    (ranLabels bridges ++ breakoutLabels egress).Nodup := by
  refine List.nodup_append.mpr
    ⟨nodup_ranLabels bridges, nodup_breakoutLabels egress, ?_⟩
  rintro l hl l' hl' rfl
  unfold ranLabels at hl
  split_ifs at hl
  · cases egress with
    | none => cases hl'
    | some e =>
        simp only [List.mem_cons, List.not_mem_nil, or_false] at hl
        rcases hl with rfl | rfl <;> simp [breakoutLabels] at hl'
  · cases hl

/-- All labels of a table name planes where they stand for planes. -/
theorem well_of_series {egress : Option IfName} {bridges : List IfName}
    (hbridges : ∀ n ∈ bridges, n.isBridge = true)
    (hegress : ∀ e, egress = some e → e.isBridge = false) {l : Label}
    (h : l ∈ ranLabels bridges ++ breakoutLabels egress ∨
      l ∈ denyLabels bridges) : l.Well := by
  rcases h with h | h
  · rcases List.mem_append.mp h with hran | hbreakout
    · unfold ranLabels at hran
      split_ifs at hran
      · simp only [List.mem_cons, List.not_mem_nil, or_false] at hran
        rcases hran with rfl | rfl
        · exact ⟨isBridge_brRan, isBridge_brN3⟩
        · exact ⟨isBridge_brN3, isBridge_brRan⟩
      · cases hran
    · cases egress with
      | none => cases hbreakout
      | some e =>
          simp only [breakoutLabels, List.mem_cons, List.not_mem_nil,
            or_false] at hbreakout
          rcases hbreakout with rfl | rfl
          · exact hegress e rfl
          · trivial
  · simp only [denyLabels, List.mem_append, List.mem_cons, List.mem_map,
      List.not_mem_nil, or_false, mem_pairLabels] at h
    rcases h with (rfl | rfl) | ⟨a, ha, b, hb, _, rfl⟩ | ⟨a, ha, rfl⟩ | rfl
    · trivial
    · trivial
    · exact ⟨hbridges a ha, hbridges b hb⟩
    · exact hbridges a ha
    · trivial

/-- The interfaces that a label names. -/
def Label.names : Label → List IfName
  | pair a b => [a, b]
  | egress a e => [a, e]
  | replies e a => [e, a]
  | fromPlane a => [a]
  | _ => []

/-- The characters of the labels that come from no interface name. -/
def fixedChars : Text :=
  "to UE pools outside the planes from into -> replies".toList

theorem Label.mem_text {l : Label} {c : Char} (h : c ∈ l.text) :
    c ∈ fixedChars ∨ ∃ n ∈ l.names, c ∈ n.text := by
  have harrow : ∀ d ∈ arrow, d ∈ fixedChars := by decide
  have hreplies : ∀ d ∈ repliesMark, d ∈ fixedChars := by decide
  have hfrom : ∀ d ∈ "from ".toList, d ∈ fixedChars := by decide
  have hto : ∀ d ∈ toPools.text, d ∈ fixedChars := by decide
  have hpools : ∀ d ∈ fromPools.text, d ∈ fixedChars := by decide
  have hinto : ∀ d ∈ intoPlane.text, d ∈ fixedChars := by decide
  cases l with
  | toPools => exact Or.inl (hto c h)
  | fromPools => exact Or.inl (hpools c h)
  | intoPlane => exact Or.inl (hinto c h)
  | pair a b =>
      rcases List.mem_append.mp h with h | hb
      · rcases List.mem_append.mp h with ha | h
        · exact Or.inr ⟨a, by simp [names], ha⟩
        · exact Or.inl (harrow c h)
      · exact Or.inr ⟨b, by simp [names], hb⟩
  | egress a e =>
      rcases List.mem_append.mp h with h | he
      · rcases List.mem_append.mp h with ha | h
        · exact Or.inr ⟨a, by simp [names], ha⟩
        · exact Or.inl (harrow c h)
      · exact Or.inr ⟨e, by simp [names], he⟩
  | replies e a =>
      rcases List.mem_append.mp h with h | h
      · rcases List.mem_append.mp h with h | ha
        · rcases List.mem_append.mp h with he | h
          · exact Or.inr ⟨e, by simp [names], he⟩
          · exact Or.inl (harrow c h)
        · exact Or.inr ⟨a, by simp [names], ha⟩
      · exact Or.inl (hreplies c h)
  | fromPlane a =>
      rcases List.mem_append.mp h with h | ha
      · exact Or.inl (hfrom c h)
      · exact Or.inr ⟨a, by simp [names], ha⟩

/-- Blanks of a label are spaces, and no colon is in it. -/
theorem Label.char_text {l : Label} {c : Char} (h : c ∈ l.text) :
    c = ' ' ∨ (nonBlank c && c != ':') = true := by
  rcases Label.mem_text h with hfixed | ⟨n, _, hc⟩
  · exact (by decide : ∀ d ∈ fixedChars,
      d = ' ' ∨ (nonBlank d && d != ':') = true) c hfixed
  · right
    rw [n.nonBlank c hc, bne_iff_ne.mpr (n.ne_colon hc)]
    rfl

theorem Label.underscore_notMem {l : Label}
    (h : ∀ n ∈ l.names, '_' ∉ n.text) : '_' ∉ l.text := by
  intro hmem
  rcases Label.mem_text hmem with hfixed | ⟨n, hn, hc⟩
  · exact absurd hfixed (by decide)
  · exact h n hn hc

theorem Label.text_ne_nil (l : Label) : l.text ≠ [] := by
  have hname : ∀ {s t : Text}, s ≠ [] → s ++ t ≠ [] :=
    fun hs h => hs (List.append_eq_nil_iff.mp h).1
  cases l with
  | toPools => decide
  | fromPools => decide
  | pair a b => exact hname (hname a.ne_nil)
  | egress a e => exact hname (hname a.ne_nil)
  | replies e a => exact hname (hname (hname e.ne_nil))
  | fromPlane a => exact hname (by decide)
  | intoPlane => decide

/-- The label as a log prefix carries it. -/
def Label.id (l : Label) : Text :=
  l.text.map (fun c => if c = ' ' then '_' else c)

theorem Label.char_id {l : Label} {c : Char} (h : c ∈ l.id) :
    (nonBlank c && c != ':') = true := by
  obtain ⟨d, hd, rfl⟩ := List.mem_map.mp h
  split_ifs with hspace
  · decide
  · exact (Label.char_text hd).resolve_left hspace

/-- Where no name has an underscore, the id leads back to the label. -/
theorem ruleOfId_id {l : Label} (h : ∀ n ∈ l.names, '_' ∉ n.text) :
    ruleOfId l.id = l.text := by
  have hnot := Label.underscore_notMem h
  unfold ruleOfId Label.id
  rw [List.map_map]
  refine (List.map_congr_left ?_).trans (List.map_id _)
  intro c hc
  have hne : c ≠ '_' := fun heq => hnot (heq ▸ hc)
  by_cases hspace : c = ' '
  · simp [hspace]
  · simp [hspace, hne]

def kernelWord : Text := " kernel: ".toList

/-- A line of the kernel log for a packet that a rule samples. -/
def logLine (time host : Text) (mode : Mode) (label : Label)
    (packet : Text) : Text :=
  time ++ space ++ host ++ kernelWord ++ logPrefix mode label ++ packet

/-- What the journal and the kernel put around a log prefix. -/
structure LogParts (time host packet : Text) : Prop where
  time_ne : time ≠ []
  time_chars : ∀ c ∈ time, nonBlank c = true
  host_ne : host ≠ []
  host_chars : ∀ c ∈ host, nonBlank c = true
  packet_line : '\n' ∉ packet
  packet_char : ∃ c ∈ packet, isBlank c = false

theorem kernelMark_eq : kernelMark = kernelWord ++ planesMark := by decide

theorem logLine_eq (time host : Text) (mode : Mode) (label : Label)
    (packet : Text) :
    logLine time host mode label packet =
      time ++ (space ++ (host ++ (kernelMark ++ (mode.text ++
        (space ++ (label.id ++ (colon ++ packet))))))) := by
  simp only [logLine, logPrefix, kernelMark_eq, Label.id, List.append_assoc]

/-- Stripping a line takes only blanks after the packet. -/
theorem strip_logLine {time host packet : Text}
    (h : LogParts time host packet) (mode : Mode) (label : Label) :
    ∃ rest : Text, '\n' ∉ rest ∧
      strip (logLine time host mode label packet) =
        logLine time host mode label rest := by
  obtain ⟨c, hc, hblank⟩ := h.packet_char
  obtain ⟨s, t, rfl⟩ := List.append_of_mem hc
  refine ⟨s ++ c :: t.rdropWhile isBlank, ?_, ?_⟩
  · intro hmem
    apply h.packet_line
    rcases List.mem_append.mp hmem with hs | ht
    · exact List.mem_append_left _ hs
    · refine List.mem_append_right _ ?_
      rcases List.mem_cons.mp ht with heq | ht
      · exact heq ▸ List.mem_cons_self
      · exact List.mem_cons_of_mem _
          ((List.rdropWhile_prefix isBlank t).subset ht)
  · obtain ⟨d, time', rfl⟩ := List.exists_cons_of_ne_nil h.time_ne
    have hd : isBlank d = false := by
      have := h.time_chars d List.mem_cons_self
      simpa [nonBlank] using this
    have hsplit : ∀ tail : Text,
        logLine (d :: time') host mode label (s ++ c :: tail) =
          logLine (d :: time') host mode label s ++ c :: tail := by
      intro tail
      simp only [logLine, List.append_assoc]
    rw [hsplit, hsplit, strip, stripBy_append_cons hblank]
    have hdrop : (logLine (d :: time') host mode label s).dropWhile isBlank =
        logLine (d :: time') host mode label s := by
      rw [logLine_eq, List.cons_append, List.dropWhile_cons, hd]
      rfl
    rw [hdrop]

theorem isWord_mode (alnum : Char → Bool) (mode : Mode) :
    ∀ c ∈ mode.text, isWord alnum c = true := by
  have hascii : ∀ c ∈ mode.text, c.isAlphanum = true := by
    cases mode <;> decide
  intro c hc
  rw [isWord, hascii c hc]
  rfl

theorem idMatch_label {label : Label} (rest : Text) :
    idMatch (space ++ (label.id ++ (colon ++ rest))) =
      some (some label.id, rest) := by
  have hne : label.id ≠ [] :=
    fun h => label.text_ne_nil (List.map_eq_nil_iff.mp h)
  have hrun : run (fun c => nonBlank c && c != ':')
      (label.id ++ (colon ++ rest)) = some (label.id, colon ++ rest) :=
    run_append_cons hne (fun c hc => Label.char_id hc) (by decide) _
  unfold idMatch
  rw [expect_append, Option.bind_some, hrun]
  simp only [expect_append, Option.map_some]

/-- The groups of a line are what it was put together from. -/
theorem sampleMatch_logLine (alnum : Char → Bool) {time host packet rest : Text}
    (h : LogParts time host packet) (hrest : '\n' ∉ rest) (mode : Mode)
    (label : Label) :
    sampleMatch alnum (logLine time host mode label rest) =
      some (time, mode.text, some label.id, rest) := by
  have htime : ∀ t, run nonBlank (time ++ (space ++ t)) =
      some (time, space ++ t) :=
    run_append_cons h.time_ne h.time_chars (by decide)
  have hhost : ∀ t, run nonBlank (host ++ (kernelMark ++ t)) =
      some (host, kernelMark ++ t) :=
    fun t => run_append_cons h.host_ne h.host_chars (by decide) _
  have hmode : ∀ t, run (isWord alnum) (mode.text ++ (space ++ t)) =
      some (mode.text, space ++ t) := by
    refine run_append_cons ?_ (isWord_mode alnum mode) rfl
    cases mode <;> decide
  rw [logLine_eq, sampleMatch]
  simp only [htime, hhost, hmode, expect_append, idMatch_label,
    Option.bind_eq_bind, Option.bind_some, if_neg hrest]

/-- A line that carries the log prefix of a rule gives back its label. -/
theorem parseSample_logLine (alnum : Char → Bool) {time host packet : Text}
    (h : LogParts time host packet) (mode : Mode) {label : Label}
    (hnames : ∀ n ∈ label.names, '_' ∉ n.text) :
    ∃ s : Sample,
      parseSample alnum (logLine time host mode label packet) = some s ∧
      s.time = time ∧ s.mode = mode.text ∧ s.rule = some label.text := by
  obtain ⟨rest, hrest, hstrip⟩ := strip_logLine h mode label
  unfold parseSample
  rw [hstrip, sampleMatch_logLine alnum h hrest]
  refine ⟨_, rfl, rfl, rfl, ?_⟩
  exact congrArg some (ruleOfId_id hnames)

/-- Every sample comes from a line of the log. -/
theorem mem_takeSamples {alnum : Char → Bool} {limit : Int}
    {taken : List (Option Text)} {lines : List Text} {s : Sample}
    (h : s ∈ takeSamples alnum limit taken lines) :
    ∃ line ∈ lines, parseSample alnum line = some s := by
  induction lines generalizing taken with
  | nil => cases h
  | cons line lines ih =>
      have hrest : ∀ taken', s ∈ takeSamples alnum limit taken' lines →
          ∃ l ∈ line :: lines, parseSample alnum l = some s := by
        intro taken' h'
        obtain ⟨l, hl, hs⟩ := ih h'
        exact ⟨l, List.mem_cons_of_mem _ hl, hs⟩
      unfold takeSamples at h
      cases hline : parseSample alnum line with
      | none =>
          simp only [hline] at h
          exact hrest _ h
      | some s' =>
          simp only [hline] at h
          split_ifs at h with hlimit
          · exact hrest _ h
          · rcases List.mem_cons.mp h with rfl | h
            · exact ⟨line, List.mem_cons_self, hline⟩
            · exact hrest _ h

/-- Every sampling rule stands with a rule that counts under its label. -/
def Paired (rules : List Rule) : Prop :=
  ∀ r ∈ rules, ∀ (mode : Mode) (label : Label),
    r.action = .sample mode label →
      (⟨r.conds, .deny label⟩ : Rule) ∈ rules

theorem Paired.append {xs ys : List Rule} (hx : Paired xs) (hy : Paired ys) :
    Paired (xs ++ ys) := by
  intro r hr mode label haction
  rcases List.mem_append.mp hr with h | h
  · exact List.mem_append_left _ (hx r h mode label haction)
  · exact List.mem_append_right _ (hy r h mode label haction)

theorem Paired.flatMap {β : Type} {f : β → List Rule} {l : List β}
    (h : ∀ b ∈ l, Paired (f b)) : Paired (l.flatMap f) := by
  intro r hr mode label haction
  obtain ⟨b, hb, hr⟩ := List.mem_flatMap.mp hr
  exact List.mem_flatMap.mpr ⟨b, hb, h b hb r hr mode label haction⟩

theorem paired_deny (mode : Mode) (conds : List Cond) (label : Label) :
    Paired (deny mode conds label) := by
  intro r hr mode' label' haction
  simp only [deny, List.mem_cons, List.not_mem_nil, or_false] at hr
  rcases hr with rfl | rfl
  · cases haction
    simp [deny]
  · cases haction

theorem paired_transportRules (egress : Option IfName)
    (bridges : List IfName) : Paired (transportRules egress bridges) := by
  intro r hr mode label haction
  obtain ⟨label', hallow⟩ := allow_of_mem_transportRules hr
  rw [hallow] at haction
  cases haction

theorem paired_forwardRules (mode : Mode) (pools : Pools)
    (egress : Option IfName) (bridges : List IfName) :
    Paired (forwardRules mode pools egress bridges) := by
  have hpairs : Paired (pairRules mode bridges) := by
    refine Paired.flatMap fun a _ => Paired.flatMap fun b _ => ?_
    split_ifs
    · intro r hr
      cases hr
    · exact paired_deny _ _ _
  have hfrom : Paired (fromRules mode bridges) :=
    Paired.flatMap fun a _ => paired_deny _ _ _
  have hplane : Paired (planeRules mode egress bridges) := by
    rw [planeRules, ← List.append_assoc]
    exact (paired_transportRules egress bridges).append
      (hpairs.append (hfrom.append (paired_deny _ _ _)))
  have houtside :
      Paired [⟨[.iifOutside, .oifOutside], .accept⟩] := by
    intro r hr mode' label haction
    obtain rfl := List.mem_singleton.mp hr
    cases haction
  rw [forwardRules_eq]
  exact (paired_deny _ _ _).append
    ((paired_deny _ _ _).append (houtside.append hplane))

theorem names_of_mem_denyLabels {bridges : List IfName} {l : Label}
    (h : l ∈ denyLabels bridges) : ∀ n ∈ l.names, n ∈ bridges := by
  simp only [denyLabels, List.mem_append, List.mem_cons, List.mem_map,
    List.not_mem_nil, or_false, mem_pairLabels] at h
  rcases h with (rfl | rfl) | ⟨a, ha, b, hb, _, rfl⟩ | ⟨a, ha, rfl⟩ | rfl
  · exact fun n hn => absurd hn List.not_mem_nil
  · exact fun n hn => absurd hn List.not_mem_nil
  · simp [Label.names, ha, hb]
  · simp [Label.names, ha]
  · exact fun n hn => absurd hn List.not_mem_nil

/-- What the writer of the labels and their readers agree on. -/
structure LabelsAgree (alnum : Char → Bool) (rs : Ruleset) : Prop where
  distinct : (rs.series.map (fun s => (s.1, s.2.text))).Nodup
  parsed : ∀ s ∈ rs.series, parseRule s.2.text = s.2.parsed
  sampled : ∀ r ∈ rs.forward, ∀ (mode : Mode) (label : Label),
    r.action = .sample mode label →
      (⟨r.conds, .deny label⟩ : Rule) ∈ rs.forward ∧
      ∀ time host packet : Text, LogParts time host packet →
        ∃ s : Sample,
          parseSample alnum (logLine time host mode label packet) = some s ∧
          s.time = time ∧ s.mode = mode.text ∧ s.rule = some label.text

/-- The labels of the rules with one verdict are distinct, each is read back as
what it was written for, and a sample leads to the rule that counts. -/
theorem labels_agree (alnum : Char → Bool) {mode : Text} {pools : Pools}
    {egress : Option IfName} {netdevs : List IfName} {rs : Ruleset}
    (hnodup : netdevs.Nodup)
    (hnames : ∀ n ∈ bridgesOf netdevs, '_' ∉ n.text)
    (hegress : ∀ e, egress = some e → e.isBridge = false)
    (h : applyPlaneFilter mode pools egress netdevs = some rs) :
    LabelsAgree alnum rs := by
  unfold applyPlaneFilter at h
  cases hmode : parseMode mode with
  | none => simp [hmode] at h
  | some m =>
      simp only [hmode] at h
      split_ifs at h
      obtain rfl := Option.some.inj h
      have hperm := series_perm m pools egress (bridgesOf netdevs)
      have hbridges : ∀ n ∈ bridgesOf netdevs, n.isBridge = true :=
        fun n hn => (mem_bridgesOf.mp hn).2
      have hwell : ∀ s ∈ (forwardRules m pools egress
          (bridgesOf netdevs)).filterMap Rule.series, s.2.Well := by
        intro s hs
        refine well_of_series hbridges hegress ?_
        rcases List.mem_append.mp (hperm.mem_iff.mp hs) with hallow | hdeny
        · obtain ⟨l, hl, rfl⟩ := List.mem_map.mp hallow
          exact Or.inl hl
        · obtain ⟨l, hl, rfl⟩ := List.mem_map.mp hdeny
          exact Or.inr hl
      have hseries : ((forwardRules m pools egress
          (bridgesOf netdevs)).filterMap Rule.series).Nodup := by
        rw [hperm.nodup_iff, List.nodup_append]
        refine ⟨(nodup_allowLabels _ _).map (fun a b hab => by cases hab; rfl),
          (nodup_denyLabels (hnodup.filter _)).map
            (fun a b hab => by cases hab; rfl), ?_⟩
        rintro s hs s' hs' rfl
        obtain ⟨l, _, rfl⟩ := List.mem_map.mp hs
        simp at hs'
      refine ⟨?_, fun s hs => parseRule_text (hwell s hs), ?_⟩
      · refine hseries.map_on ?_
        intro s hs s' hs' heq
        rw [Prod.mk.injEq] at heq
        exact Prod.ext heq.1
          (Label.text_inj (hwell s hs) (hwell s' hs') heq.2)
      · intro r hr mode' label haction
        have hcounted := paired_forwardRules m pools egress
          (bridgesOf netdevs) r hr mode' label haction
        refine ⟨hcounted, fun time host packet hparts => ?_⟩
        refine parseSample_logLine alnum hparts mode' ?_
        have hmem : (false, label) ∈ (forwardRules m pools egress
            (bridgesOf netdevs)).filterMap Rule.series :=
          List.mem_filterMap.mpr ⟨_, hcounted, rfl⟩
        have hlabel : label ∈ denyLabels (bridgesOf netdevs) := by
          rcases List.mem_append.mp (hperm.mem_iff.mp hmem) with hall | hdeny
          · obtain ⟨l, _, hl⟩ := List.mem_map.mp hall
            cases hl
          · obtain ⟨l, hl, heq⟩ := List.mem_map.mp hdeny
            cases heq
            exact hl
        exact fun n hn => hnames n (names_of_mem_denyLabels hlabel n hn)

theorem labels_agree_worker :
    ∃ rs : Ruleset, LabelsAgree (fun _ => false) rs :=
  ⟨_, @labels_agree (fun _ => false) "enforce".toList [] (some eth0)
    workerDevs _ (by decide) (by decide) (by rintro e ⟨rfl⟩; decide) rfl⟩

/-- With the RAN bridge, the transport from it and the pair share a label. -/
theorem labels_shared :
    ¬ ∀ (mode : Text) (pools : Pools) (egress : Option IfName)
      (netdevs : List IfName) (rs : Ruleset), netdevs.Nodup →
      (∀ n ∈ netdevs, ∀ c ∈ n.text, (c.isAlphanum || c == '-') = true) →
      (∀ e, egress = some e → e.isBridge = false) →
      applyPlaneFilter mode pools egress netdevs = some rs →
        (rs.series.map (fun s => s.2.text)).Nodup := by
  intro hall
  have hnodup := hall "enforce".toList [] none [brN3, brRan] _ (by decide)
    (by decide) (by simp) rfl
  revert hnodup
  decide

end Agreement

end Planes
end Kelt
