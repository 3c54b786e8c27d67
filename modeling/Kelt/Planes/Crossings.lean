import Kelt.Planes.Filter

/-!
# What the plane filter lets cross

`Allowed` is the intended crossing relation. A packet's fate is settled by the
first rule that hits it and does not only sample; the segments of the chain are
gone through one after the other, each with the packets it settles.
-/

namespace Kelt
namespace Planes

open Ip

section Crossings

variable {pools : Pools} {egress : Option IfName} {bridges : List IfName}

/-- The crossings that the architecture has. -/
inductive Allowed (pools : Pools) (egress : Option IfName)
    (bridges : List IfName) (p : Packet) : Prop
  | outside (hiif : p.iif.isBridge = false) (hoif : p.oif.isBridge = false)
      (hdst : inPools pools p.dst = false) (hsrc : inPools pools p.src = false)
  | ranUp (hran : brRan ∈ bridges) (hiif : p.iif = brRan) (hoif : p.oif = brN3)
  | ranDown (hran : brRan ∈ bridges) (hiif : p.iif = brN3)
      (hoif : p.oif = brRan)
  | breakout {e : IfName} (he : egress = some e) (hiif : p.iif = brN6c)
      (hoif : p.oif = e) (hdst : inPools pools p.dst = false)
  | replies {e : IfName} (he : egress = some e) (hiif : p.iif = e)
      (hoif : p.oif = brN6c) (hct : p.ct = .established ∨ p.ct = .related)
      (hsrc : inPools pools p.src = false)

def Rule.isDeny (r : Rule) : Bool :=
  match r.action with
  | .deny _ => true
  | _ => false

/-- The rule that counts what goes from one plane to another. -/
def pairRule (a b : IfName) : Rule :=
  ⟨[.iifname a, .oifname b], .deny (.pair a b)⟩

/-- Rules that do not hit a packet leave it to the rest. -/
theorem walk_append_of_not_hits {nv : Target} {p : Packet} {xs : List Rule}
    (h : ∀ r ∈ xs, r.hits p = false) (ys : List Rule) :
    walk nv p (xs ++ ys) = walk nv p ys := by
  induction xs with
  | nil => rfl
  | cons r rest ih =>
      have hr : r.hits p = false := h r List.mem_cons_self
      rw [List.cons_append, walk, hr]
      exact ih (fun q hq => h q (List.mem_cons_of_mem r hq))

/-- The counting part of a trace. -/
def Trace.settled (t : Trace) : List Rule × Target :=
  (t.counted, t.verdict)

/-- A denied packet: sampled, counted by one rule, and given the verdict. -/
theorem settled_deny {nv : Target} {p : Packet} {mode : Mode}
    {conds : List Cond} (h : conds.all (Cond.holds p) = true) (label : Label)
    (rest : List Rule) :
    (walk nv p (deny mode conds label ++ rest)).settled =
      ([⟨conds, .deny label⟩], nv) := by
  simp [deny, walk, Rule.hits, h, Trace.settled]

theorem not_hits_deny {p : Packet} {mode : Mode} {conds : List Cond}
    {label : Label} (h : conds.all (Cond.holds p) = false) :
    ∀ r ∈ deny mode conds label, r.hits p = false := by
  intro r hr
  simp only [deny, List.mem_cons, List.not_mem_nil, or_false] at hr
  rcases hr with rfl | rfl
  · exact h
  · exact h

/-- Rules that only deny, for each element of a list: what the first element
whose rules hit the packet does. -/
theorem settled_flatMap {β : Type} {nv : Target} {p : Packet}
    {f : β → List Rule} {l : List β} {b : β} {settled : List Rule × Target}
    (hb : b ∈ l)
    (hother : ∀ c ∈ l, c ≠ b → ∀ r ∈ f c, r.hits p = false)
    (hsettle : ∀ rest, (walk nv p (f b ++ rest)).settled = settled)
    (rest : List Rule) :
    (walk nv p (l.flatMap f ++ rest)).settled = settled := by
  classical
  induction l with
  | nil => cases hb
  | cons c l ih =>
      rw [List.flatMap_cons, List.append_assoc]
      by_cases hc : c = b
      · rw [hc]
        exact hsettle _
      · rw [walk_append_of_not_hits (hother c List.mem_cons_self hc)]
        refine ih ?_ (fun d hd => hother d (List.mem_cons_of_mem c hd))
        exact (List.mem_cons.mp hb).resolve_left (fun h => hc h.symm)

/-- The rules for planes: what the chain does with a packet that enters or
leaves through a bridge. -/
def planeRules (mode : Mode) (egress : Option IfName)
    (bridges : List IfName) : List Rule :=
  ranRules bridges ++ (breakoutRules egress ++ (pairRules mode bridges ++
    (fromRules mode bridges ++ deny mode [.oifPlane] .intoPlane)))

/-- The first rules see to the UE pools and to what concerns no plane. -/
theorem forwardRules_eq (mode : Mode) (pools : Pools)
    (egress : Option IfName) (bridges : List IfName) :
    forwardRules mode pools egress bridges =
      deny mode [.daddr pools, .oifOutside] .toPools ++
        (deny mode [.saddr pools, .iifOutside] .fromPools ++
          ([⟨[.iifOutside, .oifOutside], .accept⟩] ++
            planeRules mode egress bridges)) := by
  simp only [forwardRules, planeRules, List.append_assoc]

/-- The rule that denies an address of the UE pools outside the planes. -/
def leakRule (pools : Pools) (p : Packet) : Option Rule :=
  if inPools pools p.dst && !p.oif.isBridge then
    some ⟨[.daddr pools, .oifOutside], .deny .toPools⟩
  else if inPools pools p.src && !p.iif.isBridge then
    some ⟨[.saddr pools, .iifOutside], .deny .fromPools⟩
  else
    none

/-- What a filter with verdict `nv` does with a packet. -/
def settledBy (nv : Target) (mode : Mode) (pools : Pools)
    (egress : Option IfName) (bridges : List IfName) (p : Packet) :
    List Rule × Target :=
  (walk nv p (forwardRules mode pools egress bridges)).settled

theorem settledBy_of_leak {p : Packet} {r : Rule}
    (h : leakRule pools p = some r) (nv : Target) (mode : Mode) :
    settledBy nv mode pools egress bridges p = ([r], nv) := by
  unfold settledBy
  rw [forwardRules_eq]
  unfold leakRule at h
  split_ifs at h with hdst hsrc
  · obtain rfl := Option.some.inj h
    exact settled_deny (by simpa [Cond.holds] using hdst) _ _
  · obtain rfl := Option.some.inj h
    rw [walk_append_of_not_hits (not_hits_deny
      (by simpa [Cond.holds] using hdst))]
    exact settled_deny (by simpa [Cond.holds] using hsrc) _ _

/-- A packet that is no leak comes to the rules for planes, unless it concerns
no plane. -/
theorem settledBy_of_no_leak {p : Packet} (h : leakRule pools p = none)
    (nv : Target) (mode : Mode) :
    settledBy nv mode pools egress bridges p =
      if p.iif.isBridge || p.oif.isBridge then
        (walk nv p (planeRules mode egress bridges)).settled
      else
        ([], .accept) := by
  unfold leakRule at h
  split_ifs at h with hdst hsrc
  unfold settledBy
  rw [forwardRules_eq, walk_append_of_not_hits (not_hits_deny
      (by simpa [Cond.holds] using hdst)),
    walk_append_of_not_hits (not_hits_deny
      (by simpa [Cond.holds] using hsrc))]
  cases hiif : p.iif.isBridge <;> cases hoif : p.oif.isBridge <;>
    simp [walk, Rule.hits, Cond.holds, hiif, hoif, Trace.settled]

/-- The transports, which are all accepted. -/
def transportRules (egress : Option IfName) (bridges : List IfName) :
    List Rule :=
  ranRules bridges ++ breakoutRules egress

def transportRule (egress : Option IfName) (bridges : List IfName)
    (p : Packet) : Option Rule :=
  (transportRules egress bridges).find? (fun r => r.hits p)

theorem allow_of_mem_transportRules {r : Rule}
    (h : r ∈ transportRules egress bridges) :
    ∃ label : Label, r.action = .allow label := by
  rcases List.mem_append.mp h with hran | hbreakout
  · unfold ranRules at hran
    split_ifs at hran with hmem
    · simp only [List.mem_cons, List.not_mem_nil, or_false] at hran
      rcases hran with rfl | rfl
      · exact ⟨_, rfl⟩
      · exact ⟨_, rfl⟩
    · cases hran
  · cases egress with
    | none => cases hbreakout
    | some e =>
        simp only [breakoutRules, List.mem_cons, List.not_mem_nil,
          or_false] at hbreakout
        rcases hbreakout with rfl | rfl
        · exact ⟨_, rfl⟩
        · exact ⟨_, rfl⟩

/-- Among rules that accept, the first one that hits settles the packet. -/
theorem settled_of_find? {nv : Target} {p : Packet} {xs : List Rule} {r : Rule}
    (hallow : ∀ q ∈ xs, ∃ label : Label, q.action = .allow label)
    (h : xs.find? (fun q => q.hits p) = some r) (rest : List Rule) :
    (walk nv p (xs ++ rest)).settled = ([r], .accept) := by
  induction xs with
  | nil => cases h
  | cons q xs ih =>
      rw [List.find?_cons] at h
      rw [List.cons_append, walk]
      cases hq : q.hits p with
      | true =>
          rw [hq] at h
          obtain rfl := Option.some.inj h
          obtain ⟨label, haction⟩ := hallow q List.mem_cons_self
          simp [haction, Trace.settled]
      | false =>
          rw [hq] at h
          exact ih (fun q' hq' => hallow q' (List.mem_cons_of_mem q hq')) h

/-- The rule that denies what is on its way from or to a plane. -/
def denyRule (p : Packet) : Rule :=
  if p.iif.isBridge then
    if p.oif.isBridge ∧ p.iif ≠ p.oif then
      pairRule p.iif p.oif
    else
      ⟨[.iifname p.iif], .deny (.fromPlane p.iif)⟩
  else
    ⟨[.oifPlane], .deny .intoPlane⟩

/-- The rules of one pair hit only what goes from the one to the other. -/
theorem of_hits_pair {mode : Mode} {p : Packet} {a b : IfName} {r : Rule}
    (hr : r ∈ (if a = b then [] else
      deny mode [.iifname a, .oifname b] (.pair a b)))
    (h : r.hits p = true) : a ≠ b ∧ p.iif = a ∧ p.oif = b := by
  split_ifs at hr with hab
  · cases hr
  · simp only [deny, List.mem_cons, List.not_mem_nil, or_false] at hr
    rcases hr with rfl | rfl
    all_goals
      simp only [Rule.hits, List.all_cons, Cond.holds, List.all_nil,
        Bool.and_true, Bool.and_eq_true, decide_eq_true_eq] at h
      exact ⟨hab, h⟩

theorem not_hits_pairRules {mode : Mode} {p : Packet}
    (h : ∀ a ∈ bridges, ∀ b ∈ bridges, p.iif = a → p.oif = b → a = b) :
    ∀ r ∈ pairRules mode bridges, r.hits p = false := by
  intro r hr
  obtain ⟨a, ha, hr⟩ := List.mem_flatMap.mp hr
  obtain ⟨b, hb, hr⟩ := List.mem_flatMap.mp hr
  by_contra hhits
  obtain ⟨hab, hiif, hoif⟩ := of_hits_pair hr (Bool.eq_true_of_not_eq_false hhits)
  exact hab (h a ha b hb hiif hoif)

theorem settled_pairRules {nv : Target} {mode : Mode} {p : Packet}
    (ha : p.iif ∈ bridges) (hb : p.oif ∈ bridges) (hab : p.iif ≠ p.oif)
    (rest : List Rule) :
    (walk nv p (pairRules mode bridges ++ rest)).settled =
      ([pairRule p.iif p.oif], nv) := by
  refine settled_flatMap ha ?_ ?_ rest
  · intro a _ hne r hr
    obtain ⟨b, _, hr⟩ := List.mem_flatMap.mp hr
    by_contra hhits
    exact hne (of_hits_pair hr (Bool.eq_true_of_not_eq_false hhits)).2.1.symm
  · refine settled_flatMap hb ?_ ?_
    · intro b _ hne r hr
      by_contra hhits
      exact hne
        (of_hits_pair hr (Bool.eq_true_of_not_eq_false hhits)).2.2.symm
    · intro rest'
      rw [if_neg hab]
      exact settled_deny (by simp [Cond.holds]) _ _

theorem not_hits_fromRules {mode : Mode} {p : Packet}
    (h : p.iif ∉ bridges) :
    ∀ r ∈ fromRules mode bridges, r.hits p = false := by
  intro r hr
  obtain ⟨a, ha, hr⟩ := List.mem_flatMap.mp hr
  have hne : p.iif ≠ a := fun heq => h (heq ▸ ha)
  exact not_hits_deny (by simpa [Cond.holds] using hne) r hr

theorem settled_fromRules {nv : Target} {mode : Mode} {p : Packet}
    (ha : p.iif ∈ bridges) (rest : List Rule) :
    (walk nv p (fromRules mode bridges ++ rest)).settled =
      ([⟨[.iifname p.iif], .deny (.fromPlane p.iif)⟩], nv) := by
  refine settled_flatMap ha ?_ ?_ rest
  · intro a _ hne
    have hiif : p.iif ≠ a := fun heq => hne heq.symm
    exact not_hits_deny (by simpa [Cond.holds] using hiif)
  · intro rest'
    exact settled_deny (by simp [Cond.holds]) _ _

/-- The bridges of a packet are among those the rules are written for. -/
structure Present (bridges : List IfName) (p : Packet) : Prop where
  iif : p.iif.isBridge = true → p.iif ∈ bridges
  oif : p.oif.isBridge = true → p.oif ∈ bridges
  bridge : ∀ n ∈ bridges, n.isBridge = true

/-- After the transports, a packet of a bridge is denied by one rule. -/
theorem settled_denyRule {nv : Target} {mode : Mode} {p : Packet}
    (hp : Present bridges p)
    (hplane : p.iif.isBridge = true ∨ p.oif.isBridge = true) :
    (walk nv p (pairRules mode bridges ++ (fromRules mode bridges ++
        deny mode [.oifPlane] .intoPlane))).settled = ([denyRule p], nv) := by
  unfold denyRule
  by_cases hiif : p.iif.isBridge = true
  · rw [if_pos hiif]
    by_cases hcross : p.oif.isBridge = true ∧ p.iif ≠ p.oif
    · rw [if_pos hcross]
      exact settled_pairRules (hp.iif hiif) (hp.oif hcross.1) hcross.2 _
    · rw [if_neg hcross, walk_append_of_not_hits (not_hits_pairRules ?_)]
      · exact settled_fromRules (hp.iif hiif) _
      · intro a _ b hb ha hob
        by_contra hab
        refine hcross ⟨hob ▸ hp.bridge b hb, ?_⟩
        rwa [ha, hob]
  · rw [if_neg hiif]
    have hnot : p.iif ∉ bridges := fun hmem => hiif (hp.bridge _ hmem)
    rw [walk_append_of_not_hits (not_hits_pairRules ?_),
      walk_append_of_not_hits (not_hits_fromRules hnot)]
    · have hoif : p.oif.isBridge = true := hplane.resolve_left hiif
      exact settled_deny (by simp [Cond.holds, hoif]) _ []
    · intro a ha b _ heq
      exact absurd (heq ▸ ha) hnot

/-- What becomes of a packet: denied by one rule, or accepted, with the rules
that count it. -/
inductive Fate where
  | denied (r : Rule)
  | accepted (counted : List Rule)

def Fate.settled (nv : Target) : Fate → List Rule × Target
  | denied r => ([r], nv)
  | accepted counted => (counted, .accept)

def fate (pools : Pools) (egress : Option IfName) (bridges : List IfName)
    (p : Packet) : Fate :=
  match leakRule pools p with
  | some r => .denied r
  | none =>
      if p.iif.isBridge || p.oif.isBridge then
        match transportRule egress bridges p with
        | some r => .accepted [r]
        | none => .denied (denyRule p)
      else
        .accepted []

/-- The chain gives every packet its fate, whatever the mode. -/
theorem settledBy_eq {p : Packet} (hp : Present bridges p) (nv : Target)
    (mode : Mode) :
    settledBy nv mode pools egress bridges p =
      (fate pools egress bridges p).settled nv := by
  unfold fate
  cases hleak : leakRule pools p with
  | some r => exact settledBy_of_leak hleak nv mode
  | none =>
      rw [settledBy_of_no_leak hleak]
      dsimp only
      split_ifs with hplane
      · rw [planeRules, ← List.append_assoc]
        cases hfind : transportRule egress bridges p with
        | some r =>
            exact settled_of_find? (fun q hq => allow_of_mem_transportRules hq)
              hfind _
        | none =>
            have hnone : ∀ r ∈ transportRules egress bridges,
                r.hits p = false := by
              intro r hr
              exact Bool.eq_false_of_not_eq_true
                (List.find?_eq_none.mp hfind r hr)
            rw [← transportRules, walk_append_of_not_hits hnone]
            exact settled_denyRule hp (by simpa using hplane)
      · rfl

/-- A transport hits a packet exactly when it is one that the architecture has,
pools aside. -/
theorem transportRule_isSome_iff {p : Packet} :
    (transportRule egress bridges p).isSome = true ↔
      (brRan ∈ bridges ∧ p.iif = brRan ∧ p.oif = brN3) ∨
      (brRan ∈ bridges ∧ p.iif = brN3 ∧ p.oif = brRan) ∨
      (∃ e : IfName, egress = some e ∧ p.iif = brN6c ∧ p.oif = e) ∨
      (∃ e : IfName, egress = some e ∧ p.iif = e ∧ p.oif = brN6c ∧
        (p.ct = .established ∨ p.ct = .related)) := by
  unfold transportRule transportRules
  rw [List.find?_isSome]
  cases egress with
  | none =>
      by_cases hran : brRan ∈ bridges <;>
        simp [ranRules, breakoutRules, hran, Rule.hits, Cond.holds]
  | some e =>
      by_cases hran : brRan ∈ bridges <;>
        simp [ranRules, breakoutRules, hran, Rule.hits, Cond.holds,
          @eq_comm _ e, @and_comm (p.oif = e)]

theorem isBridge_brRan : brRan.isBridge = true := by decide

theorem isBridge_brN3 : brN3.isBridge = true := by decide

theorem isBridge_brN6c : brN6c.isBridge = true := by decide

/-- No address of the UE pools is seen outside the planes. -/
theorem leakRule_eq_none_iff {p : Packet} :
    leakRule pools p = none ↔
      (p.oif.isBridge = false → inPools pools p.dst = false) ∧
      (p.iif.isBridge = false → inPools pools p.src = false) := by
  unfold leakRule
  cases inPools pools p.dst <;> cases inPools pools p.src <;>
    cases p.iif.isBridge <;> cases p.oif.isBridge <;> simp

/-- The fate of a packet is to be accepted exactly when the architecture has the
crossing. -/
theorem allowed_iff_fate {p : Packet}
    (hegress : ∀ e, egress = some e → e.isBridge = false) :
    Allowed pools egress bridges p ↔
      ∃ counted, fate pools egress bridges p = .accepted counted := by
  constructor
  · intro h
    have hleak : leakRule pools p = none := by
      rw [leakRule_eq_none_iff]
      cases h with
      | outside hiif hoif hdst hsrc => simp [hdst, hsrc]
      | ranUp hran hiif hoif =>
          simp [hiif, hoif, isBridge_brRan, isBridge_brN3]
      | ranDown hran hiif hoif =>
          simp [hiif, hoif, isBridge_brRan, isBridge_brN3]
      | breakout he hiif hoif hdst => simp [hiif, hdst, isBridge_brN6c]
      | replies he hiif hoif hct hsrc => simp [hoif, hsrc, isBridge_brN6c]
    simp only [fate, hleak]
    split_ifs with hplane
    · have hsome : (transportRule egress bridges p).isSome = true := by
        rw [transportRule_isSome_iff]
        cases h with
        | outside hiif hoif hdst hsrc => simp [hiif, hoif] at hplane
        | ranUp hran hiif hoif => exact Or.inl ⟨hran, hiif, hoif⟩
        | ranDown hran hiif hoif =>
            exact Or.inr (Or.inl ⟨hran, hiif, hoif⟩)
        | breakout he hiif hoif hdst =>
            exact Or.inr (Or.inr (Or.inl ⟨_, he, hiif, hoif⟩))
        | replies he hiif hoif hct hsrc =>
            exact Or.inr (Or.inr (Or.inr ⟨_, he, hiif, hoif, hct⟩))
      obtain ⟨r, hr⟩ := Option.isSome_iff_exists.mp hsome
      exact ⟨[r], by rw [hr]⟩
    · exact ⟨[], rfl⟩
  · rintro ⟨counted, hfate⟩
    unfold fate at hfate
    cases hleak : leakRule pools p with
    | some r => simp [hleak] at hfate
    | none =>
        obtain ⟨hdst, hsrc⟩ := leakRule_eq_none_iff.mp hleak
        simp only [hleak] at hfate
        split_ifs at hfate with hplane
        · cases hfind : transportRule egress bridges p with
          | none => simp [hfind] at hfate
          | some r =>
              have hsome : (transportRule egress bridges p).isSome = true := by
                rw [hfind]
                rfl
              rcases transportRule_isSome_iff.mp hsome with
                ⟨hran, hiif, hoif⟩ | ⟨hran, hiif, hoif⟩ |
                ⟨e, he, hiif, hoif⟩ | ⟨e, he, hiif, hoif, hct⟩
              · exact .ranUp hran hiif hoif
              · exact .ranDown hran hiif hoif
              · exact .breakout he hiif hoif (hdst (hoif ▸ hegress e he))
              · exact .replies he hiif hoif hct (hsrc (hiif ▸ hegress e he))
        · rw [Bool.or_eq_true, not_or, Bool.not_eq_true,
            Bool.not_eq_true] at hplane
          exact .outside hplane.1 hplane.2 (hdst hplane.2) (hsrc hplane.1)

/-- A packet that is denied is counted by a rule that denies, and by the rule of
a pair of planes just when it goes from the one to the other. -/
theorem denied_rule {p : Packet} {r : Rule} (hp : Present bridges p)
    (h : fate pools egress bridges p = .denied r) :
    r.isDeny = true ∧
      ∀ a ∈ bridges, ∀ b ∈ bridges, a ≠ b →
        (r = pairRule a b ↔ p.iif = a ∧ p.oif = b) := by
  unfold fate at h
  cases hleak : leakRule pools p with
  | some q =>
      simp only [hleak] at h
      cases h
      unfold leakRule at hleak
      split_ifs at hleak with hdst hsrc
      · obtain rfl := Option.some.inj hleak
        refine ⟨rfl, fun a _ b hb _ => ⟨(fun heq => by cases heq), ?_⟩⟩
        rintro ⟨-, rfl⟩
        simp [hp.bridge _ hb] at hdst
      · obtain rfl := Option.some.inj hleak
        refine ⟨rfl, fun a ha b _ _ => ⟨(fun heq => by cases heq), ?_⟩⟩
        rintro ⟨rfl, -⟩
        simp [hp.bridge _ ha] at hsrc
  | none =>
      simp only [hleak] at h
      split_ifs at h with hplane
      cases hfind : transportRule egress bridges p with
      | some q => simp [hfind] at h
      | none =>
          simp only [hfind, Fate.denied.injEq] at h
          subst h
          unfold denyRule
          split_ifs with hiif hcross
          · refine ⟨rfl, fun a _ b _ _ => ?_⟩
            simp [pairRule]
          · refine ⟨rfl, fun a ha b hb hab => ⟨(fun heq => by cases heq), ?_⟩⟩
            rintro ⟨rfl, rfl⟩
            exact absurd ⟨hp.bridge _ hb, hab⟩ hcross
          · refine ⟨rfl, fun a ha b _ _ => ⟨(fun heq => by cases heq), ?_⟩⟩
            rintro ⟨rfl, -⟩
            exact absurd (hp.bridge _ ha) hiif

/-- What accepts a packet and counts it is no rule that denies. -/
theorem accepted_rules {p : Packet} {counted : List Rule}
    (h : fate pools egress bridges p = .accepted counted) :
    ∀ r ∈ counted, r.isDeny = false := by
  unfold fate at h
  cases hleak : leakRule pools p with
  | some q => simp [hleak] at h
  | none =>
      simp only [hleak] at h
      split_ifs at h with hplane
      · cases hfind : transportRule egress bridges p with
        | none => simp [hfind] at h
        | some q =>
            simp only [hfind, Fate.accepted.injEq] at h
            subst h
            obtain ⟨label, haction⟩ :=
              allow_of_mem_transportRules (List.mem_of_find?_eq_some hfind)
            simp [Rule.isDeny, haction]
      · cases h
        simp

theorem mem_bridgesOf {netdevs : List IfName} {n : IfName} :
    n ∈ bridgesOf netdevs ↔ n ∈ netdevs ∧ n.isBridge = true :=
  List.mem_filter

theorem present_bridgesOf {netdevs : List IfName} {p : Packet}
    (hiif : p.iif ∈ netdevs) (hoif : p.oif ∈ netdevs) :
    Present (bridgesOf netdevs) p where
  iif := fun h => mem_bridgesOf.mpr ⟨hiif, h⟩
  oif := fun h => mem_bridgesOf.mpr ⟨hoif, h⟩
  bridge := fun _ hn => (mem_bridgesOf.mp hn).2

/-- What the loaded rules do with a packet, in the two modes. -/
structure Exact (pools : Pools) (egress : Option IfName)
    (bridges : List IfName) (enforced observed : Ruleset) (p : Packet) :
    Prop where
  accepted : (enforced.walk p).verdict = .accept ↔
    Allowed pools egress bridges p
  uncounted : Allowed pools egress bridges p →
    ∀ r ∈ (enforced.walk p).counted, r.isDeny = false
  denied : ¬ Allowed pools egress bridges p →
    (∃ r : Rule, r.isDeny = true ∧ (enforced.walk p).counted = [r]) ∧
    (enforced.walk p).verdict = .drop
  crossing : ∀ a ∈ bridges, ∀ b ∈ bridges, a ≠ b →
    (pairRule a b ∈ (enforced.walk p).counted ↔
      p.iif = a ∧ p.oif = b ∧ ¬ Allowed pools egress bridges p)
  sameCounts : (observed.walk p).counted = (enforced.walk p).counted
  kept : (observed.walk p).verdict = .accept

theorem settled_of_apply {mode : Text} {m : Mode} {netdevs : List IfName}
    {rs : Ruleset} (hmode : parseMode mode = some m)
    (h : applyPlaneFilter mode pools egress netdevs = some rs) (p : Packet) :
    (rs.walk p).settled =
      settledBy m.verdict m pools egress (bridgesOf netdevs) p := by
  unfold applyPlaneFilter at h
  simp only [hmode] at h
  split_ifs at h
  obtain rfl := Option.some.inj h
  rfl

/-- The loaded rules accept what the architecture has and count everything else
in one not-allowed rule; observing counts the same and drops nothing. -/
theorem applyPlaneFilter_exact {netdevs : List IfName}
    {enforced observed : Ruleset} {p : Packet}
    (hegress : ∀ e, egress = some e → e.isBridge = false)
    (henforced : applyPlaneFilter "enforce".toList pools egress netdevs =
      some enforced)
    (hobserved : applyPlaneFilter "observe".toList pools egress netdevs =
      some observed)
    (hiif : p.iif ∈ netdevs) (hoif : p.oif ∈ netdevs) :
    Exact pools egress (bridgesOf netdevs) enforced observed p := by
  have hp := present_bridgesOf hiif hoif
  have he : (enforced.walk p).settled = _ :=
    (settled_of_apply rfl henforced p).trans (settledBy_eq hp .drop .enforce)
  have ho : (observed.walk p).settled = _ :=
    (settled_of_apply rfl hobserved p).trans (settledBy_eq hp .accept .observe)
  have hallowed : Allowed pools egress (bridgesOf netdevs) p ↔
      ∃ counted, fate pools egress (bridgesOf netdevs) p =
        .accepted counted := allowed_iff_fate hegress
  cases hfate : fate pools egress (bridgesOf netdevs) p with
  | denied r =>
      obtain ⟨hdeny, hpair⟩ := denied_rule hp hfate
      have hnot : ¬ Allowed pools egress (bridgesOf netdevs) p := by
        rw [hallowed, hfate]
        rintro ⟨counted, h⟩
        cases h
      simp only [hfate, Fate.settled, Trace.settled, Prod.mk.injEq] at he ho
      refine ⟨?_, fun h => absurd h hnot,
        fun _ => ⟨⟨r, hdeny, he.1⟩, he.2⟩, ?_, ?_, ho.2⟩
      · rw [he.2]
        exact iff_of_false (fun h => by cases h) hnot
      · intro a ha b hb hab
        rw [he.1, List.mem_singleton, eq_comm, hpair a ha b hb hab]
        exact ⟨fun h => ⟨h.1, h.2, hnot⟩, fun h => ⟨h.1, h.2.1⟩⟩
      · rw [ho.1, he.1]
  | accepted counted =>
      have hrules := accepted_rules hfate
      have hyes : Allowed pools egress (bridgesOf netdevs) p :=
        hallowed.mpr ⟨counted, hfate⟩
      simp only [hfate, Fate.settled, Trace.settled, Prod.mk.injEq] at he ho
      refine ⟨?_, ?_, fun h => absurd hyes h, ?_, ?_, ho.2⟩
      · rw [he.2]
        exact iff_of_true rfl hyes
      · intro _ r hr
        rw [he.1] at hr
        exact hrules r hr
      · intro a _ b _ _
        rw [he.1]
        refine iff_of_false ?_ (fun h => h.2.2 hyes)
        intro hmem
        have hfalse := hrules _ hmem
        cases hfalse
      · rw [ho.1, he.1]

def eth0 : IfName := ⟨"eth0".toList, by decide, by decide⟩

/-- The interfaces of a worker with the physical RAN. -/
def workerDevs : List IfName := [brN3, brN6c, brRan, eth0]

/-- From the user plane to the breakout. -/
def userPlanePacket : Packet where
  iif := brN3
  oif := brN6c
  src := .v4 (BitVec.ofNat 32 0x0a2d0002)
  dst := .v4 (BitVec.ofNat 32 0x08080808)
  ct := .new

theorem applyPlaneFilter_exact_worker :
    ∃ enforced observed : Ruleset,
      Exact [(BitVec.ofNat 32 0x0a2d0000, 16)] (some eth0)
        (bridgesOf workerDevs) enforced observed userPlanePacket :=
  ⟨_, _, applyPlaneFilter_exact
    (by rintro e ⟨rfl⟩; decide) rfl rfl (by decide) (by decide)⟩

end Crossings

end Planes
end Kelt
