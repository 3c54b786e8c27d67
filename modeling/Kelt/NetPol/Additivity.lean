import Kelt.NetPol.Semantics
import Mathlib.Data.List.Perm.Basic

/-!
# Policies are additive

Two runs of the evaluator are compared through the reference semantics, which
knows only which policies, rules, peers and ports there are.

* Reordering policies, rules, peers or ports changes no verdict.
* A rule added to a policy that already restricts its direction takes nothing
  away.
* A policy added to the others blocks only in a direction in which it is the
  first one to select the endpoint.

A refusal also names its policy: the name comes from the list that the decision
was taken on.
-/

namespace Kelt
namespace NetPol

section Additivity

/-- A permutation in which each entry may itself be replaced by a related one. -/
def Reordered {α : Type} (r : α → α → Prop) (l l' : List α) : Prop :=
  ∃ mid, l.Perm mid ∧ List.Forall₂ r mid l'

theorem Reordered.exists_right {α : Type} {r : α → α → Prop}
    {l l' : List α} (h : Reordered r l l') {x : α} (hx : x ∈ l) :
    ∃ y ∈ l', r x y := by
  obtain ⟨mid, hperm, hrel⟩ := h
  have hmid : x ∈ mid := hperm.mem_iff.1 hx
  clear hperm hx
  induction hrel with
  | nil =>
      cases hmid
  | @cons a b l₁ l₂ hab _ ih =>
      rcases List.mem_cons.1 hmid with rfl | hmid
      · exact ⟨b, List.mem_cons_self, hab⟩
      · obtain ⟨y, hy, hxy⟩ := ih hmid
        exact ⟨y, List.mem_cons_of_mem _ hy, hxy⟩

theorem Reordered.exists_left {α : Type} {r : α → α → Prop}
    {l l' : List α} (h : Reordered r l l') {y : α} (hy : y ∈ l') :
    ∃ x ∈ l, r x y := by
  obtain ⟨mid, hperm, hrel⟩ := h
  have hmid : ∃ x ∈ mid, r x y := by
    clear hperm
    induction hrel with
    | nil =>
        cases hy
    | @cons a b l₁ l₂ hab _ ih =>
        rcases List.mem_cons.1 hy with rfl | hy
        · exact ⟨a, List.mem_cons_self, hab⟩
        · obtain ⟨x, hx, hxy⟩ := ih hy
          exact ⟨x, List.mem_cons_of_mem _ hx, hxy⟩
  obtain ⟨x, hx, hxy⟩ := hmid
  exact ⟨x, hperm.mem_iff.2 hx, hxy⟩

theorem Reordered.length_eq {α : Type} {r : α → α → Prop}
    {l l' : List α} (h : Reordered r l l') : l.length = l'.length := by
  obtain ⟨mid, hperm, hrel⟩ := h
  rw [hperm.length_eq, hrel.length_eq]

/-- Absent lists read as empty ones keep a reordering. -/
theorem Reordered.of_rel {α : Type} {r : α → α → Prop}
    {o o' : Option (List α)} (h : Option.Rel (Reordered r) o o') :
    Reordered r (o.getD []) (o'.getD []) := by
  cases h with
  | none => exact ⟨[], List.Perm.nil, List.Forall₂.nil⟩
  | some h => exact h

theorem Reordered.eq_nil_iff {α : Type} {r : α → α → Prop}
    {l l' : List α} (h : Reordered r l l') : l = [] ↔ l' = [] := by
  rw [← List.length_eq_zero_iff, ← List.length_eq_zero_iff, h.length_eq]

/-- The same rule with its peers and its ports in another order. -/
structure Rule.Shuffled (rule rule' : Rule) : Prop where
  peers : Option.Rel List.Perm rule.peers rule'.peers
  ports : Option.Rel List.Perm rule.ports rule'.ports

/-- The same policy with its rules in another order, each one shuffled. -/
structure Policy.Shuffled (p p' : Policy) : Prop where
  ns : p.ns = p'.ns
  name : p.name = p'.name
  podSelector : p.spec.podSelector = p'.spec.podSelector
  policyTypes : p.spec.policyTypes = p'.spec.policyTypes
  rules : ∀ kind, Option.Rel (Reordered Rule.Shuffled)
    (p.spec.rules kind) (p'.spec.rules kind)

theorem anyHolds_perm {α : Type} {entries entries' : Option (List α)}
    (h : Option.Rel List.Perm entries entries') (holds : α → Prop) :
    AnyHolds entries holds ↔ AnyHolds entries' holds := by
  cases h with
  | none =>
      rfl
  | some hperm =>
      unfold AnyHolds
      simp only [Option.getD_some, hperm.mem_iff]
      rw [← List.length_eq_zero_iff, ← List.length_eq_zero_iff,
        hperm.length_eq]

theorem ruleHolds_shuffled {rule rule' : Rule}
    (h : Rule.Shuffled rule rule') (namespaces : Dict String Labels)
    (ownNs : String) (other dst : Endpoint) :
    RuleHolds namespaces ownNs other dst rule ↔
      RuleHolds namespaces ownNs other dst rule' := by
  unfold RuleHolds
  rw [anyHolds_perm h.peers, anyHolds_perm h.ports]

theorem affects_shuffled {p p' : Policy} (h : p.Shuffled p')
    (kind : Kind) :
    Affects p.spec kind ↔ Affects p'.spec kind := by
  have hempty : p.spec.egress.getD [] = [] ↔ p'.spec.egress.getD [] = [] :=
    (Reordered.of_rel (h.rules .egress)).eq_nil_iff
  unfold Affects
  rw [h.policyTypes, ne_eq, ne_eq, hempty]

theorem restrictsFlow_shuffled {p p' : Policy} (h : p.Shuffled p')
    (kind : Kind) (src dst : Endpoint) :
    RestrictsFlow kind src dst p ↔ RestrictsFlow kind src dst p' := by
  unfold RestrictsFlow Restricts
  simp only [h.ns, affects_shuffled h, h.podSelector]

theorem allowsFlow_shuffled {p p' : Policy} (h : p.Shuffled p')
    (namespaces : Dict String Labels) (kind : Kind) (src dst : Endpoint) :
    AllowsFlow namespaces kind src dst p ↔
      AllowsFlow namespaces kind src dst p' := by
  have hrules := Reordered.of_rel (h.rules kind)
  unfold AllowsFlow
  rw [h.ns]
  constructor
  · rintro ⟨rule, hrule, hholds⟩
    obtain ⟨rule', hrule', hsh⟩ := hrules.exists_right hrule
    exact ⟨rule', hrule', (ruleHolds_shuffled hsh _ _ _ _).1 hholds⟩
  · rintro ⟨rule', hrule', hholds⟩
    obtain ⟨rule, hrule, hsh⟩ := hrules.exists_left hrule'
    exact ⟨rule, hrule, (ruleHolds_shuffled hsh _ _ _ _).2 hholds⟩

/-- No direction depends on any of the orders. -/
theorem directionAllowed_shuffled {policies policies' : List Policy}
    (h : Reordered Policy.Shuffled policies policies')
    (namespaces : Dict String Labels) (kind : Kind) (src dst : Endpoint) :
    DirectionAllowed {p | p ∈ policies} namespaces kind src dst ↔
      DirectionAllowed {p | p ∈ policies'} namespaces kind src dst := by
  constructor
  · apply Permits.mono
    · intro p hp happ
      obtain ⟨p', hp', hsh⟩ := h.exists_right hp
      exact ⟨p', hp', (restrictsFlow_shuffled hsh _ _ _).1 happ,
        (allowsFlow_shuffled hsh _ _ _ _).1⟩
    · intro p' hp' happ
      obtain ⟨p, hp, hsh⟩ := h.exists_left hp'
      exact ⟨p, hp, (restrictsFlow_shuffled hsh _ _ _).2 happ⟩
  · apply Permits.mono
    · intro p' hp' happ
      obtain ⟨p, hp, hsh⟩ := h.exists_left hp'
      exact ⟨p, hp, (restrictsFlow_shuffled hsh _ _ _).2 happ,
        (allowsFlow_shuffled hsh _ _ _ _).2⟩
    · intro p hp happ
      obtain ⟨p', hp', hsh⟩ := h.exists_right hp
      exact ⟨p', hp', (restrictsFlow_shuffled hsh _ _ _).1 happ⟩

/-- The verdict is settled by the reference semantics of the two directions. -/
theorem verdict_congr {policies policies' : List Policy}
    {namespaces : Dict String Labels} {src dst : Endpoint}
    (h : Allowed {p | p ∈ policies} namespaces src dst ↔
      Allowed {p | p ∈ policies'} namespaces src dst) :
    (evaluate policies namespaces src dst).verdict =
      (evaluate policies' namespaces src dst).verdict := by
  have hiff :
      (evaluate policies namespaces src dst).verdict = .blocked ↔
        (evaluate policies' namespaces src dst).verdict = .blocked := by
    rw [verdict_eq_blocked_iff, verdict_eq_blocked_iff, h]
  cases h₁ : (evaluate policies namespaces src dst).verdict <;>
    cases h₂ : (evaluate policies' namespaces src dst).verdict <;>
    simp_all

/-- Replace the rules of one direction. -/
def PolicySpec.setRules (spec : PolicySpec) (kind : Kind)
    (rules : List Rule) : PolicySpec :=
  match kind with
  | .ingress => { spec with ingress := some rules }
  | .egress => { spec with egress := some rules }

/-- Insert a rule of one direction at a position of a policy's rules. -/
def Policy.addRule (p : Policy) (kind : Kind) (i : Nat) (rule : Rule) :
    Policy :=
  { p with
    spec := p.spec.setRules kind
      (((p.spec.rules kind).getD []).insertIdx i rule) }

theorem mem_rules_addRule {p : Policy} {kind kind' : Kind} {i : Nat}
    {rule r : Rule} (h : r ∈ (p.spec.rules kind').getD []) :
    r ∈ ((p.addRule kind i rule).spec.rules kind').getD [] := by
  have hmem : ∀ rules : List Rule, r ∈ rules → r ∈ rules.insertIdx i rule := by
    intro rules hr
    by_cases hi : i ≤ rules.length
    · exact (List.mem_insertIdx hi).2 (Or.inr hr)
    · rwa [List.insertIdx_of_length_lt (by omega)]
  cases kind <;> cases kind' <;>
    simp_all [Policy.addRule, PolicySpec.setRules, PolicySpec.rules]

/-- A rule for a direction that is already restricted changes no policy type. -/
theorem affects_addRule_iff {p : Policy} {kind : Kind}
    (h : Affects p.spec kind) (i : Nat) (rule : Rule) (kind' : Kind) :
    Affects (p.addRule kind i rule).spec kind' ↔ Affects p.spec kind' := by
  cases kind with
  | ingress =>
      rfl
  | egress =>
      have htypes : (p.addRule .egress i rule).spec.policyTypes =
          p.spec.policyTypes := rfl
      cases kind' with
      | ingress =>
          unfold Affects
          simp [htypes]
      | egress =>
          refine ⟨fun _ => h, fun _ => ?_⟩
          rcases h with h | ⟨hunset, h | h⟩
          · exact Or.inl (by rwa [htypes])
          · cases h
          · refine Or.inr ⟨by rwa [htypes], Or.inr ?_⟩
            obtain ⟨r, hr⟩ := List.exists_mem_of_ne_nil _ h
            have hr' : r ∈ (p.spec.rules .egress).getD [] := hr
            exact List.ne_nil_of_mem (mem_rules_addRule hr')

theorem restrictsFlow_addRule_iff {p : Policy} {kind : Kind}
    (h : Affects p.spec kind) (i : Nat) (rule : Rule)
    (kind' : Kind) (src dst : Endpoint) :
    RestrictsFlow kind' src dst (p.addRule kind i rule) ↔
      RestrictsFlow kind' src dst p := by
  have hselector : (p.addRule kind i rule).spec.podSelector =
      p.spec.podSelector := by
    cases kind <;> rfl
  have hns : (p.addRule kind i rule).ns = p.ns := rfl
  unfold RestrictsFlow Restricts
  simp only [affects_addRule_iff h, hselector, hns]

theorem allowsFlow_addRule {p : Policy} {namespaces : Dict String Labels}
    {kind' : Kind} {src dst : Endpoint} (kind : Kind) (i : Nat) (rule : Rule)
    (h : AllowsFlow namespaces kind' src dst p) :
    AllowsFlow namespaces kind' src dst (p.addRule kind i rule) := by
  obtain ⟨r, hr, hholds⟩ := h
  exact ⟨r, mem_rules_addRule hr, hholds⟩

/-- A new rule in a restricted direction takes no permission away. -/
theorem directionAllowed_addRule {before after : List Policy} {p : Policy}
    {kind : Kind} (haffects : Affects p.spec kind) (i : Nat) (rule : Rule)
    {namespaces : Dict String Labels} {kind' : Kind} {src dst : Endpoint}
    (h : DirectionAllowed {q | q ∈ before ++ p :: after} namespaces kind'
      src dst) :
    DirectionAllowed {q | q ∈ before ++ p.addRule kind i rule :: after}
      namespaces kind' src dst := by
  have hiff := restrictsFlow_addRule_iff haffects i rule kind' src dst
  refine Permits.mono ?_ ?_ h
  · intro q hq happ
    by_cases hqp : q = p
    · subst hqp
      exact ⟨q.addRule kind i rule, by simp, hiff.2 happ,
        allowsFlow_addRule kind i rule⟩
    · refine ⟨q, ?_, happ, id⟩
      simp only [Set.mem_ofPred_eq, List.mem_append, List.mem_cons] at hq ⊢
      exact hq.imp id (fun h => Or.inr (h.resolve_left hqp))
  · intro q hq happ
    by_cases hqp : q = p.addRule kind i rule
    · subst hqp
      exact ⟨p, by simp, hiff.1 happ⟩
    · refine ⟨q, ?_, happ⟩
      simp only [Set.mem_ofPred_eq, List.mem_append, List.mem_cons] at hq ⊢
      exact hq.imp id (fun h => Or.inr (h.resolve_left hqp))

/-- A new policy refuses only as the first one to select the endpoint. -/
theorem restrictsFlow_of_newly_refused {before after : List Policy}
    {p : Policy} {namespaces : Dict String Labels} {kind : Kind}
    {src dst : Endpoint}
    (hbefore : DirectionAllowed {q | q ∈ before ++ after} namespaces kind
      src dst)
    (hafter : ¬ DirectionAllowed {q | q ∈ before ++ p :: after} namespaces
      kind src dst) :
    RestrictsFlow kind src dst p ∧
      ∀ q ∈ before ++ after, ¬ RestrictsFlow kind src dst q := by
  have hset : {q | q ∈ before ++ p :: after} =
      insert p {q | q ∈ before ++ after} := by
    ext q
    simp only [Set.mem_ofPred_eq, List.mem_append, List.mem_cons,
      Set.mem_insert_iff]
    tauto
  unfold DirectionAllowed at hbefore hafter
  rw [hset] at hafter
  exact applies_of_permits_not_permits_insert hbefore hafter

/-- The policy a refusal names is one of the list it was decided on. -/
theorem denyName_mem {chosen : List Policy} {ns : String} (kind : Kind)
    (hne : chosen ≠ []) (hns : ∀ p ∈ chosen, p.ns = ns) :
    ∃ p ∈ chosen, denyName chosen ns kind = some (policyName p) := by
  by_cases hdefault :
      (chosen.map Policy.name).contains ("default-deny-" ++ kind.lower) = true
  · obtain ⟨p, hp, hname⟩ :=
      List.mem_map.1 (List.contains_iff_mem.1 hdefault)
    refine ⟨p, hp, ?_⟩
    unfold denyName policyName
    rw [if_pos hdefault, hns p hp, hname]
  · obtain ⟨p, rest, rfl⟩ := List.exists_cons_of_ne_nil hne
    refine ⟨p, List.mem_cons_self, ?_⟩
    unfold denyName
    rw [if_neg hdefault]
    rfl

/-- A refusing name comes from a policy that restricts the endpoint. -/
theorem denyName_restricts (policies : List Policy) (kind : Kind)
    (src dst : Endpoint) {ns : String}
    (hns : (kind.own src dst).ns = some ns)
    (hne : (selecting policies ns (kind.own src dst).podLabels kind).isEmpty
      ≠ true) :
    ∃ p ∈ policies, RestrictsFlow kind src dst p ∧
      denyName (selecting policies ns (kind.own src dst).podLabels kind)
        ns kind = some (policyName p) := by
  have hne' : selecting policies ns (kind.own src dst).podLabels kind ≠ [] :=
    fun h => hne (by rw [h]; rfl)
  obtain ⟨p, hp, hname⟩ := denyName_mem kind hne'
    (fun p hp => ((mem_selecting_iff _ _ _ _ _).1 hp).2.1)
  obtain ⟨hmem, hrestricts⟩ := (mem_selecting_iff _ _ _ _ _).1 hp
  exact ⟨p, hmem, ⟨ns, hns, hrestricts⟩, hname⟩

theorem egress_no_names {policies : List Policy}
    {namespaces : Dict String Labels} {src dst : Endpoint}
    (h : (egress policies namespaces src dst).result = .no) :
    ∃ p ∈ policies, RestrictsFlow .egress src dst p ∧
      (egress policies namespaces src dst).policy = some (policyName p) := by
  cases hns : src.ns with
  | none =>
      simp [egress, hns] at h
  | some ns =>
      simp only [egress, hns] at h ⊢
      split_ifs at h with hempty
      obtain ⟨p, hp, hrestricts, hname⟩ :=
        denyName_restricts policies .egress src dst hns hempty
      refine ⟨p, hp, hrestricts, ?_⟩
      rw [if_neg hempty]
      split at h
      · cases h
      · exact hname

theorem ingress_no_names {policies : List Policy}
    {namespaces : Dict String Labels} {src dst : Endpoint}
    (h : (ingress policies namespaces src dst).result = .no) :
    ∃ p ∈ policies, RestrictsFlow .ingress src dst p ∧
      (ingress policies namespaces src dst).policy = some (policyName p) := by
  cases hns : dst.ns with
  | none =>
      simp [ingress, hns] at h
  | some ns =>
      simp only [ingress, hns] at h ⊢
      split_ifs at h with hempty
      obtain ⟨p, hp, hrestricts, hname⟩ :=
        denyName_restricts policies .ingress src dst hns hempty
      refine ⟨p, hp, hrestricts, ?_⟩
      rw [if_neg hempty]
      split at h
      · cases h
      · exact hname

/-- The step of a direction. -/
def directionStep (kind : Kind) (policies : List Policy)
    (namespaces : Dict String Labels) (src dst : Endpoint) : Step :=
  match kind with
  | .egress => egress policies namespaces src dst
  | .ingress => ingress policies namespaces src dst

theorem step_side (kind : Kind) (policies : List Policy)
    (namespaces : Dict String Labels) (src dst : Endpoint) :
    (directionStep kind policies namespaces src dst).side = kind := by
  cases kind with
  | egress =>
      simp only [directionStep, egress]
      repeat' split
      all_goals rfl
  | ingress =>
      simp only [directionStep, ingress]
      repeat' split
      all_goals rfl

theorem step_eq_no_iff (kind : Kind) (policies : List Policy)
    (namespaces : Dict String Labels) (src dst : Endpoint) :
    (directionStep kind policies namespaces src dst).result = .no ↔
      ¬ DirectionAllowed {p | p ∈ policies} namespaces kind src dst := by
  cases kind with
  | egress => exact egress_eq_no_iff policies namespaces src dst
  | ingress => exact ingress_eq_no_iff policies namespaces src dst

theorem step_no_names {kind : Kind} {policies : List Policy}
    {namespaces : Dict String Labels} {src dst : Endpoint}
    (h : (directionStep kind policies namespaces src dst).result = .no) :
    ∃ p ∈ policies, RestrictsFlow kind src dst p ∧
      (directionStep kind policies namespaces src dst).policy =
        some (policyName p) := by
  cases kind with
  | egress => exact egress_no_names h
  | ingress => exact ingress_no_names h

/-- A refusing step of an evaluation is the step of its own direction. -/
theorem refusing_step_eq {policies : List Policy}
    {namespaces : Dict String Labels} {src dst : Endpoint} {step : Step}
    (hstep : step ∈ (evaluate policies namespaces src dst).steps)
    (hno : step.result = .no) :
    step = directionStep step.side policies namespaces src dst := by
  have hside := fun kind => step_side kind policies namespaces src dst
  simp only [evaluate, List.mem_cons, List.not_mem_nil, or_false] at hstep
  rcases hstep with rfl | hingress
  · have h : (egress policies namespaces src dst).side = .egress :=
      hside .egress
    rw [h]
    rfl
  · split_ifs at hingress with hegress
    · subst hingress
      cases hno
    · subst hingress
      have h : (ingress policies namespaces src dst).side = .ingress :=
        hside .ingress
      rw [h]
      rfl

/-- A blocked evaluation has a refusing step. -/
theorem exists_refusing_step {policies : List Policy}
    {namespaces : Dict String Labels} {src dst : Endpoint}
    (h : (evaluate policies namespaces src dst).verdict = .blocked) :
    ∃ step ∈ (evaluate policies namespaces src dst).steps,
      step.result = .no := by
  by_contra hnone
  simp only [not_exists, not_and] at hnone
  have hegress := hnone (egress policies namespaces src dst)
    (by simp [evaluate])
  have hingress := hnone (ingress policies namespaces src dst)
    (by simp [evaluate, hegress])
  simp [evaluate, hegress, hingress] at h

/--
Additivity of the evaluator: no order matters, rules only add permissions,
a policy takes a permission away only as the first one to select the endpoint,
and a refusal names a policy that selects it.
-/
theorem evaluate_additive (namespaces : Dict String Labels)
    (src dst : Endpoint) :
    (∀ policies policies', Reordered Policy.Shuffled policies policies' →
      (evaluate policies namespaces src dst).verdict =
        (evaluate policies' namespaces src dst).verdict) ∧
    (∀ before after p kind i rule, kind.text ∈ policyTypes p.spec →
      (evaluate (before ++ p :: after) namespaces src dst).verdict
        = .passes →
      (evaluate (before ++ p.addRule kind i rule :: after) namespaces
        src dst).verdict = .passes) ∧
    (∀ before after p,
      (evaluate (before ++ after) namespaces src dst).verdict = .passes →
      ∀ step ∈ (evaluate (before ++ p :: after) namespaces src dst).steps,
        step.result = .no →
        RestrictsFlow step.side src dst p ∧
          ∀ q ∈ before ++ after, ¬ RestrictsFlow step.side src dst q) ∧
    (∀ policies,
      (evaluate policies namespaces src dst).verdict = .blocked →
      (∃ step ∈ (evaluate policies namespaces src dst).steps,
        step.result = .no) ∧
      ∀ step ∈ (evaluate policies namespaces src dst).steps,
        step.result = .no →
        ∃ p ∈ policies, RestrictsFlow step.side src dst p ∧
          step.policy = some (policyName p)) := by
  refine ⟨?_, ?_, ?_, ?_⟩
  · intro policies policies' h
    apply verdict_congr
    unfold Allowed
    rw [directionAllowed_shuffled h, directionAllowed_shuffled h]
  · intro before after p kind i rule htypes hpass
    have haffects : Affects p.spec kind :=
      (policyTypes_iff p.spec kind).1 (List.contains_iff_mem.2 htypes)
    rw [evaluate_passes_iff] at hpass ⊢
    exact ⟨directionAllowed_addRule haffects i rule hpass.1,
      directionAllowed_addRule haffects i rule hpass.2⟩
  · intro before after p hpass step hstep hno
    rw [evaluate_passes_iff] at hpass
    have hrefused :
        ¬ DirectionAllowed {q | q ∈ before ++ p :: after} namespaces
          step.side src dst := by
      rw [← step_eq_no_iff, ← refusing_step_eq hstep hno]
      exact hno
    have hallowed :
        DirectionAllowed {q | q ∈ before ++ after} namespaces
          step.side src dst := by
      cases step.side with
      | egress => exact hpass.1
      | ingress => exact hpass.2
    exact restrictsFlow_of_newly_refused hallowed hrefused
  · intro policies hblocked
    refine ⟨exists_refusing_step hblocked, ?_⟩
    intro step hstep hno
    have heq := refusing_step_eq hstep hno
    rw [heq] at hno
    obtain ⟨p, hp, hrestricts, hname⟩ := step_no_names hno
    exact ⟨p, hp, hrestricts, by rw [heq]; exact hname⟩

/-- A policy without ingress rules, and one that lets everything in. -/
def denyAll : Policy :=
  ⟨"b", "default-deny-ingress", ⟨none, some ["Ingress"], none, none⟩⟩

def allowAll : Policy :=
  ⟨"b", "allow-all", ⟨none, some ["Ingress"], some [⟨none, none⟩], none⟩⟩

theorem evaluate_additive_denyAll :
    let src : Endpoint := ⟨some "a", none, none, none, none⟩
    let dst : Endpoint := ⟨some "b", none, none, some 80, some "TCP"⟩
    (evaluate [denyAll, allowAll] Dict.empty src dst).verdict =
        (evaluate [allowAll, denyAll] Dict.empty src dst).verdict ∧
      (evaluate [denyAll, allowAll.addRule .ingress 0 ⟨none, some []⟩]
        Dict.empty src dst).verdict = .passes ∧
      RestrictsFlow .ingress src dst denyAll ∧
      ∃ p ∈ [denyAll], RestrictsFlow .ingress src dst p ∧
        (ingress [denyAll] Dict.empty src dst).policy =
          some (policyName p) := by
  intro src dst
  obtain ⟨hperm, hrule, hpolicy, hname⟩ :=
    evaluate_additive Dict.empty src dst
  have hself : ∀ p ∈ [denyAll, allowAll], p.Shuffled p := by
    intro p hp
    simp only [List.mem_cons, List.not_mem_nil, or_false] at hp
    rcases hp with rfl | rfl
    · exact ⟨rfl, rfl, rfl, rfl, fun kind => by cases kind <;> exact .none⟩
    · refine ⟨rfl, rfl, rfl, rfl, fun kind => ?_⟩
      cases kind with
      | egress => exact .none
      | ingress =>
          exact .some ⟨_, List.Perm.refl _,
            .cons ⟨.none, .none⟩ .nil⟩
  have hrefusing :
      ingress [denyAll] Dict.empty src dst ∈
        (evaluate [denyAll] Dict.empty src dst).steps := by
    decide
  refine ⟨?_, ?_, ?_, ?_⟩
  · refine hperm _ _ ⟨[allowAll, denyAll], List.Perm.swap _ _ _, ?_⟩
    exact .cons (hself _ (by simp)) (.cons (hself _ (by simp)) .nil)
  · exact hrule [denyAll] [] allowAll .ingress 0 ⟨none, some []⟩
      (by decide) (by decide)
  · exact (hpolicy [] [] denyAll (by decide) _ hrefusing (by decide)).1
  · exact (hname [denyAll] (by decide)).2 _ hrefusing (by decide)

end Additivity

end NetPol
end Kelt
