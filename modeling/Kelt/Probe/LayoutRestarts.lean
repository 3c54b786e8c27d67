import Kelt.Probe.LayoutMigration

/-!
# Starts of the layout migration that are cut off

A migration that was cut off is started again from what it left. `Between`
relates what there was of a slug to all that any number of such starts can leave
of it; `final_eq_iff` says when the next start still ends as the first would
have. `migration_sound_iff` puts this together with what the replacement does to
the texts: for which trees, and after which interruptions, the migration is
right.
-/

namespace Kelt
namespace Probe
namespace Layout

open JsonText Replace Restart

section Between

/-- The slug has a `plan.json` and no template yet. -/
def Plan.Wants (p : Plan) (t : Text) : Prop :=
  p.templateJson = none ∧ p.entry planJson = some (.file t)

/-- The slug has a directory of this name for a run. -/
def Plan.HasRun (p : Plan) (name : Text) (files : Files) : Prop :=
  isRun name = true ∧ p.entry name = some (.dir files)

/-- What starts that were cut off have left of a slug. -/
structure Between (p q : Plan) : Prop where
  src : q.src.settled = p.src.settled
  default : q.default = p.default
  files : ∀ name t, q.entry name = some (.file t) →
    p.entry name = some (.file t)
  dirs : ∀ name files, q.entry name = some (.dir files) →
    ∃ files', p.entry name = some (.dir files')
  wanted : ∀ t, p.Wants t →
    q.template ≠ none ∨ q.entry planJson = some (.file t)
  unwanted : (∀ t, ¬ p.Wants t) → q.template = p.template
  free : ∀ name files, p.HasRun name files → p.runs name = none →
    (q.entry name = some (.dir files) ∧ q.runs name = none) ∨
      (q.entry name = none ∧ q.runs name ≠ none)
  taken : ∀ name files node, p.HasRun name files → p.runs name = some node →
    ((∃ files', q.entry name = some (.dir files')) ∧ q.runs name = some node) ∨
      ∃ node', q.runs name = some node' ∧ rewriteNode node' = node'
  others : ∀ name, (∀ files, ¬ p.HasRun name files) → q.runs name = p.runs name

theorem Between.refl (p : Plan) : Between p p where
  src := rfl
  default := rfl
  files := fun _ _ h => h
  dirs := fun _ files h => ⟨files, h⟩
  wanted := fun _ h => Or.inr h.2
  unwanted := fun _ => rfl
  free := fun _ _ h hfree => Or.inl ⟨h.2, hfree⟩
  taken := fun _ files _ h htaken => Or.inl ⟨⟨files, h.2⟩, htaken⟩
  others := fun _ _ => rfl

/-- An interruption is harmless when each template that has been made and each
run that has been moved has its text already as it is to be. -/
structure Harmless (p q : Plan) : Prop where
  template : ∀ t, p.Wants t →
    q.template = none ∨ q.template = some (rewritten t)
  runs : ∀ name files, p.HasRun name files →
    q.runs name = p.runs name ∨
      q.runs name = some (rewriteNode ((p.runs name).getD (.dir files)))

theorem settledTemplate_of_wants {p : Plan} {t : Text} (h : p.Wants t) :
    p.settledTemplate = some (rewritten t) := by
  unfold Plan.settledTemplate
  rw [h.1, h.2]

theorem settledTemplate_of_not_wants {p : Plan} (h : ∀ t, ¬ p.Wants t) :
    p.settledTemplate = p.template := by
  unfold Plan.settledTemplate
  split
  · rename_i t hjson hentry
    exact absurd ⟨hjson, hentry⟩ (h t)
  · rfl

theorem settledRun_of_hasRun {p : Plan} {name : Text} {files : Files}
    (h : p.HasRun name files) :
    p.settledRun name =
      some (rewriteNode ((p.runs name).getD (.dir files))) :=
  settledRun_of_dir h.2 h.1

theorem settledRun_of_not_hasRun {p : Plan} {name : Text}
    (h : ∀ files, ¬ p.HasRun name files) : p.settledRun name = p.runs name := by
  unfold Plan.settledRun
  split
  · rename_i files hentry
    exact if_neg fun hrun => h files ⟨hrun, hentry⟩
  · rfl

/-- Without a template of the package the one of the user is asked for. -/
theorem templateJson_of_default {p : Plan} (h : p.default = none) :
    p.templateJson = p.template := by
  unfold Plan.templateJson
  rw [h, Option.none_or]

theorem Plan.Wants.default {p : Plan} {t : Text} (h : p.Wants t) :
    p.default = none := by
  have hjson := h.1
  unfold Plan.templateJson at hjson
  cases hdefault : p.default with
  | none => rfl
  | some t' =>
      rw [hdefault] at hjson
      cases hjson

theorem Plan.Wants.unique {p : Plan} {t t' : Text} (h : p.Wants t)
    (h' : p.Wants t') : t = t' := by
  have hsame := h.2.symm.trans h'.2
  injection hsame with hnode
  injection hnode

theorem Between.templateJson {p q : Plan} (h : Between p q)
    (htemplate : q.template = p.template) : q.templateJson = p.templateJson := by
  unfold Plan.templateJson
  rw [h.default, htemplate]

/-- What a slug wants after starts that were cut off, it wanted before. -/
theorem Between.wants {p q : Plan} (h : Between p q) {t : Text}
    (hq : q.Wants t) : p.Wants t := by
  by_contra hnot
  by_cases hwants : ∃ t', p.Wants t'
  · obtain ⟨t', ht'⟩ := hwants
    exact hnot ⟨ht'.1, h.files _ _ hq.2⟩
  · have htemplate := h.unwanted fun t' ht' => hwants ⟨t', ht'⟩
    exact hnot ⟨(h.templateJson htemplate).symm.trans hq.1, h.files _ _ hq.2⟩

theorem Between.hasRun {p q : Plan} (h : Between p q) {name : Text}
    {files : Files} (hq : q.HasRun name files) : ∃ files', p.HasRun name files' := by
  obtain ⟨files', hentry⟩ := h.dirs name files hq.2
  exact ⟨files', hq.1, hentry⟩

theorem settledTemplate_eq_iff {p q : Plan} (h : Between p q) :
    q.settledTemplate = p.settledTemplate ↔
      ∀ t, p.Wants t → q.template = none ∨ q.template = some (rewritten t) := by
  by_cases hwants : ∃ t, p.Wants t
  · obtain ⟨t, ht⟩ := hwants
    have hdefault : q.default = none := h.default.trans ht.default
    rw [settledTemplate_of_wants ht]
    cases htemplate : q.template with
    | none =>
        have hq : q.Wants t :=
          ⟨(templateJson_of_default hdefault).trans htemplate,
            (h.wanted t ht).resolve_left fun hne => hne htemplate⟩
        exact iff_of_true (settledTemplate_of_wants hq) fun _ _ => Or.inl rfl
    | some x =>
        have hnot : ∀ t, ¬ q.Wants t := by
          intro t' ht'
          have hjson := ht'.1
          rw [templateJson_of_default hdefault, htemplate] at hjson
          cases hjson
        rw [settledTemplate_of_not_wants hnot, htemplate]
        constructor
        · intro heq t' ht'
          rw [← ht.unique ht']
          exact Or.inr heq
        · intro hall
          exact (hall t ht).resolve_left (Option.some_ne_none x)
  · have hnone : ∀ t, ¬ p.Wants t := fun t ht => hwants ⟨t, ht⟩
    have hnone' : ∀ t, ¬ q.Wants t := fun t ht => hnone t (h.wants ht)
    rw [settledTemplate_of_not_wants hnone, settledTemplate_of_not_wants hnone']
    exact iff_of_true (h.unwanted hnone) fun t ht => absurd ht (hnone t)

theorem settledRun_eq_iff {p q : Plan} (h : Between p q) (name : Text) :
    q.settledRun name = p.settledRun name ↔
      ∀ files, p.HasRun name files →
        q.runs name = p.runs name ∨
          q.runs name =
            some (rewriteNode ((p.runs name).getD (.dir files))) := by
  by_cases hrun : ∃ files, p.HasRun name files
  · obtain ⟨files, hfiles⟩ := hrun
    have hunique : ∀ files', p.HasRun name files' → files' = files := by
      intro files' hfiles'
      have hsame := hfiles'.2.symm.trans hfiles.2
      injection hsame with hnode
      injection hnode
    have hone : (∀ files', p.HasRun name files' →
          q.runs name = p.runs name ∨ q.runs name =
            some (rewriteNode ((p.runs name).getD (.dir files')))) ↔
        q.runs name = p.runs name ∨ q.runs name =
          some (rewriteNode ((p.runs name).getD (.dir files))) := by
      constructor
      · exact fun hall => hall files hfiles
      · intro hfor files' hfiles'
        rwa [hunique files' hfiles']
    rw [hone, settledRun_of_hasRun hfiles]
    cases hdst : p.runs name with
    | none =>
        rcases h.free name files hfiles hdst with ⟨hentry, hruns⟩ | ⟨hentry, hruns⟩
        · have hq : q.HasRun name files := ⟨hfiles.1, hentry⟩
          rw [settledRun_of_hasRun hq, hruns]
          exact iff_of_true rfl (Or.inl rfl)
        · rw [settledRun_of_entry_none hentry]
          exact (or_iff_right hruns).symm
    | some node =>
        rcases h.taken name files node hfiles hdst with
          ⟨⟨files', hentry⟩, hruns⟩ | ⟨node', hruns, hstable⟩
        · have hq : q.HasRun name files' := ⟨hfiles.1, hentry⟩
          rw [settledRun_of_hasRun hq, hruns]
          exact iff_of_true rfl (Or.inl rfl)
        · have hq : q.settledRun name = some node' := by
            by_cases hqrun : ∃ files', q.HasRun name files'
            · obtain ⟨files', hfiles'⟩ := hqrun
              rw [settledRun_of_hasRun hfiles', hruns]
              exact congrArg some hstable
            · rw [settledRun_of_not_hasRun fun files' h' => hqrun ⟨files', h'⟩,
                hruns]
          rw [hq, hruns]
          constructor
          · exact Or.inr
          · rintro (heq | heq)
            · have hnode : node' = node := Option.some.inj heq
              change some node' = some (rewriteNode node)
              rw [← hnode, hstable]
            · exact heq
  · have hnone : ∀ files, ¬ p.HasRun name files := fun f hf => hrun ⟨f, hf⟩
    have hnone' : ∀ files, ¬ q.HasRun name files := by
      intro files hfiles
      obtain ⟨files', hfiles'⟩ := h.hasRun hfiles
      exact hnone files' hfiles'
    rw [settledRun_of_not_hasRun hnone, settledRun_of_not_hasRun hnone']
    exact iff_of_true (h.others name hnone) fun f hf => absurd hf (hnone f)

/-- The next start ends as the first would have exactly when the interruptions
were harmless. -/
theorem final_eq_iff {p q : Plan} (h : Between p q) :
    q.final = p.final ↔ Harmless p q := by
  rw [Plan.ext_iff]
  constructor
  · rintro ⟨-, -, htemplate, hruns⟩
    exact
      { template := (settledTemplate_eq_iff h).1 htemplate
        runs := fun name => (settledRun_eq_iff h name).1 (congrFun hruns name) }
  · intro hq
    refine ⟨h.src, h.default, (settledTemplate_eq_iff h).2 hq.template, ?_⟩
    funext name
    exact (settledRun_eq_iff h name).2 (hq.runs name)

end Between

section Steps

variable {p q : Plan}

/-- Whatever template was wanted is there. -/
def Copied (p q : Plan) : Prop :=
  Between p q ∧ ∀ t, p.Wants t → q.template ≠ none

/-- The runs that are still in the old layout are to be looked at yet, or have
been settled in the new one. -/
def Looping (p : Plan) (todo : List Text) (q : Plan) : Prop :=
  Copied p q ∧ ∀ name files, q.HasRun name files →
    name ∈ todo ∨ ∃ node, q.runs name = some node ∧ rewriteNode node = node

theorem copied_setTemplate (h : Between p q) {t : Text} (hq : q.Wants t)
    (x : Text) : Copied p (q.setTemplate x) := by
  have hsome : (q.setTemplate x).template ≠ none := Option.some_ne_none x
  refine ⟨?_, fun _ _ => hsome⟩
  exact
    { src := h.src
      default := h.default
      files := h.files
      dirs := h.dirs
      wanted := fun _ _ => Or.inl hsome
      unwanted := fun hnot => absurd (h.wants hq) (hnot t)
      free := h.free
      taken := h.taken
      others := h.others }

theorem copied_erase (h : Copied p q) : Copied p (q.erase planJson) := by
  obtain ⟨h, htemplate⟩ := h
  have hrun : ∀ name, isRun name = true →
      (q.erase planJson).entry name = q.entry name := by
    intro name hname
    rw [entry_erase, if_neg (planJson_ne_of_isRun hname)]
  refine ⟨?_, htemplate⟩
  exact
    { src := (settled_map _ _).trans h.src
      default := h.default
      files := fun name t hentry =>
        h.files name t (entry_of_entry_erase hentry)
      dirs := fun name files hentry =>
        h.dirs name files (entry_of_entry_erase hentry)
      wanted := fun t ht => Or.inl (htemplate t ht)
      unwanted := h.unwanted
      free := fun name files hfiles hfree => by
        rw [hrun name hfiles.1]
        exact h.free name files hfiles hfree
      taken := fun name files node hfiles htaken => by
        rw [hrun name hfiles.1]
        exact h.taken name files node hfiles htaken
      others := h.others }

/-- Copying keeps to what can be left, and there is a template afterwards. -/
theorem holds_copyPlan (h : Between p q) :
    Holds (Between p) (Copied p) copyPlan q := by
  by_cases hfile : ∃ t, q.entry planJson = some (.file t)
  · obtain ⟨t, hentry⟩ := hfile
    have hprog : copyPlan q =
        andThen (copyTemplate t) (fun p => [p.erase planJson]) q := by
      unfold copyPlan
      rw [hentry]
    have hcopy : Holds (Between p) (Copied p) (copyTemplate t) q := by
      cases hjson : q.templateJson with
      | some t' =>
          refine holds_nil (by unfold copyTemplate; rw [hjson]) ⟨h, ?_⟩
          intro t' ht' hnone
          rw [templateJson_of_default (h.default.trans ht'.default), hnone]
            at hjson
          cases hjson
      | none =>
          refine ⟨?_, ?_⟩
          · intro c hc
            unfold copyTemplate at hc
            rw [hjson] at hc
            obtain ⟨x, -, rfl⟩ := List.mem_map.1 hc
            exact (copied_setTemplate h ⟨hjson, hentry⟩ x).1
          · rw [fin_copyTemplate hjson]
            exact copied_setTemplate h ⟨hjson, hentry⟩ _
    refine holds_congr hprog (holds_andThen hcopy ?_)
    intro c hc
    refine ⟨?_, copied_erase hc⟩
    intro c' hc'
    rw [List.mem_singleton.1 hc']
    exact (copied_erase hc).1
  · have hnil : copyPlan q = [] := by
      unfold copyPlan
      split
      · rename_i t hentry
        exact absurd ⟨t, hentry⟩ hfile
      · rfl
    refine holds_nil hnil ⟨h, ?_⟩
    intro t ht
    exact (h.wanted t ht).resolve_right fun hentry => hfile ⟨t, hentry⟩

/-- A run has been moved, or its `run.json` has been written to. -/
theorem copied_setRun (h : Copied p q) {name : Text} {files : Files}
    {node : Node} (hrun : p.HasRun name files)
    (hfree : p.runs name = none → q.entry name = none)
    (htaken : p.runs name ≠ none → rewriteNode node = node) :
    Copied p (q.setRun name node) := by
  obtain ⟨h, htemplate⟩ := h
  have hput : (q.setRun name node).runs name = some node := by
    rw [runs_setRun, if_pos rfl]
  have hothers : ∀ name', name' ≠ name →
      (q.setRun name node).runs name' = q.runs name' := by
    intro name' hname
    rw [runs_setRun, if_neg hname]
  refine ⟨?_, htemplate⟩
  exact
    { src := h.src
      default := h.default
      files := h.files
      dirs := h.dirs
      wanted := h.wanted
      unwanted := h.unwanted
      free := fun name' files' hfiles hnone => by
        by_cases hname : name' = name
        · subst hname
          refine Or.inr ⟨hfree hnone, ?_⟩
          rw [hput]
          exact Option.some_ne_none node
        · rw [hothers name' hname]
          exact h.free name' files' hfiles hnone
      taken := fun name' files' node' hfiles hsome => by
        by_cases hname : name' = name
        · subst hname
          refine Or.inr ⟨node, hput, htaken ?_⟩
          rw [hsome]
          exact Option.some_ne_none node'
        · rw [hothers name' hname]
          exact h.taken name' files' node' hfiles hsome
      others := fun name' hnot => by
        have hname : name' ≠ name := by
          rintro rfl
          exact hnot files hrun
        rw [hothers name' hname]
        exact h.others name' hnot }

/-- Where the place is free, the directory is the one that was there. -/
theorem Between.free_of_none (h : Between p q) {name : Text} {files : Files}
    (hq : q.HasRun name files) (hnone : q.runs name = none) :
    p.HasRun name files ∧ p.runs name = none := by
  obtain ⟨files', hfiles'⟩ := h.hasRun hq
  have hfree : p.runs name = none := by
    by_contra hne
    obtain ⟨node, hnode⟩ := Option.ne_none_iff_exists'.1 hne
    rcases h.taken name files' node hfiles' hnode with ⟨-, hruns⟩ |
      ⟨node', hruns, -⟩
    · rw [hnone] at hruns
      cases hruns
    · rw [hnone] at hruns
      cases hruns
  refine ⟨?_, hfree⟩
  rcases h.free name files' hfiles' hfree with ⟨hentry, -⟩ | ⟨hentry, -⟩
  · have hsame := hq.2.symm.trans hentry
    injection hsame with hnode
    injection hnode with hfiles
    rw [hfiles]
    exact hfiles'
  · have hsame := hq.2
    rw [hentry] at hsame
    cases hsame

theorem copied_move (h : Copied p q) {name : Text} {files : Files}
    (hq : q.HasRun name files) (hnone : q.runs name = none) :
    Copied p ((q.erase name).setRun name (.dir files)) := by
  obtain ⟨h, htemplate⟩ := h
  obtain ⟨hrun, hfree⟩ := h.free_of_none hq hnone
  have hgone : (q.erase name).entry name = none := by
    rw [entry_erase, if_pos rfl]
  have hentries : ∀ name', name' ≠ name →
      (q.erase name).entry name' = q.entry name' := by
    intro name' hname
    rw [entry_erase, if_neg (Ne.symm hname)]
  have hput : ∀ name', ((q.erase name).setRun name (.dir files)).runs name' =
      if name' = name then some (.dir files) else q.runs name' :=
    fun name' => runs_setRun _ _ _ _
  refine ⟨?_, htemplate⟩
  exact
    { src := (settled_map _ _).trans h.src
      default := h.default
      files := fun name' t hentry =>
        h.files name' t (entry_of_entry_erase hentry)
      dirs := fun name' f hentry =>
        h.dirs name' f (entry_of_entry_erase hentry)
      wanted := fun t ht => Or.inl (htemplate t ht)
      unwanted := h.unwanted
      free := fun name' files' hfiles' hfree' => by
        rw [hput]
        by_cases hname : name' = name
        · subst hname
          rw [if_pos rfl]
          exact Or.inr ⟨hgone, Option.some_ne_none _⟩
        · rw [if_neg hname]
          change (q.erase name).entry name' = _ ∧ _ ∨
            (q.erase name).entry name' = _ ∧ _
          rw [hentries name' hname]
          exact h.free name' files' hfiles' hfree'
      taken := fun name' files' node hfiles' htaken' => by
        have hname : name' ≠ name := by
          rintro rfl
          rw [hfree] at htaken'
          cases htaken'
        rw [hput, if_neg hname]
        change (∃ f, (q.erase name).entry name' = _) ∧ _ ∨ _
        rw [hentries name' hname]
        exact h.taken name' files' node hfiles' htaken'
      others := fun name' hnot => by
        have hname : name' ≠ name := by
          rintro rfl
          exact hnot files hrun
        rw [hput, if_neg hname]
        exact h.others name' hnot }

/-- Writing to a `run.json` keeps to what can be left. -/
theorem holds_rewriteRun (h : Copied p q) {name : Text} {files : Files}
    {node : Node} (hrun : p.HasRun name files) (hnode : q.runs name = some node)
    (hfree : p.runs name = none → q.entry name = none) {Q : Plan → Prop}
    (hQ : Copied p (q.setRun name (rewriteNode node)) →
      Q (q.setRun name (rewriteNode node))) :
    Holds (Between p) Q (rewriteRun name) q := by
  refine ⟨?_, ?_⟩
  · intro c hc
    unfold rewriteRun at hc
    rw [hnode] at hc
    cases node with
    | file content => cases hc
    | dir files' =>
        dsimp only at hc
        split at hc
        · obtain ⟨x, hx, rfl⟩ := List.mem_map.1 hc
          refine (copied_setRun h hrun hfree fun _ => ?_).1
          change Node.dir (rewriteFiles (Dict.setItem runJson x files')) = _
          rw [rewriteFiles_setItem, rewritten_eq_self (stable_of_mem hx)]
        · cases hc
  · rw [fin_rewriteRun, hnode]
    exact hQ (copied_setRun h hrun hfree fun _ => rewriteNode_rewriteNode node)

/-- A run that has been settled needs not be looked at any more. -/
theorem looping_setRun {name : Text} {rest : List Text} {node : Node}
    {c : Plan} (h : Looping p (name :: rest) q)
    (hcopied : Copied p (c.setRun name (rewriteNode node)))
    (hentries : ∀ name', name' ≠ name → c.entry name' = q.entry name')
    (hruns : ∀ name', name' ≠ name → c.runs name' = q.runs name') :
    Looping p rest (c.setRun name (rewriteNode node)) := by
  refine ⟨hcopied, ?_⟩
  intro name' files hfiles
  rw [runs_setRun]
  by_cases hname : name' = name
  · rw [if_pos hname]
    exact Or.inr ⟨_, rfl, rewriteNode_rewriteNode node⟩
  · have hq : q.HasRun name' files :=
      ⟨hfiles.1, (hentries name' hname).symm.trans hfiles.2⟩
    rw [if_neg hname, hruns name' hname]
    exact (h.2 name' files hq).imp_left fun hmem =>
      (List.mem_cons.1 hmem).resolve_left hname

theorem holds_migrateEntry {name : Text} {rest : List Text}
    (h : Looping p (name :: rest) q) :
    Holds (Between p) (Looping p rest) (migrateEntry name) q := by
  by_cases hdir : ∃ files, q.HasRun name files
  · obtain ⟨files, hfiles⟩ := hdir
    have hprog : migrateEntry name q =
        andThen (moveRun name files) (rewriteRun name) q := by
      unfold migrateEntry
      rw [hfiles.2]
      exact if_pos hfiles.1
    refine holds_congr hprog ?_
    cases hdst : q.runs name with
    | none =>
        have hmove : moveRun name files q =
            [(q.erase name).setRun name (.dir files)] := if_pos hdst
        obtain ⟨hrun, -⟩ := h.1.1.free_of_none hfiles hdst
        have hmoved := copied_move h.1 hfiles hdst
        have hothers : ∀ name', name' ≠ name →
            (q.erase name).entry name' = q.entry name' := by
          intro name' hname
          rw [entry_erase, if_neg (Ne.symm hname)]
        have hput : ((q.erase name).setRun name (.dir files)).runs name =
            some (.dir files) := by
          rw [runs_setRun, if_pos rfl]
        have hgone : ((q.erase name).setRun name (.dir files)).entry name =
            none := by
          change (q.erase name).entry name = none
          rw [entry_erase, if_pos rfl]
        refine holds_andThen (holds_single hmove hmoved.1 rfl) ?_
        rintro c rfl
        refine holds_rewriteRun hmoved hrun hput (fun _ => hgone) ?_
        intro hcopied
        rw [setRun_setRun] at hcopied ⊢
        exact looping_setRun h hcopied hothers fun _ _ => rfl
    | some node =>
        have hstay : moveRun name files q = [] := by
          unfold moveRun
          rw [hdst]
          rfl
        obtain ⟨files', hrun⟩ := h.1.1.hasRun hfiles
        refine holds_andThen (holds_nil hstay rfl) ?_
        rintro c rfl
        refine holds_rewriteRun h.1 hrun hdst ?_ ?_
        · intro hfree
          rcases h.1.1.free name files' hrun hfree with ⟨-, hruns⟩ | ⟨hgone, -⟩
          · rw [hdst] at hruns
            cases hruns
          · exact hgone
        · intro hcopied
          exact looping_setRun h hcopied (fun _ _ => rfl) fun _ _ => rfl
  · have hnil : migrateEntry name q = [] := by
      unfold migrateEntry
      split
      · rename_i files hentry
        exact if_neg fun hrun => hdir ⟨files, hrun, hentry⟩
      · rfl
    refine holds_nil hnil ⟨h.1, ?_⟩
    intro name' files hfiles
    refine (h.2 name' files hfiles).imp_left fun hmem => ?_
    refine (List.mem_cons.1 hmem).resolve_left ?_
    rintro rfl
    exact hdir ⟨files, hfiles⟩

/-- Part of what is in the old layout has gone. -/
structure Shrunk (q c : Plan) : Prop where
  src : c.src.settled = q.src.settled
  default : c.default = q.default
  template : c.template = q.template
  runs : c.runs = q.runs
  files : ∀ name t, c.entry name = some (.file t) →
    q.entry name = some (.file t)
  dirs : ∀ name files, c.entry name = some (.dir files) →
    ∃ files', q.entry name = some (.dir files')

/-- With all runs settled it does not matter what goes from the old layout. -/
theorem looping_shrunk {c : Plan} (h : Looping p [] q) (hc : Shrunk q c) :
    Looping p [] c := by
  obtain ⟨⟨hbetween, htemplate⟩, hsettled⟩ := h
  have hcopied : ∀ t, p.Wants t → c.template ≠ none := by
    rw [hc.template]
    exact htemplate
  have hdone : ∀ name files, q.HasRun name files →
      ∃ node, q.runs name = some node ∧ rewriteNode node = node :=
    fun name files hfiles =>
      (hsettled name files hfiles).resolve_left List.not_mem_nil
  refine ⟨⟨?_, hcopied⟩, ?_⟩
  · exact
      { src := hc.src.trans hbetween.src
        default := hc.default.trans hbetween.default
        files := fun name t hentry =>
          hbetween.files name t (hc.files name t hentry)
        dirs := fun name files hentry => by
          obtain ⟨files', hentry'⟩ := hc.dirs name files hentry
          exact hbetween.dirs name files' hentry'
        wanted := fun t ht => Or.inl (hcopied t ht)
        unwanted := fun hnot => hc.template.trans (hbetween.unwanted hnot)
        free := fun name files hfiles hfree => by
          rw [hc.runs]
          rcases hbetween.free name files hfiles hfree with ⟨hentry, hruns⟩ |
            ⟨hentry, hruns⟩
          · obtain ⟨node, hnode, -⟩ := hdone name files ⟨hfiles.1, hentry⟩
            rw [hruns] at hnode
            cases hnode
          · refine Or.inr ⟨?_, hruns⟩
            cases hgone : c.entry name with
            | none => rfl
            | some node =>
                cases node with
                | file t =>
                    have hsame := hc.files name t hgone
                    rw [hentry] at hsame
                    cases hsame
                | dir f =>
                    obtain ⟨f', hsame⟩ := hc.dirs name f hgone
                    rw [hentry] at hsame
                    cases hsame
        taken := fun name files node hfiles htaken => by
          rw [hc.runs]
          rcases hbetween.taken name files node hfiles htaken with
            ⟨⟨files', hentry⟩, -⟩ | hstable
          · exact Or.inr (hdone name files' ⟨hfiles.1, hentry⟩)
          · exact Or.inr hstable
        others := fun name hnot => by
          rw [hc.runs]
          exact hbetween.others name hnot }
  · intro name files hfiles
    obtain ⟨files', hentry⟩ := hc.dirs name files hfiles.2
    rw [hc.runs]
    exact Or.inr (hdone name files' ⟨hfiles.1, hentry⟩)

theorem holds_removeEntry {name : Text} (h : Looping p [] q) :
    Holds (Between p) (Looping p []) (removeEntry name) q := by
  have herase : Shrunk q (q.erase name) :=
    { src := settled_map _ _
      default := rfl
      template := rfl
      runs := rfl
      files := fun _ _ hentry => entry_of_entry_erase hentry
      dirs := fun _ files hentry => ⟨files, entry_of_entry_erase hentry⟩ }
  have herased := looping_shrunk h herase
  cases hentry : q.entry name with
  | none => exact holds_nil (by unfold removeEntry; rw [hentry]) h
  | some node =>
      cases node with
      | file content =>
          have hone : removeEntry name q = [q.erase name] := by
            unfold removeEntry
            rw [hentry]
          exact holds_single hone herased.1.1 herased
      | dir files =>
          have hall : removeEntry name q =
              (files.tails.tail.map fun files => q.setEntry name (.dir files)) ++
                [q.erase name] := by
            unfold removeEntry
            rw [hentry]
          refine ⟨?_, ?_⟩
          · intro c hc
            rw [hall] at hc
            rcases List.mem_append.1 hc with hc | hc
            · obtain ⟨files', -, rfl⟩ := List.mem_map.1 hc
              have hset : Shrunk q (q.setEntry name (.dir files')) :=
                { src := settled_map _ _
                  default := rfl
                  template := rfl
                  runs := rfl
                  files := fun name' t hentry' => by
                    rw [entry_setEntry hentry] at hentry'
                    split at hentry'
                    · cases hentry'
                    · exact hentry'
                  dirs := fun name' f hentry' => by
                    rw [entry_setEntry hentry] at hentry'
                    split at hentry'
                    · rename_i hname
                      exact ⟨files, hname ▸ hentry⟩
                    · exact ⟨f, hentry'⟩ }
              exact (looping_shrunk h hset).1.1
            · rw [List.mem_singleton.1 hc]
              exact herased.1.1
          · rw [fin_of_concat hall]
            exact herased

theorem holds_removeTree (h : Looping p [] q) (hp : p.src.settled = .absent) :
    Holds (Between p) (Between p) removeTree q := by
  have hloop : Holds (Between p) (Looping p [])
      (fun q => forEach removeEntry q.names q) q :=
    holds_forEach (J := fun _ => Looping p [])
      (fun _ _ _ hs => holds_removeEntry hs) q.names h
  refine holds_andThen hloop ?_
  intro c hc
  have hgone : Shrunk c { c with src := .absent } :=
    { src := (hc.1.1.src.trans hp).symm
      default := rfl
      template := rfl
      runs := rfl
      files := fun _ _ hentry => by cases hentry
      dirs := fun _ _ hentry => by cases hentry }
  have hlast := (looping_shrunk hc hgone).1.1
  exact holds_single rfl hlast hlast

/-- Each step of a start keeps to what starts can leave. -/
theorem between_migratePlan (h : Between p q) : ∀ c ∈ migratePlan q, Between p c := by
  cases hsrc : q.src with
  | absent =>
      have hnil : migratePlan q = [] := by unfold migratePlan; rw [hsrc]
      rw [hnil]
      exact fun c hc => nomatch hc
  | file =>
      have hnil : migratePlan q = [] := by unfold migratePlan; rw [hsrc]
      rw [hnil]
      exact fun c hc => nomatch hc
  | dir entries =>
      have hprog : migratePlan q = andThen copyPlan
          (andThen (fun p => forEach migrateEntry p.names p) removeTree) q := by
        unfold migratePlan
        rw [hsrc]
      have hp : p.src.settled = .absent := by
        rw [← h.src, hsrc]
        rfl
      suffices hall : Holds (Between p) (Between p) migratePlan q from hall.1
      refine holds_congr hprog (holds_andThen (holds_copyPlan h) ?_)
      intro c hc
      have hstart : Looping p c.names c := by
        refine ⟨hc, fun name files hfiles => Or.inl ?_⟩
        rw [mem_names_iff, hfiles.2]
        exact Option.some_ne_none _
      have hloop : Holds (Between p) (Looping p [])
          (fun p => forEach migrateEntry p.names p) c :=
        holds_forEach (J := Looping p) (fun _ _ _ hs => holds_migrateEntry hs)
          c.names hstart
      exact holds_andThen hloop fun c' hc' => holds_removeTree hc' hp

end Steps

section Disks

/-- Something stays in the old layout. -/
def Disk.remains (d : Disk) : Bool :=
  !decide (∀ slug ∈ d.slugs, (d.plan slug).src.settled = .absent)

/-- All slugs as they are in the end. -/
def Disk.finalPlan (d : Disk) (slug : Text) : Plan :=
  if slug ∈ d.slugs then (d.plan slug).final else d.plan slug

/-- What starts that were cut off have left of a tree. -/
structure DiskBetween (d c : Disk) : Prop where
  slugs : c.slugs = d.slugs
  plans : ∀ slug ∈ d.slugs, Between (d.plan slug) (c.plan slug)
  rest : ∀ slug, slug ∉ d.slugs → c.plan slug = d.plan slug
  phase : (c.stamp = false ∧ c.isDir = true) ∨
    (c.isDir = d.remains ∧
      ∀ slug ∈ d.slugs, (c.plan slug).src.settled = (c.plan slug).src)

theorem final_of_settled {p : Plan} (h : p.src.settled = p.src) :
    p.final = p := by
  refine final_of_no_entries ?_ h
  cases hsrc : p.src with
  | dir entries =>
      rw [hsrc] at h
      cases h
  | absent => rfl
  | file => rfl

theorem settled_settled (slot : Slot) : slot.settled.settled = slot.settled := by
  cases slot <;> rfl

theorem plan_setPlan_self (d : Disk) (slug : Text) (p : Plan) :
    (d.setPlan slug p).plan slug = p :=
  Function.update_self _ _ _

theorem plan_setPlan_of_ne (d : Disk) {slug slug' : Text} (h : slug' ≠ slug)
    (p : Plan) : (d.setPlan slug p).plan slug' = d.plan slug' :=
  Function.update_of_ne h _ _

theorem fin_migrateSlug (slug : Text) (d : Disk) :
    fin (migrateSlug slug) d = d.setPlan slug (d.plan slug).final := by
  have hput : ∀ d : Disk, d.setPlan slug (d.plan slug) = d := by
    intro d
    unfold Disk.setPlan
    rw [Function.update_eq_self]
  unfold migrateSlug
  rw [fin_within hput, fin_migratePlan]

/-- One slug after the other comes to its end. -/
theorem fin_migrateSlugs (slugs : List Text) (d : Disk) :
    fin (forEach migrateSlug slugs) d =
      { d with plan := fun slug =>
          if slug ∈ slugs then (d.plan slug).final else d.plan slug } := by
  induction slugs generalizing d with
  | nil => rfl
  | cons slug slugs ih =>
      rw [fin_forEach_cons, fin_migrateSlug, ih]
      refine Disk.ext rfl rfl rfl ?_
      funext slug'
      change (if slug' ∈ slugs then (Function.update d.plan slug _ slug').final
        else Function.update d.plan slug _ slug') =
          if slug' ∈ slug :: slugs then (d.plan slug').final else d.plan slug'
      by_cases hslug : slug' = slug
      · subst hslug
        have hfinal : (d.plan slug').final.final = (d.plan slug').final :=
          final_of_settled (settled_settled _)
        rw [Function.update_self, if_pos List.mem_cons_self, hfinal, ite_self]
      · rw [Function.update_of_ne hslug]
        simp [hslug]

/-- How a start ends that migrates. -/
theorem fin_migrate {d : Disk} (hstamp : d.stamp = false)
    (hdir : d.isDir = true) :
    fin migrate d = ⟨true, d.remains, d.slugs, d.finalPlan⟩ := by
  have hprog : migrate d = andThen (forEach migrateSlug d.slugs)
      (andThen removeLegacy writeStamp) d := by
    unfold migrate
    rw [hstamp, if_neg Bool.false_ne_true, if_pos hdir]
  have hwrite : ∀ c : Disk, fin writeStamp c = { c with stamp := true } :=
    fun _ => rfl
  have hsrc : ∀ slug ∈ d.slugs, (d.finalPlan slug).src =
      (d.plan slug).src.settled := by
    intro slug hslug
    unfold Disk.finalPlan
    rw [if_pos hslug]
    rfl
  rw [fin_congr hprog, fin_andThen, fin_andThen, hwrite, fin_migrateSlugs]
  by_cases hall : ∀ slug ∈ d.slugs, (d.plan slug).src.settled = .absent
  · have hremoved : removeLegacy { d with plan := d.finalPlan } =
        [{ d with plan := d.finalPlan, isDir := false }] := by
      refine if_pos fun slug hslug => ?_
      exact (hsrc slug hslug).trans (hall slug hslug)
    have hremains : d.remains = false := by
      unfold Disk.remains
      rw [decide_eq_true hall]
      rfl
    have hfin : fin removeLegacy { d with plan := d.finalPlan } =
        { d with plan := d.finalPlan, isDir := false } := by
      unfold fin
      rw [hremoved]
      rfl
    change { fin removeLegacy { d with plan := d.finalPlan } with stamp := true } = _
    rw [hfin, hremains]
  · have hkept : removeLegacy { d with plan := d.finalPlan } = [] := by
      refine if_neg fun habsent => hall fun slug hslug => ?_
      exact (hsrc slug hslug).symm.trans (habsent slug hslug)
    have hremains : d.remains = true := by
      unfold Disk.remains
      rw [decide_eq_false hall]
      rfl
    change { fin removeLegacy { d with plan := d.finalPlan } with stamp := true } = _
    rw [fin_of_nil hkept, hremains, ← hdir]

theorem remains_eq {d c : Disk} (h : DiskBetween d c) : c.remains = d.remains := by
  unfold Disk.remains
  rw [h.slugs]
  congr 1
  rw [decide_eq_decide]
  refine forall₂_congr fun slug hslug => ?_
  rw [(h.plans slug hslug).src]

theorem finalPlan_of_settled {c : Disk}
    (h : ∀ slug ∈ c.slugs, (c.plan slug).src.settled = (c.plan slug).src) :
    c.finalPlan = c.plan := by
  funext slug
  unfold Disk.finalPlan
  split
  · rename_i hslug
    exact final_of_settled (h slug hslug)
  · rfl

theorem migrate_of_stamp {c : Disk} (hstamp : c.stamp = true) :
    migrate c = [] :=
  if_pos hstamp

theorem migrate_of_gone {c : Disk} (hstamp : c.stamp = false)
    (hdir : c.isDir = false) : migrate c = [{ c with stamp := true }] := by
  have hnot : ¬ c.isDir = true := by
    rw [hdir]
    exact Bool.false_ne_true
  unfold migrate
  rw [hstamp, if_neg Bool.false_ne_true, if_neg hnot]
  rfl

/-- How the next start ends. -/
theorem fin_migrate_between {d c : Disk} (h : DiskBetween d c) :
    fin migrate c = ⟨true, d.remains, d.slugs, c.finalPlan⟩ := by
  have hdone : c.isDir = d.remains →
      (∀ slug ∈ d.slugs, (c.plan slug).src.settled = (c.plan slug).src) →
      { c with stamp := true } = ⟨true, d.remains, d.slugs, c.finalPlan⟩ := by
    intro hdir hsettled
    rw [← h.slugs] at hsettled
    rw [finalPlan_of_settled hsettled, ← hdir, ← h.slugs]
  cases hstamp : c.stamp with
  | true =>
      have hnil := migrate_of_stamp hstamp
      rcases h.phase with ⟨hfresh, -⟩ | ⟨hdir, hsettled⟩
      · rw [hstamp] at hfresh
        cases hfresh
      · rw [fin_of_nil hnil, ← hdone hdir hsettled, ← hstamp]
  | false =>
      cases hdir : c.isDir with
      | true => rw [fin_migrate hstamp hdir, remains_eq h, h.slugs]
      | false =>
          have hwrite := migrate_of_gone hstamp hdir
          have hfin : fin migrate c = { c with stamp := true } := by
            unfold fin
            rw [hwrite]
            rfl
          rcases h.phase with ⟨-, hthere⟩ | ⟨hremains, hsettled⟩
          · rw [hdir] at hthere
            cases hthere
          · rw [hfin]
            exact hdone hremains hsettled

theorem DiskBetween.refl {d : Disk} (hstamp : d.stamp = false)
    (hdir : d.isDir = true) : DiskBetween d d where
  slugs := rfl
  plans := fun _ _ => Between.refl _
  rest := fun _ _ => rfl
  phase := Or.inl ⟨hstamp, hdir⟩

/-- The slugs that are still to be done; the others are done. -/
def Sweeping (d : Disk) (todo : List Text) (c : Disk) : Prop :=
  DiskBetween d c ∧ c.stamp = false ∧ c.isDir = true ∧
    ∀ slug ∈ d.slugs, slug ∈ todo ∨
      (c.plan slug).src.settled = (c.plan slug).src

theorem between_setPlan {d c : Disk} (h : DiskBetween d c)
    (hstamp : c.stamp = false) (hdir : c.isDir = true) {slug : Text}
    (hslug : slug ∈ d.slugs) {q : Plan} (hq : Between (d.plan slug) q) :
    DiskBetween d (c.setPlan slug q) where
  slugs := h.slugs
  plans := fun slug' hslug' => by
    by_cases heq : slug' = slug
    · subst heq
      rw [plan_setPlan_self]
      exact hq
    · rw [plan_setPlan_of_ne c heq]
      exact h.plans slug' hslug'
  rest := fun slug' hslug' => by
    have hne : slug' ≠ slug := fun heq => hslug' (heq ▸ hslug)
    rw [plan_setPlan_of_ne c hne]
    exact h.rest slug' hslug'
  phase := Or.inl ⟨hstamp, hdir⟩

theorem holds_migrateSlug {d c : Disk} {slug : Text} {rest : List Text}
    (hslug : slug ∈ d.slugs) (h : Sweeping d (slug :: rest) c) :
    Holds (DiskBetween d) (Sweeping d rest) (migrateSlug slug) c := by
  obtain ⟨hbetween, hstamp, hdir, htodo⟩ := h
  have hplan := hbetween.plans slug hslug
  refine ⟨?_, ?_⟩
  · intro c' hc'
    obtain ⟨q, hq, rfl⟩ := List.mem_map.1 hc'
    exact between_setPlan hbetween hstamp hdir hslug
      (between_migratePlan hplan q hq)
  · have hfinal : Between (d.plan slug) (c.plan slug).final := by
      have hlast : fin migratePlan (c.plan slug) ∈
          c.plan slug :: migratePlan (c.plan slug) :=
        List.getLastD_mem_cons
      rw [fin_migratePlan] at hlast
      rcases List.mem_cons.1 hlast with heq | hmem
      · rw [heq]
        exact hplan
      · exact between_migratePlan hplan _ hmem
    rw [fin_migrateSlug]
    refine ⟨between_setPlan hbetween hstamp hdir hslug hfinal, hstamp, hdir, ?_⟩
    intro slug' hslug'
    by_cases heq : slug' = slug
    · subst heq
      refine Or.inr ?_
      rw [plan_setPlan_self]
      exact settled_settled _
    · rw [plan_setPlan_of_ne c heq]
      exact (htodo slug' hslug').imp_left fun hmem =>
        (List.mem_cons.1 hmem).resolve_left heq

/-- With all slugs done, what is left is to clear up. -/
theorem holds_clearUp {d c : Disk} (h : Sweeping d [] c) :
    Holds (DiskBetween d) (fun _ => True) (andThen removeLegacy writeStamp)
      c := by
  obtain ⟨hbetween, hstamp, hdir, htodo⟩ := h
  have hsettled : ∀ slug ∈ d.slugs,
      (c.plan slug).src.settled = (c.plan slug).src := fun slug hslug =>
    (htodo slug hslug).resolve_left List.not_mem_nil
  have hremains : d.remains = true ↔
      ¬ ∀ slug ∈ c.slugs, (c.plan slug).src = .absent := by
    rw [← remains_eq hbetween]
    unfold Disk.remains
    rw [Bool.not_eq_true', decide_eq_false_iff_not]
    refine not_congr (forall₂_congr fun slug hslug => ?_)
    rw [hbetween.slugs] at hslug
    rw [hsettled slug hslug]
  have hdone : ∀ c' : Disk, c'.slugs = c.slugs → c'.plan = c.plan →
      c'.isDir = d.remains → DiskBetween d c' := by
    intro c' hslugs hplan hremains'
    exact
      { slugs := hslugs.trans hbetween.slugs
        plans := fun slug hslug => hplan ▸ hbetween.plans slug hslug
        rest := fun slug hslug => hplan ▸ hbetween.rest slug hslug
        phase := Or.inr ⟨hremains', fun slug hslug =>
          hplan ▸ hsettled slug hslug⟩ }
  have hstep : Holds (DiskBetween d)
      (fun c' => c'.slugs = c.slugs ∧ c'.plan = c.plan ∧ c'.isDir = d.remains)
      removeLegacy c := by
    by_cases habsent : ∀ slug ∈ c.slugs, (c.plan slug).src = .absent
    · have hfalse : d.remains = false := by
        rw [← Bool.not_eq_true, hremains, not_not]
        exact habsent
      exact holds_single (if_pos habsent) (hdone _ rfl rfl hfalse.symm)
        ⟨rfl, rfl, hfalse.symm⟩
    · exact holds_nil (if_neg habsent)
        ⟨rfl, rfl, hdir.trans (hremains.2 habsent).symm⟩
  refine holds_andThen hstep ?_
  rintro c' ⟨hslugs, hplan, hremains'⟩
  exact holds_single rfl (hdone _ hslugs hplan hremains') trivial

/-- Each step of a start keeps to what starts can leave. -/
theorem between_migrate {d c : Disk} (h : DiskBetween d c) :
    ∀ c' ∈ migrate c, DiskBetween d c' := by
  cases hstamp : c.stamp with
  | true =>
      have hnil := migrate_of_stamp hstamp
      rw [hnil]
      exact fun c' hc' => nomatch hc'
  | false =>
      cases hdir : c.isDir with
      | true =>
          have hprog : migrate c = andThen (forEach migrateSlug c.slugs)
              (andThen removeLegacy writeStamp) c := by
            unfold migrate
            rw [hstamp, if_neg Bool.false_ne_true, if_pos hdir]
          have hloop : Holds (DiskBetween d)
              (fun c => Sweeping d [] c) (forEach migrateSlug c.slugs) c := by
            have hall : ∀ slug ∈ c.slugs, slug ∈ d.slugs := by
              rw [h.slugs]
              exact fun _ hslug => hslug
            have hstart : Sweeping d c.slugs c :=
              ⟨h, hstamp, hdir, fun slug hslug => Or.inl (h.slugs ▸ hslug)⟩
            have hsweep := holds_forEach (I := DiskBetween d)
              (J := fun todo c =>
                (∀ slug ∈ todo, slug ∈ d.slugs) ∧ Sweeping d todo c)
              (p := migrateSlug) ?_ c.slugs ⟨hall, hstart⟩
            · exact ⟨hsweep.1, hsweep.2.2⟩
            · rintro slug rest c' ⟨hin, hc'⟩
              have hone := holds_migrateSlug (hin slug List.mem_cons_self) hc'
              exact ⟨hone.1,
                fun s hs => hin s (List.mem_cons_of_mem _ hs), hone.2⟩
          suffices hall : Holds (DiskBetween d) (fun _ => True) migrate c from
            hall.1
          exact holds_congr hprog
            (holds_andThen hloop fun c' hc' => holds_clearUp hc')
      | false =>
          have hwrite := migrate_of_gone hstamp hdir
          rw [hwrite]
          intro c' hc'
          rw [List.mem_singleton.1 hc']
          rcases h.phase with ⟨-, hthere⟩ | hdone
          · rw [hdir] at hthere
            cases hthere
          · exact
              { slugs := h.slugs
                plans := h.plans
                rest := h.rest
                phase := Or.inr hdone }

end Disks

section Trees

def resultPath : List Nat :=
  unitsOf "result_path".toList

/-- The text of the new file is the same document, with the paths that are
`result_path` leading to where the data has gone. -/
def Carried (t t' : Text) : Prop :=
  layout.Carried resultPath t t'

/-- A path into the old layout leads to the same place in the new one. -/
theorem atFront_legacy (path : Text) :
    layout.atFront (unitsOf ("plans/".toList ++ path)) =
      unitsOf ("plan_runs/".toList ++ path) := by
  have happend : ∀ s : Text, unitsOf (s ++ path) = unitsOf s ++ unitsOf path :=
    fun s => List.flatMap_append
  unfold Rewriting.atFront
  rw [happend, happend]
  change (if unitsOf "plans/".toList <+: _ then
    unitsOf "plan_runs/".toList ++ List.drop (unitsOf "plans/".toList).length _
    else _) = _
  rw [if_pos (List.prefix_append _ _), List.drop_left]

/-- The directory of a run has come with all its data. -/
structure Arrived (files files' : Files) : Prop where
  data : ∀ name, name ≠ runJson →
    Dict.getItem name files' = Dict.getItem name files
  missing : Dict.getItem runJson files = none →
    Dict.getItem runJson files' = none
  json : ∀ t, Dict.getItem runJson files = some t →
    ∃ t', Dict.getItem runJson files' = some t' ∧ Carried t t'

/-- No run is lost, and what has been moved is right. -/
structure Migrated (d e : Disk) : Prop where
  runs : ∀ slug ∈ d.slugs, ∀ name files, (d.plan slug).HasRun name files →
    ∃ files', (e.plan slug).runs name = some (.dir files') ∧
      Arrived files files'
  plans : ∀ slug ∈ d.slugs, ∀ t, (d.plan slug).Wants t →
    ∃ t', (e.plan slug).template = some t' ∧ Carried t t'

/-- The old layout, before any migration, with JSON documents in its files. -/
structure Tree extends Disk where
  fresh : stamp = false
  there : isDir = true
  plans : ∀ slug ∈ slugs, ∀ t, (plan slug).Wants t → ∃ doc, t = text doc
  runs : ∀ slug ∈ slugs, ∀ name files, (plan slug).HasRun name files →
    ∀ t, Dict.getItem runJson files = some t → ∃ doc, t = text doc

/-- What any number of starts that were cut off have left of a tree. -/
structure Interrupted (t : Tree) where
  disk : Disk
  left : Left migrate t.toDisk disk

/-- The document has `plans/` at the beginning of its `result_path` texts only. -/
def Fits (t : Text) : Prop :=
  ∃ doc, t = text doc ∧ layout.Fits resultPath doc

/-- The trees that are migrated as they should be: the files fit, and the place
of a run is free, or the run is there already. -/
structure Suited (d : Disk) : Prop where
  runs : ∀ slug ∈ d.slugs, ∀ name files, (d.plan slug).HasRun name files →
    match (d.plan slug).runs name with
    | none => ∀ t, Dict.getItem runJson files = some t → Fits t
    | some node => ∃ files', rewriteNode node = .dir files' ∧
        Arrived files files'
  plans : ∀ slug ∈ d.slugs, ∀ t, (d.plan slug).Wants t → Fits t

theorem carried_rewritten_iff {t : Text} (h : ∃ doc, t = text doc) :
    Carried t (rewritten t) ↔ Fits t := by
  obtain ⟨doc, rfl⟩ := h
  obtain ⟨read, hread, hmarks⟩ := exists_universalNewlines doc
  have hrewritten : ∃ doc', rewritten (text doc) = text doc' ∧
      marks doc' = (marks doc).map (Token.mapPieces layout.inPieces) := by
    unfold rewritten
    rw [hread]
    split
    · refine ⟨layout.inDoc read, layout.inText_text read, ?_⟩
      rw [marks_inDoc, hmarks]
    · rename_i hnone
      -- no word to be replaced: the replacement would not change a thing
      have hlonger := layout.longer
      have hsame : text (layout.inDoc read) = text read := by
        rw [← layout.inText_text]
        exact (replaceAll_eq_self_iff layout.old_ne_nil hlonger _).2 hnone
      refine ⟨doc, rfl, ?_⟩
      rw [← hmarks, ← marks_inDoc, text_injective hsame]
  obtain ⟨doc', htext, hdoc'⟩ := hrewritten
  have hiff : layout.Carried resultPath (text doc) (text doc') ↔
      layout.Fits resultPath doc := layout.carried_iff hdoc'
  unfold Carried Fits
  rw [htext, hiff]
  constructor
  · exact fun hfits => ⟨doc, rfl, hfits⟩
  · rintro ⟨doc'', hsame, hfits⟩
    rwa [text_injective hsame]

theorem arrived_rewriteFiles_iff {files : Files}
    (h : ∀ t, Dict.getItem runJson files = some t → ∃ doc, t = text doc) :
    Arrived files (rewriteFiles files) ↔
      ∀ t, Dict.getItem runJson files = some t → Fits t := by
  cases hjson : Dict.getItem runJson files with
  | none =>
      have hsame : rewriteFiles files = files := by
        unfold rewriteFiles
        rw [hjson]
      rw [hsame]
      refine iff_of_true ?_ fun t ht => by cases ht
      exact
        { data := fun _ _ => rfl
          missing := fun hnone => hnone
          json := fun t ht => by
            rw [hjson] at ht
            cases ht }
  | some t =>
      have hfiles : rewriteFiles files =
          Dict.setItem runJson (rewritten t) files := by
        unfold rewriteFiles
        rw [hjson]
      have hnew : Dict.getItem runJson (rewriteFiles files) =
          some (rewritten t) := by
        rw [hfiles, Dict.getItem_setItem, if_pos rfl]
      have hiff := carried_rewritten_iff (h t hjson)
      constructor
      · intro harrived t' ht'
        obtain ⟨t'', ht'', hcarried⟩ := harrived.json t hjson
        rw [hnew] at ht''
        obtain rfl := Option.some.inj ht''
        obtain rfl := Option.some.inj ht'
        exact hiff.1 hcarried
      · intro hfits
        exact
          { data := fun name hname => by
              rw [hfiles, Dict.getItem_setItem, if_neg (Ne.symm hname)]
            missing := fun hnone => by
              rw [hjson] at hnone
              cases hnone
            json := fun t' ht' => by
              rw [hjson] at ht'
              obtain rfl := Option.some.inj ht'
              exact ⟨_, hnew, hiff.2 (hfits t rfl)⟩ }

theorem Tree.between (t : Tree) {c : Disk} (h : Left migrate t.toDisk c) :
    DiskBetween t.toDisk c :=
  Left.inv (.refl t.fresh t.there) (fun _ hs => between_migrate hs) h

/-- What a start that is not cut off makes of a tree is right exactly when the
tree suits it. -/
theorem migrated_iff (t : Tree) :
    Migrated t.toDisk (fin migrate t.toDisk) ↔ Suited t.toDisk := by
  have hplan : ∀ slug ∈ t.slugs,
      (fin migrate t.toDisk).plan slug = (t.plan slug).final := by
    intro slug hslug
    rw [fin_migrate t.fresh t.there]
    exact if_pos hslug
  have hrun : ∀ slug ∈ t.slugs, ∀ name files,
      (t.plan slug).HasRun name files →
      ((∃ files', ((fin migrate t.toDisk).plan slug).runs name =
          some (.dir files') ∧ Arrived files files') ↔
        match (t.plan slug).runs name with
        | none => ∀ t, Dict.getItem runJson files = some t → Fits t
        | some node => ∃ files', rewriteNode node = .dir files' ∧
            Arrived files files') := by
    intro slug hslug name files hfiles
    have hfinal : ((fin migrate t.toDisk).plan slug).runs name = some
        (rewriteNode (((t.plan slug).runs name).getD (.dir files))) := by
      rw [hplan slug hslug]
      exact settledRun_of_hasRun hfiles
    rw [hfinal]
    cases (t.plan slug).runs name with
    | none =>
        rw [← arrived_rewriteFiles_iff (t.runs slug hslug name files hfiles)]
        constructor
        · rintro ⟨files', hsome, harrived⟩
          injection hsome with hnode
          injection hnode with hfiles'
          rwa [← hfiles'] at harrived
        · exact fun harrived => ⟨_, rfl, harrived⟩
    | some node =>
        refine exists_congr fun files' => and_congr_left fun _ => ?_
        exact Option.some_inj
  have htemplate : ∀ slug ∈ t.slugs, ∀ x, (t.plan slug).Wants x →
      ((∃ t', ((fin migrate t.toDisk).plan slug).template = some t' ∧
        Carried x t') ↔ Fits x) := by
    intro slug hslug x hx
    have hfinal : ((fin migrate t.toDisk).plan slug).template =
        some (rewritten x) := by
      rw [hplan slug hslug]
      exact settledTemplate_of_wants hx
    rw [hfinal, ← carried_rewritten_iff (t.plans slug hslug x hx)]
    constructor
    · rintro ⟨t', hsome, hcarried⟩
      rwa [← Option.some.inj hsome] at hcarried
    · exact fun hcarried => ⟨_, rfl, hcarried⟩
  constructor
  · intro h
    exact
      { runs := fun slug hslug name files hfiles =>
          (hrun slug hslug name files hfiles).1
            (h.runs slug hslug name files hfiles)
        plans := fun slug hslug x hx =>
          (htemplate slug hslug x hx).1 (h.plans slug hslug x hx) }
  · intro h
    exact
      { runs := fun slug hslug name files hfiles =>
          (hrun slug hslug name files hfiles).2
            (h.runs slug hslug name files hfiles)
        plans := fun slug hslug x hx =>
          (htemplate slug hslug x hx).2 (h.plans slug hslug x hx) }

/-- The next start ends as the first would have exactly when the interruptions
were harmless for every slug. -/
theorem restarted_iff (t : Tree) (c : Interrupted t) :
    fin migrate c.disk = fin migrate t.toDisk ↔
      ∀ slug ∈ t.slugs, Harmless (t.plan slug) (c.disk.plan slug) := by
  have hbetween := t.between c.left
  have hslugs : c.disk.slugs = t.slugs := hbetween.slugs
  have hstart : DiskBetween t.toDisk t.toDisk := .refl t.fresh t.there
  rw [fin_migrate_between hbetween, fin_migrate_between hstart]
  have hfinal : c.disk.finalPlan = t.finalPlan ↔
      ∀ slug ∈ t.slugs, (c.disk.plan slug).final = (t.plan slug).final := by
    constructor
    · intro h slug hslug
      have hsame := congrFun h slug
      unfold Disk.finalPlan at hsame
      rwa [hslugs, if_pos hslug, if_pos hslug] at hsame
    · intro h
      funext slug
      unfold Disk.finalPlan
      rw [hslugs]
      by_cases hslug : slug ∈ t.slugs
      · rw [if_pos hslug, if_pos hslug]
        exact h slug hslug
      · rw [if_neg hslug, if_neg hslug]
        exact hbetween.rest slug hslug
  constructor
  · intro h slug hslug
    rw [← final_eq_iff (hbetween.plans slug hslug)]
    exact hfinal.1 (congrArg Disk.plan h) slug hslug
  · intro h
    have hsame := hfinal.2 fun slug hslug =>
      (final_eq_iff (hbetween.plans slug hslug)).2 (h slug hslug)
    rw [hsame]

/-- The migration is right, also after interruptions, exactly for the trees that
suit it and the interruptions that are harmless. -/
theorem migration_sound_iff (t : Tree) (c : Interrupted t) :
    Migrated t.toDisk (fin migrate c.disk) ∧
        fin migrate c.disk = fin migrate t.toDisk ↔
      Suited t.toDisk ∧
        ∀ slug ∈ t.slugs, Harmless (t.plan slug) (c.disk.plan slug) := by
  rw [← restarted_iff]
  constructor
  · rintro ⟨hmigrated, hsame⟩
    rw [hsame, migrated_iff] at hmigrated
    exact ⟨hmigrated, hsame⟩
  · rintro ⟨hsuited, hsame⟩
    rw [hsame, migrated_iff]
    exact ⟨hsuited, rfl⟩

/-- The `result_path` of a run of `my_plans` leads nowhere afterwards. -/
theorem not_sound_myPlans :
    ¬ ∀ (t : Tree) (c : Interrupted t),
      Migrated t.toDisk (fin migrate c.disk) ∧
        fin migrate c.disk = fin migrate t.toDisk := by
  intro h
  let doc : Doc :=
    [.bare '{' (by decide), .str (spell "result_path".toList (by decide)),
      .bare ':' (by decide),
      .str (spell "plans/my_plans/run_1".toList (by decide)),
      .bare '}' (by decide)]
  let files : Files := [(runJson, text doc)]
  let plan : Plan :=
    ⟨.dir [("run_1".toList, .dir files)], none, none, fun _ => none⟩
  have hentry : ∀ name node, plan.entry name = some node →
      node = .dir files := by
    intro name node hnode
    have hmem : (name, node) ∈ [("run_1".toList, Node.dir files)] :=
      Dict.mem_of_getItem hnode
    rw [List.mem_singleton, Prod.mk.injEq] at hmem
    exact hmem.2
  let t : Tree :=
    { stamp := false
      isDir := true
      slugs := ["my_plans".toList]
      plan := fun _ => plan
      fresh := rfl
      there := rfl
      plans := fun _ _ x hx => by
        have hfile := hentry _ _ hx.2
        cases hfile
      runs := fun _ _ name f hf x hx => by
        have hdir := hentry _ _ hf.2
        injection hdir with hfiles
        rw [hfiles] at hx
        have hmem : (runJson, x) ∈ [(runJson, text doc)] :=
          Dict.mem_of_getItem hx
        rw [List.mem_singleton, Prod.mk.injEq] at hmem
        exact ⟨doc, hmem.2⟩ }
  have hsuited := (migrated_iff t).1 (h t ⟨t.toDisk, .refl⟩).1
  have hrun : plan.HasRun "run_1".toList files := ⟨by decide, rfl⟩
  have hfits := hsuited.runs _ (List.mem_singleton.2 rfl) _ files hrun
  obtain ⟨doc', hdoc', hgood⟩ := hfits (text doc) rfl
  rw [← text_injective hdoc'] at hgood
  exact absurd hgood (by decide)

end Trees

end Layout
end Probe
end Kelt
