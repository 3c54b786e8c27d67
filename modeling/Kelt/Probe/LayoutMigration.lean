import Kelt.Lib.Dict
import Kelt.Lib.JsonText
import Kelt.Lib.Restart

/-!
# The migration of the plans layout

At its start the probe moves `results/plans` to the new layout: of each plan the
template goes to `plan_templates`, the runs go to `results/plan_runs`, and in
the `plan.json` and each `run.json` that went the text `plans/` is replaced. A
stamp says that all is done.

The migration is a program in the sense of `Restart`: its steps are the changes
of single files and directories. A file that is written is empty first and then
comes bit by bit; the rest of a directory that is moved comes at once.
-/

namespace Kelt
namespace Probe
namespace Layout

open JsonText Replace Restart

section Migration

/-- The files of a directory, by their paths in it. -/
abbrev Files := List (Text × Text)

inductive Node where
  | file (content : Text)
  | dir (files : Files)
deriving DecidableEq

/-- What stands at `results/plans/<slug>`. -/
inductive Slot where
  | absent
  | file
  | dir (entries : List (Text × Node))
deriving DecidableEq

def Slot.entries : Slot → List (Text × Node)
  | dir entries => entries
  | _ => []

def Slot.map (f : List (Text × Node) → List (Text × Node)) : Slot → Slot
  | dir entries => dir (f entries)
  | slot => slot

/-- What there is of a slug: in the old layout, the `plan.json` that the package
brings along, the one of the user, and in `results/plan_runs`. -/
@[ext]
structure Plan where
  src : Slot
  default : Option Text
  template : Option Text
  runs : Text → Option Node

/-- The stamp, whether `results/plans` is a directory, the names in it (also
those that have gone since), and what there is of each. -/
@[ext]
structure Disk where
  stamp : Bool
  isDir : Bool
  slugs : List Text
  plan : Text → Plan

def planJson : Text := "plan.json".toList
def runJson : Text := "run.json".toList

def Plan.entry (p : Plan) (name : Text) : Option Node :=
  Dict.getItem name p.src.entries

/-- `os.listdir` -/
def Plan.names (p : Plan) : List Text :=
  p.src.entries.map Prod.fst

def Plan.erase (p : Plan) (name : Text) : Plan :=
  { p with src := p.src.map (Dict.eraseItem name) }

def Plan.setEntry (p : Plan) (name : Text) (node : Node) : Plan :=
  { p with src := p.src.map (Dict.setItem name node) }

def Plan.setTemplate (p : Plan) (t : Text) : Plan :=
  { p with template := some t }

def Plan.setRun (p : Plan) (name : Text) (node : Node) : Plan :=
  { p with runs := Function.update p.runs name (some node) }

/-- The file that `_plan_template_json` names, when it is there. -/
def Plan.templateJson (p : Plan) : Option Text :=
  p.default.or p.template

/-- `"plans/"` and what is written in its place. -/
def layout : Rewriting where
  old := "plans/".toList
  new := "plan_runs/".toList
  mark := 'p'
  old_eq := by decide
  new_eq := by decide
  once := by decide
  differ := by decide
  longer := by decide
  old_plain := by decide
  new_plain := by decide
  ascii := by decide
  slash := by decide
  start := by decide

/-- `_rewrite_result_paths_json_file` -/
def rewriteFile : Prog Text := fun t =>
  let txt := universalNewlines t
  if layout.old <:+: txt then (layout.inText txt).inits else []

/-- `shutil.copy2` where there is no template yet, and the rewriting. -/
def copyTemplate (t : Text) : Prog Plan := fun p =>
  match p.templateJson with
  | some _ => []
  | none => (t.inits ++ rewriteFile t).map p.setTemplate

def copyPlan : Prog Plan := fun p =>
  match p.entry planJson with
  | some (.file t) => andThen (copyTemplate t) (fun p => [p.erase planJson]) p
  | _ => []

def isRun (name : Text) : Bool :=
  "run_".toList.isPrefixOf name

/-- `shutil.move`, unless there is something already. -/
def moveRun (name : Text) (files : Files) : Prog Plan := fun p =>
  if p.runs name = none then [(p.erase name).setRun name (.dir files)] else []

def rewriteRun (name : Text) : Prog Plan := fun p =>
  match p.runs name with
  | some (.dir files) =>
      match Dict.getItem runJson files with
      | some t => (rewriteFile t).map fun t =>
          p.setRun name (.dir (Dict.setItem runJson t files))
      | none => []
  | _ => []

def migrateEntry (name : Text) : Prog Plan := fun p =>
  match p.entry name with
  | some (.dir files) =>
      if isRun name then andThen (moveRun name files) (rewriteRun name) p
      else []
  | _ => []

/-- A directory goes file by file. -/
def removeEntry (name : Text) : Prog Plan := fun p =>
  match p.entry name with
  | some (.dir files) =>
      (files.tails.tail.map fun files => p.setEntry name (.dir files)) ++
        [p.erase name]
  | some (.file _) => [p.erase name]
  | none => []

/-- `shutil.rmtree` -/
def removeTree : Prog Plan :=
  andThen (fun p => forEach removeEntry p.names p)
    (fun p => [{ p with src := .absent }])

/-- What is done for one slug. -/
def migratePlan : Prog Plan := fun p =>
  match p.src with
  | .dir _ =>
      andThen copyPlan
        (andThen (fun p => forEach migrateEntry p.names p) removeTree) p
  | _ => []

def Disk.setPlan (d : Disk) (slug : Text) (p : Plan) : Disk :=
  { d with plan := Function.update d.plan slug p }

def migrateSlug (slug : Text) : Prog Disk :=
  within (fun d => d.plan slug) (fun d => d.setPlan slug) migratePlan

/-- `os.rmdir` of the old layout when nothing is left in it. -/
def removeLegacy : Prog Disk := fun d =>
  if ∀ slug ∈ d.slugs, (d.plan slug).src = .absent then
    [{ d with isDir := false }]
  else []

def writeStamp : Prog Disk := fun d =>
  [{ d with stamp := true }]

/-- `_migrate_legacy_plans_layout` -/
def migrate : Prog Disk := fun d =>
  if d.stamp then []
  else if d.isDir then
    andThen (forEach migrateSlug d.slugs) (andThen removeLegacy writeStamp) d
  else writeStamp d

end Migration

section Texts

/-- The text that the rewriting leaves. -/
def rewritten (t : Text) : Text :=
  if layout.old <:+: universalNewlines t then
    layout.inText (universalNewlines t)
  else t

/-- The rewriting leaves this text alone. -/
def Stable (t : Text) : Prop :=
  ¬ layout.old <:+: universalNewlines t

theorem getLast?_inits (t : Text) : t.inits.getLast? = some t := by
  induction t with
  | nil => rfl
  | cons c t ih =>
      rw [List.inits_cons, List.getLast?_cons, List.getLast?_map, ih]
      rfl

theorem fin_rewriteFile (t : Text) : fin rewriteFile t = rewritten t := by
  unfold fin rewriteFile rewritten
  dsimp only
  split
  · rw [List.getLastD_eq_getLast?, getLast?_inits]
    rfl
  · rfl

/-- Each beginning of what is written is left alone. -/
theorem stable_of_mem {t x : Text} (h : x ∈ rewriteFile t) : Stable x := by
  unfold rewriteFile at h
  dsimp only at h
  split at h
  · have hstart := (List.mem_inits x _).1 h
    have hreturn : '\r' ∉ layout.inText (universalNewlines t) := by
      intro hmem
      rcases mem_replaceAll layout.old_ne_nil hmem with hmem | hmem
      · exact absurd hmem (by decide)
      · exact return_notMem_universalNewlines t hmem
    have hread : universalNewlines x = x :=
      universalNewlines_eq_self fun hx => hreturn (hstart.subset hx)
    unfold Stable
    rw [hread]
    exact fun hin => layout.not_infix_inText _
      (hin.trans hstart.isInfix)
  · cases h

theorem stable_rewritten (t : Text) : Stable (rewritten t) := by
  unfold rewritten
  split
  · rename_i h
    apply stable_of_mem
    unfold rewriteFile
    dsimp only
    rw [if_pos h, List.mem_inits]
  · assumption

theorem rewritten_eq_self {t : Text} (h : Stable t) : rewritten t = t :=
  if_neg h

end Texts

section Parts

theorem entry_erase (p : Plan) (name name' : Text) :
    (p.erase name).entry name' =
      if name = name' then none else p.entry name' := by
  unfold Plan.entry Plan.erase Slot.map
  cases p.src with
  | dir entries => exact Dict.getItem_eraseItem name name' entries
  | absent => simp [Slot.entries, Dict.getItem]
  | file => simp [Slot.entries, Dict.getItem]

/-- What is there after a removal was there before it. -/
theorem entry_of_entry_erase {p : Plan} {name name' : Text} {node : Node}
    (h : (p.erase name).entry name' = some node) :
    p.entry name' = some node := by
  rw [entry_erase] at h
  split at h
  · cases h
  · exact h

theorem entry_setEntry {p : Plan} {name : Text} {node : Node}
    (h : p.entry name = some node) (node' : Node) (name' : Text) :
    (p.setEntry name node').entry name' =
      if name = name' then some node' else p.entry name' := by
  unfold Plan.entry Plan.setEntry Slot.map at *
  cases hsrc : p.src with
  | dir entries => exact Dict.getItem_setItem name name' node' entries
  | absent =>
      rw [hsrc] at h
      cases h
  | file =>
      rw [hsrc] at h
      cases h

theorem mem_names_iff (p : Plan) (name : Text) :
    name ∈ p.names ↔ p.entry name ≠ none := by
  unfold Plan.names Plan.entry
  rw [ne_eq, Dict.getItem_eq_none_iff, not_not]

theorem runs_setRun (p : Plan) (name : Text) (node : Node) (name' : Text) :
    (p.setRun name node).runs name' =
      if name' = name then some node else p.runs name' :=
  Function.update_apply _ _ _ _

theorem setRun_self {p : Plan} {name : Text} {node : Node}
    (h : p.runs name = some node) : p.setRun name node = p := by
  unfold Plan.setRun
  rw [← h, Function.update_eq_self]

theorem setRun_setRun (p : Plan) (name : Text) (node node' : Node) :
    (p.setRun name node).setRun name node' = p.setRun name node' := by
  unfold Plan.setRun
  rw [Function.update_idem]

theorem planJson_ne_of_isRun {name : Text} (h : isRun name = true) :
    planJson ≠ name := by
  rintro rfl
  exact absurd h (by decide)

/-- A directory of the old layout is gone in the end. -/
def Slot.settled : Slot → Slot
  | dir _ => absent
  | slot => slot

theorem settled_map (f : List (Text × Node) → List (Text × Node))
    (slot : Slot) : (slot.map f).settled = slot.settled := by
  cases slot <;> rfl

def rewriteFiles (files : Files) : Files :=
  match Dict.getItem runJson files with
  | some t => Dict.setItem runJson (rewritten t) files
  | none => files

def rewriteNode : Node → Node
  | .dir files => .dir (rewriteFiles files)
  | node => node

/-- What a run becomes whose `run.json` has the text `t` when it is read. -/
theorem rewriteFiles_setItem (t : Text) (files : Files) :
    rewriteFiles (Dict.setItem runJson t files) =
      Dict.setItem runJson (rewritten t) files := by
  unfold rewriteFiles
  rw [Dict.getItem_setItem, if_pos rfl]
  dsimp only
  rw [Dict.setItem_setItem]

theorem rewriteNode_rewriteNode (node : Node) :
    rewriteNode (rewriteNode node) = rewriteNode node := by
  cases node with
  | file content => rfl
  | dir files =>
      unfold rewriteNode
      dsimp only
      cases hrun : Dict.getItem runJson files with
      | none =>
          have hsame : rewriteFiles files = files := by
            unfold rewriteFiles
            rw [hrun]
          rw [hsame, hsame]
      | some t =>
          have hfiles : rewriteFiles files =
              Dict.setItem runJson (rewritten t) files := by
            unfold rewriteFiles
            rw [hrun]
          rw [hfiles, rewriteFiles_setItem,
            rewritten_eq_self (stable_rewritten t)]

/-- What the run of a name is in the end. -/
def Plan.settledRun (p : Plan) (name : Text) : Option Node :=
  match p.entry name with
  | some (.dir files) =>
      if isRun name then some (rewriteNode ((p.runs name).getD (.dir files)))
      else p.runs name
  | _ => p.runs name

/-- What the template is in the end. -/
def Plan.settledTemplate (p : Plan) : Option Text :=
  match p.templateJson, p.entry planJson with
  | none, some (.file t) => some (rewritten t)
  | _, _ => p.template

/-- What there is of a slug in the end. -/
def Plan.final (p : Plan) : Plan where
  src := p.src.settled
  default := p.default
  template := p.settledTemplate
  runs := p.settledRun

end Parts

section Ends

theorem fin_copyTemplate {p : Plan} (h : p.templateJson = none) (t : Text) :
    fin (copyTemplate t) p = p.setTemplate (rewritten t) := by
  have hcopy : (t.inits.map p.setTemplate).getLastD p = p.setTemplate t := by
    rw [List.getLastD_eq_getLast?, List.getLast?_map,
      getLast?_inits]
    rfl
  unfold fin copyTemplate
  rw [h]
  dsimp only
  rw [List.map_append, getLastD_append, hcopy, List.getLastD_map]
  exact congrArg p.setTemplate (fin_rewriteFile t)

theorem fin_rewriteRun (p : Plan) (name : Text) :
    fin (rewriteRun name) p =
      match p.runs name with
      | some node => p.setRun name (rewriteNode node)
      | none => p := by
  unfold fin rewriteRun
  cases hrun : p.runs name with
  | none => rfl
  | some node =>
      cases node with
      | file content => exact (setRun_self hrun).symm
      | dir files =>
          dsimp only [rewriteNode]
          cases hjson : Dict.getItem runJson files with
          | none =>
              have hsame : rewriteFiles files = files := by
                unfold rewriteFiles
                rw [hjson]
              rw [hsame, setRun_self hrun]
              rfl
          | some t =>
              have hput : p.setRun name (.dir (Dict.setItem runJson t files)) =
                  p := by
                rw [Dict.setItem_self hjson, setRun_self hrun]
              have hlast : ((rewriteFile t).map fun t =>
                    p.setRun name (.dir (Dict.setItem runJson t files))).getLastD
                  (p.setRun name (.dir (Dict.setItem runJson t files))) =
                  p.setRun name (.dir (Dict.setItem runJson
                    (fin rewriteFile t) files)) :=
                List.getLastD_map
              have hfiles : rewriteFiles files =
                  Dict.setItem runJson (rewritten t) files := by
                unfold rewriteFiles
                rw [hjson]
              rw [hput, fin_rewriteFile] at hlast
              rw [hfiles]
              exact hlast

theorem settledRun_congr {p q : Plan} {name : Text}
    (hentry : q.entry name = p.entry name) (hrun : q.runs name = p.runs name) :
    q.settledRun name = p.settledRun name := by
  unfold Plan.settledRun
  rw [hentry, hrun]

theorem settledRun_of_entry_none {p : Plan} {name : Text}
    (h : p.entry name = none) : p.settledRun name = p.runs name := by
  unfold Plan.settledRun
  rw [h]

theorem settledRun_of_not_isRun {p : Plan} {name : Text}
    (h : isRun name = false) : p.settledRun name = p.runs name := by
  unfold Plan.settledRun
  rw [h]
  split <;> rfl

theorem settledRun_erase_planJson (p : Plan) :
    (p.erase planJson).settledRun = p.settledRun := by
  funext name
  cases hrun : isRun name with
  | true =>
      have hentry : (p.erase planJson).entry name = p.entry name := by
        rw [entry_erase, if_neg (planJson_ne_of_isRun hrun)]
      exact settledRun_congr hentry rfl
  | false =>
      rw [settledRun_of_not_isRun hrun, settledRun_of_not_isRun hrun]
      rfl

/-- Copying changes the template only, and takes the `plan.json` away. -/
theorem fin_copyPlan (p : Plan) :
    (fin copyPlan p).src.settled = p.src.settled ∧
      (fin copyPlan p).default = p.default ∧
      (fin copyPlan p).template = p.settledTemplate ∧
      (fin copyPlan p).settledRun = p.settledRun := by
  by_cases hfile : ∃ t, p.entry planJson = some (.file t)
  · obtain ⟨t, hentry⟩ := hfile
    have hrun : copyPlan p =
        andThen (copyTemplate t) (fun p => [p.erase planJson]) p := by
      unfold copyPlan
      rw [hentry]
    have hfin : fin copyPlan p = (fin (copyTemplate t) p).erase planJson := by
      rw [fin_congr hrun, fin_andThen]
      rfl
    rw [hfin, settledRun_erase_planJson]
    unfold Plan.settledTemplate
    rw [hentry]
    cases htemplate : p.templateJson with
    | none =>
        rw [fin_copyTemplate htemplate]
        exact ⟨settled_map _ _, rfl, rfl, rfl⟩
    | some t' =>
        have hnil : copyTemplate t p = [] := by
          unfold copyTemplate
          rw [htemplate]
        rw [fin_of_nil hnil]
        exact ⟨settled_map _ _, rfl, rfl, rfl⟩
  · have hnil : copyPlan p = [] := by
      unfold copyPlan
      split
      · rename_i t hentry
        exact absurd ⟨t, hentry⟩ hfile
      · rfl
    have htemplate : p.settledTemplate = p.template := by
      unfold Plan.settledTemplate
      split
      · rename_i t _ hentry
        exact absurd ⟨t, hentry⟩ hfile
      · rfl
    rw [fin_of_nil hnil, htemplate]
    exact ⟨rfl, rfl, rfl, rfl⟩

theorem settledRun_of_dir {p : Plan} {name : Text} {files : Files}
    (h : p.entry name = some (.dir files)) (hrun : isRun name = true) :
    p.settledRun name =
      some (rewriteNode ((p.runs name).getD (.dir files))) := by
  unfold Plan.settledRun
  rw [h]
  exact if_pos hrun

/-- A run that has been settled stays as it is. -/
theorem settledRun_setRun {p q : Plan} {name : Text} {node : Node}
    (hsettled : p.settledRun name = some node)
    (hstable : rewriteNode node = node)
    (hentries : ∀ name', name' ≠ name → q.entry name' = p.entry name')
    (hruns : q.runs = p.runs) :
    (q.setRun name node).settledRun = p.settledRun := by
  funext name'
  by_cases hname : name' = name
  · subst hname
    have hput : (q.setRun name' node).runs name' = some node := by
      rw [runs_setRun, if_pos rfl]
    rw [hsettled]
    unfold Plan.settledRun
    rw [hput]
    split
    · split
      · exact congrArg some hstable
      · rfl
    · rfl
  · apply settledRun_congr
    · exact hentries name' hname
    · rw [runs_setRun, if_neg hname, hruns]

/-- What is done for an entry concerns the run of its name only, and settles
it. -/
theorem fin_migrateEntry (name : Text) (p : Plan) :
    (fin (migrateEntry name) p).src.settled = p.src.settled ∧
      (fin (migrateEntry name) p).default = p.default ∧
      (fin (migrateEntry name) p).template = p.template ∧
      (fin (migrateEntry name) p).settledRun = p.settledRun ∧
      ∀ name', (fin (migrateEntry name) p).runs name' =
        if name' = name then p.settledRun name else p.runs name' := by
  by_cases hdir : ∃ files, p.entry name = some (.dir files) ∧ isRun name = true
  · obtain ⟨files, hentry, hrun⟩ := hdir
    have hprog : migrateEntry name p =
        andThen (moveRun name files) (rewriteRun name) p := by
      unfold migrateEntry
      rw [hentry]
      exact if_pos hrun
    have hsettled := settledRun_of_dir hentry hrun
    have hstable := rewriteNode_rewriteNode ((p.runs name).getD (.dir files))
    rw [fin_congr hprog, fin_andThen]
    cases hdst : p.runs name with
    | none =>
        have hmove : fin (moveRun name files) p =
            (p.erase name).setRun name (.dir files) := by
          unfold fin moveRun
          rw [if_pos hdst]
          rfl
        have hothers : ∀ name', name' ≠ name →
            (p.erase name).entry name' = p.entry name' := by
          intro name' hname
          rw [entry_erase, if_neg (Ne.symm hname)]
        rw [hdst] at hsettled hstable
        rw [hmove, fin_rewriteRun, runs_setRun, if_pos rfl]
        dsimp only
        rw [setRun_setRun, hsettled]
        refine ⟨settled_map _ _, rfl, rfl,
          settledRun_setRun hsettled hstable hothers rfl, ?_⟩
        exact fun name' => runs_setRun _ _ _ _
    | some node =>
        have hstay : moveRun name files p = [] := by
          unfold moveRun
          rw [hdst]
          rfl
        rw [hdst] at hsettled hstable
        rw [fin_of_nil hstay, fin_rewriteRun, hdst, hsettled]
        refine ⟨rfl, rfl, rfl,
          settledRun_setRun hsettled hstable (fun _ _ => rfl) rfl, ?_⟩
        exact fun name' => runs_setRun _ _ _ _
  · have hnil : migrateEntry name p = [] := by
      unfold migrateEntry
      split
      · rename_i files hentry
        exact if_neg fun hrun => hdir ⟨files, hentry, hrun⟩
      · rfl
    have hsettled : p.settledRun name = p.runs name := by
      unfold Plan.settledRun
      split
      · rename_i files hentry
        exact if_neg fun hrun => hdir ⟨files, hentry, hrun⟩
      · rfl
    rw [fin_of_nil hnil, hsettled]
    refine ⟨rfl, rfl, rfl, rfl, ?_⟩
    intro name'
    split
    · rename_i hname
      rw [hname]
    · rfl

/-- The loop settles the runs of the names it goes over. -/
theorem fin_migrateEntries (names : List Text) (p : Plan) :
    (fin (forEach migrateEntry names) p).src.settled = p.src.settled ∧
      (fin (forEach migrateEntry names) p).default = p.default ∧
      (fin (forEach migrateEntry names) p).template = p.template ∧
      ∀ name, (fin (forEach migrateEntry names) p).runs name =
        if name ∈ names then p.settledRun name else p.runs name := by
  induction names generalizing p with
  | nil => exact ⟨rfl, rfl, rfl, fun _ => rfl⟩
  | cons name names ih =>
      obtain ⟨hsrc, hdefault, htemplate, hsettled, hruns⟩ :=
        fin_migrateEntry name p
      obtain ⟨hsrc', hdefault', htemplate', hruns'⟩ :=
        ih (fin (migrateEntry name) p)
      rw [fin_forEach_cons]
      refine ⟨hsrc'.trans hsrc, hdefault'.trans hdefault,
        htemplate'.trans htemplate, ?_⟩
      intro name'
      rw [hruns', hsettled, hruns]
      by_cases hname : name' = name
      · simp [hname]
      · simp [hname]

theorem fin_removeEntry (name : Text) (p : Plan) :
    (fin (removeEntry name) p).default = p.default ∧
      (fin (removeEntry name) p).template = p.template ∧
      (fin (removeEntry name) p).runs = p.runs := by
  cases hentry : p.entry name with
  | none =>
      rw [fin_of_nil (by unfold removeEntry; rw [hentry])]
      exact ⟨rfl, rfl, rfl⟩
  | some node =>
      have hfin : fin (removeEntry name) p = p.erase name := by
        cases node with
        | file content =>
            unfold fin removeEntry
            rw [hentry]
            rfl
        | dir files =>
            apply fin_of_concat
            unfold removeEntry
            rw [hentry]
      rw [hfin]
      exact ⟨rfl, rfl, rfl⟩

theorem fin_removeTree (p : Plan) :
    fin removeTree p = { p with src := .absent } := by
  have hloop : ∀ (names : List Text) (p : Plan),
      (fin (forEach removeEntry names) p).default = p.default ∧
        (fin (forEach removeEntry names) p).template = p.template ∧
        (fin (forEach removeEntry names) p).runs = p.runs := by
    intro names
    induction names with
    | nil => exact fun p => ⟨rfl, rfl, rfl⟩
    | cons name names ih =>
        intro p
        obtain ⟨hdefault, htemplate, hruns⟩ := fin_removeEntry name p
        obtain ⟨hdefault', htemplate', hruns'⟩ := ih (fin (removeEntry name) p)
        rw [fin_forEach_cons]
        exact ⟨hdefault'.trans hdefault, htemplate'.trans htemplate,
          hruns'.trans hruns⟩
  obtain ⟨hdefault, htemplate, hruns⟩ := hloop p.names p
  unfold removeTree
  rw [fin_andThen]
  have hlast : ∀ q : Plan, fin (fun p => [{ p with src := Slot.absent }]) q =
      { q with src := .absent } := fun _ => rfl
  rw [hlast]
  have hnames : fin (fun p => forEach removeEntry p.names p) p =
      fin (forEach removeEntry p.names) p := rfl
  rw [hnames, hdefault, htemplate, hruns]

theorem final_of_no_entries {p : Plan} (h : p.src.entries = [])
    (hsrc : p.src.settled = p.src) : p.final = p := by
  have hentry : ∀ name, p.entry name = none := by
    intro name
    unfold Plan.entry
    rw [h]
    rfl
  refine Plan.ext hsrc rfl ?_ ?_
  · change p.settledTemplate = p.template
    unfold Plan.settledTemplate
    rw [hentry]
    cases p.templateJson <;> rfl
  · funext name
    exact settledRun_of_entry_none (hentry name)

/-- How a start that is not cut off leaves a slug. -/
theorem fin_migratePlan (p : Plan) : fin migratePlan p = p.final := by
  cases hsrc : p.src with
  | absent =>
      have hnil : migratePlan p = [] := by unfold migratePlan; rw [hsrc]
      rw [fin_of_nil hnil, final_of_no_entries]
      · rw [hsrc]; rfl
      · rw [hsrc]; rfl
  | file =>
      have hnil : migratePlan p = [] := by unfold migratePlan; rw [hsrc]
      rw [fin_of_nil hnil, final_of_no_entries]
      · rw [hsrc]; rfl
      · rw [hsrc]; rfl
  | dir entries =>
      have hprog : migratePlan p = andThen copyPlan
          (andThen (fun p => forEach migrateEntry p.names p) removeTree) p := by
        unfold migratePlan
        rw [hsrc]
      obtain ⟨-, hdefault, htemplate, hsettled⟩ := fin_copyPlan p
      obtain ⟨-, hdefault', htemplate', hruns'⟩ :=
        fin_migrateEntries (fin copyPlan p).names (fin copyPlan p)
      rw [fin_congr hprog, fin_andThen, fin_andThen, fin_removeTree]
      apply Plan.ext
      · change Slot.absent = p.src.settled
        rw [hsrc]
        rfl
      · exact hdefault'.trans hdefault
      · exact htemplate'.trans htemplate
      · funext name
        refine (hruns' name).trans ?_
        change _ = p.settledRun name
        rw [← hsettled]
        split
        · rfl
        · rename_i hname
          rw [mem_names_iff, not_not] at hname
          exact (settledRun_of_entry_none hname).symm

end Ends

end Layout
end Probe
end Kelt
