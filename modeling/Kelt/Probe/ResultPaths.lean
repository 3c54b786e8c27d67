import Kelt.Lib.FileTree

/-!
# Where the results of the 5G probe are written and removed

`save_result` writes the files of a result into a directory whose path comes
from the request, and `delete_result` removes what a path of the request leads
to. Both join the text to the results directory and do not look at it again:
segments `..` lead out of it. A request keeps to the results directory exactly
when its path leads there, or nowhere, and it does not remove the last file that
stands directly in it (`confined_iff`).

The tree is one without links, and what is written into the files is not part of
the model.
-/

namespace Kelt
namespace Probe
namespace ResultPaths

open FileTree

section Handlers

/-- Where the probe is installed. -/
structure Package where
  root : Loc
  proper : ∀ name ∈ root, IsName name

/-- `RESULTS_DIR` -/
def Package.results (pkg : Package) : Loc :=
  pkg.root ++ ["results".toList]

/-- The time, as `strftime` writes it. -/
structure Now where
  date : Text
  time : Text

structure SaveRequest where
  hint : Option Text
  testType : Text
  direction : Text
  protocol : Text
  image : Text
  hasRows : Bool

/-- What a request did besides its answer. -/
structure Outcome where
  ok : Bool
  written : List Loc
  removed : List Loc
  deriving DecidableEq

/-- The name of the folder of a result that belongs to no plan. -/
def standaloneName (now : Now) (r : SaveRequest) : Text :=
  let parts := [now.time, r.testType] ++
    (if r.direction = [] then [] else [r.direction]) ++
    (if r.protocol = [] then [] else [r.protocol])
  (parts.intersperse ['_']).flatten

/-- The path that `_make_result_dir` makes. -/
def resultDir (pkg : Package) (now : Now) (r : SaveRequest) : List Text :=
  let standalone :=
    join (join (join (pathOf pkg.results) "standalone".toList) now.date)
      (standaloneName now r)
  match r.hint with
  | some hint =>
      if "plans/".toList.isPrefixOf hint || "plan_runs/".toList.isPrefixOf hint
      then join (pathOf pkg.results) hint
      else standalone
  | none => standalone

/-- The files of a result, in the order in which they are written. -/
def files (r : SaveRequest) : List Text :=
  (if r.image = [] then [] else ["chart.png".toList]) ++
    (if r.hasRows then ["data.csv".toList] else []) ++
    ["metadata.json".toList]

/-- `open(os.path.join(path, name), "w")` does not raise. -/
def canOpen (t : Tree) (path : List Text) (dir : Loc) (name : Text) : Bool :=
  pathOk (join path name) && !decide (t.kind (dir ++ [name]) = some .dir)

/-- Write one file after the other. A file whose content cannot be written is
there and ends the request. -/
def writeAll (t : Tree) (fails : Text → Bool) (path : List Text) (dir : Loc) :
    List Text → Outcome
  | [] => ⟨true, [], []⟩
  | name :: rest =>
      if canOpen t path dir name then
        if fails name then ⟨false, [dir ++ [name]], []⟩
        else
          let o := writeAll t fails path dir rest
          { o with written := (dir ++ [name]) :: o.written }
      else ⟨false, [], []⟩

def saveResult (t : Tree) (pkg : Package) (now : Now) (fails : Text → Bool)
    (r : SaveRequest) : Outcome :=
  let path := resultDir pkg now r
  match t.makedirs [] path with
  | some (t', dir) => writeAll t' fails path dir (files r)
  | none => ⟨false, [], []⟩

/-- `.replace(".png", ".json")` -/
def pngToJson : Text → Text
  | '.' :: 'p' :: 'n' :: 'g' :: rest => ".json".toList ++ pngToJson rest
  | c :: rest => c :: pngToJson rest
  | [] => []

/-- `full_path.endswith(".png")` -/
def isPng (path : List Text) : Bool :=
  match path.getLast? with
  | some name => ".png".toList.isSuffixOf name
  | none => false

/-- The companion of a legacy picture that is removed with it, none when this
raises. No text that is replaced holds a slash. -/
def companion (t : Tree) (full : List Text) : Option (List Loc) :=
  let json := full.map pngToJson
  if isPng full && t.present json then
    match t.find .file json with
    | some p => some [p]
    | none => none
  else some []

/-- Without the files that are removed. -/
def Tree.without (t : Tree) (gone : List Loc) : Tree :=
  gone.foldl Tree.prune t

def deleteResult (t : Tree) (pkg : Package) (subpath : Text) : Outcome :=
  let full := join (pathOf pkg.results) subpath
  match t.find .dir full with
  | some p =>
      match (t.clear p).rmdir full with
      | some q => ⟨true, [], t.below p ++ [q]⟩
      | none => ⟨false, [], t.below p⟩
  | none =>
      match t.find .file full with
      | some p =>
          match companion (t.prune p) full with
          | some more =>
              let gone := p :: more
              let left := Tree.without t gone
              match left.find .dir (dirname full) with
              | some parent =>
                  if left.isEmpty parent then
                    match left.rmdir (dirname full) with
                    | some q => ⟨true, [], gone ++ [q]⟩
                    | none => ⟨false, [], gone⟩
                  else ⟨true, [], gone⟩
              | none => ⟨true, [], gone⟩
          | none => ⟨false, [], [p]⟩
      | none => ⟨false, [], []⟩

end Handlers

section Claims

inductive Request where
  | save (now : Now) (fails : Text → Bool) (r : SaveRequest)
  | delete (subpath : Text)

def handle (t : Tree) (pkg : Package) : Request → Outcome
  | .save now fails r => saveResult t pkg now fails r
  | .delete subpath => deleteResult t pkg subpath

/-- What is written and removed stands below the results directory, which is not
removed itself. -/
def Outcome.Confined (o : Outcome) (pkg : Package) : Prop :=
  ∀ p ∈ o.written ++ o.removed, Below pkg.results p

/-- The directory is the results directory or below it, or the first file of
the result cannot be written there. -/
def SaveFits (t : Tree) (pkg : Package) (now : Now) (r : SaveRequest) : Prop :=
  pkg.results <+: place [] (resultDir pkg now r) ∨
    ∀ t' dir name, t.makedirs [] (resultDir pkg now r) = some (t', dir) →
      (files r).head? = some name →
        canOpen t' (resultDir pkg now r) dir name = false

/-- A directory is below the results directory, or it cannot be removed under
this path and nothing but results would be removed from it. -/
def DirFits (t : Tree) (pkg : Package) (full : List Text) (p : Loc) : Prop :=
  Below pkg.results p ∨
    ((t.clear p).rmdir full = none ∧ (p = pkg.results ∨ t.isEmpty p = true))

/-- A file is below the results directory, and so is its companion; if it stands
directly in the results directory, something else remains there. -/
def FileFits (t : Tree) (pkg : Package) (full : List Text) (p : Loc) : Prop :=
  Below pkg.results p ∧
    ∀ more, companion (t.prune p) full = some more →
      (∀ q ∈ more, Below pkg.results q) ∧
        (p.dropLast = pkg.results → endsInName (dirname full) = true →
          (Tree.without t (p :: more)).isEmpty pkg.results = false)

def DeleteFits (t : Tree) (pkg : Package) (subpath : Text) : Prop :=
  let full := join (pathOf pkg.results) subpath
  (∀ p, t.find .dir full = some p → DirFits t pkg full p) ∧
    ∀ p, t.find .file full = some p → FileFits t pkg full p

def Request.Fits (t : Tree) (pkg : Package) : Request → Prop
  | .save now _ r => SaveFits t pkg now r
  | .delete subpath => DeleteFits t pkg subpath

end Claims

section Saving

variable {t : Tree} {pkg : Package}

theorem removed_writeAll (t : Tree) (fails : Text → Bool) (path : List Text)
    (dir : Loc) (names : List Text) :
    (writeAll t fails path dir names).removed = [] := by
  induction names with
  | nil => rfl
  | cons name rest ih =>
      unfold writeAll
      split
      · split
        · rfl
        · exact ih
      · rfl

theorem mem_of_mem_written {fails : Text → Bool} {path : List Text}
    {dir p : Loc} {names : List Text}
    (h : p ∈ (writeAll t fails path dir names).written) :
    ∃ name, p = dir ++ [name] := by
  induction names with
  | nil => cases h
  | cons name rest ih =>
      unfold writeAll at h
      split at h
      · split at h
        · exact ⟨name, List.mem_singleton.1 h⟩
        · rcases List.mem_cons.1 h with rfl | h
          · exact ⟨name, rfl⟩
          · exact ih h
      · cases h

/-- Files are written exactly when the first of them can be opened, and they
stand in the directory. -/
theorem confined_writeAll_iff (fails : Text → Bool) (path : List Text)
    (dir : Loc) (name : Text) (rest : List Text) :
    (writeAll t fails path dir (name :: rest)).Confined pkg ↔
      pkg.results <+: dir ∨ canOpen t path dir name = false := by
  unfold Outcome.Confined
  rw [removed_writeAll, List.append_nil]
  constructor
  · intro h
    by_cases hopen : canOpen t path dir name = true
    · refine Or.inl (below_concat_iff.1 (h (dir ++ [name]) ?_))
      unfold writeAll
      rw [if_pos hopen]
      split
      · exact List.mem_singleton_self _
      · exact List.mem_cons_self
    · exact Or.inr (Bool.eq_false_iff.2 hopen)
  · rintro (hdir | hclosed) p hp
    · obtain ⟨name', rfl⟩ := mem_of_mem_written hp
      exact below_concat_iff.2 hdir
    · unfold writeAll at hp
      rw [hclosed] at hp
      cases hp

theorem exists_files (r : SaveRequest) : ∃ name rest, files r = name :: rest := by
  unfold files
  split
  · split <;> exact ⟨_, _, rfl⟩
  · exact ⟨_, _, rfl⟩

theorem confined_save_iff (t : Tree) (pkg : Package) (now : Now)
    (fails : Text → Bool) (r : SaveRequest) :
    (saveResult t pkg now fails r).Confined pkg ↔ SaveFits t pkg now r := by
  obtain ⟨name, rest, hfiles⟩ := exists_files r
  cases hmake : t.makedirs [] (resultDir pkg now r) with
  | none =>
      have heq : saveResult t pkg now fails r = ⟨false, [], []⟩ := by
        simp only [saveResult, hmake]
      rw [heq]
      refine iff_of_true (fun p hp => nomatch hp) (Or.inr ?_)
      intro t' dir name' hsome
      rw [hmake] at hsome
      cases hsome
  | some made =>
      obtain ⟨t', dir⟩ := made
      have heq : saveResult t pkg now fails r =
          writeAll t' fails (resultDir pkg now r) dir (name :: rest) := by
        simp only [saveResult, hmake, hfiles]
      rw [heq, confined_writeAll_iff]
      unfold SaveFits
      rw [hmake, hfiles, place_of_makedirs hmake]
      refine or_congr_right ⟨?_, fun h => h t' _ name rfl rfl⟩
      intro h t'' dir' name' hsome hname
      cases hsome
      cases hname
      exact h

end Saving

section Deleting

variable {t : Tree} {pkg : Package} {full : List Text} {p : Loc}

/-- What a request for a directory removes. -/
theorem confined_dir_iff (hp : t.find .dir full = some p) :
    (match (t.clear p).rmdir full with
      | some q => (⟨true, [], t.below p ++ [q]⟩ : Outcome)
      | none => ⟨false, [], t.below p⟩).Confined pkg ↔
      DirFits t pkg full p := by
  unfold DirFits Outcome.Confined
  cases hrmdir : (t.clear p).rmdir full with
  | some q =>
      have hq : q = p :=
        (place_of_find (rmdir_eq_some_iff.1 hrmdir).2.1).trans
          (place_of_find hp).symm
      simp only [List.nil_append, List.mem_append, or_imp, forall_and,
        List.mem_singleton, forall_eq, below_root_iff, reduceCtorEq, false_and,
        or_false, hq]
      exact and_iff_right_of_imp fun hbelow => Or.inl hbelow.1
  | none =>
      simp only [List.nil_append, below_root_iff, below_or_eq, true_and, or_assoc]

/-- The files that go leave the directories where they are. -/
theorem kind_without {more : List Loc} (hp : t.kind p = some .file)
    (hmore : companion (t.prune p) full = some more) {q : Loc}
    (hq : t.kind q = some .dir) :
    (Tree.without t (p :: more)).kind q = some .dir := by
  have hq' := kind_prune hp hq
  unfold companion at hmore
  simp only at hmore
  split at hmore
  · split at hmore
    · rename_i json hjson
      cases hmore
      exact kind_prune (find_eq_some_iff.1 hjson).2 hq'
    · cases hmore
  · cases hmore
    exact hq'

/-- What a request for a file removes. -/
theorem confined_file_iff {more : List Loc} (hp : t.find .file full = some p)
    (hmore : companion (t.prune p) full = some more) :
    (match (Tree.without t (p :: more)).find .dir (dirname full) with
      | some parent =>
          if (Tree.without t (p :: more)).isEmpty parent then
            match (Tree.without t (p :: more)).rmdir (dirname full) with
            | some q => (⟨true, [], p :: more ++ [q]⟩ : Outcome)
            | none => ⟨false, [], p :: more⟩
          else ⟨true, [], p :: more⟩
      | none => ⟨true, [], p :: more⟩).Confined pkg ↔
      Below pkg.results p ∧ (∀ q ∈ more, Below pkg.results q) ∧
        (p.dropLast = pkg.results → endsInName (dirname full) = true →
          (Tree.without t (p :: more)).isEmpty pkg.results = false) := by
  obtain ⟨hlookup, hfile⟩ := find_eq_some_iff.1 hp
  -- the directory of the file is still there
  have hparent : (Tree.without t (p :: more)).find .dir (dirname full) =
      some p.dropLast := by
    obtain ⟨hok, hwalk⟩ := walk_of_lookup (lookup_dirname hlookup hfile)
    have hdirs : ∀ q, t.kind q = some .dir →
        (Tree.without t (p :: more)).kind q = some .dir :=
      fun q hq => kind_without hfile hmore hq
    have hdir : t.kind p.dropLast = some .dir := by
      refine (kind_dropLast hfile).resolve_left ?_
      rintro rfl
      rw [kind_nil] at hfile
      cases hfile
    refine find_eq_some_iff.2 ⟨?_, hdirs _ hdir⟩
    unfold Tree.lookup
    rw [if_pos hok]
    exact walk_mono hdirs hwalk
  rw [hparent]
  simp only
  generalize Tree.without t (p :: more) = left at hparent
  have hgone : (⟨true, [], p :: more⟩ : Outcome).Confined pkg ↔
      Below pkg.results p ∧ ∀ q ∈ more, Below pkg.results q := by
    simp [Outcome.Confined]
  by_cases hempty : left.isEmpty p.dropLast = true
  · rw [if_pos hempty]
    by_cases hname : endsInName (dirname full) = true
    · have hrmdir : left.rmdir (dirname full) = some p.dropLast :=
        rmdir_eq_some_iff.2 ⟨hname, hparent, hempty⟩
      rw [hrmdir]
      have hboth : (⟨true, [], p :: more ++ [p.dropLast]⟩ : Outcome).Confined pkg ↔
          (Below pkg.results p ∧ ∀ q ∈ more, Below pkg.results q) ∧
            Below pkg.results p.dropLast := by
        simp [Outcome.Confined, or_imp, forall_and, and_assoc]
      rw [hboth, and_assoc]
      refine and_congr_right fun hbelow => and_congr_right fun _ => ?_
      constructor
      · exact fun h heq => absurd heq h.2
      · intro h
        rcases hbelow.dropLast with heq | h'
        · rw [← heq, h heq.symm hname] at hempty
          cases hempty
        · exact h'
    · have hrmdir : left.rmdir (dirname full) = none := by
        cases hsome : left.rmdir (dirname full) with
        | none => rfl
        | some q => exact absurd (rmdir_eq_some_iff.1 hsome).1 hname
      rw [hrmdir]
      have hsame : (⟨false, [], p :: more⟩ : Outcome).Confined pkg ↔
          Below pkg.results p ∧ ∀ q ∈ more, Below pkg.results q := by
        simp [Outcome.Confined]
      rw [hsame]
      exact and_congr_right fun _ =>
        (and_iff_left fun _ hyes => absurd hyes hname).symm
  · rw [if_neg hempty, hgone]
    refine and_congr_right fun _ => (and_iff_left fun heq _ => ?_).symm
    rw [← heq]
    exact Bool.eq_false_iff.2 hempty

theorem confined_delete_iff (t : Tree) (pkg : Package) (subpath : Text) :
    (deleteResult t pkg subpath).Confined pkg ↔ DeleteFits t pkg subpath := by
  unfold deleteResult DeleteFits
  simp only
  cases hdir : t.find .dir (join (pathOf pkg.results) subpath) with
  | some p =>
      have hfile : t.find .file (join (pathOf pkg.results) subpath) = none := by
        cases hsome : t.find .file (join (pathOf pkg.results) subpath) with
        | none => rfl
        | some q =>
            obtain ⟨hlookup, hkind⟩ := find_eq_some_iff.1 hdir
            obtain ⟨hlookup', hkind'⟩ := find_eq_some_iff.1 hsome
            rw [hlookup] at hlookup'
            cases hlookup'
            rw [hkind] at hkind'
            cases hkind'
      simp only [hfile, Option.some.injEq, forall_eq', reduceCtorEq,
        false_imp_iff, implies_true, and_true]
      exact confined_dir_iff hdir
  | none =>
      cases hfile : t.find .file (join (pathOf pkg.results) subpath) with
      | none => simp [Outcome.Confined]
      | some p =>
          simp only [reduceCtorEq, false_imp_iff, implies_true, true_and,
            Option.some.injEq, forall_eq']
          unfold FileFits
          cases hmore : companion (t.prune p)
              (join (pathOf pkg.results) subpath) with
          | none => simp [Outcome.Confined]
          | some more =>
              simp only [Option.some.injEq, forall_eq']
              exact confined_file_iff hfile hmore

/-- A request, in any tree, writes and removes strict descendants of the results
directory only exactly when it fits. -/
theorem confined_iff (t : Tree) (pkg : Package) (req : Request) :
    (handle t pkg req).Confined pkg ↔ req.Fits t pkg := by
  cases req with
  | save now fails r => exact confined_save_iff t pkg now fails r
  | delete subpath => exact confined_delete_iff t pkg subpath

/-- A folder of plan templates beside the results. -/
def templatesTree : Tree where
  entries := [(["probe".toList], .dir), (["probe".toList, "results".toList], .dir),
    (["probe".toList, "plan_templates".toList], .dir),
    (["probe".toList, "plan_templates".toList, "plan.json".toList], .file)]
  closed := by decide

theorem not_confined_templates :
    ¬ (handle templatesTree ⟨["probe".toList], by decide⟩
      (.delete "../plan_templates".toList)).Confined
        ⟨["probe".toList], by decide⟩ := by
  intro h
  have htemplates := h ["probe".toList, "plan_templates".toList] (by decide)
  exact absurd htemplates (by decide)

end Deleting

section Companions

theorem pngToJson_cases (name : Text) :
    pngToJson name = name ∨ 5 ≤ (pngToJson name).length := by
  induction name using pngToJson.induct with
  | case1 rest =>
      refine Or.inr ?_
      rw [pngToJson, List.length_append]
      exact Nat.le_add_right 5 _
  | case2 c rest hpng ih =>
      rw [pngToJson]
      · rcases ih with heq | hlen
        · exact Or.inl (by rw [heq])
        · exact Or.inr (by rw [List.length_cons]; omega)
      · exact hpng
  | case3 => exact Or.inl rfl

theorem pngToJson_special {seg : Text} (h : ¬ IsName seg) :
    pngToJson seg = seg := by
  by_cases hempty : seg = []
  · rw [hempty]
    rfl
  · by_cases hdot : seg = ['.']
    · rw [hdot]
      rfl
    · by_cases hdots : seg = ['.', '.']
      · rw [hdots]
        rfl
      · exact absurd ⟨hempty, hdot, hdots⟩ h

theorem isName_pngToJson {seg : Text} (h : IsName seg) :
    IsName (pngToJson seg) := by
  rcases pngToJson_cases seg with heq | hlen
  · rwa [heq]
  · refine ⟨?_, ?_, ?_⟩ <;> (intro heq; rw [heq] at hlen; simp at hlen)

theorem place_pngToJson (cur : Loc) (path : List Text) :
    place (cur.map pngToJson) (path.map pngToJson) =
      (place cur path).map pngToJson := by
  induction path generalizing cur with
  | nil => rfl
  | cons seg rest ih =>
      have hstep : step (cur.map pngToJson) (pngToJson seg) =
          (step cur seg).map pngToJson := by
        by_cases hname : IsName seg
        · rw [step_of_isName hname, step_of_isName (isName_pngToJson hname),
            List.map_append, List.map_singleton]
        · rw [pngToJson_special hname]
          unfold step
          split
          · rfl
          · split
            · exact List.map_dropLast.symm
            · rename_i hdot hdots
              exact absurd ⟨fun h => hdot (Or.inl h), fun h => hdot (Or.inr h),
                hdots⟩ hname
      unfold place at ih ⊢
      rw [List.map_cons, List.foldl_cons, List.foldl_cons, hstep, ih]

/-- Where the probe is not installed under a name with `.png` in it, the
companion of a result is a result. -/
theorem below_of_companion {t : Tree} {pkg : Package} {full : List Text}
    {p : Loc} {more : List Loc} (hroot : pkg.root.map pngToJson = pkg.root)
    (hp : t.find .file full = some p) (hbelow : Below pkg.results p)
    (hmore : companion (t.prune p) full = some more) :
    ∀ q ∈ more, Below pkg.results q := by
  have hresults : pkg.results.map pngToJson = pkg.results := by
    unfold Package.results
    rw [List.map_append, hroot]
    rfl
  unfold companion at hmore
  simp only at hmore
  split at hmore
  · split at hmore
    · rename_i json hjson
      cases hmore
      have hplace : json = p.map pngToJson := by
        rw [place_of_find hjson, place_of_find hp, ← place_pngToJson]
        rfl
      intro q hq
      rw [List.mem_singleton.1 hq, hplace, ← hresults]
      refine ⟨hbelow.1.map pngToJson, fun heq => hbelow.2 ?_⟩
      have hlen := congrArg List.length heq
      rw [List.length_map, List.length_map] at hlen
      exact (hbelow.1.eq_of_length hlen.symm).symm
    · cases hmore
  · cases hmore
    exact fun q hq => nomatch hq

end Companions

end ResultPaths
end Probe
end Kelt
