import Kelt.Piece.Processes
import Mathlib.Data.Char
import Mathlib.Data.List.Lex
import Mathlib.Data.List.Sort
import Mathlib.Data.Prod.Lex

/-!
# What `prune` deletes

After a run the runner deletes old operations: all files of one name up to the
first dot are a group, the groups that are neither kept nor running are sorted
by their newest file, and the oldest go until both limits hold. `prune` does so
file by file; `Pruned` says what is left of the directory.

The directory does not change meanwhile.
-/

namespace Kelt
namespace Piece

universe u

section Prune

/-- A file of the records directory, with what `json.loads` makes of it. -/
structure OpsFile (τ : Type u) where
  name : Text
  mtime : τ
  size : Nat
  record : Option Rec

variable {τ : Type u}

/-- `p.name.startswith(".")` -/
def OpsFile.hidden (p : OpsFile τ) : Bool :=
  p.name.head? == some '.'

/-- `p.name.split(".")[0]` -/
def OpsFile.rid (p : OpsFile τ) : Text :=
  before '.' p.name

abbrev OpFiles (τ : Type u) := { files : List (OpsFile τ) // files ≠ [] }

/-- An operation id and its files. -/
abbrev OpGroup (τ : Type u) := Text × OpFiles τ

/-- `groups.setdefault(rid, []).append(p)` -/
def appendTo (p : OpsFile τ) (groups : List (OpGroup τ)) : List (OpGroup τ) :=
  match Dict.getItem p.rid groups with
  | some files =>
      Dict.setItem p.rid ⟨files.1 ++ [p], List.concat_ne_nil p files.1⟩ groups
  | none => Dict.setItem p.rid ⟨[p], List.cons_ne_nil p []⟩ groups

def groupFiles (dir : List (OpsFile τ)) : List (OpGroup τ) :=
  dir.foldl (fun groups p => if p.hidden then groups else appendTo p groups) []

/-- The record of an operation, where it can be read. -/
def readRecord (dir : List (OpsFile τ)) (rid : Text) : Option Rec :=
  (dir.find? (fun p => p.name == recordFile rid)).bind OpsFile.record

/-- Its record says that it runs, and it holds the lock of its piece. -/
def isLive (reg : Registry) (held : Text → Text → Bool)
    (dir : List (OpsFile τ)) (rid : Text) : Bool :=
  (readRecord dir rid).any
    (fun rec => looksAt reg rec && held (reg.lockKeyOf rec.piece) rid)

def totalSize (files : List (OpsFile τ)) : Int :=
  (files.map (fun p => (p.size : Int))).sum

/-- `f.unlink(missing_ok=True)`, with the total. -/
def unlink (s : List (OpsFile τ) × Int) (f : OpsFile τ) :
    List (OpsFile τ) × Int :=
  (s.1.filter (fun p => !(p.name == f.name)), s.2 - f.size)

variable [LinearOrder τ]

/-- `max(f.stat().st_mtime for f in files)` -/
def newest (g : OpGroup τ) : τ :=
  (g.2.1.map OpsFile.mtime).max (List.map_eq_nil_iff.not.2 g.2.2)

/-- The groups that may go, oldest first. -/
def finished (reg : Registry) (held : Text → Text → Bool) (keep : Option Text)
    (dir : List (OpsFile τ)) : List (OpGroup τ) :=
  ((groupFiles dir).filter
    (fun g => !(some g.1 == keep || isLive reg held dir g.1))).insertionSort
      (fun g g' => toLex (newest g, g.1) ≤ toLex (newest g', g'.1))

/-- The loop over them, with what is left of the directory and its size. -/
def pruneLoop (cutoff : τ) (limit : Int) (s : List (OpsFile τ) × Int) :
    List (OpGroup τ) → List (OpsFile τ)
  | [] => s.1
  | g :: rest =>
      if cutoff ≤ newest g ∧ s.2 ≤ limit then s.1
      else pruneLoop cutoff limit (g.2.1.foldl unlink s) rest

/-- `prune`, with the cutoff `time.time() - max_age_days * 86400`. -/
def prune (reg : Registry) (held : Text → Text → Bool) (cutoff : τ)
    (maxMb : Int) (keep : Option Text) (dir : List (OpsFile τ)) :
    List (OpsFile τ) :=
  pruneLoop cutoff (maxMb * 1024 * 1024)
    (dir, totalSize ((groupFiles dir).flatMap (fun g => g.2.1)))
    (finished reg held keep dir)

end Prune

section Operations

variable {τ : Type u}

/-- The files of an operation. -/
def filesOf (dir : List (OpsFile τ)) (rid : Text) : List (OpsFile τ) :=
  dir.filter (fun p => !p.hidden && p.rid == rid)

/-- The files of all operations. -/
def opsFiles (dir : List (OpsFile τ)) : List (OpsFile τ) :=
  dir.filter (fun p => !p.hidden)

/-- Without the operations of a list. -/
def without (gone : List Text) (dir : List (OpsFile τ)) : List (OpsFile τ) :=
  dir.filter (fun p => p.hidden || !gone.contains p.rid)

/-- The operation is there, and neither kept nor running. -/
structure Removable (reg : Registry) (held : Text → Text → Bool)
    (keep : Option Text) (dir : List (OpsFile τ)) (rid : Text) : Prop where
  there : filesOf dir rid ≠ []
  notKept : keep ≠ some rid
  notLive : isLive reg held dir rid = false

variable [LinearOrder τ]

/-- The time of the newest file of an operation. -/
def IsNewest (dir : List (OpsFile τ)) (rid : Text) (t : τ) : Prop :=
  IsGreatest { t | ∃ p ∈ filesOf dir rid, p.mtime = t } t

/-- What is left when the oldest operations have gone. `ops` are all that may
go, with the times of their newest files; the first `k` do. -/
structure Pruned (reg : Registry) (held : Text → Text → Bool) (cutoff : τ)
    (limit : Int) (keep : Option Text) (dir left : List (OpsFile τ))
    (ops : List (Text × τ)) (k : Nat) : Prop where
  nodup : (ops.map Prod.fst).Nodup
  mem : ∀ rid, rid ∈ ops.map Prod.fst ↔ Removable reg held keep dir rid
  newest : ∀ op ∈ ops, IsNewest dir op.1 op.2
  oldestFirst : ops.Pairwise (fun op op' => op.2 ≤ op'.2)
  left_eq : left = without ((ops.take k).map Prod.fst) dir
  goes_iff : ∀ before op after, ops = before ++ op :: after →
    (op ∈ ops.take k ↔ op.2 < cutoff ∨
      limit < totalSize (opsFiles
        (without ((before.filter (· ∈ ops.take k)).map Prod.fst) dir)))
  stops : ops.drop k = [] ∨
    (∀ op ∈ ops.drop k, cutoff ≤ op.2) ∧ totalSize (opsFiles left) ≤ limit

end Operations

section Groups

variable {τ : Type u}

/-- The files under a key. -/
def filesUnder (rid : Text) (groups : List (OpGroup τ)) : List (OpsFile τ) :=
  ((Dict.getItem rid groups).map Subtype.val).getD []

theorem filesUnder_appendTo (p : OpsFile τ) (groups : List (OpGroup τ))
    (rid : Text) :
    filesUnder rid (appendTo p groups) =
      filesUnder rid groups ++ if p.rid = rid then [p] else [] := by
  unfold filesUnder appendTo
  cases hp : Dict.getItem p.rid groups with
  | none =>
      simp only
      rw [Dict.getItem_setItem]
      by_cases hrid : p.rid = rid
      · rw [if_pos hrid, if_pos hrid, ← hrid, hp]
        rfl
      · rw [if_neg hrid, if_neg hrid, List.append_nil]
  | some files =>
      simp only
      rw [Dict.getItem_setItem]
      by_cases hrid : p.rid = rid
      · rw [if_pos hrid, if_pos hrid, ← hrid, hp]
        rfl
      · rw [if_neg hrid, if_neg hrid, List.append_nil]

theorem groupFiles_concat (dir : List (OpsFile τ)) (p : OpsFile τ) :
    groupFiles (dir ++ [p]) =
      if p.hidden then groupFiles dir else appendTo p (groupFiles dir) := by
  unfold groupFiles
  rw [List.foldl_append]
  rfl

/-- The groups have the files of the operations. -/
theorem filesUnder_groupFiles (dir : List (OpsFile τ)) (rid : Text) :
    filesUnder rid (groupFiles dir) = filesOf dir rid := by
  induction dir using List.reverseRecOn with
  | nil => rfl
  | append_singleton dir p ih =>
      rw [groupFiles_concat]
      unfold filesOf at ih ⊢
      rw [List.filter_append, ← ih]
      by_cases hp : p.hidden = true
      · simp [hp]
      · rw [if_neg hp, filesUnder_appendTo]
        by_cases hrid : p.rid = rid
        · simp [hp, hrid]
        · simp [hp, hrid]

theorem nodup_groupFiles (dir : List (OpsFile τ)) :
    ((groupFiles dir).map Prod.fst).Nodup := by
  induction dir using List.reverseRecOn with
  | nil => exact List.nodup_nil
  | append_singleton dir p ih =>
      rw [groupFiles_concat]
      split
      · exact ih
      · unfold appendTo
        split
        · exact Dict.nodup_setItem _ _ ih
        · exact Dict.nodup_setItem _ _ ih

theorem mem_groupFiles {dir : List (OpsFile τ)} {g : OpGroup τ}
    (hg : g ∈ groupFiles dir) : g.2.1 = filesOf dir g.1 := by
  have hitem := (Dict.getItem_eq_some_iff (nodup_groupFiles dir) g.1 g.2).2 hg
  rw [← filesUnder_groupFiles, filesUnder, hitem]
  rfl

/-- The operations of the groups are those that have files. -/
theorem mem_map_groupFiles_iff (dir : List (OpsFile τ)) (rid : Text) :
    rid ∈ (groupFiles dir).map Prod.fst ↔ filesOf dir rid ≠ [] := by
  rw [← filesUnder_groupFiles, filesUnder]
  cases hitem : Dict.getItem rid (groupFiles dir) with
  | none => simpa using (Dict.getItem_eq_none_iff _ _).1 hitem
  | some files =>
      refine iff_of_true ?_ files.2
      exact List.mem_map.2 ⟨_, Dict.mem_of_getItem hitem, rfl⟩

/-- What a sum over the values becomes when one is set. -/
theorem sum_setItem {κ ν : Type*} [DecidableEq κ] (f : ν → Int) (k : κ)
    (v : ν) (items : List (κ × ν)) :
    ((Dict.setItem k v items).map (fun kv => f kv.2)).sum =
      (items.map (fun kv => f kv.2)).sum -
        ((Dict.getItem k items).map f).getD 0 + f v := by
  induction items with
  | nil => simp [Dict.setItem, Dict.getItem]
  | cons kv rest ih =>
      obtain ⟨k', v'⟩ := kv
      by_cases hk : k' = k
      · simp [Dict.setItem, Dict.getItem, hk]
        omega
      · simp only [Dict.setItem, Dict.getItem, hk, if_false, List.map_cons,
          List.sum_cons, ih]
        omega

theorem totalSize_append (files files' : List (OpsFile τ)) :
    totalSize (files ++ files') = totalSize files + totalSize files' := by
  unfold totalSize
  rw [List.map_append, List.sum_append]

theorem totalSize_flatMap (groups : List (OpGroup τ)) :
    totalSize (groups.flatMap (fun g => g.2.1)) =
      (groups.map (fun g => totalSize g.2.1)).sum := by
  induction groups with
  | nil => rfl
  | cons g rest ih =>
      rw [List.flatMap_cons, totalSize_append, ih, List.map_cons,
        List.sum_cons]

/-- The groups have all files that count. -/
theorem totalSize_groupFiles (dir : List (OpsFile τ)) :
    totalSize ((groupFiles dir).flatMap (fun g => g.2.1)) =
      totalSize (opsFiles dir) := by
  rw [totalSize_flatMap]
  induction dir using List.reverseRecOn with
  | nil => rfl
  | append_singleton dir p ih =>
      rw [groupFiles_concat, opsFiles, List.filter_append, totalSize_append,
        ← opsFiles, ← ih]
      by_cases hp : p.hidden = true
      · simp [hp, totalSize]
      · have hone : totalSize ([p].filter (fun p => !p.hidden)) =
            totalSize [p] := by
          simp [hp]
        rw [if_neg hp, hone]
        unfold appendTo
        split
        · rename_i files hfiles
          refine (sum_setItem (fun files : OpFiles τ => totalSize files.1)
            _ _ _).trans ?_
          rw [hfiles, Option.map_some, Option.getD_some, totalSize_append]
          ring
        · rename_i hfiles
          refine (sum_setItem (fun files : OpFiles τ => totalSize files.1)
            _ _ _).trans ?_
          rw [hfiles, Option.map_none, Option.getD_none, sub_zero]

end Groups

section Deleting

variable {τ : Type u}

theorem foldl_unlink (files : List (OpsFile τ))
    (s : List (OpsFile τ) × Int) :
    files.foldl unlink s =
      (s.1.filter (fun p => !files.any (fun f => p.name == f.name)),
        s.2 - totalSize files) := by
  induction files generalizing s with
  | nil => simp [totalSize]
  | cons f rest ih =>
      rw [List.foldl_cons, ih]
      refine Prod.ext ?_ ?_
      · simp only [unlink, List.filter_filter, List.any_cons, Bool.not_or]
        exact List.filter_congr fun p _ => Bool.and_comm _ _
      · simp only [unlink, totalSize, List.map_cons, List.sum_cons]
        omega

theorem without_nil (dir : List (OpsFile τ)) : without [] dir = dir :=
  List.filter_eq_self.2 fun p _ => by simp

/-- A file has the name of one of the operation's files exactly when it is one
of them. -/
theorem any_filesOf {dir : List (OpsFile τ)} {p : OpsFile τ} (hp : p ∈ dir)
    (rid : Text) :
    (filesOf dir rid).any (fun f => p.name == f.name) =
      (!p.hidden && p.rid == rid) := by
  rw [Bool.eq_iff_iff, List.any_eq_true]
  constructor
  · rintro ⟨f, hf, hname⟩
    obtain ⟨-, hf⟩ := List.mem_filter.1 hf
    have hname : p.name = f.name := by simpa using hname
    rwa [OpsFile.hidden, OpsFile.rid, hname]
  · intro h
    exact ⟨p, List.mem_filter.2 ⟨hp, h⟩, beq_self_eq_true _⟩

theorem filter_without (dir : List (OpsFile τ)) (gone : List Text)
    (rid : Text) :
    (without gone dir).filter
        (fun p => !(filesOf dir rid).any (fun f => p.name == f.name)) =
      without (gone ++ [rid]) dir := by
  unfold without
  rw [List.filter_filter]
  refine List.filter_congr fun p hp => ?_
  rw [any_filesOf hp, List.contains_append]
  by_cases hhidden : p.hidden = true
  · simp [hhidden]
  · by_cases hrid : p.rid = rid
    · simp [hhidden, hrid]
    · simp [hhidden, hrid]

/-- The size that goes with an operation. -/
theorem totalSize_without (dir : List (OpsFile τ)) {gone : List Text}
    {rid : Text} (hrid : rid ∉ gone) :
    totalSize (opsFiles (without (gone ++ [rid]) dir)) =
      totalSize (opsFiles (without gone dir)) -
        totalSize (filesOf dir rid) := by
  have hfiles : filesOf dir rid =
      (opsFiles (without gone dir)).filter (fun p => p.rid == rid) := by
    simp only [opsFiles, without, filesOf, List.filter_filter]
    refine List.filter_congr fun p _ => ?_
    by_cases hp : p.rid = rid
    · simp [hp, hrid]
    · rw [beq_eq_false_iff_ne.2 hp, Bool.and_false, Bool.false_and]
  have hrest : opsFiles (without (gone ++ [rid]) dir) =
      (opsFiles (without gone dir)).filter (fun p => !(p.rid == rid)) := by
    simp only [opsFiles, without, List.filter_filter]
    refine List.filter_congr fun p _ => ?_
    by_cases hp : p.rid = rid
    · simp [hp]
    · simp [hp]
  rw [hfiles, hrest]
  generalize opsFiles (without gone dir) = files
  induction files with
  | nil => rfl
  | cons p rest ih =>
      by_cases hp : p.rid = rid
      · simp only [totalSize, List.filter_cons] at ih ⊢
        simp [hp]
        omega
      · simp only [totalSize, List.filter_cons] at ih ⊢
        simp [hp]
        omega

variable [LinearOrder τ]

/-- The loop deletes a beginning of its list: as long as a limit does not hold,
and all the same where nothing is left. -/
theorem pruneLoop_eq (cutoff : τ) (limit : Int) (dir : List (OpsFile τ))
    {groups : List (OpGroup τ)} {gone : List Text}
    (hfiles : ∀ g ∈ groups, g.2.1 = filesOf dir g.1)
    (hnodup : (gone ++ groups.map Prod.fst).Nodup) :
    ∃ k,
      pruneLoop cutoff limit
          (without gone dir, totalSize (opsFiles (without gone dir))) groups =
        without (gone ++ (groups.take k).map Prod.fst) dir ∧
      (∀ before g after, groups = before ++ g :: after →
        before.length < k → newest g < cutoff ∨
          limit < totalSize (opsFiles
            (without (gone ++ before.map Prod.fst) dir))) ∧
      ∀ g rest, groups.drop k = g :: rest → cutoff ≤ newest g ∧
        totalSize (opsFiles
          (without (gone ++ (groups.take k).map Prod.fst) dir)) ≤ limit := by
  induction groups generalizing gone with
  | nil =>
      refine ⟨0, ?_, ?_, ?_⟩
      · rw [List.take_nil, List.map_nil, List.append_nil]
        rfl
      · intro before g after h
        simp at h
      · intro g rest h
        simp at h
  | cons g rest ih =>
      rw [pruneLoop]
      by_cases hstop : cutoff ≤ newest g ∧
          totalSize (opsFiles (without gone dir)) ≤ limit
      · refine ⟨0, ?_, ?_, ?_⟩
        · rw [if_pos hstop, List.take_zero, List.map_nil, List.append_nil]
        · intro before g' after _ h
          exact absurd h (Nat.not_lt_zero _)
        · intro g' rest' h
          obtain ⟨rfl, -⟩ := List.cons.inj h
          rwa [List.take_zero, List.map_nil, List.append_nil]
      · have hg := hfiles g List.mem_cons_self
        rw [List.map_cons, List.append_cons] at hnodup
        have hgone : g.1 ∉ gone := by
          intro hmem
          have hone := (List.nodup_append.1 hnodup).1
          exact (List.nodup_append.1 hone).2.2 _ hmem _
            (List.mem_singleton_self _) rfl
        have hstep : g.2.1.foldl unlink
            (without gone dir, totalSize (opsFiles (without gone dir))) =
              (without (gone ++ [g.1]) dir,
                totalSize (opsFiles (without (gone ++ [g.1]) dir))) := by
          rw [foldl_unlink, hg, filter_without, totalSize_without dir hgone]
        obtain ⟨k, hleft, hgoes, hstops⟩ :=
          ih (fun g' hg' => hfiles g' (List.mem_cons_of_mem _ hg')) hnodup
        have htake : ∀ l : List (OpGroup τ),
            gone ++ (g :: l).map Prod.fst =
              (gone ++ [g.1]) ++ l.map Prod.fst := by
          intro l
          rw [List.map_cons, List.append_cons]
        refine ⟨k + 1, ?_, ?_, ?_⟩
        · rw [if_neg hstop, hstep, hleft, List.take_succ_cons, htake]
        · intro before g' after h hlt
          cases before with
          | nil =>
              obtain ⟨rfl, -⟩ := List.cons.inj h
              rw [List.map_nil, List.append_nil]
              rw [not_and_or, not_le, not_le] at hstop
              exact hstop
          | cons g₀ before =>
              obtain ⟨rfl, hrest⟩ := List.cons.inj h
              rw [htake]
              exact hgoes before g' after hrest (Nat.lt_of_succ_lt_succ hlt)
        · intro g' rest' h
          rw [List.take_succ_cons, htake]
          exact hstops g' rest' h

end Deleting

section Beginnings

variable {α : Type u}

/-- Which of distinct elements are among the first `k`. -/
theorem mem_take_iff {before after : List α} {a : α}
    (h : (before ++ a :: after).Nodup) (k : Nat) :
    a ∈ (before ++ a :: after).take k ↔ before.length < k := by
  rw [List.take_append, List.mem_append]
  constructor
  · rintro (hmem | hmem)
    · have hne := (List.nodup_append.1 h).2.2 a (List.mem_of_mem_take hmem) a
      exact absurd rfl (hne List.mem_cons_self)
    · by_contra hle
      rw [Nat.sub_eq_zero_of_le (not_lt.1 hle), List.take_zero] at hmem
      exact List.not_mem_nil hmem
  · intro hlt
    obtain ⟨n, hn⟩ := Nat.exists_eq_succ_of_ne_zero
      (Nat.sub_ne_zero_of_lt hlt)
    rw [hn, List.take_succ_cons]
    exact Or.inr List.mem_cons_self

theorem filter_mem_take {before after : List α} (h : (before ++ after).Nodup)
    (k : Nat) [∀ a, Decidable (a ∈ (before ++ after).take k)] :
    before.filter (fun a => decide (a ∈ (before ++ after).take k)) =
      before.take k := by
  have hin : ∀ a ∈ before.take k, a ∈ (before ++ after).take k := by
    intro a ha
    rw [List.take_append]
    exact List.mem_append_left _ ha
  have hout : ∀ a ∈ before.drop k, a ∉ (before ++ after).take k := by
    intro a ha hmem
    rw [List.take_append, List.mem_append] at hmem
    obtain ⟨hbefore, -, hdisjoint⟩ := List.nodup_append.1 h
    rw [← List.take_append_drop k before] at hbefore
    rcases hmem with hmem | hmem
    · exact (List.nodup_append.1 hbefore).2.2 a hmem a ha rfl
    · exact hdisjoint a (List.mem_of_mem_drop ha) a (List.mem_of_mem_take hmem)
        rfl
  have hsplit : ∀ p : α → Bool, before.filter p =
      (before.take k).filter p ++ (before.drop k).filter p := by
    intro p
    rw [← List.filter_append, List.take_append_drop]
  rw [hsplit, List.filter_eq_self.2 fun a ha => decide_eq_true (hin a ha),
    List.filter_eq_nil_iff.2 fun a ha hmem => hout a ha (of_decide_eq_true hmem),
    List.append_nil]

end Beginnings

section Result

variable {τ : Type u} [LinearOrder τ]
variable (reg : Registry) (held : Text → Text → Bool) (keep : Option Text)
  (dir : List (OpsFile τ))

theorem mem_finished_iff (g : OpGroup τ) :
    g ∈ finished reg held keep dir ↔ g ∈ groupFiles dir ∧
      keep ≠ some g.1 ∧ isLive reg held dir g.1 = false := by
  unfold finished
  rw [(List.perm_insertionSort _ _).mem_iff, List.mem_filter, Bool.not_eq_true',
    Bool.or_eq_false_iff, beq_eq_false_iff_ne]
  exact and_congr_right fun _ => and_congr_left fun _ => ne_comm

theorem nodup_finished :
    ((finished reg held keep dir).map Prod.fst).Nodup := by
  unfold finished
  rw [((List.perm_insertionSort _ _).map Prod.fst).nodup_iff]
  exact (List.filter_sublist.map Prod.fst).nodup (nodup_groupFiles dir)

/-- The groups come oldest first. -/
theorem pairwise_finished :
    (finished reg held keep dir).Pairwise
      (fun g g' => newest g ≤ newest g') := by
  have hsorted : (finished reg held keep dir).Pairwise
      (fun g g' => toLex (newest g, g.1) ≤ toLex (newest g', g'.1)) :=
    List.pairwise_insertionSort _ _
  refine hsorted.imp fun {g g'} h => ?_
  rcases Prod.Lex.le_iff.1 h with hlt | ⟨heq, -⟩
  · exact le_of_lt hlt
  · exact le_of_eq heq

theorem isNewest_newest {g : OpGroup τ} (hg : g ∈ groupFiles dir) :
    IsNewest dir g.1 (newest g) := by
  unfold IsNewest
  rw [← mem_groupFiles hg]
  refine ⟨List.mem_map.1 (List.max_mem _), ?_⟩
  rintro t ⟨p, hp, rfl⟩
  exact List.le_max_of_mem (List.mem_map_of_mem hp)

theorem mem_map_finished_iff (rid : Text) :
    rid ∈ (finished reg held keep dir).map Prod.fst ↔
      Removable reg held keep dir rid := by
  rw [List.mem_map]
  constructor
  · rintro ⟨g, hg, rfl⟩
    obtain ⟨hgroup, hkeep, hlive⟩ := (mem_finished_iff reg held keep dir g).1 hg
    exact ⟨mem_groupFiles hgroup ▸ g.2.2, hkeep, hlive⟩
  · rintro ⟨hthere, hkeep, hlive⟩
    obtain ⟨g, hg, rfl⟩ :=
      List.mem_map.1 ((mem_map_groupFiles_iff dir rid).2 hthere)
    exact ⟨g, (mem_finished_iff reg held keep dir g).2 ⟨hg, hkeep, hlive⟩, rfl⟩

/-- `prune` deletes whole operations, the oldest of those that may go, until
both limits hold. -/
theorem exists_pruned_prune (cutoff : τ) (maxMb : Int) :
    ∃ ops k, Pruned reg held cutoff (maxMb * 1024 * 1024) keep dir
      (prune reg held cutoff maxMb keep dir) ops k := by
  set limit := maxMb * 1024 * 1024 with hlimit
  set groups := finished reg held keep dir with hgroups
  set op : OpGroup τ → Text × τ := fun g => (g.1, newest g) with hop
  have hfst : ∀ l : List (OpGroup τ),
      (l.map op).map Prod.fst = l.map Prod.fst := by
    intro l
    rw [List.map_map]
    rfl
  have hnodup := nodup_finished reg held keep dir
  obtain ⟨k, hleft, hgoes, hstops⟩ := pruneLoop_eq cutoff limit dir
    (fun g hg => mem_groupFiles ((mem_finished_iff reg held keep dir g).1 hg).1)
    (show ([] ++ groups.map Prod.fst).Nodup from hnodup)
  rw [without_nil, ← totalSize_groupFiles] at hleft
  have hprune : prune reg held cutoff maxMb keep dir =
      without ((groups.take k).map Prod.fst) dir := hleft
  have hnodupOps : (groups.map op).Nodup := by
    refine List.Nodup.of_map Prod.fst ?_
    rwa [hfst]
  -- where the loop stops, all that is left is as young as the first of it
  have hrests : ∀ g ∈ groups.drop k, cutoff ≤ newest g ∧
      totalSize (opsFiles
        (without ((groups.take k).map Prod.fst) dir)) ≤ limit := by
    intro g hg
    have hsorted := (pairwise_finished reg held keep dir).drop (i := k)
    cases hdrop : groups.drop k with
    | nil =>
        rw [hdrop] at hg
        cases hg
    | cons first rest =>
        obtain ⟨hcut, hsize⟩ := hstops first rest hdrop
        rw [← hgroups, hdrop] at hsorted
        rw [hdrop] at hg
        rcases List.mem_cons.1 hg with rfl | hg
        · exact ⟨hcut, hsize⟩
        · exact ⟨hcut.trans ((List.pairwise_cons.1 hsorted).1 g hg), hsize⟩
  refine ⟨groups.map op, k, ?_, fun rid => ?_, ?_, ?_, ?_, ?_, ?_⟩
  · rwa [hfst]
  · rw [hfst]
    exact mem_map_finished_iff reg held keep dir rid
  · intro o ho
    obtain ⟨g, hg, rfl⟩ := List.mem_map.1 ho
    exact isNewest_newest dir ((mem_finished_iff reg held keep dir g).1 hg).1
  · exact List.pairwise_map.2 (pairwise_finished reg held keep dir)
  · rw [← List.map_take, hfst, hprune]
  · intro before o after hsplit
    obtain ⟨first, rest, hgroups', rfl, hrest⟩ := List.map_eq_append_iff.1 hsplit
    obtain ⟨g, later, rfl, rfl, rfl⟩ := List.map_eq_cons_iff.1 hrest
    rw [hsplit] at hnodupOps
    rw [hsplit, mem_take_iff hnodupOps, filter_mem_take hnodupOps,
      List.length_map, ← List.map_take, hfst]
    by_cases hlt : first.length < k
    · rw [List.take_of_length_le (Nat.le_of_lt hlt)]
      exact iff_of_true hlt (hgoes first g later hgroups' hlt)
    · obtain ⟨hcut, hsize⟩ := hrests g (by
        rw [hgroups', List.drop_append_of_le_length (not_lt.1 hlt)]
        exact List.mem_append_right _ List.mem_cons_self)
      rw [hgroups', List.take_append_of_le_length (not_lt.1 hlt)] at hsize
      refine iff_of_false hlt ?_
      rw [not_or, not_lt, not_lt]
      exact ⟨hcut, hsize⟩
  · rw [← List.map_drop, hprune]
    cases hdrop : groups.drop k with
    | nil => exact Or.inl rfl
    | cons g rest =>
        obtain ⟨-, hsize⟩ := hrests g (hdrop ▸ List.mem_cons_self)
        refine Or.inr ⟨fun o ho => ?_, hsize⟩
        obtain ⟨g', hg', rfl⟩ := List.mem_map.1 ho
        exact (hrests g' (hdrop ▸ hg')).1

end Result

end Piece
end Kelt
