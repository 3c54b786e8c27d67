import Kelt.Lib.Dict
import Kelt.Lib.PyText

/-!
# A tree of files and directories

A place is the list of the names that lead to it from the root, and a tree says
for each place what stands there. A path is a text split at its slashes; its
segments are walked one after the other, where the empty one and `.` stay and
`..` goes up. Without links the place that a path leads to is settled by its
segments alone (`place_of_walk`), also when its directories are made on the way
(`place_of_makedirs`); the tree only decides whether the path leads anywhere.
-/

namespace Kelt
namespace FileTree

abbrev Loc := List Text

inductive Kind where
  | file
  | dir
  deriving DecidableEq

def kindIn (entries : List (Loc × Kind)) (p : Loc) : Option Kind :=
  if p = [] then some .dir else Dict.getItem p entries

/-- What stands where. All but the root stand in a directory. -/
structure Tree where
  entries : List (Loc × Kind)
  closed : ∀ e ∈ entries, e.1 ≠ [] → kindIn entries e.1.dropLast = some .dir

def Tree.kind (t : Tree) (p : Loc) : Option Kind :=
  kindIn t.entries p

/-- A strict descendant. -/
def Below (root p : Loc) : Prop :=
  root <+: p ∧ p ≠ root

instance (root p : Loc) : Decidable (Below root p) :=
  inferInstanceAs (Decidable (_ ∧ _))

section Paths

/-- The path of a place is its names behind a slash. -/
def pathOf (p : Loc) : List Text :=
  [] :: p

def IsName (seg : Text) : Prop :=
  seg ≠ [] ∧ seg ≠ ['.'] ∧ seg ≠ ['.', '.']

instance (seg : Text) : Decidable (IsName seg) :=
  inferInstanceAs (Decidable (_ ∧ _))

def step (cur : Loc) (seg : Text) : Loc :=
  if seg = [] ∨ seg = ['.'] then cur
  else if seg = ['.', '.'] then cur.dropLast
  else cur ++ [seg]

/-- Where the segments lead when all their directories are there. -/
def place (cur : Loc) (path : List Text) : Loc :=
  path.foldl step cur

def byteSize (seg : Text) : Nat :=
  (seg.map Char.utf8Size).sum

/-- The kernel takes the path: it has no NUL and is not too long. -/
def pathOk (path : List Text) : Bool :=
  path.all (fun seg => !seg.contains (Char.ofNat 0)) &&
    decide ((path.map byteSize).sum + path.length ≤ 4096)

def nameOk (seg : Text) : Bool :=
  decide (byteSize seg ≤ 255)

/-- The last segment, slashes at the end aside, is a name. -/
def endsInName (path : List Text) : Bool :=
  match (path.reverse.dropWhile fun seg => decide (seg = [])).head? with
  | some seg => decide (IsName seg)
  | none => false

/-- `os.path.join` -/
def join (base : List Text) (t : Text) : List Text :=
  if t.head? = some '/' then t.splitOn '/'
  else if base.getLast? = some [] then base.dropLast ++ t.splitOn '/'
  else base ++ t.splitOn '/'

/-- `os.path.dirname` -/
def dirname (path : List Text) : List Text :=
  let head := path.dropLast
  if ∀ seg ∈ head, seg = [] then [] :: head
  else head.rdropWhile fun seg => decide (seg = [])

end Paths

section Calls

def Tree.walk (t : Tree) (cur : Loc) : List Text → Option Loc
  | [] => some cur
  | seg :: rest =>
      if t.kind cur = some .dir then t.walk (step cur seg) rest else none

/-- Where an absolute path leads. Nothing need stand there. -/
def Tree.lookup (t : Tree) (path : List Text) : Option Loc :=
  if pathOk path then t.walk [] path else none

/-- `os.path.isdir`, `os.path.isfile`, with the place. -/
def Tree.find (t : Tree) (kind : Kind) (path : List Text) : Option Loc :=
  match t.lookup path with
  | some p => if t.kind p = some kind then some p else none
  | none => none

/-- `os.path.exists` -/
def Tree.present (t : Tree) (path : List Text) : Bool :=
  match t.lookup path with
  | some p => (t.kind p).isSome
  | none => false

/-- No place of a directory is taken. -/
def Tree.isEmpty (t : Tree) (p : Loc) : Bool :=
  t.entries.all fun e => decide (e.1 = []) || !decide (e.1.dropLast = p)

def Tree.below (t : Tree) (p : Loc) : List Loc :=
  (t.entries.map Prod.fst).filter fun q => decide (Below p q)

/-- `os.rmdir`: the place that is removed, none when it raises. -/
def Tree.rmdir (t : Tree) (path : List Text) : Option Loc :=
  if endsInName path then
    match t.find .dir path with
    | some p => if t.isEmpty p then some p else none
    | none => none
  else none

end Calls

section Changes

theorem getItem_filter_fst {κ ν : Type*} [DecidableEq κ] (keep : κ → Bool)
    (k : κ) (items : List (κ × ν)) :
    Dict.getItem k (items.filter fun e => keep e.1) =
      if keep k = true then Dict.getItem k items else none := by
  induction items with
  | nil => simp [Dict.getItem]
  | cons e rest ih =>
      obtain ⟨k', v⟩ := e
      by_cases hk : k' = k
      · subst hk
        by_cases hkeep : keep k' = true
        · simp [hkeep, Dict.getItem]
        · simpa [hkeep] using ih
      · by_cases hkeep : keep k' = true
        · simpa [hkeep, Dict.getItem, hk] using ih
        · simpa [hkeep, Dict.getItem, hk] using ih

theorem kindIn_filter (gone : Loc → Bool) (entries : List (Loc × Kind))
    {p : Loc} (hp : gone p = false) :
    kindIn (entries.filter fun e => !gone e.1) p = kindIn entries p := by
  unfold kindIn
  split
  · rfl
  · rw [getItem_filter_fst (fun q => !gone q)]
    simp [hp]

/-- Take away places with all that stands below them. -/
def Tree.remove (t : Tree) (gone : Loc → Bool)
    (hgone : ∀ p, gone p.dropLast = true → gone p = true) : Tree where
  entries := t.entries.filter fun e => !gone e.1
  closed := by
    intro e he hne
    obtain ⟨he, hkeep⟩ := List.mem_filter.1 he
    rw [kindIn_filter]
    · exact t.closed e he hne
    · cases hparent : gone e.1.dropLast with
      | false => rfl
      | true => simp [hgone e.1 hparent] at hkeep

theorem isPrefix_of_dropLast {p q : Loc} (h : p <+: q.dropLast) : p <+: q :=
  h.trans (List.dropLast_prefix q)

/-- Without a place and what stands below it. -/
def Tree.prune (t : Tree) (p : Loc) : Tree :=
  t.remove (fun q => decide (p <+: q)) (by
    intro q h
    simp only [decide_eq_true_eq] at h ⊢
    exact isPrefix_of_dropLast h)

/-- Without what stands below a place. -/
def Tree.clear (t : Tree) (p : Loc) : Tree :=
  t.remove (fun q => decide (Below p q)) (by
    intro q h
    simp only [decide_eq_true_eq] at h ⊢
    refine ⟨isPrefix_of_dropLast h.1, ?_⟩
    rintro rfl
    have hlen := h.1.length_le
    rw [List.length_dropLast] at hlen
    have hnil : q = [] := List.length_eq_zero_iff.1 (by omega)
    exact h.2 (by rw [hnil]; rfl))

/-- `os.mkdir`, none when it raises. -/
def Tree.mkdir (t : Tree) (p : Loc) : Option Tree :=
  if h : p ≠ [] ∧ t.kind p.dropLast = some .dir ∧ t.kind p = none then
    some {
      entries := (p, .dir) :: t.entries
      closed := by
        have hkeep : ∀ q, kindIn t.entries q = some .dir →
            kindIn ((p, .dir) :: t.entries) q = some .dir := by
          intro q hq
          unfold kindIn at hq ⊢
          split
          · rfl
          · rename_i hne
            rw [if_neg hne] at hq
            rw [Dict.getItem]
            split
            · rfl
            · exact hq
        intro e he hne
        rcases List.mem_cons.1 he with rfl | he
        · exact hkeep _ h.2.1
        · exact hkeep _ (t.closed e he hne) }
  else none

/-- `os.makedirs(path, exist_ok=True)`, none when it raises. -/
def Tree.makedirs (t : Tree) (cur : Loc) : List Text → Option (Tree × Loc)
  | [] => if t.kind cur = some .dir then some (t, cur) else none
  | seg :: rest =>
      if t.kind cur = some .dir then
        match t.kind (step cur seg) with
        | some _ => t.makedirs (step cur seg) rest
        | none =>
            if nameOk seg then
              match t.mkdir (step cur seg) with
              | some t' => t'.makedirs (step cur seg) rest
              | none => none
            else none
      else none

end Changes

section Kinds

variable {t : Tree}

@[simp] theorem kind_nil (t : Tree) : t.kind [] = some .dir := by
  unfold Tree.kind kindIn
  rw [if_pos rfl]

theorem kind_dropLast {p : Loc} {k : Kind} (h : t.kind p = some k) :
    p = [] ∨ t.kind p.dropLast = some .dir := by
  by_cases hne : p = []
  · exact Or.inl hne
  · unfold Tree.kind kindIn at h
    rw [if_neg hne] at h
    exact Or.inr (t.closed (p, k) (Dict.mem_of_getItem h) hne)

theorem Below.ne_nil {p q : Loc} (h : Below p q) : q ≠ [] := by
  rintro rfl
  exact h.2 (List.prefix_nil.1 h.1).symm

theorem Below.dropLast {p q : Loc} (h : Below p q) :
    p = q.dropLast ∨ Below p q.dropLast := by
  have hpre : p <+: q.dropLast := by
    obtain ⟨init, last, rfl⟩ := List.eq_nil_or_concat' q |>.resolve_left h.ne_nil
    rcases List.prefix_concat_iff.1 h.1 with heq | hpre
    · exact absurd heq.symm h.2
    · rwa [List.dropLast_concat]
  by_cases heq : p = q.dropLast
  · exact Or.inl heq
  · exact Or.inr ⟨hpre, fun h' => heq h'.symm⟩

theorem Below.mono {root p q : Loc} (h : root <+: p) (h' : Below p q) :
    Below root q := by
  refine ⟨h.trans h'.1, ?_⟩
  rintro rfl
  exact h'.2 (h.eq_of_length (le_antisymm h.length_le h'.1.length_le))

theorem below_or_eq {root p : Loc} :
    root <+: p ↔ Below root p ∨ p = root := by
  constructor
  · intro h
    by_cases heq : p = root
    · exact Or.inr heq
    · exact Or.inl ⟨h, heq⟩
  · rintro (h | rfl)
    · exact h.1
    · exact List.prefix_refl p

theorem below_concat_iff {root dir : Loc} {name : Text} :
    Below root (dir ++ [name]) ↔ root <+: dir := by
  constructor
  · rintro ⟨hpre, hne⟩
    rcases List.prefix_concat_iff.1 hpre with heq | hdir
    · exact absurd heq.symm hne
    · exact hdir
  · intro hdir
    refine ⟨hdir.trans (List.prefix_append dir [name]), ?_⟩
    rintro rfl
    have hlen := hdir.length_le
    simp at hlen

theorem below_concat (p : Loc) (name : Text) : Below p (p ++ [name]) :=
  ⟨List.prefix_append p [name], by simp⟩

/-- What stands below a place stands in a directory there. -/
theorem kind_of_below {p q : Loc} {k : Kind} (hq : t.kind q = some k)
    (h : Below p q) : t.kind p = some .dir := by
  induction hlen : q.length using Nat.strong_induction_on generalizing q k with
  | _ n ih =>
      have hparent : t.kind q.dropLast = some .dir :=
        (kind_dropLast hq).resolve_left h.ne_nil
      rcases h.dropLast with rfl | hbelow
      · exact hparent
      · have hlt : q.dropLast.length < n := by
          have := List.length_pos_iff.2 h.ne_nil
          rw [List.length_dropLast]
          omega
        exact ih _ hlt hparent hbelow rfl

theorem kind_remove (t : Tree) {gone : Loc → Bool}
    (hgone : ∀ p, gone p.dropLast = true → gone p = true) {p : Loc}
    (hp : gone p = false) : (t.remove gone hgone).kind p = t.kind p :=
  kindIn_filter gone t.entries hp

/-- Without a file the directories are the same. -/
theorem kind_prune {p q : Loc} (hp : t.kind p = some .file)
    (hq : t.kind q = some .dir) : (t.prune p).kind q = some .dir := by
  rw [← hq]
  refine kind_remove t _ ?_
  rw [decide_eq_false_iff_not]
  intro hpre
  by_cases heq : q = p
  · rw [heq, hp] at hq
    cases hq
  · have hdir := kind_of_below hq ⟨hpre, heq⟩
    rw [hp] at hdir
    cases hdir

theorem below_of_mem {p q : Loc} (h : q ∈ t.below p) : Below p q :=
  of_decide_eq_true (List.mem_filter.1 h).2

theorem isEmpty_iff {p : Loc} :
    t.isEmpty p = true ↔ ∀ e ∈ t.entries, e.1 ≠ [] → e.1.dropLast ≠ p := by
  simp only [Tree.isEmpty, List.all_eq_true, Bool.or_eq_true,
    decide_eq_true_eq, Bool.not_eq_true', decide_eq_false_iff_not, or_iff_not_imp_left]

/-- An empty directory has nothing below it. -/
theorem below_of_isEmpty {p : Loc} (h : t.isEmpty p = true) :
    t.below p = [] := by
  have hnone : ∀ n, ∀ e ∈ t.entries, e.1.length = n → ¬ Below p e.1 := by
    intro n
    induction n using Nat.strong_induction_on with
    | _ n ih =>
        intro e he hlen hbelow
        rcases hbelow.dropLast with heq | hparent
        · exact isEmpty_iff.1 h e he hbelow.ne_nil heq.symm
        · -- the parent stands below `p` as well
          have hdir := t.closed e he hbelow.ne_nil
          unfold kindIn at hdir
          rw [if_neg hparent.ne_nil] at hdir
          refine ih e.1.dropLast.length ?_ _ (Dict.mem_of_getItem hdir) rfl
            hparent
          have := List.length_pos_iff.2 hbelow.ne_nil
          rw [List.length_dropLast]
          omega
  refine List.eq_nil_iff_forall_not_mem.2 fun q hq => ?_
  obtain ⟨hmem, hbelow⟩ := List.mem_filter.1 hq
  obtain ⟨e, he, rfl⟩ := List.mem_map.1 hmem
  exact hnone _ e he rfl (of_decide_eq_true hbelow)

theorem exists_child {p : Loc} (h : ¬ t.isEmpty p = true) :
    ∃ name, p ++ [name] ∈ t.below p := by
  rw [isEmpty_iff] at h
  push Not at h
  obtain ⟨e, he, hne, hparent⟩ := h
  obtain ⟨init, name, hconcat⟩ := List.eq_nil_or_concat' e.1 |>.resolve_left hne
  rw [hconcat, List.dropLast_concat] at hparent
  rw [hparent] at hconcat
  refine ⟨name, List.mem_filter.2 ⟨?_, decide_eq_true (below_concat p name)⟩⟩
  exact List.mem_map.2 ⟨e, he, hconcat⟩

/-- All that stands below a place stands below the root exactly when the place
does not lead out of it, or there is nothing. -/
theorem below_root_iff {root p : Loc} :
    (∀ q ∈ t.below p, Below root q) ↔ root <+: p ∨ t.isEmpty p = true := by
  constructor
  · intro h
    by_cases hempty : t.isEmpty p = true
    · exact Or.inr hempty
    · obtain ⟨name, hname⟩ := exists_child hempty
      exact Or.inl (below_concat_iff.1 (h _ hname))
  · rintro (hpre | hempty) q hq
    · exact Below.mono hpre (below_of_mem hq)
    · rw [below_of_isEmpty hempty] at hq
      cases hq

end Kinds

section Walks

variable {t : Tree}

theorem step_of_isName {seg : Text} (h : IsName seg) (cur : Loc) :
    step cur seg = cur ++ [seg] := by
  unfold step
  rw [if_neg (not_or.2 ⟨h.1, h.2.1⟩), if_neg h.2.2]

theorem kind_step {cur : Loc} {seg : Text} (hcur : t.kind cur = some .dir)
    (h : ¬ IsName seg) : t.kind (step cur seg) = some .dir := by
  unfold step
  split
  · exact hcur
  · split
    · rcases kind_dropLast hcur with rfl | hparent
      · exact kind_nil t
      · exact hparent
    · rename_i hdot hdots
      exact absurd ⟨fun h => hdot (Or.inl h), fun h => hdot (Or.inr h), hdots⟩ h

theorem place_of_walk {cur p : Loc} {path : List Text}
    (h : t.walk cur path = some p) : p = place cur path := by
  induction path generalizing cur with
  | nil => exact (Option.some.inj h).symm
  | cons seg rest ih =>
      unfold Tree.walk at h
      split at h
      · exact ih h
      · cases h

theorem walk_append (t : Tree) (cur : Loc) (a b : List Text) :
    t.walk cur (a ++ b) = (t.walk cur a).bind fun p => t.walk p b := by
  induction a generalizing cur with
  | nil => rfl
  | cons seg rest ih =>
      rw [List.cons_append, Tree.walk, Tree.walk]
      split
      · exact ih _
      · rfl

/-- A walk needs the directories only. -/
theorem walk_mono {t' : Tree}
    (hdirs : ∀ p, t.kind p = some .dir → t'.kind p = some .dir)
    {cur p : Loc} {path : List Text} (h : t.walk cur path = some p) :
    t'.walk cur path = some p := by
  induction path generalizing cur with
  | nil => exact h
  | cons seg rest ih =>
      unfold Tree.walk at h ⊢
      split at h
      · rename_i hcur
        rw [if_pos (hdirs cur hcur)]
        exact ih h
      · cases h

theorem place_of_makedirs {t' : Tree} {cur p : Loc} {path : List Text}
    (h : t.makedirs cur path = some (t', p)) : p = place cur path := by
  induction path generalizing t cur with
  | nil =>
      unfold Tree.makedirs at h
      split at h
      · cases h
        rfl
      · cases h
  | cons seg rest ih =>
      unfold Tree.makedirs at h
      split at h
      · split at h
        · exact ih h
        · split at h
          · split at h
            · exact ih h
            · cases h
          · cases h
      · cases h

theorem walk_of_lookup {path : List Text} {p : Loc}
    (h : t.lookup path = some p) : pathOk path = true ∧ t.walk [] path = some p := by
  unfold Tree.lookup at h
  split at h
  · exact ⟨‹_›, h⟩
  · cases h

/-- The path of a file ends in its name. -/
theorem concat_of_file {path : List Text} {p : Loc}
    (hwalk : t.walk [] path = some p) (hfile : t.kind p = some .file) :
    ∃ dir head name, path = head ++ [name] ∧ p = dir ++ [name] ∧ IsName name ∧
      t.walk [] head = some dir ∧ t.kind dir = some .dir := by
  obtain rfl | ⟨head, name, rfl⟩ := List.eq_nil_or_concat' path
  · cases hwalk
    rw [kind_nil] at hfile
    cases hfile
  · rw [walk_append] at hwalk
    obtain ⟨dir, hhead, hlast⟩ := Option.bind_eq_some_iff.1 hwalk
    unfold Tree.walk at hlast
    split at hlast
    · rename_i hdir
      have hp : step dir name = p := Option.some.inj hlast
      by_cases hname : IsName name
      · rw [step_of_isName hname] at hp
        exact ⟨dir, head, name, rfl, hp.symm, hname, hhead, hdir⟩
      · have hdir' := kind_step hdir hname
        rw [hp, hfile] at hdir'
        cases hdir'
    · cases hlast

theorem find_eq_some_iff {k : Kind} {path : List Text} {p : Loc} :
    t.find k path = some p ↔ t.lookup path = some p ∧ t.kind p = some k := by
  unfold Tree.find
  cases t.lookup path with
  | none => simp
  | some q =>
      simp only [Option.some.injEq]
      constructor
      · intro h
        split at h
        · cases h
          exact ⟨rfl, ‹_›⟩
        · cases h
      · rintro ⟨rfl, hkind⟩
        rw [if_pos hkind]

theorem rmdir_eq_some_iff {path : List Text} {p : Loc} :
    t.rmdir path = some p ↔ endsInName path = true ∧
      t.find .dir path = some p ∧ t.isEmpty p = true := by
  unfold Tree.rmdir
  cases endsInName path with
  | false => simp
  | true =>
      cases t.find .dir path with
      | none => simp
      | some q =>
          simp only [if_true, Option.ite_none_right_eq_some, true_and,
            Option.some.injEq]
          constructor
          · rintro ⟨hempty, rfl⟩
            exact ⟨rfl, hempty⟩
          · rintro ⟨rfl, hempty⟩
            exact ⟨hempty, rfl⟩

theorem place_of_find {k : Kind} {path : List Text} {p : Loc}
    (h : t.find k path = some p) : p = place [] path :=
  place_of_walk (walk_of_lookup (find_eq_some_iff.1 h).1).2

theorem pathOk_mono {a b : List Text} (h : a <+: b)
    (hb : pathOk b = true) : pathOk a = true := by
  obtain ⟨c, rfl⟩ := h
  simp only [pathOk, Bool.and_eq_true, List.all_eq_true, decide_eq_true_eq,
    List.map_append, List.sum_append, List.length_append,
    List.mem_append] at hb ⊢
  exact ⟨fun seg hseg => hb.1 seg (Or.inl hseg), by omega⟩

theorem walk_empties {cur p : Loc} {segs : List Text}
    (hsegs : ∀ seg ∈ segs, seg = []) (h : t.walk cur segs = some p) :
    p = cur := by
  induction segs generalizing cur with
  | nil => exact (Option.some.inj h).symm
  | cons seg rest ih =>
      unfold Tree.walk at h
      split at h
      · rw [hsegs seg List.mem_cons_self] at h
        exact ih (fun m hm => hsegs m (List.mem_cons_of_mem _ hm)) h
      · cases h

/-- The directory of a file's path is where the file stands. -/
theorem lookup_dirname {path : List Text} {p : Loc}
    (h : t.lookup path = some p) (hfile : t.kind p = some .file) :
    t.lookup (dirname path) = some p.dropLast := by
  obtain ⟨hok, hwalk⟩ := walk_of_lookup h
  obtain ⟨dir, head, name, rfl, rfl, hname, hhead, -⟩ :=
    concat_of_file hwalk hfile
  rw [List.dropLast_concat]
  unfold Tree.lookup dirname
  simp only [List.dropLast_concat]
  split
  · rename_i hempty
    have hokDir : pathOk ([] :: head) = true := by
      simp only [pathOk, Bool.and_eq_true, List.all_eq_true,
        decide_eq_true_eq] at hok ⊢
      refine ⟨?_, ?_⟩
      · intro seg hseg
        rcases List.mem_cons.1 hseg with rfl | hseg
        · rfl
        · exact hok.1 seg (List.mem_append_left _ hseg)
      · have hlen := hok.2
        simp only [List.map_append, List.sum_append, List.length_append,
          List.map_cons, List.sum_cons, List.length_cons] at hlen ⊢
        have hzero : byteSize [] = 0 := rfl
        omega
    rw [if_pos hokDir, Tree.walk, if_pos (kind_nil t)]
    exact hhead
  · have hpre : (head.rdropWhile fun seg => decide (seg = [])) <+: head :=
      List.rdropWhile_prefix _ _
    have hprePath := hpre.trans (List.prefix_append head [name])
    rw [if_pos (pathOk_mono hprePath hok)]
    obtain ⟨empties, hsplit⟩ := hpre
    have hempties : ∀ seg ∈ empties, seg = [] := by
      have htake : empties = head.rtakeWhile fun seg => decide (seg = []) := by
        have hall := List.rdropWhile_append_rtakeWhile
          (l := head) (p := fun seg : Text => decide (seg = []))
        exact List.append_cancel_left (hsplit.trans hall.symm)
      intro seg hseg
      rw [htake] at hseg
      simpa using List.mem_rtakeWhile_imp hseg
    rw [← hsplit, walk_append] at hhead
    obtain ⟨cur, hcur, hrest⟩ := Option.bind_eq_some_iff.1 hhead
    rw [hcur, walk_empties hempties hrest]

end Walks

end FileTree
end Kelt
