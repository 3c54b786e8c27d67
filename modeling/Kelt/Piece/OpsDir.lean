import Kelt.Piece.Registry

/-!
# The records directory

The directory that `kelt-piece` keeps its lock files and records in: names,
the files they stand for, and what is in the files. Two names never stand for
one file.

A lock file is opened by its name and locked as a file, so everything depends
on its name standing for the same file throughout. `Steady` says so of a step:
the records are written beside, renamed and deleted, but no name of theirs is
the name of a lock file.
-/

namespace Kelt
namespace Piece

section OpsDir

def isDigit (c : Char) : Bool :=
  '0' ≤ c && c ≤ '9'

/-- `[0-9]{n}`. -/
def digits (n : Nat) (t : Text) : Bool :=
  t.length == n && t.all isDigit

/-- The time in an id: `%Y%m%d-%H%M%S-%f`. -/
def stampBody (t : Text) : Bool :=
  digits 8 (before '-' t) &&
    digits 6 (before '-' (after '-' t)) &&
    digits 6 (after '-' (after '-' t))

/-- `rid.split("-", 3)[-1]`. -/
def idName (rid : Text) : Text :=
  after '-' (after '-' (after '-' rid))

def idBody (t : Text) : Bool :=
  digits 8 (before '-' t) &&
    digits 6 (before '-' (after '-' t)) &&
    digits 6 (before '-' (after '-' (after '-' t))) &&
    nameBody (idName t)

/-- `ID_RE.match(t)`. -/
def idRe (t : Text) : Bool :=
  dollar idBody t

/-- `new_id` at a time. -/
def newId (stamp name : Text) : Text :=
  stamp ++ '-' :: name

/-- The piece named in an operation id. -/
def pieceOf (rid : Option Text) : Text :=
  match rid with
  | some rid => if idRe rid then idName rid else []
  | none => []

/-- `rid.json`. -/
def recordFile (rid : Text) : Text :=
  rid ++ ".json".toList

/-- What `save` writes before it renames it. -/
def tmpFile (rid : Text) : Text :=
  '.' :: rid ++ ".json.tmp".toList

/-- The key whose lock file is the guard of the env file. -/
def guardKey : Text :=
  "env".toList

theorem lockFile_guardKey : lockFile guardKey = guardFile :=
  (lockFile_eq_guardFile_iff _).2 rfl

theorem head?_lockFile (key : Text) : (lockFile key).head? = some '.' :=
  rfl

theorem getLast?_lockFile (key : Text) :
    (lockFile key).getLast? = some 'k' := by
  have hlock : lockFile key = ('.' :: key ++ ".loc".toList) ++ ['k'] := by
    simp [lockFile]
  rw [hlock, List.getLast?_concat]

theorem ne_lockFile_of_head? {n key : Text} (h : n.head? ≠ some '.') :
    n ≠ lockFile key := by
  rintro rfl
  exact h (head?_lockFile key)

theorem tmpFile_ne_lockFile (rid key : Text) : tmpFile rid ≠ lockFile key := by
  have htmp : tmpFile rid = ('.' :: rid ++ ".json.tm".toList) ++ ['p'] := by
    simp [tmpFile]
  intro h
  have hlast := getLast?_lockFile key
  rw [← h, htmp, List.getLast?_concat] at hlast
  exact absurd hlast (by decide)

/-- An id starts with a digit. -/
theorem head?_of_idRe {rid : Text} (h : idRe rid = true) :
    ∃ c, rid.head? = some c ∧ isDigit c = true := by
  have hbody : ∀ t : Text, idBody t = true →
      ∃ c, t.head? = some c ∧ isDigit c = true := by
    intro t ht
    simp only [idBody, digits, Bool.and_eq_true, beq_iff_eq] at ht
    obtain ⟨⟨⟨⟨hlength, hall⟩, -⟩, -⟩, -⟩ := ht
    cases t with
    | nil => simp [before] at hlength
    | cons c rest =>
        by_cases hc : c = '-'
        · subst hc
          simp [before] at hlength
        · have hmem : c ∈ before '-' (c :: rest) := by simp [before, hc]
          exact ⟨c, rfl, List.all_eq_true.1 hall c hmem⟩
  simp only [idRe, dollar, Bool.or_eq_true, Bool.and_eq_true] at h
  rcases h with h | ⟨-, h⟩
  · exact hbody rid h
  · obtain ⟨c, hc, hdigit⟩ := hbody _ h
    refine ⟨c, ?_, hdigit⟩
    cases rid with
    | nil => cases hc
    | cons x rest =>
        cases rest with
        | nil => cases hc
        | cons y rest => exact hc

theorem recordFile_ne_lockFile {rid : Text} (h : idRe rid = true)
    (key : Text) : recordFile rid ≠ lockFile key := by
  apply ne_lockFile_of_head?
  obtain ⟨c, hc, hdigit⟩ := head?_of_idRe h
  cases rid with
  | nil => cases hc
  | cons x rest =>
      obtain rfl := Option.some.inj hc
      intro hdot
      obtain rfl := Option.some.inj hdot
      revert hdigit
      decide

/-- A fresh file under a name. -/
theorem update_some_inj {f : Text → Option Nat}
    (hf : ∀ {x y j}, f x = some j → f y = some j → x = y) {n : Text}
    {i : Nat} (hfree : ∀ x, f x ≠ some i) {x y : Text} {j : Nat}
    (hx : Function.update f n (some i) x = some j)
    (hy : Function.update f n (some i) y = some j) : x = y := by
  by_cases hxn : x = n <;> by_cases hyn : y = n
  · rw [hxn, hyn]
  · rw [hxn, Function.update_self] at hx
    rw [Function.update_of_ne hyn, ← hx] at hy
    exact absurd hy (hfree y)
  · rw [hyn, Function.update_self] at hy
    rw [Function.update_of_ne hxn, ← hy] at hx
    exact absurd hx (hfree x)
  · rw [Function.update_of_ne hxn] at hx
    rw [Function.update_of_ne hyn] at hy
    exact hf hx hy

/-- The names of a directory, the files they stand for and their texts. -/
structure OpsDir where
  inode : Text → Option Nat
  data : Nat → Text
  next : Nat
  inode_lt : ∀ {n i}, inode n = some i → i < next
  inode_inj : ∀ {n m i}, inode n = some i → inode m = some i → n = m

namespace OpsDir

variable (o : OpsDir)

/-- Opening a name with `O_CREAT`. -/
def ensure (n : Text) : OpsDir :=
  match h : o.inode n with
  | some _ => o
  | none =>
      { inode := Function.update o.inode n (some o.next)
        data := Function.update o.data o.next []
        next := o.next + 1
        inode_lt := by
          intro m i hm
          by_cases hmn : m = n
          · subst hmn
            rw [Function.update_self] at hm
            rw [← Option.some.inj hm]
            exact Nat.lt_succ_self _
          · rw [Function.update_of_ne hmn] at hm
            exact Nat.lt_succ_of_lt (o.inode_lt hm)
        inode_inj := update_some_inj o.inode_inj
          (fun _ hx => Nat.lt_irrefl _ (o.inode_lt hx)) }

/-- The file of a name after opening it. -/
def opened (n : Text) : Nat :=
  (o.inode n).getD o.next

/-- Changing what is in a file. -/
def setData (i : Nat) (t : Text) : OpsDir :=
  { o with data := Function.update o.data i t }

/-- Writing at the start of a file. -/
def writeAt (i : Nat) (t : Text) : OpsDir :=
  o.setData i (t ++ (o.data i).drop t.length)

/-- Opening a name for writing empties its file; then the text is written. -/
def writeText (n t : Text) : OpsDir :=
  (o.ensure n).setData (o.opened n) t

def unlink (n : Text) : OpsDir where
  inode := Function.update o.inode n none
  data := o.data
  next := o.next
  inode_lt := by
    intro m i hm
    by_cases hmn : m = n
    · rw [hmn, Function.update_self] at hm
      cases hm
    · rw [Function.update_of_ne hmn] at hm
      exact o.inode_lt hm
  inode_inj := by
    intro m m' i hm hm'
    by_cases hmn : m = n
    · rw [hmn, Function.update_self] at hm
      cases hm
    · by_cases hmn' : m' = n
      · rw [hmn', Function.update_self] at hm'
        cases hm'
      · rw [Function.update_of_ne hmn] at hm
        rw [Function.update_of_ne hmn'] at hm'
        exact o.inode_inj hm hm'

/-- `n` is renamed to `m` when it is there. -/
def rename (n m : Text) : OpsDir :=
  match h : o.inode n with
  | none => o
  | some i =>
      { o.unlink n with
        inode := Function.update (o.unlink n).inode m (some i)
        inode_lt := by
          intro x j hx
          by_cases hxm : x = m
          · rw [hxm, Function.update_self] at hx
            rw [← Option.some.inj hx]
            exact o.inode_lt h
          · rw [Function.update_of_ne hxm] at hx
            exact (o.unlink n).inode_lt hx
        inode_inj := by
          apply update_some_inj (o.unlink n).inode_inj
          intro x hx
          by_cases hxn : x = n
          · rw [hxn] at hx
            exact absurd hx (by simp [unlink])
          · have hx' : o.inode x = some i := by
              rw [← hx]
              exact (Function.update_of_ne hxn _ _).symm
            exact hxn (o.inode_inj hx' h) }

/-- The text of a name. -/
def readText (n : Text) : Option Text :=
  (o.inode n).map o.data

end OpsDir

/-- `t.strip() or None`. -/
def idOf (t : Text) : Option Text :=
  if strip t = [] then none else some (strip t)

namespace OpsDir

/-- `running_id`. -/
def runningId (o : OpsDir) (key : Text) : Option Text :=
  (o.readText (lockFile key)).bind idOf

/-- The lock files that are there stay what they are. -/
def Steady (o o' : OpsDir) : Prop :=
  ∀ key i, o.inode (lockFile key) = some i →
    o'.inode (lockFile key) = some i

/-- They keep their texts or are emptied, too. -/
structure Quiet (o o' : OpsDir) : Prop where
  steady : o.Steady o'
  data : ∀ key i, o.inode (lockFile key) = some i →
    o'.data i = o.data i ∨ o'.data i = []

variable {o : OpsDir}

theorem runningId_eq {key : Text} {i : Nat}
    (h : o.inode (lockFile key) = some i) :
    o.runningId key = idOf (o.data i) := by
  simp [runningId, readText, h]

theorem Quiet.runningId {o' : OpsDir} (hq : o.Quiet o') {key : Text} {i : Nat}
    (h : o.inode (lockFile key) = some i) :
    o'.runningId key = o.runningId key ∨ o'.runningId key = none := by
  rw [runningId_eq h, runningId_eq (hq.steady key i h)]
  rcases hq.data key i h with hdata | hdata
  · exact Or.inl (congrArg idOf hdata)
  · rw [hdata]
    exact Or.inr rfl

theorem Quiet.refl (o : OpsDir) : o.Quiet o where
  steady := fun _ _ h => h
  data := fun _ _ _ => Or.inl rfl

theorem inode_ensure (o : OpsDir) (n : Text) :
    (o.ensure n).inode n = some (o.opened n) := by
  unfold ensure
  split
  · rename_i i h
    simp [opened, h]
  · rename_i h
    simp [opened, h]

theorem quiet_ensure (o : OpsDir) (n : Text) : o.Quiet (o.ensure n) := by
  unfold ensure
  split
  · exact Quiet.refl o
  · rename_i hn
    constructor
    · intro key i h
      have hne : lockFile key ≠ n := by
        rintro rfl
        rw [hn] at h
        cases h
      exact (Function.update_of_ne hne _ _).trans h
    · intro key i h
      left
      exact Function.update_of_ne (Nat.ne_of_lt (o.inode_lt h)) _ _

theorem steady_setData (o : OpsDir) (i : Nat) (t : Text) :
    o.Steady (o.setData i t) :=
  fun _ _ h => h

theorem data_setData_of_ne {i j : Nat} {t : Text} (h : j ≠ i) :
    (o.setData i t).data j = o.data j :=
  Function.update_of_ne h _ _

theorem data_setData_self {i : Nat} {t : Text} :
    (o.setData i t).data i = t :=
  Function.update_self _ _ _

/-- Emptying a file. -/
theorem quiet_setData_nil (o : OpsDir) (i : Nat) :
    o.Quiet (o.setData i []) where
  steady := o.steady_setData i []
  data := by
    intro key j _
    by_cases hj : j = i
    · rw [hj]
      exact Or.inr data_setData_self
    · exact Or.inl (data_setData_of_ne hj)

theorem Quiet.trans {o₁ o₂ o₃ : OpsDir} (h : o₁.Quiet o₂)
    (h' : o₂.Quiet o₃) : o₁.Quiet o₃ where
  steady := fun key i hi => h'.steady key i (h.steady key i hi)
  data := by
    intro key i hi
    rcases h'.data key i (h.steady key i hi) with hdata | hdata
    · rw [hdata]
      exact h.data key i hi
    · exact Or.inr hdata

/-- Writing a file that is no lock file. -/
theorem quiet_writeText (o : OpsDir) {n : Text} (t : Text)
    (hn : ∀ key, n ≠ lockFile key) : o.Quiet (o.writeText n t) := by
  have hensure := o.quiet_ensure n
  refine ⟨hensure.steady, ?_⟩
  intro key i h
  have hi : i ≠ o.opened n := by
    rintro rfl
    have hlock := hensure.steady key _ h
    exact hn key ((o.ensure n).inode_inj (o.inode_ensure n) hlock)
  rw [writeText, data_setData_of_ne hi]
  exact hensure.data key i h

theorem quiet_unlink (o : OpsDir) {n : Text} (hn : ∀ key, n ≠ lockFile key) :
    o.Quiet (o.unlink n) where
  steady := by
    intro key i h
    exact (Function.update_of_ne (hn key).symm _ _).trans h
  data := fun _ _ _ => Or.inl rfl

/-- Renaming a file to a name that is no lock file's. -/
theorem quiet_rename (o : OpsDir) {n m : Text} (hn : ∀ key, n ≠ lockFile key)
    (hm : ∀ key, m ≠ lockFile key) : o.Quiet (o.rename n m) := by
  unfold rename
  split
  · exact Quiet.refl o
  · constructor
    · intro key j h
      have hunlink := (o.quiet_unlink hn).steady key j h
      exact (Function.update_of_ne (hm key).symm _ _).trans hunlink
    · exact fun _ _ _ => Or.inl rfl

/-- Opening a lock file, or the guard for writing. -/
theorem quiet_openGuard (o : OpsDir) (n : Text) :
    o.Quiet (o.writeText n []) :=
  (o.quiet_ensure n).trans ((o.ensure n).quiet_setData_nil _)

end OpsDir

end OpsDir

end Piece
end Kelt
