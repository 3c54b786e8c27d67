import Kelt.Piece.LockReports

/-!
# Truthful answers about locks

As long as no try crosses a look, a run that has not told its id yet, or one
that tells it in between, every answer is truthful (`answers_truthful`). The
tries of others are enough to break that (`startProbe_refuses`,
`staleId_reported`).
-/

namespace Kelt
namespace Piece

section LockTruth

theorem Proc.raised_part {P P' : Proc} (h : P.raised = some P') :
    P'.part.Le P.part ∧ P'.part.stage = P.part.stage := by
  have hle := Part.Le.refl P.part
  unfold Proc.raised at h
  split at h
  all_goals cases h
  all_goals first
    | exact ⟨hle, rfl⟩
    | skip
  refine ⟨⟨hle.rid, hle.own, hle.awaits, hle.plain, ?_⟩, rfl⟩
  intro a ha
  obtain rfl := List.mem_singleton.1 ha
  exact Or.inr trivial

/-- The part of a number at the moment. -/
def Sys.part (st : Sys) (p : Nat) : Part :=
  match st.procs p with
  | some P => P.part
  | none => .none

theorem Sys.part_eq {st : Sys} {p : Nat} {P : Proc}
    (h : st.procs p = some P) : st.part p = P.part := by
  simp [Sys.part, h]

theorem Sys.part_none {st : Sys} {p : Nat} (h : st.procs p = none) :
    st.part p = .none := by
  simp [Sys.part, h]

theorem Sys.part_setProc_self (st : Sys) (p : Nat) (P : Proc) :
    (st.setProc p (some P)).part p = P.part :=
  Sys.part_eq (Function.update_self _ _ _)

theorem Sys.part_setProc_of_ne (st : Sys) {p q : Nat} (P : Option Proc)
    (h : q ≠ p) : (st.setProc p P).part q = st.part q := by
  simp [Sys.part, Sys.setProc, h]

/-- The part of `p` becomes `t`, and the others stay. -/
structure Sys.Replaces (st st' : Sys) (p : Nat) (t : Part) : Prop where
  self : st'.part p = t
  other : ∀ q, q ≠ p → st'.part q = st.part q

theorem Sys.replaces_setProc (st : Sys) (p : Nat) (P : Proc) :
    st.Replaces (st.setProc p (some P)) p P.part :=
  ⟨st.part_setProc_self p P, fun _ hq => st.part_setProc_of_ne _ hq⟩

theorem Sys.replaces_opens (st : Sys) (p : Nat) (o : OpsDir) (i : Nat)
    (run : Option (Text × Text)) (k : Nat → Proc) :
    st.Replaces (st.opens p o i run k) p (k st.locks.next).part :=
  ⟨Sys.part_eq (Function.update_self _ _ _),
    fun q hq => by simp [Sys.part, Sys.opens, hq]⟩

/-- What somebody's part has, the new one has, or one that was there. -/
theorem Sys.Replaces.cases {st st' : Sys} {p : Nat} {t : Part}
    (h : st.Replaces st' p t) {F : Part → Prop} {q : Nat}
    (hq : F (st'.part q)) : F t ∨ ∃ r, F (st.part r) := by
  by_cases hqp : q = p
  · rw [hqp, h.self] at hq
    exact Or.inl hq
  · rw [h.other q hqp] at hq
    exact Or.inr ⟨q, hq⟩

/-- What the new part only has if the old one had it. -/
theorem Sys.Replaces.back {st st' : Sys} {p : Nat} {t : Part}
    (h : st.Replaces st' p t) {F : Part → Prop} {q : Nat}
    (hF : F t → F (st.part p)) (hq : F (st'.part q)) : ∃ r, F (st.part r) :=
  (h.cases hq).elim (fun ht => ⟨p, hF ht⟩) id

/-- The lock file has no id, or this one. -/
def OpsDir.Tells (o : OpsDir) (key rid : Text) : Prop :=
  o.runningId key = none ∨ o.runningId key = some rid

theorem OpsDir.Quiet.tells {o o' : OpsDir} (h : o.Quiet o') {key rid : Text}
    {i : Nat} (hi : o.inode (lockFile key) = some i)
    (htells : o.Tells key rid) : o'.Tells key rid := by
  rcases h.runningId hi with heq | hnone
  · unfold Tells
    rwa [heq]
  · exact Or.inl hnone

/-- What is open is known; the owner of a lock has told its id, or nobody's id
is in the file, or it is about to empty it; who will tell an id has seen its
run; and what has been said and will be said is truthful. -/
structure ReportInv (st : Sys) : Prop where
  locks : LockInv st
  opened : ∀ d key rid, st.operation d = some (key, rid) →
    d < st.locks.next ∧
      st.ops.inode (lockFile key) = some (st.locks.file d) ∧ strip rid = rid
  rid : ∀ p x, (st.part p).rid = some x → strip x = x
  own : ∀ p d key rid, (st.part p).own = some (d, key, rid) →
    st.operation d = some (key, rid)
  plain : ∀ p, ∀ d ∈ (st.part p).plain, st.operation d = none
  untold : ∀ i d key rid, st.locks.owner i = some d →
    st.operation d = some (key, rid) →
    (∃ p, (st.part p).stage = .locked d) ∨ st.ops.Tells key rid
  cleared : ∀ p d, (st.part p).stage = .cleared d →
    st.ops.data (st.locks.file d) = []
  awaits : ∀ p key seen tells, (st.part p).awaits = some (key, seen, tells) →
    ∃ rid, st.operation seen = some (key, rid) ∧
      (tells = true → st.ops.Tells key rid)
  pending : ∀ p, ∀ a ∈ (st.part p).pending, Truthful st.operation a
  answers : ∀ a ∈ st.answers, Truthful st.operation a

/-- A step that writes into no lock file: what is new in `st'` is in order, and
the rest was there. -/
structure Unmoved (st st' : Sys) : Prop where
  ops : st.ops.Quiet st'.ops
  next : st.locks.next ≤ st'.locks.next
  file : ∀ d, d < st.locks.next → st'.locks.file d = st.locks.file d
  operation : ∀ d x, st.operation d = some x → st'.operation d = some x
  opened : ∀ d key rid, st'.operation d = some (key, rid) →
    st.operation d = some (key, rid) ∨
      d < st'.locks.next ∧
        st'.ops.inode (lockFile key) = some (st'.locks.file d) ∧
        strip rid = rid
  owner : ∀ i d x, st'.locks.owner i = some d → st'.operation d = some x →
    (st.locks.owner i = some d ∧ st.operation d = some x) ∨
      ∃ q, (st'.part q).stage = .locked d
  rid : ∀ q x, (st'.part q).rid = some x → strip x = x
  own : ∀ q d key rid, (st'.part q).own = some (d, key, rid) →
    st'.operation d = some (key, rid)
  plain : ∀ q, ∀ d ∈ (st'.part q).plain, st'.operation d = none
  cleared : ∀ q d, (st'.part q).stage = .cleared d →
    (∃ r, (st.part r).stage = .cleared d) ∨
      st'.ops.data (st'.locks.file d) = []
  locked : ∀ q d, (st.part q).stage = .locked d →
    (∃ r, (st'.part r).stage = .locked d) ∨
      (∀ i, st'.locks.owner i ≠ some d) ∨
      st'.ops.data (st'.locks.file d) = []
  awaits : ∀ q key seen tells,
    (st'.part q).awaits = some (key, seen, tells) →
    (∃ r, (st.part r).awaits = some (key, seen, tells)) ∨
      ∃ rid, st'.operation seen = some (key, rid) ∧
        (tells = true → st'.ops.Tells key rid)
  pending : ∀ q, ∀ a ∈ (st'.part q).pending,
    (∃ r, a ∈ (st.part r).pending) ∨ Truthful st'.operation a
  answers : ∀ a ∈ st'.answers,
    a ∈ st.answers ∨ ∃ r, a ∈ (st.part r).pending

/-- The part of a process that `P` has just started. -/
structure Child (P : Proc) (t : Part) : Prop where
  rid : ∀ x, t.rid = some x → strip x = x
  le : ({ t with rid := none } : Part).Le P.part
  stage : t.stage = .idle

theorem Truthful.mono {op op' : Nat → Option (Text × Text)}
    (hop : ∀ d x, op d = some x → op' d = some x) {a : Answer}
    (h : Truthful op a) : Truthful op' a := by
  cases a with
  | refused key other seen =>
      obtain ⟨rid, hrid⟩ := h
      exact ⟨rid, hop _ _ hrid⟩
  | busy key reply seen =>
      obtain ⟨rid, hrid, hid⟩ := h
      exact ⟨rid, hop _ _ hrid, hid⟩
  | running key id seen =>
      obtain ⟨rid, hrid, hid⟩ := h
      exact ⟨rid, hop _ _ hrid, hid⟩
  | started rid => trivial
  | failed rid => trivial

namespace ReportInv

variable {st st' : Sys} {p : Nat}

theorem init (o : OpsDir) : ReportInv (Sys.init o) where
  locks := LockInv.init o
  opened := fun _ _ _ h => by cases h
  rid := fun _ _ h => by cases h
  own := fun _ _ _ _ h => by cases h
  plain := fun _ _ h => by cases h
  untold := fun _ _ _ _ h => by cases h
  cleared := fun _ _ h => by cases h
  awaits := fun _ _ _ _ h => by cases h
  pending := fun _ _ h => by cases h
  answers := fun _ h => by cases h

theorem unmoved (hinv : ReportInv st) (hlocks : LockInv st')
    (h : Unmoved st st') : ReportInv st' where
  locks := hlocks
  opened := by
    intro d key rid hop
    rcases h.opened d key rid hop with hold | hnew
    · obtain ⟨hlt, hinode, hstrip⟩ := hinv.opened d key rid hold
      rw [h.file d hlt]
      exact ⟨lt_of_lt_of_le hlt h.next, h.ops.steady key _ hinode, hstrip⟩
    · exact hnew
  rid := h.rid
  own := h.own
  plain := h.plain
  untold := by
    intro i d key rid howner hop
    rcases h.owner i d _ howner hop with ⟨howner', hop'⟩ | hlocked
    · obtain ⟨hlt, hinode, -⟩ := hinv.opened d key rid hop'
      rcases hinv.untold i d key rid howner' hop' with ⟨q, hq⟩ | htells
      · rcases h.locked q d hq with hstill | hfree | hempty
        · exact Or.inl hstill
        · exact absurd howner (hfree i)
        · right
          left
          rw [h.file d hlt] at hempty
          rw [OpsDir.runningId_eq (h.ops.steady key _ hinode), hempty]
          rfl
      · exact Or.inr (h.ops.tells hinode htells)
    · exact Or.inl hlocked
  cleared := by
    intro q d hq
    rcases h.cleared q d hq with ⟨r, hr⟩ | hempty
    · have hdata := hinv.cleared r d hr
      have hown : ∃ key rid, (st.part r).own = some (d, key, rid) := by
        cases hP : st.procs r with
        | none =>
            rw [Sys.part_none hP] at hr
            cases hr
        | some P =>
            rw [Sys.part_eq hP] at hr ⊢
            exact (Proc.stage_spec (Or.inr hr)).2.2
      obtain ⟨key, rid, hown⟩ := hown
      obtain ⟨hlt, hinode, -⟩ := hinv.opened d key rid (hinv.own r d key rid hown)
      rw [h.file d hlt]
      rcases h.ops.data key _ hinode with hsame | hnil
      · rw [hsame, hdata]
      · exact hnil
    · exact hempty
  awaits := by
    intro q key seen tells hq
    rcases h.awaits q key seen tells hq with ⟨r, hr⟩ | hnew
    · obtain ⟨rid, hop, htells⟩ := hinv.awaits r key seen tells hr
      obtain ⟨-, hinode, -⟩ := hinv.opened seen key rid hop
      exact ⟨rid, h.operation _ _ hop,
        fun ht => h.ops.tells hinode (htells ht)⟩
    · exact hnew
  pending := by
    intro q a ha
    rcases h.pending q a ha with ⟨r, hr⟩ | hnew
    · exact (hinv.pending r a hr).mono h.operation
    · exact hnew
  answers := by
    intro a ha
    rcases h.answers a ha with hold | ⟨r, hr⟩
    · exact (hinv.answers a hold).mono h.operation
    · exact (hinv.pending r a hr).mono h.operation

/-- The place of one process changes, and perhaps it starts another. -/
theorem of_part (hinv : ReportInv st) {P : Proc} (hp : st.procs p = some P)
    (hother : ∀ q, q ≠ p → st'.part q = st.part q ∨
      (st.part q).stage = .idle ∧ Child P (st'.part q))
    (hops : st.ops.Quiet st'.ops) (hnext : st.locks.next ≤ st'.locks.next)
    (hfile : ∀ d, d < st.locks.next → st'.locks.file d = st.locks.file d)
    (hop : st'.operation = st.operation)
    (howner : ∀ i d, st'.locks.owner i = some d →
      st.locks.owner i = some d ∨ st.operation d = none ∨
        (st'.part p).stage = .locked d)
    (hrid : ∀ x, (st'.part p).rid = some x → P.part.rid = some x)
    (hown : ∀ x, (st'.part p).own = some x → P.part.own = some x)
    (hplain : ∀ d ∈ (st'.part p).plain, st.operation d = none)
    (hstage : (st'.part p).stage = P.part.stage ∨
      P.part.stage = .idle ∧ (∃ d, (st'.part p).stage = .locked d) ∨
      ∃ d, P.part.stage = .locked d ∧ (st'.part p).stage = .cleared d ∧
        st'.ops.data (st'.locks.file d) = [])
    (hawaits : ∀ key seen tells,
      (st'.part p).awaits = some (key, seen, tells) →
      P.part.awaits = some (key, seen, tells) ∨
        ∃ rid, st.operation seen = some (key, rid) ∧
          (tells = true → st'.ops.Tells key rid))
    (hpending : ∀ a ∈ (st'.part p).pending,
      a ∈ P.part.pending ∨ Truthful st.operation a)
    (hanswers : st'.answers = st.answers) : Unmoved st st' := by
  have hpart := Sys.part_eq hp
  -- a part is that of `p`, or was there, or is that of a child
  have hparts : ∀ {F : Part → Prop} {q : Nat}, F (st'.part q) →
      F (st'.part p) ∨ (∃ r, F (st.part r)) ∨ ∃ t, Child P t ∧ F t := by
    intro F q hF
    by_cases hq : q = p
    · exact Or.inl (hq ▸ hF)
    · rcases hother q hq with hsame | ⟨-, hchild⟩
      · exact Or.inr (Or.inl ⟨q, hsame ▸ hF⟩)
      · exact Or.inr (Or.inr ⟨_, hchild, hF⟩)
  constructor
  case ops => exact hops
  case next => exact hnext
  case file => exact hfile
  case operation =>
    intro d x hd
    rwa [hop]
  case opened =>
    intro d key rid hd
    rw [hop] at hd
    exact Or.inl hd
  case owner =>
    intro i d x hi hd
    rw [hop] at hd
    rcases howner i d hi with hold | hnone | hlocked
    · exact Or.inl ⟨hold, hd⟩
    · rw [hnone] at hd
      cases hd
    · exact Or.inr ⟨p, hlocked⟩
  case rid =>
    intro q x hx
    rcases hparts (F := fun t => t.rid = some x) hx with
      hself | ⟨r, hr⟩ | ⟨t, hchild, ht⟩
    · exact hinv.rid p x (by rw [hpart]; exact hrid x hself)
    · exact hinv.rid r x hr
    · exact hchild.rid x ht
  case own =>
    intro q d key rid hd
    rw [hop]
    rcases hparts (F := fun t => t.own = some (d, key, rid)) hd with
      hself | ⟨r, hr⟩ | ⟨t, hchild, ht⟩
    · exact hinv.own p d key rid (by rw [hpart]; exact hown _ hself)
    · exact hinv.own r d key rid hr
    · exact hinv.own p d key rid (by rw [hpart]; exact hchild.le.own _ ht)
  case plain =>
    intro q d hd
    rw [hop]
    rcases hparts (F := fun t => d ∈ t.plain) hd with
      hself | ⟨r, hr⟩ | ⟨t, hchild, ht⟩
    · exact hplain d hself
    · exact hinv.plain r d hr
    · exact hinv.plain p d (by rw [hpart]; exact hchild.le.plain d ht)
  case cleared =>
    intro q d hd
    rcases hparts (F := fun t => t.stage = .cleared d) hd with
      hself | hold | ⟨t, hchild, ht⟩
    · rcases hstage with hsame | ⟨-, e, he⟩ | ⟨e, -, he, hdata⟩
      · exact Or.inl ⟨p, by rwa [hpart, ← hsame]⟩
      · rw [he] at hself
        cases hself
      · rw [he] at hself
        obtain rfl := Telling.cleared.inj hself
        exact Or.inr hdata
    · exact Or.inl hold
    · rw [hchild.stage] at ht
      cases ht
  case locked =>
    intro q d hd
    by_cases hq : q = p
    · subst hq
      rw [hpart] at hd
      rcases hstage with hsame | ⟨hidle, -⟩ | ⟨e, he, -, hdata⟩
      · exact Or.inl ⟨q, by rwa [hsame]⟩
      · rw [hidle] at hd
        cases hd
      · rw [he] at hd
        obtain rfl := Telling.locked.inj hd
        exact Or.inr (Or.inr hdata)
    · rcases hother q hq with hsame | ⟨hidle, -⟩
      · exact Or.inl ⟨q, by rwa [hsame]⟩
      · rw [hidle] at hd
        cases hd
  case awaits =>
    intro q key seen tells hq
    rw [hop]
    rcases hparts (F := fun t => t.awaits = some (key, seen, tells)) hq with
      hself | hold | ⟨t, hchild, ht⟩
    · exact (hawaits key seen tells hself).imp_left
        (fun h => ⟨p, by rwa [hpart]⟩)
    · exact Or.inl hold
    · exact Or.inl ⟨p, by rw [hpart]; exact hchild.le.awaits _ ht⟩
  case pending =>
    intro q a ha
    rw [hop]
    rcases hparts (F := fun t => a ∈ t.pending) ha with
      hself | hold | ⟨t, hchild, ht⟩
    · exact (hpending a hself).imp_left (fun h => ⟨p, by rwa [hpart]⟩)
    · exact Or.inl hold
    · rcases hchild.le.pending a ht with hold | hplain
      · exact Or.inl ⟨p, by rwa [hpart]⟩
      · exact Or.inr (hplain.truthful _)
  case answers =>
    intro a ha
    rw [hanswers] at ha
    exact Or.inl ha

/-- The new place promises nothing new but what `hplain` says. -/
theorem of_part_le (hinv : ReportInv st) {P : Proc} (hp : st.procs p = some P)
    {t : Part} (hself : st'.part p = t)
    (hle : ({ t with plain := [] } : Part).Le P.part)
    (hplain : ∀ d ∈ t.plain, st.operation d = none)
    (hstage : t.stage = P.part.stage)
    (hother : ∀ q, q ≠ p → st'.part q = st.part q ∨
      (st.part q).stage = .idle ∧ Child P (st'.part q))
    (hops : st.ops.Quiet st'.ops) (hnext : st.locks.next ≤ st'.locks.next)
    (hfile : ∀ d, d < st.locks.next → st'.locks.file d = st.locks.file d)
    (hop : st'.operation = st.operation)
    (howner : st'.locks.owner = st.locks.owner)
    (hanswers : st'.answers = st.answers) : Unmoved st st' := by
  subst hself
  apply hinv.of_part hp hother hops hnext hfile hop
  case howner =>
    intro i d hi
    rw [howner] at hi
    exact Or.inl hi
  case hrid => exact hle.rid
  case hown => exact hle.own
  case hplain => exact hplain
  case hstage => exact Or.inl hstage
  case hawaits => exact fun key seen tells h => Or.inl (hle.awaits _ h)
  case hpending =>
    intro a ha
    exact (hle.pending a ha).imp_right (fun h => h.truthful _)
  case hanswers => exact hanswers

theorem plain_of_le (hinv : ReportInv st) {P P' : Proc}
    (hp : st.procs p = some P) (hle : P'.part.Le P.part) :
    ∀ d ∈ P'.part.plain, st.operation d = none := by
  intro d hd
  exact hinv.plain p d (by rw [Sys.part_eq hp]; exact hle.plain d hd)

/-- Only the process, the locks and the records directory change. -/
theorem of_setProc (hinv : ReportInv st) {P P' : Proc}
    (hp : st.procs p = some P) {k : FileLocks Nat Nat} {o : OpsDir}
    (hnext : st.locks.next = k.next) (hfile : k.file = st.locks.file)
    (hops : st.ops.Quiet o)
    (howner : ∀ i d, k.owner i = some d →
      st.locks.owner i = some d ∨ st.operation d = none ∨
        P'.part.stage = .locked d)
    (hle : ({ P'.part with awaits := none, pending := [] } : Part).Le P.part)
    (hstage : P'.part.stage = P.part.stage ∨
      P.part.stage = .idle ∧ (∃ d, P'.part.stage = .locked d) ∨
      ∃ d, P.part.stage = .locked d ∧ P'.part.stage = .cleared d ∧
        o.data (k.file d) = [])
    (hawaits : ∀ key seen tells, P'.part.awaits = some (key, seen, tells) →
      P.part.awaits = some (key, seen, tells) ∨
        ∃ rid, st.operation seen = some (key, rid) ∧
          (tells = true → o.Tells key rid))
    (hpending : ∀ a ∈ P'.part.pending,
      a ∈ P.part.pending ∨ Truthful st.operation a) :
    Unmoved st (((st.setLocks k).setOps o).setProc p (some P')) := by
  have hself : (((st.setLocks k).setOps o).setProc p (some P')).part p =
      P'.part := Sys.part_setProc_self _ _ _
  apply hinv.of_part hp
  case hother => exact fun q hq => Or.inl (Sys.part_setProc_of_ne _ _ hq)
  case hops => exact hops
  case hnext => exact Nat.le_of_eq hnext
  case hfile => exact fun d _ => congrFun hfile d
  case hop => rfl
  case howner =>
    rw [hself]
    exact howner
  case hrid =>
    rw [hself]
    exact hle.rid
  case hown =>
    rw [hself]
    exact hle.own
  case hplain =>
    rw [hself]
    intro d hd
    exact hinv.plain p d (by rw [Sys.part_eq hp]; exact hle.plain d hd)
  case hstage =>
    rw [hself]
    exact hstage
  case hawaits =>
    rw [hself]
    exact hawaits
  case hpending =>
    rw [hself]
    exact hpending
  case hanswers => rfl

/-- Its part promises nothing new. -/
theorem of_le (hinv : ReportInv st) {P P' : Proc} (hp : st.procs p = some P)
    {k : FileLocks Nat Nat} {o : OpsDir} (hnext : st.locks.next = k.next)
    (hfile : k.file = st.locks.file) (hops : st.ops.Quiet o)
    (howner : ∀ i d, k.owner i = some d →
      st.locks.owner i = some d ∨ st.operation d = none ∨
        P'.part.stage = .locked d)
    (hle : P'.part.Le P.part)
    (hstage : P'.part.stage = P.part.stage ∨
      P.part.stage = .idle ∧ (∃ d, P'.part.stage = .locked d) ∨
      ∃ d, P.part.stage = .locked d ∧ P'.part.stage = .cleared d ∧
        o.data (k.file d) = []) :
    Unmoved st (((st.setLocks k).setOps o).setProc p (some P')) := by
  apply hinv.of_setProc hp hnext hfile hops howner _ hstage
  · exact fun key seen tells h => Or.inl (hle.awaits _ h)
  · intro a ha
    exact (hle.pending a ha).imp_right (fun h => h.truthful _)
  · exact ⟨hle.rid, hle.own, fun x h => (by cases h), hle.plain,
      fun a h => (by cases h)⟩

/-- A process that is gone leaves no lock untold. -/
theorem of_gone (hinv : ReportInv st) (p : Nat) {o : Option Proc}
    (ho : ∀ P, o = some P → P.part = .none) : Unmoved st (st.gone p o) := by
  have hrep : st.Replaces (st.gone p o) p .none := by
    refine ⟨?_, fun q hq => Sys.part_setProc_of_ne _ _ hq⟩
    cases o with
    | none => exact Sys.part_none (Function.update_self _ _ _)
    | some P =>
        rw [Sys.gone, Sys.part_setProc_self]
        exact ho P rfl
  constructor
  case ops => exact OpsDir.Quiet.refl st.ops
  case next => exact Nat.le_refl _
  case file => exact fun _ _ => rfl
  case operation => exact fun _ _ h => h
  case opened => exact fun _ _ _ h => Or.inl h
  case owner =>
    exact fun i d x h hd => Or.inl ⟨FileLocks.owner_of_keep h, hd⟩
  case rid =>
    intro q x hx
    obtain ⟨r, hr⟩ := hrep.back (F := fun t => t.rid = some x)
      (fun h => by cases h) hx
    exact hinv.rid r x hr
  case own =>
    intro q d key rid hd
    obtain ⟨r, hr⟩ := hrep.back (F := fun t => t.own = some (d, key, rid))
      (fun h => by cases h) hd
    exact hinv.own r d key rid hr
  case plain =>
    intro q d hd
    obtain ⟨r, hr⟩ := hrep.back (F := fun t => d ∈ t.plain)
      (fun h => by cases h) hd
    exact hinv.plain r d hr
  case cleared =>
    exact fun q d hd => Or.inl (hrep.back (F := fun t => t.stage = .cleared d)
      (fun h => by cases h) hd)
  case locked =>
    intro q d hd
    by_cases hq : q = p
    · subst hq
      right
      left
      intro i hi
      obtain ⟨-, r, hr⟩ := (st.locks.exit q).owned hi
      obtain ⟨href, hne⟩ := FileLocks.mem_refs_exit.1 hr
      cases hP : st.procs q with
      | none =>
          rw [Sys.part_none hP] at hd
          cases hd
      | some P =>
          rw [Sys.part_eq hP] at hd
          obtain ⟨hshared, -, key, rid, hown⟩ := Proc.stage_spec (Or.inl hd)
          have hqd : (q, d) ∈ st.locks.refs := by
            apply ((hinv.locks.has q).ref d).2
            rw [Sys.view_eq hP]
            exact ⟨key, Proc.fds_of_own hown⟩
          obtain ⟨hshare, -⟩ := hinv.locks.shared q r d hne.symm hqd href
          rw [Sys.view_eq hP, hshared] at hshare
          cases hshare
    · exact Or.inl ⟨q, by rwa [hrep.other q hq]⟩
  case awaits =>
    exact fun q key seen tells hq => Or.inl
      (hrep.back (F := fun t => t.awaits = some (key, seen, tells))
        (fun h => by cases h) hq)
  case pending =>
    exact fun q a ha => Or.inl (hrep.back (F := fun t => a ∈ t.pending)
      (fun h => by cases h) ha)
  case answers => exact fun a ha => Or.inl ha

/-- A look, or the guard, is opened for no run. -/
theorem of_opens (hinv : ReportInv st) {P : Proc} (hp : st.procs p = some P)
    {o : OpsDir} {i : Nat} {k : Nat → Proc} (hops : st.ops.Quiet o)
    (hle : ({ (k st.locks.next).part with plain := [] } : Part).Le P.part)
    (hstage : (k st.locks.next).part.stage = P.part.stage)
    (hplain : ∀ e ∈ (k st.locks.next).part.plain,
      e = st.locks.next ∨ e ∈ P.part.plain) :
    Unmoved st (st.opens p o i none k) := by
  have hrep := st.replaces_opens p o i none k
  have hfree : st.operation st.locks.next = none := by
    cases hop : st.operation st.locks.next with
    | none => rfl
    | some x =>
        have hlt := (hinv.opened _ x.1 x.2 hop).1
        exact absurd hlt (Nat.lt_irrefl _)
  apply hinv.of_part_le hp hrep.self hle
  case hplain =>
    intro e he
    rcases hplain e he with rfl | he
    · exact hfree
    · exact hinv.plain p e (by rwa [Sys.part_eq hp])
  case hstage => exact hstage
  case hother => exact fun q hq => Or.inl (hrep.other q hq)
  case hops => exact hops
  case hnext => exact Nat.le_succ _
  case hfile =>
    exact fun d hd => Function.update_of_ne (Nat.ne_of_lt hd) _ _
  case hop =>
    funext d
    by_cases hd : d = st.locks.next
    · rw [hd, hfree]
      exact Function.update_self _ _ _
    · exact Function.update_of_ne hd _ _
  case howner => rfl
  case hanswers => rfl

/-- A run opens its lock file: the new description is its. -/
theorem of_opensRun (hinv : ReportInv st) {P : Proc}
    (hp : st.procs p = some P) {o : OpsDir} {i : Nat} {key rid : Text}
    {k : Nat → Proc} (hops : st.ops.Quiet o)
    (hi : o.inode (lockFile key) = some i) (hrid : P.part.rid = some rid)
    (hle : ({ (k st.locks.next).part with own := none } : Part).Le P.part)
    (hstage : (k st.locks.next).part.stage = P.part.stage)
    (hown : (k st.locks.next).part.own = some (st.locks.next, key, rid)) :
    Unmoved st (st.opens p o i (some (key, rid)) k) := by
  have hpart := Sys.part_eq hp
  have hrep := st.replaces_opens p o i (some (key, rid)) k
  have hold : ∀ d, d < st.locks.next →
      (st.opens p o i (some (key, rid)) k).operation d = st.operation d :=
    fun d hd => Function.update_of_ne (Nat.ne_of_lt hd) _ _
  have hlt : ∀ d x, st.operation d = some x → d < st.locks.next :=
    fun d x h => (hinv.opened d x.1 x.2 h).1
  have hplain : ∀ q, ∀ d ∈ (st.part q).plain, d < st.locks.next := by
    intro q d hd
    cases hQ : st.procs q with
    | none =>
        rw [Sys.part_none hQ] at hd
        cases hd
    | some Q =>
        rw [Sys.part_eq hQ] at hd
        obtain ⟨key', hkey'⟩ := Proc.fds_of_plain hd
        rw [← Sys.view_eq hQ] at hkey'
        exact st.locks.fresh (((hinv.locks.has q).ref d).2 ⟨key', hkey'⟩)
  constructor
  case ops => exact hops
  case next => exact Nat.le_succ _
  case file =>
    exact fun d hd => Function.update_of_ne (Nat.ne_of_lt hd) _ _
  case operation =>
    intro d x hd
    rw [hold d (hlt d x hd), hd]
  case opened =>
    intro d key' rid' hd
    by_cases hdn : d = st.locks.next
    · subst hdn
      have hnew : (st.opens p o i (some (key, rid)) k).operation
          st.locks.next = some (key, rid) := Function.update_self _ _ _
      rw [hnew] at hd
      obtain ⟨rfl, rfl⟩ := Prod.mk.inj (Option.some.inj hd)
      refine Or.inr ⟨Nat.lt_succ_self _, ?_, ?_⟩
      · have hfile : (st.locks.opened p i).file st.locks.next = i :=
          FileLocks.file_opened_self
        exact hi.trans (congrArg some hfile.symm)
      · exact hinv.rid p _ (by rwa [hpart])
    · left
      rw [← hd]
      exact (Function.update_of_ne hdn _ _).symm
  case owner =>
    intro j d x hj hd
    obtain ⟨-, q, hq⟩ := st.locks.owned hj
    rw [hold d (st.locks.fresh hq)] at hd
    exact Or.inl ⟨hj, hd⟩
  case rid =>
    intro q x hx
    obtain ⟨r, hr⟩ := hrep.back (F := fun t => t.rid = some x)
      (by rw [hpart]; exact hle.rid x) hx
    exact hinv.rid r x hr
  case own =>
    intro q d key' rid' hd
    rcases hrep.cases (F := fun t => t.own = some (d, key', rid')) hd with
      hnew | ⟨r, hr⟩
    · rw [hown] at hnew
      obtain ⟨rfl, hrest⟩ := Prod.mk.inj (Option.some.inj hnew)
      rw [← hrest]
      exact Function.update_self _ _ _
    · have hop := hinv.own r d key' rid' hr
      rw [hold d (hlt d _ hop), hop]
  case plain =>
    intro q d hd
    obtain ⟨r, hr⟩ := hrep.back (F := fun t => d ∈ t.plain)
      (by rw [hpart]; exact hle.plain d) hd
    rw [hold d (hplain r d hr)]
    exact hinv.plain r d hr
  case cleared =>
    exact fun q d hd => Or.inl (hrep.back (F := fun t => t.stage = .cleared d)
      (by rw [hpart, hstage]; exact id) hd)
  case locked =>
    intro q d hd
    left
    by_cases hq : q = p
    · subst hq
      rw [hpart, ← hstage, ← hrep.self] at hd
      exact ⟨q, hd⟩
    · exact ⟨q, by rwa [hrep.other q hq]⟩
  case awaits =>
    exact fun q key' seen tells h => Or.inl
      (hrep.back (F := fun t => t.awaits = some (key', seen, tells))
        (by rw [hpart]; exact hle.awaits _) h)
  case pending =>
    intro q a ha
    rcases hrep.cases (F := fun t => a ∈ t.pending) ha with hnew | hold
    · exact (hle.pending a hnew).imp (fun h => ⟨p, by rwa [hpart]⟩)
        (fun h => h.truthful _)
    · exact Or.inl hold
  case answers => exact fun a ha => Or.inl ha

/-- Who owns the lock of a key owns it for a run, unless for a look. -/
theorem operation_of_owner (hinv : ReportInv st) {key : Text} {i d : Nat}
    (hi : st.ops.inode (lockFile key) = some i)
    (howner : st.locks.owner i = some d)
    (hprobe : ∀ q Q, st.procs q = some Q → Q.part.probes ≠ some key) :
    ∃ rid, st.operation d = some (key, rid) := by
  obtain ⟨hfile, q, hq⟩ := st.locks.owned howner
  have hheld := (hinv.locks.has q).owned d i hq howner
  have hkey : ∀ key', st.ops.inode (lockFile key') = some i → key' = key :=
    fun key' h => lockFile_injective (st.ops.inode_inj h hi)
  cases hQ : st.procs q with
  | none =>
      rw [Sys.view_none hQ] at hheld
      cases hheld
  | some Q =>
      rw [Sys.view_eq hQ] at hheld
      rcases Proc.own_or_probes hheld with ⟨key', rid, hown⟩ | ⟨key', h, hfds⟩
      · have hop := hinv.own q d key' rid (by rwa [Sys.part_eq hQ])
        obtain ⟨-, hinode, -⟩ := hinv.opened d key' rid hop
        rw [hfile] at hinode
        obtain rfl := hkey key' hinode
        exact ⟨rid, hop⟩
      · rw [← Sys.view_eq hQ] at hfds
        have hinode := (hinv.locks.has q).file d key' hfds
        rw [hfile] at hinode
        obtain rfl := hkey key' hinode
        exact absurd h (hprobe q Q hQ)

/-- Whoever fails to get a lock has met a run, and finds its id or none. -/
theorem seen_of_holder (hinv : ReportInv st) {P : Proc}
    (hp : st.procs p = some P) (hord : Orderly st P) {d seen : Nat}
    (hholder : st.locks.holder d = some seen) {key : Text} {tells : Bool}
    (hasks : P.part.asks = some (d, key, tells)) :
    ∃ rid, st.operation seen = some (key, rid) ∧
      (tells = true → st.ops.Tells key rid) := by
  have howner := FileLocks.holder_eq_some hholder
  have hfds := Proc.fds_of_asks hasks
  rw [← Sys.view_eq hp] at hfds
  have hinode := (hinv.locks.has p).file d key hfds
  obtain ⟨rid, hop⟩ := hinv.operation_of_owner hinode howner
    (hord.noProbe d key tells hasks)
  refine ⟨rid, hop, ?_⟩
  rintro rfl
  rcases hinv.untold _ seen key rid howner hop with ⟨q, hq⟩ | htells
  · exfalso
    cases hQ : st.procs q with
    | none =>
        rw [Sys.part_none hQ] at hq
        cases hq
    | some Q =>
        rw [Sys.part_eq hQ] at hq
        obtain ⟨-, -, key', rid', hown⟩ := Proc.stage_spec (Or.inl hq)
        have hop' := hinv.own q seen key' rid' (by rwa [Sys.part_eq hQ])
        rw [hop] at hop'
        obtain ⟨rfl, rfl⟩ := Prod.mk.inj (Option.some.inj hop')
        exact hord.noStaleId d key hasks q Q seen rid hQ hown hq
  · exact htells

/-- A process starts another. -/
theorem of_child (hinv : ReportInv st) {P P' child : Proc}
    (hp : st.procs p = some P) {q : Nat} (hq : st.procs q = none)
    (hle : P'.part.Le P.part) (hstage : P'.part.stage = P.part.stage)
    (hchild : Child P child.part) {k : FileLocks Nat Nat}
    (hnext : st.locks.next = k.next) (hfile : k.file = st.locks.file)
    (howner : k.owner = st.locks.owner) :
    Unmoved st
      (((st.setLocks k).setProc q (some child)).setProc p (some P')) := by
  have hne : q ≠ p := by
    rintro rfl
    rw [hq] at hp
    cases hp
  apply hinv.of_part_le hp (Sys.part_setProc_self _ _ _) hle.withoutPlain
    (hinv.plain_of_le hp hle) hstage
  case hother =>
    intro r hr
    rw [Sys.part_setProc_of_ne _ _ hr]
    by_cases hrq : r = q
    · subst hrq
      rw [Sys.part_setProc_self, Sys.part_none hq]
      exact Or.inr ⟨rfl, hchild⟩
    · exact Or.inl (Sys.part_setProc_of_ne _ _ hrq)
  case hops => exact OpsDir.Quiet.refl st.ops
  case hnext => exact Nat.le_of_eq hnext
  case hfile => exact fun d _ => congrFun hfile d
  case hop => rfl
  case howner => exact howner
  case hanswers => rfl

/-- A process takes note of the end of another. -/
theorem of_wait (hinv : ReportInv st) {P P' : Proc}
    (hp : st.procs p = some P) {q : Nat} {code : Int}
    (hq : st.procs q = some (.ended code)) (hle : P'.part.Le P.part)
    (hstage : P'.part.stage = P.part.stage) :
    Unmoved st ((st.setProc q none).setProc p (some P')) := by
  apply hinv.of_part_le hp (Sys.part_setProc_self _ _ _) hle.withoutPlain
    (hinv.plain_of_le hp hle) hstage
  case hother =>
    intro r hr
    left
    rw [Sys.part_setProc_of_ne _ _ hr]
    by_cases hrq : r = q
    · rw [hrq, Sys.part_eq hq]
      exact Sys.part_none (Function.update_self _ _ _)
    · exact Sys.part_setProc_of_ne _ _ hrq
  case hops => exact OpsDir.Quiet.refl st.ops
  case hnext => exact Nat.le_refl _
  case hfile => exact fun _ _ => rfl
  case hop => rfl
  case howner => rfl
  case hanswers => rfl

/-- A run writes its id while nobody is about to read that of another. -/
theorem told (hinv : ReportInv st) {P P' : Proc} (hp : st.procs p = some P)
    (hord : Orderly st P) {d : Nat} {key rid : Text}
    (hcleared : P.part.stage = .cleared d)
    (hown : P.part.own = some (d, key, rid)) (hle : P'.part.Le P.part)
    (hidle : P'.part.stage = .idle)
    (hlocks : LockInv
      ((st.setOps (st.ops.writeAt (st.locks.file d) rid)).setProc p
        (some P'))) :
    ReportInv ((st.setOps (st.ops.writeAt (st.locks.file d) rid)).setProc p
      (some P')) := by
  have hpart := Sys.part_eq hp
  have hrep : st.Replaces
      ((st.setOps (st.ops.writeAt (st.locks.file d) rid)).setProc p
        (some P')) p P'.part :=
    ⟨Sys.part_setProc_self _ _ _, fun q hq => Sys.part_setProc_of_ne _ _ hq⟩
  have hle' : P'.part.Le (st.part p) := by rwa [hpart]
  have hop := hinv.own p d key rid (by rwa [hpart])
  obtain ⟨-, hinode, hstrip⟩ := hinv.opened d key rid hop
  obtain ⟨hprivate, hheld, -⟩ := Proc.stage_spec (Or.inr hcleared)
  have howner : st.locks.owner (st.locks.file d) = some d :=
    (hinv.locks.has p).held d (by rwa [Sys.view_eq hp])
  have hdata : (st.ops.writeAt (st.locks.file d) rid).data
      (st.locks.file d) = rid := by
    have hempty := hinv.cleared p d (by rwa [hpart])
    rw [OpsDir.writeAt, OpsDir.data_setData_self, hempty, List.drop_nil,
      List.append_nil]
  have htold : (st.ops.writeAt (st.locks.file d) rid).Tells key rid := by
    have hinode' : (st.ops.writeAt (st.locks.file d) rid).inode
        (lockFile key) = some (st.locks.file d) := hinode
    unfold OpsDir.Tells
    rw [OpsDir.runningId_eq hinode', hdata, idOf, hstrip]
    split_ifs
    · exact Or.inl rfl
    · exact Or.inr rfl
  have hkeep : ∀ e key' rid', st.operation e = some (key', rid') →
      key' ≠ key → st.ops.Tells key' rid' →
      (st.ops.writeAt (st.locks.file d) rid).Tells key' rid' := by
    intro e key' rid' he hne htells
    obtain ⟨-, hinode', -⟩ := hinv.opened e key' rid' he
    have hfile : st.locks.file e ≠ st.locks.file d := by
      intro hfile
      rw [hfile] at hinode'
      exact hne (lockFile_injective (st.ops.inode_inj hinode' hinode))
    have hnew : (st.ops.writeAt (st.locks.file d) rid).inode
        (lockFile key') = some (st.locks.file e) := hinode'
    unfold OpsDir.Tells at htells ⊢
    rw [OpsDir.runningId_eq hinode'] at htells
    rwa [OpsDir.runningId_eq hnew, OpsDir.writeAt,
      OpsDir.data_setData_of_ne hfile]
  have hsame : ∀ e, st.locks.owner (st.locks.file d) = some e → e = d := by
    intro e he
    rw [howner] at he
    exact (Option.some.inj he).symm
  constructor
  case locks => exact hlocks
  case opened => exact hinv.opened
  case rid =>
    intro q x hx
    obtain ⟨r, hr⟩ := hrep.back (F := fun t => t.rid = some x)
      (hle'.rid x) hx
    exact hinv.rid r x hr
  case own =>
    intro q e key' rid' he
    obtain ⟨r, hr⟩ := hrep.back (F := fun t => t.own = some (e, key', rid'))
      (hle'.own _) he
    exact hinv.own r e key' rid' hr
  case plain =>
    intro q e he
    obtain ⟨r, hr⟩ := hrep.back (F := fun t => e ∈ t.plain)
      (hle'.plain e) he
    exact hinv.plain r e hr
  case untold =>
    intro i e key' rid' hi he
    by_cases hkey : key' = key
    · subst hkey
      right
      obtain ⟨-, hinode', -⟩ := hinv.opened e key' rid' he
      have hfile : st.locks.file e = st.locks.file d :=
        Option.some.inj (hinode'.symm.trans hinode)
      obtain ⟨hi', -⟩ := st.locks.owned hi
      have hed : e = d := by
        apply hsame e
        rw [← hfile, hi']
        exact hi
      have he' : st.operation d = some (key', rid') := by
        rw [← hed]
        exact he
      rw [hop] at he'
      obtain ⟨-, rfl⟩ := Prod.mk.inj (Option.some.inj he')
      exact htold
    · rcases hinv.untold i e key' rid' hi he with ⟨q, hq⟩ | htells
      · have hqp : q ≠ p := by
          rintro rfl
          rw [hpart, hcleared] at hq
          cases hq
        exact Or.inl ⟨q, by rwa [hrep.other q hqp]⟩
      · exact Or.inr (hkeep e key' rid' he hkey htells)
  case cleared =>
    intro q e he
    by_cases hq : q = p
    · subst hq
      rw [hrep.self, hidle] at he
      cases he
    · rw [hrep.other q hq] at he
      have hfile : st.locks.file e ≠ st.locks.file d := by
        intro hfile
        cases hQ : st.procs q with
        | none =>
            rw [Sys.part_none hQ] at he
            cases he
        | some Q =>
            rw [Sys.part_eq hQ] at he
            obtain ⟨-, hqheld, key', rid', hqown⟩ :=
              Proc.stage_spec (Or.inr he)
            have hqe := (hinv.locks.has q).held e (by rwa [Sys.view_eq hQ])
            rw [hfile] at hqe
            obtain rfl := hsame e hqe
            have hqref : (q, e) ∈ st.locks.refs := by
              apply ((hinv.locks.has q).ref e).2
              rw [Sys.view_eq hQ]
              exact ⟨key', Proc.fds_of_own hqown⟩
            have hpref : (p, e) ∈ st.locks.refs := by
              apply ((hinv.locks.has p).ref e).2
              rw [Sys.view_eq hp]
              exact ⟨key, Proc.fds_of_own hown⟩
            obtain ⟨hshare, -⟩ :=
              hinv.locks.shared p q e (Ne.symm hq) hpref hqref
            rw [Sys.view_eq hp, hprivate] at hshare
            cases hshare
      exact (OpsDir.data_setData_of_ne hfile).trans (hinv.cleared q e he)
  case awaits =>
    intro q key' seen tells h
    obtain ⟨r, hst⟩ := hrep.back
      (F := fun t => t.awaits = some (key', seen, tells)) (hle'.awaits _) h
    obtain ⟨rid', hseen, htells⟩ := hinv.awaits r key' seen tells hst
    refine ⟨rid', hseen, ?_⟩
    rintro rfl
    by_cases hkey : key' = key
    · subst hkey
      cases hQ : st.procs r with
      | none =>
          rw [Sys.part_none hQ] at hst
          cases hst
      | some Q =>
          rw [Sys.part_eq hQ] at hst
          obtain rfl := hord.noLaterId d key' rid hcleared hown r Q seen hQ hst
          rw [hop] at hseen
          obtain ⟨-, rfl⟩ := Prod.mk.inj (Option.some.inj hseen)
          exact htold
    · exact hkeep seen key' rid' hseen hkey (htells rfl)
  case pending =>
    intro q a ha
    rcases hrep.cases (F := fun t => a ∈ t.pending) ha with hnew | ⟨r, hr⟩
    · rcases hle'.pending a hnew with hold | hplain
      · exact hinv.pending p a hold
      · exact hplain.truthful _
    · exact hinv.pending r a hr
  case answers => exact hinv.answers

variable {loads : Text → Option Rec} {reg : Registry}

theorem exec (hinv : ReportInv st) {P : Proc} (hp : st.procs p = some P)
    {c : Choice} {m : Move} (hm : m.Talks P) (hs : m.Sound P.view)
    (hord : Orderly st P) (h : st.exec loads p c m = some st') :
    ReportInv st' := by
  have hlocks : LockInv st' := hinv.locks.exec hp hs h
  have hquiet : ∀ {P' : Proc} {o : OpsDir}, P'.part.Le P.part →
      P'.part.stage = P.part.stage → st.ops.Quiet o →
      Unmoved st ((st.setOps o).setProc p (some P')) :=
    fun hle hstage ho => hinv.of_le hp rfl rfl ho (fun _ _ h => Or.inl h) hle
      (Or.inl hstage)
  have hlocal : ∀ {P' : Proc}, P'.part.Le P.part →
      P'.part.stage = P.part.stage →
      Unmoved st (st.setProc p (some P')) :=
    fun hle hstage => hquiet hle hstage (OpsDir.Quiet.refl st.ops)
  have hgot : ∀ {P' : Proc} {d : Nat} (href : (p, d) ∈ st.locks.refs),
      P'.part.Le P.part →
      (P'.part.stage = P.part.stage ∧ d ∈ P.part.plain ∨
        P'.part.stage = .locked d ∧ P.part.stage = .idle) →
      Unmoved st
        ((st.setLocks (st.locks.locked href)).setProc p (some P')) := by
    intro P' d href hle hstage
    refine hinv.of_le hp (k := st.locks.locked href) rfl rfl
      (OpsDir.Quiet.refl st.ops) ?_ hle ?_
    · intro i e he
      rcases FileLocks.owner_of_locked he with ⟨-, rfl⟩ | hold
      · rcases hstage with ⟨-, hplain⟩ | ⟨hlocked, -⟩
        · exact Or.inr (Or.inl (hinv.plain p e (by rwa [Sys.part_eq hp])))
        · exact Or.inr (Or.inr hlocked)
      · exact Or.inl hold
    · rcases hstage with ⟨hsame, -⟩ | ⟨hlocked, hidle⟩
      · exact Or.inl hsame
      · exact Or.inr (Or.inl ⟨hidle, d, hlocked⟩)
  cases m with
  | openLock key rid k =>
      obtain rfl := Option.some.inj h
      cases rid with
      | none =>
          obtain ⟨hle, hstage, hplain⟩ := hm st.locks.next
          exact hinv.unmoved hlocks
            (hinv.of_opens hp (st.ops.quiet_ensure _) hle hstage hplain)
      | some rid =>
          obtain ⟨hrid, hk⟩ := hm
          obtain ⟨hle, hstage, hown⟩ := hk st.locks.next
          exact hinv.unmoved hlocks
            (hinv.of_opensRun hp (st.ops.quiet_ensure _)
              (st.ops.inode_ensure _) hrid hle hstage hown)
  | openGuard k =>
      obtain rfl := Option.some.inj h
      obtain ⟨hle, hstage, hplain⟩ := hm st.locks.next
      exact hinv.unmoved hlocks
        (hinv.of_opens hp (st.ops.quiet_openGuard _) hle hstage hplain)
  | flock d k =>
      obtain ⟨⟨hle, hstage⟩, hlost⟩ := hm
      simp only [Sys.exec] at h
      split_ifs at h with href
      cases hfree : st.locks.holder d with
      | none =>
          rw [hfree] at h
          obtain rfl := Option.some.inj h
          exact hinv.unmoved hlocks (hgot href hle hstage)
      | some seen =>
          rw [hfree] at h
          obtain rfl := Option.some.inj h
          obtain ⟨hle', hstage', hawaits⟩ := hlost seen
          apply hinv.unmoved hlocks
          refine hinv.of_setProc hp (k := st.locks) (o := st.ops) rfl rfl
            (OpsDir.Quiet.refl st.ops) (fun _ _ h => Or.inl h) ?_
            (Or.inl hstage') ?_ ?_
          · exact ⟨hle'.rid, hle'.own, hle'.awaits, hle'.plain,
              fun a h => (by cases h)⟩
          · intro key s tells hs'
            obtain ⟨rfl, hasks⟩ := hawaits key s tells hs'
            exact Or.inr (hinv.seen_of_holder hp hord hfree hasks)
          · intro a ha
            exact (hle'.pending a ha).imp_right (fun h => h.truthful _)
  | flockWait d k =>
      obtain ⟨hle, hstage, hplain⟩ := hm
      simp only [Sys.exec] at h
      split_ifs at h with href
      cases hfree : st.locks.holder d with
      | none =>
          rw [hfree] at h
          obtain rfl := Option.some.inj h
          exact hinv.unmoved hlocks
            (hgot href hle (Or.inl ⟨hstage, hplain⟩))
      | some seen =>
          rw [hfree] at h
          cases h
  | close d k =>
      obtain ⟨hle, hstage⟩ := hm
      obtain rfl := Option.some.inj h
      exact hinv.unmoved hlocks
        (hinv.of_le hp (k := st.locks.close p d) rfl rfl
          (OpsDir.Quiet.refl st.ops)
          (fun _ _ h => Or.inl (FileLocks.owner_of_keep h)) hle
          (Or.inl hstage))
  | truncate d k =>
      obtain ⟨hlocked, hle, hcleared⟩ := hm
      obtain rfl := Option.some.inj h
      exact hinv.unmoved hlocks
        (hinv.of_le hp (k := st.locks) rfl rfl (st.ops.quiet_setData_nil _)
          (fun _ _ h => Or.inl h) hle
          (Or.inr (Or.inr
            ⟨d, hlocked, hcleared, OpsDir.data_setData_self⟩)))
  | write d rid k =>
      obtain ⟨hcleared, hle, hidle, key, hown⟩ := hm
      obtain rfl := Option.some.inj h
      exact hinv.told hp hord hcleared hown hle hidle hlocks
  | readId key k =>
      obtain ⟨hle, hstage, hpending⟩ := hm (st.ops.runningId key)
      obtain rfl := Option.some.inj h
      apply hinv.unmoved hlocks
      refine hinv.of_setProc hp (k := st.locks) (o := st.ops) rfl rfl
        (OpsDir.Quiet.refl st.ops) (fun _ _ h => Or.inl h) ?_
        (Or.inl hstage) ?_ ?_
      · exact ⟨hle.rid, hle.own, fun x h => (by cases h), hle.plain,
          fun a h => (by cases h)⟩
      · exact fun key seen tells h => Or.inl (hle.awaits _ h)
      · intro a ha
        rcases hpending a ha with hold | ⟨seen, tells, hawaits, hfits⟩
        · exact Or.inl hold
        · rw [← Sys.part_eq hp] at hawaits
          obtain ⟨rid, hop, htells⟩ := hinv.awaits p key seen tells hawaits
          exact Or.inr (hfits.truthful hop htells)
  | saveTmp rid r k =>
      obtain ⟨hle, hstage⟩ := hm
      cases c with
      | text t =>
          simp only [Sys.exec] at h
          split_ifs at h
          obtain rfl := Option.some.inj h
          exact hinv.unmoved hlocks (hquiet hle hstage
            (st.ops.quiet_writeText t (tmpFile_ne_lockFile rid)))
      | _ => cases h
  | saveRename a k =>
      obtain ⟨hle, hstage⟩ := hm
      obtain rfl := Option.some.inj h
      exact hinv.unmoved hlocks (hquiet hle hstage
        (st.ops.quiet_rename (tmpFile_ne_lockFile a.rid)
          (recordFile_ne_lockFile a.accepted)))
  | readRecord n k =>
      obtain rfl := Option.some.inj h
      obtain ⟨hle, hstage⟩ := hm ((st.ops.readText n).bind loads)
      exact hinv.unmoved hlocks (hlocal hle hstage)
  | pathExists n k =>
      obtain rfl := Option.some.inj h
      obtain ⟨hle, hstage⟩ := hm (st.ops.inode n).isSome
      exact hinv.unmoved hlocks (hlocal hle hstage)
  | listdir k =>
      cases c with
      | names ns =>
          simp only [Sys.exec] at h
          split_ifs at h
          obtain rfl := Option.some.inj h
          obtain ⟨hle, hstage⟩ := hm ns
          exact hinv.unmoved hlocks (hlocal hle hstage)
      | _ => cases h
  | unlink n k =>
      obtain ⟨hle, hstage⟩ := hm
      obtain rfl := Option.some.inj h
      exact hinv.unmoved hlocks (hquiet hle hstage
        (st.ops.quiet_unlink (fun _ => ne_lockFile_of_head? n.2)))
  | popen child pass k =>
      obtain ⟨hk, hchildLe, hidle, hlaunch⟩ := hm
      have hchild : Child P child.part := by
        refine ⟨?_, hchildLe, hidle⟩
        intro rid hrid
        obtain ⟨name, e, hP⟩ := hlaunch rid hrid
        exact hord.plainId name e rid hP
      cases c with
      | pid q =>
          obtain ⟨hle, hstage⟩ := hk q
          simp only [Sys.exec] at h
          cases hq : st.procs q with
          | some Q => simp [hq] at h
          | none =>
              rw [hq] at h
              cases pass with
              | none =>
                  obtain rfl := Option.some.inj h
                  exact hinv.unmoved hlocks
                    (hinv.of_child hp hq hle hstage hchild (k := st.locks)
                      rfl rfl rfl)
              | some d =>
                  dsimp only at h
                  split_ifs at h with href
                  obtain rfl := Option.some.inj h
                  exact hinv.unmoved hlocks
                    (hinv.of_child hp hq hle hstage hchild
                      (k := st.locks.inherited href q) rfl rfl rfl)
      | _ => cases h
  | wait q k =>
      simp only [Sys.exec] at h
      cases hq : st.procs q with
      | none => simp [hq] at h
      | some Q =>
          cases Q with
          | ended code =>
              rw [hq] at h
              obtain rfl := Option.some.inj h
              obtain ⟨hle, hstage⟩ := hm code
              exact hinv.unmoved hlocks (hinv.of_wait hp hq hle hstage)
          | _ => simp [hq] at h
  | choose k =>
      obtain ⟨P', hP', rfl⟩ := Option.map_eq_some_iff.1 h
      obtain ⟨hle, hstage⟩ := hm c P' hP'
      exact hinv.unmoved hlocks (hlocal hle hstage)
  | say answers =>
      obtain rfl := Option.some.inj h
      have hgone : Unmoved st (st.gone p none) :=
        hinv.of_gone p (fun _ hP => by cases hP)
      refine hinv.unmoved hlocks ⟨hgone.ops, hgone.next, hgone.file,
        hgone.operation, hgone.opened, hgone.owner, hgone.rid, hgone.own,
        hgone.plain, hgone.cleared, hgone.locked, hgone.awaits,
        hgone.pending, ?_⟩
      intro a ha
      rcases List.mem_append.1 ha with ha | ha
      · exact Or.inr ⟨p, by rw [Sys.part_eq hp]; exact hm a ha⟩
      · exact Or.inl ha
  | exits =>
      cases c with
      | code n =>
          obtain rfl := Option.some.inj h
          apply hinv.unmoved hlocks
          apply hinv.of_gone p
          intro P' hP'
          obtain rfl := Option.some.inj hP'
          rfl
      | _ => cases h
  | exit =>
      obtain rfl := Option.some.inj h
      exact hinv.unmoved hlocks
        (hinv.of_gone p (fun _ hP => by cases hP))
  | stuck => cases h

theorem begin (hinv : ReportInv st) {P : Proc} (h : st.begin p P = some st')
    (hlocks : LockInv st') (hrid : ∀ x, P.part.rid = some x → strip x = x)
    (hle : ({ P.part with rid := none } : Part).Le Part.none)
    (hstage : P.part.stage = .idle) : ReportInv st' := by
  unfold Sys.begin at h
  cases hp : st.procs p with
  | some Q => simp [hp] at h
  | none =>
      rw [hp] at h
      obtain rfl := Option.some.inj h
      have hpart : st.part p = Part.none := Sys.part_none hp
      have hrep := st.replaces_setProc p P
      apply hinv.unmoved hlocks
      constructor
      case ops => exact OpsDir.Quiet.refl st.ops
      case next => exact Nat.le_refl _
      case file => exact fun _ _ => rfl
      case operation => exact fun _ _ hd => hd
      case opened => exact fun _ _ _ hd => Or.inl hd
      case owner => exact fun _ _ _ hi hd => Or.inl ⟨hi, hd⟩
      case rid =>
        intro q x hx
        rcases hrep.cases (F := fun t => t.rid = some x) hx with
          hnew | ⟨r, hr⟩
        · exact hrid x hnew
        · exact hinv.rid r x hr
      case own =>
        intro q d key rid hd
        rcases hrep.cases (F := fun t => t.own = some (d, key, rid)) hd with
          hnew | ⟨r, hr⟩
        · cases hle.own _ hnew
        · exact hinv.own r d key rid hr
      case plain =>
        intro q d hd
        rcases hrep.cases (F := fun t => d ∈ t.plain) hd with
          hnew | ⟨r, hr⟩
        · cases hle.plain d hnew
        · exact hinv.plain r d hr
      case cleared =>
        exact fun q d hd => Or.inl
          (hrep.back (F := fun t => t.stage = .cleared d)
            (fun h => by rw [hstage] at h; cases h) hd)
      case locked =>
        intro q d hd
        have hq : q ≠ p := by
          rintro rfl
          rw [hpart] at hd
          cases hd
        exact Or.inl ⟨q, by rwa [hrep.other q hq]⟩
      case awaits =>
        exact fun q key seen tells ha => Or.inl
          (hrep.back (F := fun t => t.awaits = some (key, seen, tells))
            (fun h => by cases hle.awaits _ h) ha)
      case pending =>
        intro q a ha
        rcases hrep.cases (F := fun t => a ∈ t.pending) ha with hnew | hold
        · rcases hle.pending a hnew with hnil | hplain
          · cases hnil
          · exact Or.inr (hplain.truthful _)
        · exact Or.inl hold
      case answers => exact fun a ha => Or.inl ha

/-- Every step that crosses nobody else's keeps the invariant. -/
theorem step (hinv : ReportInv st) {act : Act} (hcalm : Calm st act)
    (h : st.step loads reg act = some st') : ReportInv st' := by
  have hlocks : LockInv st' := hinv.locks.step h
  have hnone := Part.Le.refl Part.none
  cases act with
  | run p name rid =>
      simp only [Sys.step] at h
      cases he : reg.piece? name with
      | none => simp [he] at h
      | some e =>
          rw [he] at h
          dsimp only at h
          split_ifs at h with hid
          refine hinv.begin h hlocks ?_ hnone rfl
          intro x hx
          obtain rfl := Option.some.inj hx
          exact hcalm
  | start p name =>
      simp only [Sys.step] at h
      cases he : reg.piece? name with
      | none => simp [he] at h
      | some e =>
          rw [he] at h
          exact hinv.begin h hlocks (fun x hx => by cases hx) hnone rfl
  | list p => exact hinv.begin h hlocks (fun x hx => by cases hx) hnone rfl
  | step p c =>
      simp only [Sys.step] at h
      cases hp : st.procs p with
      | none => simp [hp] at h
      | some P =>
          rw [hp] at h
          exact hinv.exec hp (P.move_talks reg) (P.move_sound reg)
            (hcalm P hp) h
  | raise p =>
      simp only [Sys.step] at h
      cases hp : st.procs p with
      | none => simp [hp] at h
      | some P =>
          rw [hp] at h
          obtain ⟨P', hP', rfl⟩ := Option.map_eq_some_iff.1 h
          obtain ⟨hle, hstage⟩ := Proc.raised_part hP'
          exact hinv.unmoved hlocks
            (hinv.of_le hp (k := st.locks) (o := st.ops) rfl rfl
              (OpsDir.Quiet.refl st.ops) (fun _ _ h => Or.inl h) hle
              (Or.inl hstage))
  | die p =>
      simp only [Sys.step] at h
      cases hp : st.procs p with
      | none => simp [hp] at h
      | some P =>
          rw [hp] at h
          cases P with
          | play a d =>
              obtain rfl := Option.some.inj h
              apply hinv.unmoved hlocks
              apply hinv.of_gone p
              intro P' hP'
              obtain rfl := Option.some.inj hP'
              rfl
          | ended code => cases h
          | _ =>
              obtain rfl := Option.some.inj h
              exact hinv.unmoved hlocks
                (hinv.of_gone p (fun _ hP => by cases hP))

end ReportInv

/-- In every run of the system whose steps cross nobody else's, every answer
about a taken lock is truthful. -/
theorem answers_truthful {loads : Text → Option Rec} {reg : Registry}
    {o : OpsDir} {st : Sys}
    (h : Reach (Sys.step loads reg) Calm (Sys.init o) st) :
    ∀ a ∈ st.answers, Truthful st.operation a := by
  have hinv : ReportInv st :=
    h.inv (ReportInv.init o) (fun _ _ _ hs hok hstep => hs.step hok hstep)
  exact hinv.answers

/-- A call that tries no lock, tells no id and starts no run. -/
theorem orderly_of_quiet {st : Sys} {P : Proc} (hasks : P.part.asks = none)
    (hstage : ∀ d, P.part.stage ≠ .cleared d)
    (hstart : ∀ name p rid, P ≠ .start name p (.launched rid)) :
    Orderly st P where
  noProbe := by
    intro d key tells h
    rw [hasks] at h
    cases h
  noStaleId := by
    intro d key h
    rw [hasks] at h
    cases h
  noLaterId := fun d _ _ h => absurd h (hstage d)
  plainId := fun name p rid h => absurd h (hstart name p rid)

/-- A run tells its id, and somebody else starts the piece. -/
def startWhileRunning : List Act :=
  [.run 0 "ran_link".toList ranLinkId, .step 0 .go, .step 0 .go, .step 0 .go,
    .step 0 .go, .start 1 "ran_link".toList, .step 1 .go, .step 1 .go,
    .step 1 .go, .step 1 .go, .step 1 .go]

/-- The answer gives the id of the run that has the lock. -/
theorem answers_truthful_startWhileRunning :
    ∃ st, Reach (Sys.step loadsRanLink ranLink) Calm (Sys.init emptyOps) st ∧
      exec (Sys.step loadsRanLink ranLink) (Sys.init emptyOps)
        startWhileRunning = some st ∧
      st.answers = [.busy "ran".toList (.running (some ranLinkId)) 0] ∧
      ∀ a ∈ st.answers, Truthful st.operation a := by
  have hcalm : ∀ {st : Sys} {p : Nat} {P : Proc} {c : Choice},
      st.procs p = some P → Orderly st P → Calm st (.step p c) := by
    intro st p P c hp hord P' hP'
    rw [hp] at hP'
    exact Option.some.inj hP' ▸ hord
  have hquiet : ∀ {st : Sys} {p : Nat} {P : Proc} {c : Choice},
      st.procs p = some P → P.part.asks = none →
      (∀ d, P.part.stage ≠ .cleared d) →
      (∀ name e rid, P ≠ .start name e (.launched rid)) →
      Calm st (.step p c) :=
    fun hp h₁ h₂ h₃ => hcalm hp (orderly_of_quiet h₁ h₂ h₃)
  have hrun : Calm (Sys.init emptyOps) (.run 0 "ran_link".toList ranLinkId) := by
    change strip ranLinkId = ranLinkId
    decide
  have hstart : ∀ {st : Sys} {name : Text}, Calm st (.start 1 name) :=
    trivial
  -- the run opens its lock file, tries the lock and empties the file
  have h₁ : Reach (Sys.step loadsRanLink ranLink) Calm (Sys.init emptyOps) _ :=
    Reach.refl.step hrun rfl
  have h₂ := h₁.step (a := Act.step 0 .go)
    (hquiet rfl rfl (fun _ h => by cases h) (fun _ _ _ h => by cases h)) rfl
  have h₃ := h₂.step (a := Act.step 0 .go) (hcalm rfl
    { noProbe := by
        intro d key tells _ q Q hQ
        match q with
        | 0 =>
            cases hQ
            exact (fun hk => by cases hk)
        | q + 1 => cases hQ
      noStaleId := fun _ _ h => by cases h
      noLaterId := fun _ _ _ h => by cases h
      plainId := fun _ _ _ h => by cases h }) rfl
  have h₄ := h₃.step (a := Act.step 0 .go)
    (hquiet rfl rfl (fun _ h => by cases h) (fun _ _ _ h => by cases h)) rfl
  -- it writes its id while nobody is about to read one
  have h₅ := h₄.step (a := Act.step 0 .go) (hcalm rfl
    { noProbe := fun _ _ _ h => by cases h
      noStaleId := fun _ _ h => by cases h
      noLaterId := by
        intro d key rid _ _ q Q seen hQ hseen
        match q with
        | 0 =>
            cases hQ
            cases hseen
        | q + 1 => cases hQ
      plainId := fun _ _ _ h => by cases h }) rfl
  -- the other looks at the lock, meets the run and reads its id
  have h₆ := h₅.step (a := Act.start 1 "ran_link".toList) hstart rfl
  have h₇ := h₆.step (a := Act.step 1 .go)
    (hquiet rfl rfl (fun _ h => by cases h) (fun _ _ _ h => by cases h)) rfl
  have h₈ := h₇.step (a := Act.step 1 .go) (hcalm rfl
    { noProbe := by
        intro d key tells _ q Q hQ
        match q with
        | 0 =>
            cases hQ
            exact (fun hk => by cases hk)
        | 1 =>
            cases hQ
            exact (fun hk => by cases hk)
        | q + 2 => cases hQ
      noStaleId := by
        intro d key _ q Q e rid hQ _
        match q with
        | 0 =>
            cases hQ
            exact (fun hk => by cases hk)
        | 1 =>
            cases hQ
            exact (fun hk => by cases hk)
        | q + 2 => cases hQ
      noLaterId := fun _ _ _ h => by cases h
      plainId := fun _ _ _ h => by cases h }) rfl
  have h₉ := h₈.step (a := Act.step 1 .go)
    (hquiet rfl rfl (fun _ h => by cases h) (fun _ _ _ h => by cases h)) rfl
  have h₁₀ := h₉.step (a := Act.step 1 .go)
    (hquiet rfl rfl (fun _ h => by cases h) (fun _ _ _ h => by cases h)) rfl
  have h₁₁ := h₁₀.step (a := Act.step 1 .go)
    (hquiet rfl rfl (fun _ h => by cases h) (fun _ _ _ h => by cases h)) rfl
  exact ⟨_, h₁₁, rfl, rfl, answers_truthful h₁₁⟩

/-- `start` looks whether the lock is free while a run tries it. -/
def runWhileLooking : List Act :=
  [.start 0 "ran_link".toList, .step 0 .go, .step 0 .go,
    .run 1 "ran_link".toList ranLinkId, .step 1 .go, .step 1 .go, .step 1 .go,
    .step 1 .go, .step 1 .go]

/-- The run is refused although no run has the lock. -/
theorem startProbe_refuses :
    ¬ ∀ loads reg o st, ReachAny (Sys.step loads reg) (Sys.init o) st →
      ∀ a ∈ st.answers, Truthful st.operation a := by
  intro h
  cases hrun : exec (Sys.step loadsRanLink ranLink) (Sys.init emptyOps)
      runWhileLooking with
  | none => cases hrun
  | some st =>
      have htrue := h _ _ _ st (Reach.refl.exec hrun)
        (.refused "ran".toList none 0)
      cases hrun
      obtain ⟨rid, hrid⟩ := htrue List.mem_cons_self
      cases hrid

/-- The records directory after an older run: its id is in the lock file. -/
def olderRun : OpsDir where
  inode n := if n = lockFile "ran".toList then some 0 else none
  data _ := "20260926-100000-000001-ran_link".toList
  next := 1
  inode_lt := by
    intro n i h
    split_ifs at h
    cases h
    exact Nat.zero_lt_one
  inode_inj := by
    intro n m i hn hm
    split_ifs at hn hm with h₁ h₂
    exact h₁.trans h₂.symm

/-- A run has the lock and has not emptied its file; `start` looks. -/
def startBeforeId : List Act :=
  [.run 0 "ran_link".toList ranLinkId, .step 0 .go, .step 0 .go,
    .start 1 "ran_link".toList, .step 1 .go, .step 1 .go, .step 1 .go,
    .step 1 .go, .step 1 .go]

/-- The older run is reported as running, and not the one that runs. -/
theorem staleId_reported :
    ∃ st, ReachAny (Sys.step loadsRanLink ranLink) (Sys.init olderRun) st ∧
      st.answers =
        [.busy "ran".toList
          (.running (some "20260926-100000-000001-ran_link".toList)) 0] ∧
      st.operation 0 = some ("ran".toList, ranLinkId) := by
  cases hrun : exec (Sys.step loadsRanLink ranLink) (Sys.init olderRun)
      startBeforeId with
  | none => cases hrun
  | some st =>
      have hreach := Reach.refl.exec hrun
      cases hrun
      exact ⟨_, hreach, rfl, rfl⟩

end LockTruth

end Piece
end Kelt
