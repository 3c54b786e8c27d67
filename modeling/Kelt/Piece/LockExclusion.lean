import Kelt.Piece.Processes

/-!
# One run at a time under one lock key

What a process has open and what it has locked is a matter of the place it is
at (`View`), and every call changes it as calls do (`Move.Sound`). The records
directory and the locks agree with it in every reachable state (`LockInv`): a
run that has its lock keeps it until its own descriptor and those of its
playbooks are closed, whoever dies in between.
-/

namespace Kelt
namespace Piece

section LockExclusion

/-- The files that a process has open, by description and lock key, the newest
first; the descriptions through which it has the lock; and the one that
playbooks may share. -/
structure View where
  fds : List (Nat × Text)
  held : List Nat
  shared : Option Nat
  isPlay : Bool

def View.empty : View :=
  ⟨[], [], none, false⟩

def Look.fds (l : Look) : List (Nat × Text) :=
  match l.pc with
  | .opening => []
  | .opened d => [(d, l.key)]
  | .got d => [(d, l.key)]
  | .lost d _ => [(d, l.key)]
  | .reading _ => []

def Look.held (l : Look) : List Nat :=
  match l.pc with
  | .got d => [d]
  | _ => []

def Look.view (l : Look) : View :=
  ⟨l.fds, l.held, none, false⟩

/-- Besides the lock of the run. -/
def Body.fds : Body → List (Nat × Text)
  | .guardOpened g _ => [(g, guardKey)]
  | .guarded g _ => [(g, guardKey)]
  | .guardFailed g => [(g, guardKey)]
  | .pruning (.looking _ look _ _ _) => look.fds
  | _ => []

def Body.held : Body → List Nat
  | .guarded g _ => [g]
  | .guardFailed g => [g]
  | .pruning (.looking _ look _ _ _) => look.held
  | _ => []

/-- The id of the run is in the lock file. -/
def Body.told : Body → Bool
  | .locked => false
  | .cleared => false
  | _ => true

def RunArgs.view (a : RunArgs) : RunPc → View
  | .opening => .empty
  | .opened d => ⟨[(d, a.key)], [], none, false⟩
  | .lost d _ => ⟨[(d, a.key)], [], none, false⟩
  | .refused _ => .empty
  | .body d b =>
      ⟨b.fds ++ [(d, a.key)], b.held ++ [d], if b.told then some d else none,
        false⟩

def Proc.view : Proc → View
  | .run a pc => a.view pc
  | .play a d => ⟨[(d, a.key)], [d], some d, true⟩
  | .start _ _ (.asking look) => look.view
  | .start _ _ (.probing _ look) => look.view
  | .list (.looking _ look _) _ => look.view
  | _ => .empty

/-- A call changes the view of a process as the call does. -/
def Move.Sound (v : View) : Move → Prop
  | .openLock key _ k =>
      ∀ d, (k d).view = { v with fds := (d, key) :: v.fds }
  | .openGuard k =>
      ∀ d, (k d).view = { v with fds := (d, guardKey) :: v.fds }
  | .flock d k =>
      (∃ key rest, v.fds = (d, key) :: rest ∧
        ∀ e, v.shared = some e → e ∈ rest.map Prod.fst) ∧
      (k none).view = { v with held := d :: v.held } ∧
      ∀ seen, (k (some seen)).view = v
  | .flockWait d k =>
      (∃ key rest, v.fds = (d, key) :: rest ∧
        ∀ e, v.shared = some e → e ∈ rest.map Prod.fst) ∧
      k.view = { v with held := d :: v.held }
  | .close d k =>
      (∃ key, v.fds = (d, key) :: k.view.fds) ∧
      (v.held = k.view.held ∨ v.held = d :: k.view.held) ∧
      k.view.shared = v.shared ∧ k.view.isPlay = v.isPlay
  | .truncate _ k => k.view = v
  | .write d _ k =>
      v.shared = none ∧ k.view = { v with shared := some d } ∧ d ∈ v.held
  | .readId _ k => ∀ id, (k id).view = v
  | .saveTmp _ _ k => k.view = v
  | .saveRename _ k => k.view = v
  | .readRecord _ k => ∀ r, (k r).view = v
  | .pathExists _ k => ∀ found, (k found).view = v
  | .listdir k => ∀ ns, (k ns).view = v
  | .unlink _ k => k.view = v
  | .popen child pass k =>
      (∀ q, (k q).view = v) ∧
      match pass with
      | some d =>
          v.shared = some d ∧
            ∃ key, (d, key) ∈ v.fds ∧
              child.view = ⟨[(d, key)], [d], some d, true⟩
      | none => child.view = .empty
  | .wait _ k => ∀ code, (k code).view = v
  | .choose k => ∀ c P, k c = some P → P.view = v
  | .say _ => True
  | .exits => True
  | .exit => True
  | .stuck => True

/-- A look of a process that has `fds` and `locks` besides. -/
theorem Look.move_sound (fds : List (Nat × Text)) (locks : List Nat)
    {l : Look} {again : Look → Proc} {free : Proc}
    {held : Nat → Option Text → Proc} {v : View}
    (hagain : ∀ l', (again l').view =
      ⟨l'.fds ++ fds, l'.held ++ locks, v.shared, v.isPlay⟩)
    (hfree : free.view = ⟨fds, locks, v.shared, v.isPlay⟩)
    (hheld : ∀ seen other,
      (held seen other).view = ⟨fds, locks, v.shared, v.isPlay⟩)
    (hv : v = ⟨l.fds ++ fds, l.held ++ locks, v.shared, v.isPlay⟩)
    (hshared : ∀ e, v.shared = some e → e ∈ fds.map Prod.fst) :
    (l.move again free held).Sound v := by
  obtain ⟨key, pc⟩ := l
  cases pc with
  | opening =>
      intro d
      rw [hagain, hv]
      rfl
  | opened d =>
      refine ⟨⟨key, fds, by rw [hv]; rfl, hshared⟩, ?_, ?_⟩
      · rw [hv]
        exact hagain _
      · intro seen
        rw [hv]
        exact hagain _
  | got d =>
      refine ⟨⟨key, ?_⟩, Or.inr ?_, ?_, ?_⟩
      · rw [hfree, hv]
        rfl
      · rw [hfree, hv]
        rfl
      · rw [hfree]
      · rw [hfree]
  | lost d seen =>
      refine ⟨⟨key, ?_⟩, Or.inl ?_, ?_, ?_⟩
      · rw [hagain, hv]
        rfl
      · rw [hagain, hv]
        rfl
      · rw [hagain]
      · rw [hagain]
  | reading seen =>
      intro id
      rw [hheld, hv]
      rfl

theorem PrunePc.move_sound (reg : Registry) (a : RunArgs) (d : Nat)
    (pc : PrunePc) :
    (pc.move reg a.rid (fun pc => .run a (.body d (.pruning pc)))
      (.run a (.body d .closing))).Sound
      (Proc.run a (.body d (.pruning pc))).view := by
  cases pc with
  | listing => exact fun _ => rfl
  | checking todo files doomed =>
      cases todo with
      | nil =>
          intro c P hP
          obtain rfl := Option.some.inj hP
          rfl
      | cons rid todo =>
          intro r
          cases r with
          | none =>
              beta_reduce
              split_ifs <;> rfl
          | some r =>
              beta_reduce
              dsimp only
              split_ifs <;> rfl
  | looking rid look todo files doomed =>
      rw [PrunePc.move]
      apply Look.move_sound [(d, a.key)] [d]
      · exact fun _ => rfl
      · rfl
      · intro seen other
        split_ifs <;> rfl
      · rfl
      · intro e he
        obtain rfl := Option.some.inj he
        exact List.mem_singleton.2 rfl
  | deleting files =>
      intro c P hP
      cases c with
      | pick i =>
          obtain ⟨n, -, rfl⟩ := Option.map_eq_some_iff.1 hP
          rfl
      | stop =>
          obtain rfl := Option.some.inj hP
          rfl
      | _ => cases hP
  | unlinking n files => exact rfl

theorem Body.move_sound (reg : Registry) (a : RunArgs) (d : Nat) (b : Body) :
    (b.move reg a d).Sound (Proc.run a (.body d b)).view := by
  cases b with
  | locked => exact rfl
  | cleared => exact ⟨rfl, rfl, List.mem_singleton.2 rfl⟩
  | saving todo => exact rfl
  | saved todo => exact rfl
  | jobs todo =>
      cases todo with
      | nil =>
          intro c P hP
          obtain rfl := Option.some.inj hP
          rfl
      | cons job todo =>
          cases job with
          | play =>
              exact ⟨fun _ => rfl, rfl, a.key, List.mem_singleton.2 rfl, rfl⟩
          | setEnv =>
              intro c P hP
              obtain rfl := Option.some.inj hP
              rfl
  | playing child todo =>
      intro c P hP
      cases c with
      | task =>
          obtain rfl := Option.some.inj hP
          rfl
      | go =>
          obtain rfl := Option.some.inj hP
          rfl
      | _ => cases hP
  | noting child todo => exact rfl
  | noted child todo => exact rfl
  | waiting child todo =>
      intro code
      beta_reduce
      split_ifs <;> rfl
  | guardOpening todo => exact fun _ => rfl
  | guardOpened g todo =>
      refine ⟨⟨guardKey, [(d, a.key)], rfl, ?_⟩, rfl⟩
      intro e he
      obtain rfl := Option.some.inj he
      exact List.mem_singleton.2 rfl
  | guarded g todo => exact ⟨⟨guardKey, rfl⟩, Or.inr rfl, rfl, rfl⟩
  | guardFailed g => exact ⟨⟨guardKey, rfl⟩, Or.inr rfl, rfl, rfl⟩
  | ending state => exact rfl
  | ended state => exact rfl
  | pruning pc => exact pc.move_sound reg a d
  | closing => trivial

theorem Look.view_eq (look : Look) :
    look.view = ⟨look.fds ++ [], look.held ++ [], none, false⟩ := by
  simp [Look.view]

theorem StartPc.move_sound (name : Text) (p : Entry) (pc : StartPc) :
    (pc.move name p).Sound (Proc.start name p pc).view := by
  cases pc with
  | asking look =>
      rw [StartPc.move]
      apply Look.move_sound [] []
      · exact fun l => l.view_eq
      · rfl
      · exact fun _ _ => rfl
      · exact look.view_eq
      · exact fun _ he => by cases he
  | launching =>
      intro c P hP
      cases c with
      | stamp t =>
          dsimp only at hP
          split_ifs at hP
          obtain rfl := Option.some.inj hP
          rfl
      | _ => cases hP
  | launched rid =>
      rw [StartPc.move]
      split_ifs with h
      · exact ⟨fun _ => rfl, rfl⟩
      · intro c P hP
        obtain rfl := Option.some.inj hP
        rfl
  | polling rid =>
      intro c P hP
      cases c with
      | late =>
          obtain rfl := Option.some.inj hP
          rfl
      | go =>
          obtain rfl := Option.some.inj hP
          rfl
      | _ => cases hP
  | checking rid =>
      intro found
      cases found <;> rfl
  | probing rid look =>
      rw [StartPc.move]
      apply Look.move_sound [] []
      · exact fun l => l.view_eq
      · rfl
      · intro seen other
        split_ifs <;> rfl
      · exact look.view_eq
      · exact fun _ he => by cases he

theorem ListPc.move_sound (reg : Registry) (out : List Answer)
    (pc : ListPc) : (pc.move reg out).Sound (Proc.list pc out).view := by
  cases pc with
  | globbing => exact fun _ => rfl
  | reading todo =>
      cases todo with
      | nil =>
          intro c P hP
          obtain rfl := Option.some.inj hP
          rfl
      | cons n todo =>
          intro r
          cases r with
          | none => rfl
          | some r =>
              dsimp only
              split_ifs <;> rfl
  | looking r look todo =>
      rw [ListPc.move]
      apply Look.move_sound [] []
      · exact fun l => l.view_eq
      · rfl
      · intro seen other
        split_ifs <;> rfl
      · exact look.view_eq
      · exact fun _ he => by cases he

/-- Every call of every process is sound. -/
theorem Proc.move_sound (reg : Registry) (P : Proc) :
    (P.move reg).Sound P.view := by
  cases P with
  | run a pc =>
      cases pc with
      | opening => exact fun _ => rfl
      | opened d =>
          refine ⟨⟨a.key, [], rfl, ?_⟩, rfl, fun _ => rfl⟩
          intro e he
          cases he
      | lost d seen => exact ⟨⟨a.key, rfl⟩, Or.inl rfl, rfl, rfl⟩
      | refused seen => exact fun _ => rfl
      | body d b => exact b.move_sound reg a d
  | play a d => trivial
  | ended code => trivial
  | start name p pc => exact pc.move_sound name p
  | list pc out => exact pc.move_sound reg out
  | say answers => trivial

/-- What is locked is open. -/
def View.Sub (v : View) : Prop :=
  ∀ d ∈ v.held, ∃ key, (d, key) ∈ v.fds

theorem Look.view_sub (l : Look) : l.view.Sub := by
  obtain ⟨key, pc⟩ := l
  intro d hd
  cases pc with
  | got e =>
      obtain rfl := List.mem_singleton.1 hd
      exact ⟨key, List.mem_singleton.2 rfl⟩
  | _ => cases hd

theorem Body.held_sub (b : Body) :
    ∀ d ∈ b.held, ∃ key, (d, key) ∈ b.fds := by
  intro d hd
  cases b with
  | guarded g todo =>
      obtain rfl := List.mem_singleton.1 hd
      exact ⟨guardKey, List.mem_singleton.2 rfl⟩
  | guardFailed g =>
      obtain rfl := List.mem_singleton.1 hd
      exact ⟨guardKey, List.mem_singleton.2 rfl⟩
  | pruning pc =>
      cases pc with
      | looking rid look todo files doomed => exact look.view_sub d hd
      | _ => cases hd
  | _ => cases hd

theorem Proc.view_sub (P : Proc) : P.view.Sub := by
  have hempty : View.empty.Sub := fun d hd => by cases hd
  cases P with
  | run a pc =>
      cases pc with
      | body d b =>
          intro e he
          rcases List.mem_append.1 he with he | he
          · obtain ⟨key, hkey⟩ := b.held_sub e he
            exact ⟨key, List.mem_append_left _ hkey⟩
          · obtain rfl := List.mem_singleton.1 he
            exact ⟨a.key, List.mem_append_right _ (List.mem_singleton.2 rfl)⟩
      | _ => exact fun d hd => by cases hd
  | play a d =>
      intro e he
      obtain rfl := List.mem_singleton.1 he
      exact ⟨a.key, List.mem_singleton.2 rfl⟩
  | start name p pc =>
      cases pc with
      | asking look => exact look.view_sub
      | probing rid look => exact look.view_sub
      | _ => exact hempty
  | list pc out =>
      cases pc with
      | looking r look todo => exact look.view_sub
      | _ => exact hempty
  | ended code => exact hempty
  | say answers => exact hempty

theorem Proc.shared_mem_held (P : Proc) {d : Nat}
    (h : P.view.shared = some d) : d ∈ P.view.held := by
  cases P with
  | run a pc =>
      cases pc with
      | body e b =>
          have hshared : (if b.told then some e else none) = some d := h
          split_ifs at hshared
          obtain rfl := Option.some.inj hshared
          exact List.mem_append_right _ (List.mem_singleton.2 rfl)
      | _ => cases h
  | play a e =>
      obtain rfl := Option.some.inj h
      exact List.mem_singleton.2 rfl
  | start name p pc => cases pc <;> cases h
  | list pc out => cases pc <;> cases h
  | ended code => cases h
  | say answers => cases h

theorem Proc.raised_view (P : Proc) {P' : Proc} (h : P.raised = some P') :
    P'.view = P.view := by
  unfold Proc.raised at h
  split at h
  all_goals cases h
  all_goals rfl

/-- Process `p` has open what its view says, and locked, too. -/
structure Has (k : FileLocks Nat Nat) (o : OpsDir) (p : Nat) (v : View) :
    Prop where
  nodup : (v.fds.map Prod.fst).Nodup
  ref : ∀ d, (p, d) ∈ k.refs ↔ ∃ key, (d, key) ∈ v.fds
  file : ∀ d key, (d, key) ∈ v.fds →
    o.inode (lockFile key) = some (k.file d)
  held : ∀ d ∈ v.held, k.owner (k.file d) = some d
  owned : ∀ d f, (p, d) ∈ k.refs → k.owner f = some d → d ∈ v.held

namespace Has

variable {k k' : FileLocks Nat Nat} {o o' : OpsDir} {p q : Nat} {v w : View}

theorem frame (h : Has k o q v) (hsub : v.Sub)
    (hu : FileLocks.Undisturbed q k k') (hs : o.Steady o') :
    Has k' o' q v where
  nodup := h.nodup
  ref := fun d => (hu.refs d).trans (h.ref d)
  file := by
    intro d key hd
    rw [hu.file d ((h.ref d).2 ⟨key, hd⟩)]
    exact hs key _ (h.file d key hd)
  held := by
    intro d hd
    have href := (h.ref d).2 (hsub d hd)
    rw [hu.file d href, hu.owner d href]
    exact h.held d hd
  owned := by
    intro d f hd howner
    have href := (hu.refs d).1 hd
    exact h.owned d f href ((hu.owner d href f).1 howner)

theorem empty (h : ∀ d, (p, d) ∉ k.refs) : Has k o p View.empty where
  nodup := List.nodup_nil
  ref := fun d => ⟨fun hd => absurd hd (h d), fun ⟨_, hd⟩ => by cases hd⟩
  file := fun _ _ hd => by cases hd
  held := fun _ hd => by cases hd
  owned := fun d _ hd _ => absurd hd (h d)

theorem opened (h : Has k o p v) (hsub : v.Sub) (hs : o.Steady o')
    {key : Text} {i : Nat} (hi : o'.inode (lockFile key) = some i) :
    Has (k.opened p i) o' p { v with fds := (k.next, key) :: v.fds } where
  nodup := by
    refine List.nodup_cons.2 ⟨?_, h.nodup⟩
    intro hmem
    obtain ⟨⟨d, key'⟩, hd, hnext⟩ := List.mem_map.1 hmem
    have hlt := k.fresh ((h.ref d).2 ⟨key', hd⟩)
    exact absurd hnext (Nat.ne_of_lt hlt)
  ref := by
    intro d
    rw [FileLocks.mem_refs_opened, h.ref]
    constructor
    · rintro (⟨-, rfl⟩ | ⟨key', hd⟩)
      · exact ⟨key, List.mem_cons_self⟩
      · exact ⟨key', List.mem_cons_of_mem _ hd⟩
    · rintro ⟨key', hd⟩
      rcases List.mem_cons.1 hd with hd | hd
      · exact Or.inl ⟨rfl, (Prod.mk.inj hd).1⟩
      · exact Or.inr ⟨key', hd⟩
  file := by
    intro d key' hd
    rcases List.mem_cons.1 hd with hd | hd
    · obtain ⟨rfl, rfl⟩ := Prod.mk.inj hd
      rw [FileLocks.file_opened_self]
      exact hi
    · rw [FileLocks.file_opened_of_ref ((h.ref d).2 ⟨key', hd⟩)]
      exact hs key' _ (h.file d key' hd)
  held := by
    intro d hd
    rw [FileLocks.file_opened_of_ref ((h.ref d).2 (hsub d hd))]
    exact h.held d hd
  owned := by
    intro d f hd howner
    rcases FileLocks.mem_refs_opened.1 hd with ⟨-, rfl⟩ | hd
    · obtain ⟨-, q, hq⟩ := k.owned howner
      exact absurd (k.fresh hq) (Nat.lt_irrefl _)
    · exact h.owned d f hd howner

theorem locked (h : Has k o p v) {d : Nat} (href : (p, d) ∈ k.refs)
    (hfree : k.holder d = none) :
    Has (k.locked href) o p { v with held := d :: v.held } where
  nodup := h.nodup
  ref := h.ref
  file := h.file
  held := by
    intro e he
    rcases List.mem_cons.1 he with rfl | he
    · exact FileLocks.owner_locked_self
    · exact FileLocks.owner_locked hfree (h.held e he)
  owned := by
    intro e f he howner
    rcases FileLocks.owner_of_locked howner with ⟨-, rfl⟩ | howner
    · exact List.mem_cons_self
    · exact List.mem_cons_of_mem _ (h.owned e f he howner)

theorem closed (h : Has k o p v) {d : Nat} {key : Text}
    (hfds : v.fds = (d, key) :: w.fds)
    (hheld : v.held = w.held ∨ v.held = d :: w.held) (hsub : w.Sub) :
    Has (k.close p d) o p w := by
  have hnodup := h.nodup
  rw [hfds] at hnodup
  obtain ⟨hnot, htail⟩ := List.nodup_cons.1 hnodup
  have hne : ∀ e key', (e, key') ∈ w.fds → e ≠ d := by
    rintro e key' he rfl
    exact hnot (List.mem_map.2 ⟨_, he, rfl⟩)
  have hmem : ∀ e key', (e, key') ∈ w.fds → (e, key') ∈ v.fds := by
    intro e key' he
    rw [hfds]
    exact List.mem_cons_of_mem _ he
  refine ⟨htail, ?_, ?_, ?_, ?_⟩
  · intro e
    rw [FileLocks.mem_refs_close, h.ref]
    constructor
    · rintro ⟨⟨key', he⟩, hed⟩
      rw [hfds] at he
      rcases List.mem_cons.1 he with he | he
      · exact absurd (Prod.mk.inj he).1 (hed rfl)
      · exact ⟨key', he⟩
    · rintro ⟨key', he⟩
      exact ⟨⟨key', hmem e key' he⟩, fun _ => hne e key' he⟩
  · exact fun e key' he => h.file e key' (hmem e key' he)
  · intro e he
    obtain ⟨key', hkey'⟩ := hsub e he
    have hold : e ∈ v.held := by
      rcases hheld with hheld | hheld
      · rwa [hheld]
      · rw [hheld]
        exact List.mem_cons_of_mem _ he
    exact FileLocks.owner_close (h.held e hold)
      ((h.ref e).2 ⟨key', hmem e key' hkey'⟩) (fun _ => hne e key' hkey')
  · intro e f he howner
    obtain ⟨href, hed⟩ := FileLocks.mem_refs_close.1 he
    have hold := h.owned e f href (FileLocks.owner_of_keep howner)
    rcases hheld with hheld | hheld
    · rwa [hheld] at hold
    · rw [hheld] at hold
      rcases List.mem_cons.1 hold with hold | hold
      · exact absurd hold (hed rfl)
      · exact hold

/-- A playbook has the lock of its run. -/
theorem child (h : Has k o q View.empty) {d : Nat} {key : Text}
    (href : (p, d) ∈ k.refs) (hfile : o.inode (lockFile key) = some (k.file d))
    (howner : k.owner (k.file d) = some d) :
    Has (k.inherited href q) o q ⟨[(d, key)], [d], some d, true⟩ where
  nodup := List.nodup_singleton _
  ref := by
    intro e
    rw [FileLocks.mem_refs_inherited, h.ref]
    simp [View.empty]
  file := by
    intro e key' he
    obtain ⟨rfl, rfl⟩ := Prod.mk.inj (List.mem_singleton.1 he)
    exact hfile
  held := by
    intro e he
    obtain rfl := List.mem_singleton.1 he
    exact howner
  owned := by
    intro e f he _
    rcases FileLocks.mem_refs_inherited.1 he with ⟨-, rfl⟩ | he
    · exact List.mem_singleton.2 rfl
    · obtain ⟨_, hnil⟩ := (h.ref e).1 he
      cases hnil

end Has

/-- What a number stands for at the moment. -/
def Sys.view (st : Sys) (p : Nat) : View :=
  match st.procs p with
  | some P => P.view
  | none => .empty

theorem Sys.view_eq {st : Sys} {p : Nat} {P : Proc}
    (h : st.procs p = some P) : st.view p = P.view := by
  simp [Sys.view, h]

theorem Sys.view_none {st : Sys} {p : Nat} (h : st.procs p = none) :
    st.view p = .empty := by
  simp [Sys.view, h]

theorem Sys.view_sub (st : Sys) (p : Nat) : (st.view p).Sub := by
  cases h : st.procs p with
  | none =>
      rw [Sys.view_none h]
      exact fun d hd => by cases hd
  | some P =>
      rw [Sys.view_eq h]
      exact P.view_sub

theorem Sys.view_setProc_self (st : Sys) (p : Nat) (P : Proc) :
    (st.setProc p (some P)).view p = P.view :=
  Sys.view_eq (Function.update_self _ _ _)

theorem Sys.view_setProc_of_ne (st : Sys) {p q : Nat} (P : Option Proc)
    (h : q ≠ p) : (st.setProc p P).view q = st.view q := by
  simp [Sys.view, Sys.setProc, h]

/-- The locks agree with the processes; only playbooks share a description,
with the run that has told its id and with each other. -/
structure LockInv (st : Sys) : Prop where
  has : ∀ p, Has st.locks st.ops p (st.view p)
  shared : ∀ p q d, p ≠ q → (p, d) ∈ st.locks.refs →
    (q, d) ∈ st.locks.refs →
    (st.view p).shared = some d ∧
      ((st.view p).isPlay = true ∨ (st.view q).isPlay = true)

namespace LockInv

variable {st st' : Sys} {p : Nat}

theorem init (o : OpsDir) : LockInv (Sys.init o) where
  has := fun _ => Has.empty (fun _ hd => by cases hd)
  shared := fun _ _ _ _ hd => by cases hd

/-- A step of process `p` that leaves the others as they are. -/
theorem update (hinv : LockInv st) (p : Nat)
    (hview : ∀ q, q ≠ p → st'.view q = st.view q)
    (hsteady : st.ops.Steady st'.ops)
    (hframe : ∀ q, q ≠ p → FileLocks.Undisturbed q st.locks st'.locks)
    (hself : Has st'.locks st'.ops p (st'.view p))
    (hshared : ∀ q d, q ≠ p → (q, d) ∈ st.locks.refs →
      (p, d) ∈ st'.locks.refs →
      (st'.view p).shared = some d ∧ (st.view q).shared = some d ∧
        ((st'.view p).isPlay = true ∨ (st.view q).isPlay = true)) :
    LockInv st' where
  has := by
    intro q
    by_cases hq : q = p
    · rw [hq]
      exact hself
    · rw [hview q hq]
      exact (hinv.has q).frame (st.view_sub q) (hframe q hq) hsteady
  shared := by
    intro q r d hqr hqd hrd
    by_cases hq : q = p
    · subst hq
      have hr : r ≠ q := hqr.symm
      rw [hview r hr]
      have hrd' := ((hframe r hr).refs d).1 hrd
      obtain ⟨hshare, -, hplay⟩ := hshared r d hr hrd' hqd
      exact ⟨hshare, hplay⟩
    · have hqd' := ((hframe q hq).refs d).1 hqd
      rw [hview q hq]
      by_cases hr : r = p
      · subst hr
        obtain ⟨-, hshare, hplay⟩ := hshared q d hq hqd' hrd
        exact ⟨hshare, hplay.symm⟩
      · rw [hview r hr]
        exact hinv.shared q r d hqr hqd' (((hframe r hr).refs d).1 hrd)

/-- A step that changes neither the locks nor what a process has. -/
theorem congr (hinv : LockInv st) (hview : ∀ q, st'.view q = st.view q)
    (hlocks : st'.locks = st.locks) (hsteady : st.ops.Steady st'.ops) :
    LockInv st' where
  has := by
    intro q
    rw [hview, hlocks]
    exact (hinv.has q).frame (st.view_sub q)
      (FileLocks.Undisturbed.refl q st.locks) hsteady
  shared := by
    intro q r d hqr hqd hrd
    rw [hlocks] at hqd hrd
    rw [hview, hview]
    exact hinv.shared q r d hqr hqd hrd

theorem setProc (hinv : LockInv st) {P P' : Proc}
    (hp : st.procs p = some P) (hview : P'.view = P.view) {o : OpsDir}
    (hsteady : st.ops.Steady o) :
    LockInv ((st.setOps o).setProc p (some P')) := by
  refine hinv.congr ?_ rfl hsteady
  intro q
  by_cases hq : q = p
  · rw [hq, Sys.view_setProc_self, hview, Sys.view_eq hp]
  · exact Sys.view_setProc_of_ne _ _ hq

/-- Descriptions that `p` had already are shared as before. -/
theorem shared_of_sub (hinv : LockInv st)
    (hrefs : ∀ d, (p, d) ∈ st'.locks.refs → (p, d) ∈ st.locks.refs)
    (hshare : (st'.view p).shared = (st.view p).shared)
    (hplay : (st'.view p).isPlay = (st.view p).isPlay) (q d : Nat)
    (hq : q ≠ p) (hqd : (q, d) ∈ st.locks.refs)
    (hpd : (p, d) ∈ st'.locks.refs) :
    (st'.view p).shared = some d ∧ (st.view q).shared = some d ∧
      ((st'.view p).isPlay = true ∨ (st.view q).isPlay = true) := by
  have hpd' := hrefs d hpd
  obtain ⟨hp, hor⟩ := hinv.shared p q d hq.symm hpd' hqd
  obtain ⟨hq', -⟩ := hinv.shared q p d hq hqd hpd'
  rw [hshare, hplay]
  exact ⟨hp, hq', hor⟩

theorem opens (hinv : LockInv st) {P : Proc} (hp : st.procs p = some P)
    {o : OpsDir} {i : Nat} {key : Text} {op : Option (Text × Text)}
    {k : Nat → Proc} (hsteady : st.ops.Steady o)
    (hi : o.inode (lockFile key) = some i)
    (hk : ∀ d, (k d).view = { P.view with fds := (d, key) :: P.view.fds }) :
    LockInv (st.opens p o i op k) := by
  have hself : (st.opens p o i op k).view p = (k st.locks.next).view :=
    Sys.view_eq (Function.update_self _ _ _)
  have hold := Sys.view_eq hp
  apply hinv.update p
  · intro q hq
    simp [Sys.view, Sys.opens, hq]
  · exact hsteady
  · exact fun q hq => FileLocks.Undisturbed.opened hq _ _
  · rw [hself, hk, ← hold]
    exact (hinv.has p).opened (st.view_sub p) hsteady hi
  · intro q d hq hqd hpd
    have hpd' : (p, d) ∈ st.locks.refs := by
      rcases FileLocks.mem_refs_opened.1 hpd with ⟨-, rfl⟩ | hpd
      · exact absurd (st.locks.fresh hqd) (Nat.lt_irrefl _)
      · exact hpd
    obtain ⟨hshare, hor⟩ := hinv.shared p q d hq.symm hpd' hqd
    rw [hself, hk]
    rw [hold] at hshare hor
    exact ⟨hshare, (hinv.shared q p d hq hqd hpd').1, hor⟩

/-- The newest description of a process is shared with nobody. -/
theorem locked (hinv : LockInv st) {P P' : Proc} (hp : st.procs p = some P)
    {d : Nat} (href : (p, d) ∈ st.locks.refs)
    (hfree : st.locks.holder d = none) {key : Text}
    {rest : List (Nat × Text)} (hfds : P.view.fds = (d, key) :: rest)
    (hshare : ∀ e, P.view.shared = some e → e ∈ rest.map Prod.fst)
    (hP' : P'.view = { P.view with held := d :: P.view.held }) :
    LockInv ((st.setLocks (st.locks.locked href)).setProc p (some P')) := by
  have hold := Sys.view_eq hp
  have hprivate : ∀ q, q ≠ p → (q, d) ∉ st.locks.refs := by
    intro q hq hqd
    obtain ⟨hshared, -⟩ := hinv.shared p q d hq.symm href hqd
    rw [hold] at hshared
    have hnodup := (hinv.has p).nodup
    rw [hold, hfds] at hnodup
    exact (List.nodup_cons.1 hnodup).1 (hshare d hshared)
  apply hinv.update p
  · exact fun q hq => Sys.view_setProc_of_ne _ _ hq
  · exact fun _ _ hi => hi
  · exact fun q hq =>
      FileLocks.Undisturbed.locked href hfree (hprivate q hq)
  · rw [Sys.view_setProc_self, hP', ← hold]
    exact (hinv.has p).locked href hfree
  · apply hinv.shared_of_sub
    · exact fun _ hd => hd
    · rw [Sys.view_setProc_self, hP', hold]
    · rw [Sys.view_setProc_self, hP', hold]

theorem closed (hinv : LockInv st) {P P' : Proc} (hp : st.procs p = some P)
    {d : Nat} {key : Text} (hfds : P.view.fds = (d, key) :: P'.view.fds)
    (hheld : P.view.held = P'.view.held ∨ P.view.held = d :: P'.view.held)
    (hshare : P'.view.shared = P.view.shared)
    (hplay : P'.view.isPlay = P.view.isPlay) :
    LockInv ((st.setLocks (st.locks.close p d)).setProc p (some P')) := by
  have hold := Sys.view_eq hp
  apply hinv.update p
  · exact fun q hq => Sys.view_setProc_of_ne _ _ hq
  · exact fun _ _ hi => hi
  · exact fun q hq => FileLocks.Undisturbed.close hq _ _
  · rw [Sys.view_setProc_self]
    have hhas := hinv.has p
    rw [hold] at hhas
    exact hhas.closed hfds hheld P'.view_sub
  · apply hinv.shared_of_sub
    · exact fun _ hd => (FileLocks.mem_refs_close.1 hd).1
    · rw [Sys.view_setProc_self, hshare, hold]
    · rw [Sys.view_setProc_self, hplay, hold]

theorem gone (hinv : LockInv st) (p : Nat) {o : Option Proc}
    (ho : ∀ P, o = some P → P.view = .empty) : LockInv (st.gone p o) := by
  have hself : (st.gone p o).view p = .empty := by
    cases o with
    | none => exact Sys.view_none (Function.update_self _ _ _)
    | some P =>
        rw [Sys.gone, Sys.view_setProc_self]
        exact ho P rfl
  have hrefs : ∀ d, (p, d) ∉ (st.locks.exit p).refs :=
    fun _ hd => (FileLocks.mem_refs_exit.1 hd).2 rfl
  apply hinv.update p
  · exact fun q hq => Sys.view_setProc_of_ne _ _ hq
  · exact fun _ _ hi => hi
  · exact fun q hq => FileLocks.Undisturbed.exit hq _
  · rw [hself]
    exact Has.empty hrefs
  · exact fun q d _ _ hpd => absurd hpd (hrefs d)

/-- A playbook starts with the descriptor of its run's lock. -/
theorem inherited (hinv : LockInv st) {P child : Proc}
    (hp : st.procs p = some P) {q : Nat} (hq : st.procs q = none) {d : Nat}
    (href : (p, d) ∈ st.locks.refs) (hshare : P.view.shared = some d)
    (hheld : d ∈ P.view.held) {key : Text} (hkey : (d, key) ∈ P.view.fds)
    (hchild : child.view = ⟨[(d, key)], [d], some d, true⟩) :
    LockInv ((st.setLocks (st.locks.inherited href q)).setProc q
      (some child)) := by
  have hold := Sys.view_eq hp
  have hhas := hinv.has p
  have hnone := hinv.has q
  rw [hold] at hhas
  rw [Sys.view_none hq] at hnone
  apply hinv.update q
  · exact fun r hr => Sys.view_setProc_of_ne _ _ hr
  · exact fun _ _ hi => hi
  · exact fun r hr => FileLocks.Undisturbed.inherited href hr
  · rw [Sys.view_setProc_self, hchild]
    exact hnone.child href (hhas.file d key hkey) (hhas.held d hheld)
  · intro r e hr hre hqe
    rw [Sys.view_setProc_self, hchild]
    change (q, e) ∈ (st.locks.inherited href q).refs at hqe
    rcases FileLocks.mem_refs_inherited.1 hqe with ⟨-, rfl⟩ | hqe
    · refine ⟨rfl, ?_, Or.inl rfl⟩
      by_cases hrp : r = p
      · rw [hrp, hold]
        exact hshare
      · exact (hinv.shared r p e hrp hre href).1
    · obtain ⟨_, hnil⟩ := (hnone.ref e).1 hqe
      cases hnil

variable {loads : Text → Option Rec} {reg : Registry}

/-- The id of a run goes into its lock file. -/
theorem told (hinv : LockInv st) {P P' : Proc} (hp : st.procs p = some P)
    {d : Nat} (hnone : P.view.shared = none)
    (hP' : P'.view = { P.view with shared := some d }) {o : OpsDir}
    (hsteady : st.ops.Steady o) :
    LockInv ((st.setOps o).setProc p (some P')) := by
  have hold := Sys.view_eq hp
  have hhas := hinv.has p
  rw [hold] at hhas
  have hhas' := hhas.frame P.view_sub
    (FileLocks.Undisturbed.refl p st.locks) hsteady
  apply hinv.update p
  · exact fun q hq => Sys.view_setProc_of_ne _ _ hq
  · exact hsteady
  · exact fun q _ => FileLocks.Undisturbed.refl q st.locks
  · rw [Sys.view_setProc_self, hP']
    exact ⟨hhas'.nodup, hhas'.ref, hhas'.file, hhas'.held, hhas'.owned⟩
  · intro q e hq hqe hpe
    obtain ⟨hshare, -⟩ := hinv.shared p q e hq.symm hpe hqe
    rw [hold, hnone] at hshare
    cases hshare

/-- Every call that is made as the view of its process says. -/
theorem exec (hinv : LockInv st) {P : Proc} (hp : st.procs p = some P)
    {c : Choice} {m : Move} (hm : m.Sound P.view)
    (h : st.exec loads p c m = some st') : LockInv st' := by
  have hold := Sys.view_eq hp
  have hquiet : ∀ {P' : Proc} {o : OpsDir}, P'.view = P.view →
      st.ops.Quiet o → LockInv ((st.setOps o).setProc p (some P')) :=
    fun hview ho => hinv.setProc hp hview ho.steady
  have hlocal : ∀ {P' : Proc}, P'.view = P.view →
      LockInv (st.setProc p (some P')) :=
    fun hview => hinv.setProc hp hview (OpsDir.Quiet.refl st.ops).steady
  cases m with
  | openLock key rid k =>
      obtain rfl := Option.some.inj h
      exact hinv.opens hp (st.ops.quiet_ensure _).steady
        (st.ops.inode_ensure _) hm
  | openGuard k =>
      obtain rfl := Option.some.inj h
      apply hinv.opens hp (st.ops.quiet_openGuard _).steady _ hm
      rw [lockFile_guardKey]
      exact st.ops.inode_ensure guardFile
  | flock d k =>
      obtain ⟨⟨key, rest, hfds, hshare⟩, hgot, hlost⟩ := hm
      simp only [Sys.exec] at h
      split_ifs at h with href
      cases hfree : st.locks.holder d with
      | none =>
          rw [hfree] at h
          obtain rfl := Option.some.inj h
          exact hinv.locked hp href hfree hfds hshare hgot
      | some seen =>
          rw [hfree] at h
          obtain rfl := Option.some.inj h
          exact hlocal (hlost seen)
  | flockWait d k =>
      obtain ⟨⟨key, rest, hfds, hshare⟩, hgot⟩ := hm
      simp only [Sys.exec] at h
      split_ifs at h with href
      cases hfree : st.locks.holder d with
      | none =>
          rw [hfree] at h
          obtain rfl := Option.some.inj h
          exact hinv.locked hp href hfree hfds hshare hgot
      | some seen =>
          rw [hfree] at h
          cases h
  | close d k =>
      obtain ⟨⟨key, hfds⟩, hheld, hshare, hplay⟩ := hm
      obtain rfl := Option.some.inj h
      exact hinv.closed hp hfds hheld hshare hplay
  | truncate d k =>
      obtain rfl := Option.some.inj h
      exact hquiet hm (st.ops.quiet_setData_nil _)
  | write d t k =>
      obtain ⟨hnone, hview, -⟩ := hm
      obtain rfl := Option.some.inj h
      exact hinv.told hp hnone hview (st.ops.steady_setData _ _)
  | readId key k =>
      obtain rfl := Option.some.inj h
      exact hlocal (hm _)
  | saveTmp rid r k =>
      cases c with
      | text t =>
          simp only [Sys.exec] at h
          split_ifs at h
          obtain rfl := Option.some.inj h
          exact hquiet hm (st.ops.quiet_writeText t (tmpFile_ne_lockFile rid))
      | _ => cases h
  | saveRename a k =>
      obtain rfl := Option.some.inj h
      exact hquiet hm (st.ops.quiet_rename (tmpFile_ne_lockFile a.rid)
        (recordFile_ne_lockFile a.accepted))
  | readRecord n k =>
      obtain rfl := Option.some.inj h
      exact hlocal (hm _)
  | pathExists n k =>
      obtain rfl := Option.some.inj h
      exact hlocal (hm _)
  | listdir k =>
      cases c with
      | names ns =>
          simp only [Sys.exec] at h
          split_ifs at h
          obtain rfl := Option.some.inj h
          exact hlocal (hm ns)
      | _ => cases h
  | unlink n k =>
      obtain rfl := Option.some.inj h
      exact hquiet hm
        (st.ops.quiet_unlink (fun _ => ne_lockFile_of_head? n.2))
  | popen child pass k =>
      obtain ⟨hview, hpass⟩ := hm
      cases c with
      | pid q =>
          simp only [Sys.exec] at h
          cases hq : st.procs q with
          | some Q => simp [hq] at h
          | none =>
              have hne : p ≠ q := by
                rintro rfl
                rw [hq] at hp
                cases hp
              rw [hq] at h
              cases pass with
              | none =>
                  obtain rfl := Option.some.inj h
                  have hchild : LockInv (st.setProc q (some child)) := by
                    refine hinv.congr ?_ rfl (fun _ _ hi => hi)
                    intro r
                    by_cases hr : r = q
                    · rw [hr, Sys.view_setProc_self, Sys.view_none hq]
                      exact hpass
                    · exact Sys.view_setProc_of_ne _ _ hr
                  have hp' : (st.setProc q (some child)).procs p = some P :=
                    (Function.update_of_ne hne _ _).trans hp
                  exact hchild.setProc hp' (hview q) (fun _ _ hi => hi)
              | some d =>
                  obtain ⟨hshare, key, hkey, hchild⟩ := hpass
                  dsimp only at h
                  split_ifs at h with href
                  obtain rfl := Option.some.inj h
                  have hheld := P.shared_mem_held hshare
                  have hinv' := hinv.inherited hp hq href hshare hheld hkey
                    hchild
                  exact hinv'.setProc
                    ((Function.update_of_ne hne _ _).trans hp) (hview q)
                    (fun _ _ hi => hi)
      | _ => cases h
  | wait q k =>
      simp only [Sys.exec] at h
      cases hq : st.procs q with
      | none => simp [hq] at h
      | some Q =>
          cases Q with
          | ended code =>
              rw [hq] at h
              obtain rfl := Option.some.inj h
              refine hinv.congr ?_ rfl (fun _ _ hi => hi)
              intro r
              by_cases hr : r = p
              · rw [hr, Sys.view_setProc_self, hm, hold]
              · rw [Sys.view_setProc_of_ne _ _ hr]
                by_cases hrq : r = q
                · rw [hrq, Sys.view_eq hq]
                  exact Sys.view_none (Function.update_self _ _ _)
                · exact Sys.view_setProc_of_ne _ _ hrq
          | _ => simp [hq] at h
  | choose k =>
      obtain ⟨P', hP', rfl⟩ := Option.map_eq_some_iff.1 h
      exact hlocal (hm c P' hP')
  | say answers =>
      obtain rfl := Option.some.inj h
      exact (hinv.gone p (fun _ hP => by cases hP)).congr (fun _ => rfl) rfl
        (fun _ _ hi => hi)
  | exits =>
      cases c with
      | code n =>
          obtain rfl := Option.some.inj h
          apply hinv.gone p
          intro P' hP'
          obtain rfl := Option.some.inj hP'
          rfl
      | _ => cases h
  | exit =>
      obtain rfl := Option.some.inj h
      exact hinv.gone p (fun _ hP => by cases hP)
  | stuck => cases h

theorem begin (hinv : LockInv st) {P : Proc} (hview : P.view = .empty)
    (h : st.begin p P = some st') : LockInv st' := by
  unfold Sys.begin at h
  cases hp : st.procs p with
  | some Q => simp [hp] at h
  | none =>
      rw [hp] at h
      obtain rfl := Option.some.inj h
      refine hinv.congr ?_ rfl (fun _ _ hi => hi)
      intro q
      by_cases hq : q = p
      · rw [hq, Sys.view_setProc_self, Sys.view_none hp, hview]
      · exact Sys.view_setProc_of_ne _ _ hq

theorem step (hinv : LockInv st) {act : Act}
    (h : st.step loads reg act = some st') : LockInv st' := by
  cases act with
  | run p name rid =>
      simp only [Sys.step] at h
      cases he : reg.piece? name with
      | none => simp [he] at h
      | some e =>
          rw [he] at h
          dsimp only at h
          split_ifs at h
          exact hinv.begin rfl h
  | start p name =>
      simp only [Sys.step] at h
      cases he : reg.piece? name with
      | none => simp [he] at h
      | some e =>
          rw [he] at h
          exact hinv.begin rfl h
  | list p => exact hinv.begin rfl h
  | step p c =>
      simp only [Sys.step] at h
      cases hp : st.procs p with
      | none => simp [hp] at h
      | some P =>
          rw [hp] at h
          exact hinv.exec hp (P.move_sound reg) h
  | raise p =>
      simp only [Sys.step] at h
      cases hp : st.procs p with
      | none => simp [hp] at h
      | some P =>
          rw [hp] at h
          obtain ⟨P', hP', rfl⟩ := Option.map_eq_some_iff.1 h
          exact hinv.setProc hp (P.raised_view hP') (fun _ _ hi => hi)
  | die p =>
      have hgone : LockInv (st.gone p none) :=
        hinv.gone p (fun _ hP => by cases hP)
      simp only [Sys.step] at h
      cases hp : st.procs p with
      | none => simp [hp] at h
      | some P =>
          rw [hp] at h
          cases P with
          | play a d =>
              obtain rfl := Option.some.inj h
              apply hinv.gone p
              intro P' hP'
              obtain rfl := Option.some.inj hP'
              rfl
          | ended code => cases h
          | _ =>
              obtain rfl := Option.some.inj h
              exact hgone

end LockInv

/-- The lock key and the description of a process that is part of a run which
has its lock: the run from taking it to giving it back, and its playbooks. -/
def Proc.section? : Proc → Option (Text × Nat)
  | .run a (.body d _) => some (a.key, d)
  | .play a d => some (a.key, d)
  | _ => none

def Proc.isRun : Proc → Bool
  | .run _ _ => true
  | _ => false

theorem Proc.isPlay_of_isRun (P : Proc) (h : P.isRun = true) :
    P.view.isPlay = false := by
  cases P with
  | run a pc => cases pc <;> rfl
  | _ => cases h

theorem Proc.section?_view {P : Proc} {key : Text} {d : Nat}
    (h : P.section? = some (key, d)) :
    (d, key) ∈ P.view.fds ∧ d ∈ P.view.held := by
  cases P with
  | run a pc =>
      cases pc with
      | body e b =>
          obtain ⟨rfl, rfl⟩ := Prod.mk.inj (Option.some.inj h)
          exact ⟨List.mem_append_right _ (List.mem_singleton.2 rfl),
            List.mem_append_right _ (List.mem_singleton.2 rfl)⟩
      | _ => cases h
  | play a e =>
      obtain ⟨rfl, rfl⟩ := Prod.mk.inj (Option.some.inj h)
      exact ⟨List.mem_singleton.2 rfl, List.mem_singleton.2 rfl⟩
  | _ => cases h

/-- In every reachable state, the processes that are part of runs under one
lock key are part of one run: they have one description of the lock, and one
of them at most is no playbook. -/
theorem one_run_per_key {loads : Text → Option Rec} {reg : Registry}
    {o : OpsDir} {st : Sys} (h : ReachAny (Sys.step loads reg) (Sys.init o) st)
    {p q : Nat} {P Q : Proc} (hp : st.procs p = some P)
    (hq : st.procs q = some Q) {key : Text} {d e : Nat}
    (hP : P.section? = some (key, d)) (hQ : Q.section? = some (key, e)) :
    d = e ∧ (P.isRun = true → Q.isRun = true → p = q) := by
  have hinv : LockInv st :=
    h.inv (LockInv.init o) (fun _ _ _ hs _ hstep => hs.step hstep)
  obtain ⟨hPfds, hPheld⟩ := Proc.section?_view hP
  obtain ⟨hQfds, hQheld⟩ := Proc.section?_view hQ
  rw [← Sys.view_eq hp] at hPfds hPheld
  rw [← Sys.view_eq hq] at hQfds hQheld
  have hpHas := hinv.has p
  have hqHas := hinv.has q
  have hde : d = e := by
    have hfile : st.locks.file d = st.locks.file e :=
      Option.some.inj
        ((hpHas.file d key hPfds).symm.trans (hqHas.file e key hQfds))
    have howner := hpHas.held d hPheld
    rw [hfile, hqHas.held e hQheld] at howner
    exact (Option.some.inj howner).symm
  refine ⟨hde, ?_⟩
  intro hPrun hQrun
  by_contra hne
  subst hde
  obtain ⟨-, hplay⟩ := hinv.shared p q d hne
    ((hpHas.ref d).2 ⟨key, hPfds⟩) ((hqHas.ref d).2 ⟨key, hQfds⟩)
  rw [Sys.view_eq hp, Sys.view_eq hq, P.isPlay_of_isRun hPrun,
    Q.isPlay_of_isRun hQrun] at hplay
  simp at hplay

/-- A piece of the lock group `ran`. -/
def ranLink : Registry where
  items :=
    [("ran_link".toList,
      .map
        [("title".toList, .str "Bring the RAN link up".toList),
          ("runs".toList,
            .list [.map [("phase".toList, .str "04-overlay-network".toList),
              ("tags".toList, .list [.str "ran_link".toList] [])] []] []),
          ("tier".toList, .str "change".toList),
          ("changes".toList, .str "The RAN link.".toList),
          ("lock".toList, .str "ran".toList)] [])]
  accepted := by rfl

/-- A records directory without files. -/
def emptyOps : OpsDir where
  inode := fun _ => none
  data := fun _ => []
  next := 0
  inode_lt := fun h => by cases h
  inode_inj := fun h => by cases h

def ranLinkId : Text :=
  "20260927-100000-000001-ran_link".toList

/-- The record of the run, while it is running. -/
def ranLinkRecord : Text :=
  "\x7b\"id\": \"20260927-100000-000001-ran_link\", ".toList ++
    "\"piece\": \"ran_link\", \"state\": \"running\"\x7d".toList

def loadsRanLink (t : Text) : Option Rec :=
  if t = ranLinkRecord then
    some ⟨some ranLinkId, "ran_link".toList, "running".toList⟩
  else none

/-- A run up to its first playbook. -/
def runToPlay : List Act :=
  [.run 0 "ran_link".toList ranLinkId, .step 0 .go, .step 0 .go, .step 0 .go,
    .step 0 .go, .step 0 (.text ranLinkRecord), .step 0 .go, .step 0 (.pid 1)]

/-- The run and its playbook have one description of the lock. -/
theorem one_run_per_key_runToPlay :
    ∃ st P Q d e, ReachAny (Sys.step loadsRanLink ranLink)
        (Sys.init emptyOps) st ∧
      st.procs 0 = some P ∧ st.procs 1 = some Q ∧
      P.section? = some ("ran".toList, d) ∧
      Q.section? = some ("ran".toList, e) ∧
      d = e ∧ (P.isRun = true → Q.isRun = true → 0 = 1) := by
  cases hrun : exec (Sys.step loadsRanLink ranLink) (Sys.init emptyOps)
      runToPlay with
  | none => cases hrun
  | some st =>
      have hreach := Reach.refl.exec hrun
      cases hrun
      exact ⟨_, _, _, _, _, hreach, rfl, rfl, rfl, rfl,
        one_run_per_key hreach rfl rfl rfl rfl⟩

end LockExclusion

end Piece
end Kelt
