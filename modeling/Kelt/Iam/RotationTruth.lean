import Kelt.Iam.Rotation

/-!
# What rotations leave in the three places

`Moves` says all that a step can do; everything here is derived from it. The
file comes first in every run (`fileFirst`). When every step crosses no other
rotation, the invariant `RotationInv` ties the numbers of the writes to what
the file, Keycloak and the pods hold, and at the end the three agree.
-/

namespace Kelt
namespace Iam

open Env

section RotationTruth

/-- The rotation has replaced the file. -/
def Pc.written : Pc → Bool
  | .converging => true
  | .finding => true
  | .putting => true
  | .patching => true
  | .done => true
  | _ => false

/-- The rotation has set the secret in Keycloak, and it goes on. -/
def Pc.isPut : Pc → Bool
  | .patching => true
  | .done => true
  | _ => false

def Pc.isDone : Pc → Bool
  | .done => true
  | _ => false

/-- All that a step can do. -/
inductive Moves (st : Sys) : Act → Sys → Prop
  | begin {p : Nat} {c : Client} {secret : Token} (hfree : st.procs p = none) :
      Moves st (.rotate p c secret) (st.setProc p ⟨c, secret, 0, .looking⟩)
  | quiet {act : Act} {r : Rotation} {pc : Pc} (prev : Option Text)
      (hp : st.procs act.proc = some r)
      (hwritten : pc.written = true → r.pc.written = true)
      (hput : pc.isPut = false) :
      Moves st act ({ st with prev := prev }.setProc act.proc (r.goto pc))
  | replace {p : Nat} {o : Outcome} {r : Rotation} {seen : Option Text}
      (hp : st.procs p = some r) (hpc : r.pc = .replacing seen)
      (ho : o ≠ .fails) :
      Moves st (.step p o)
        ((st.replaceFile r.client
            (writeSecret r.client.envKey r.secret.text seen)).setProc p
          { r with number := st.past.length + 1, pc := .converging })
  | put {p : Nat} {o : Outcome} {r : Rotation} {pc : Pc}
      (hp : st.procs p = some r) (hpc : r.pc = .putting)
      (hnext : pc = .patching ∨ pc = .failed) (ho : o ≠ .fails) :
      Moves st (.step p o) ((st.putSecret r).setProc p (r.goto pc))
  | patch {p : Nat} {o : Outcome} {r : Rotation} {pc : Pc}
      (hp : st.procs p = some r) (hpc : r.pc = .patching)
      (hnext : pc = .done ∨ pc = .failed) (ho : o ≠ .fails) :
      Moves st (.step p o) ((st.patchPod r).setProc p (r.goto pc))

theorem Moves.failed {st : Sys} (act : Act) {r : Rotation}
    (hp : st.procs act.proc = some r) :
    Moves st act (st.setProc act.proc (r.goto .failed)) :=
  .quiet st.prev hp (fun h => by cases h) rfl

theorem moves_of_call {st st' : Sys} {p : Nat} {r : Rotation}
    (hp : st.procs p = some r) (h : st.call p r = some st') :
    Moves st (.step p .ok) st' := by
  have hproc : st.procs (Act.step p .ok).proc = some r := hp
  have hgoto : ∀ pc : Pc, (pc.written = true → r.pc.written = true) →
      pc.isPut = false →
      Moves st (.step p .ok) (st.setProc p (r.goto pc)) :=
    fun pc hw hput => .quiet st.prev hproc hw hput
  have hok : Outcome.ok ≠ .fails := fun h => by cases h
  unfold Sys.call at h
  cases hpc : r.pc with
  | looking =>
      rw [hpc] at h
      cases hfile : st.file with
      | none =>
          simp only [hfile] at h
          obtain rfl := Option.some.inj h
          exact hgoto _ (fun h => by cases h) rfl
      | some t =>
          simp only [hfile] at h
          obtain rfl := Option.some.inj h
          exact hgoto _ (fun h => by cases h) rfl
  | reading =>
      rw [hpc] at h
      cases hfile : st.file with
      | none =>
          simp only [hfile] at h
          obtain rfl := Option.some.inj h
          exact hgoto _ (fun h => by cases h) rfl
      | some t =>
          simp only [hfile] at h
          obtain rfl := Option.some.inj h
          exact hgoto _ (fun h => by cases h) rfl
  | writing seen =>
      rw [hpc] at h
      dsimp only at h
      split_ifs at h
      all_goals
        obtain rfl := Option.some.inj h
        exact hgoto _ (fun h => by cases h) rfl
  | keeping seen =>
      rw [hpc] at h
      cases hfile : st.file with
      | none =>
          simp only [hfile] at h
          obtain rfl := Option.some.inj h
          exact hgoto _ (fun h => by cases h) rfl
      | some t =>
          simp only [hfile] at h
          obtain rfl := Option.some.inj h
          exact hgoto _ (fun h => by cases h) rfl
  | replacingPrev seen copy =>
      rw [hpc] at h
      obtain rfl := Option.some.inj h
      exact .quiet _ hproc (fun h => by cases h) rfl
  | replacing seen =>
      rw [hpc] at h
      obtain rfl := Option.some.inj h
      exact .replace hp hpc hok
  | converging =>
      have hw : ∀ pc : Pc, pc.written = true → r.pc.written = true :=
        fun _ _ => by rw [hpc]; rfl
      rw [hpc] at h
      cases hpassword : readSecret adminPassword st.file with
      | none =>
          simp only [hpassword] at h
          obtain rfl := Option.some.inj h
          exact hgoto _ (hw _) rfl
      | some password =>
          simp only [hpassword] at h
          split_ifs at h
          all_goals
            obtain rfl := Option.some.inj h
            exact hgoto _ (hw _) rfl
  | finding =>
      rw [hpc] at h
      obtain rfl := Option.some.inj h
      exact hgoto _ (fun _ => by rw [hpc]; rfl) rfl
  | putting =>
      rw [hpc] at h
      obtain rfl := Option.some.inj h
      exact .put hp hpc (Or.inl rfl) hok
  | patching =>
      rw [hpc] at h
      obtain rfl := Option.some.inj h
      exact .patch hp hpc (Or.inl rfl) hok
  | done =>
      rw [hpc] at h
      cases h
  | failed =>
      rw [hpc] at h
      cases h

theorem moves_of_step {st st' : Sys} {act : Act} (h : st.step act = some st') :
    Moves st act st' := by
  cases act with
  | rotate p c secret =>
      simp only [Sys.step] at h
      cases hp : st.procs p with
      | some r => simp [hp] at h
      | none =>
          simp only [hp] at h
          obtain rfl := Option.some.inj h
          exact .begin hp
  | step p o =>
      simp only [Sys.step] at h
      cases hp : st.procs p with
      | none => simp [hp] at h
      | some r =>
          simp only [hp] at h
          cases o with
          | ok => exact moves_of_call hp h
          | fails =>
              dsimp only at h
              split_ifs at h
              obtain rfl := Option.some.inj h
              exact Moves.failed (.step p .fails) hp
          | lost =>
              have hlost : Outcome.lost ≠ .fails := fun h => by cases h
              simp only [Sys.callLost] at h
              cases hpc : r.pc with
              | putting =>
                  rw [hpc] at h
                  obtain rfl := Option.some.inj h
                  exact .put hp hpc (Or.inr rfl) hlost
              | patching =>
                  rw [hpc] at h
                  obtain rfl := Option.some.inj h
                  exact .patch hp hpc (Or.inr rfl) hlost
              | _ =>
                  rw [hpc] at h
                  cases h
  | die p =>
      simp only [Sys.step] at h
      cases hp : st.procs p with
      | none => simp [hp] at h
      | some r =>
          simp only [hp] at h
          split_ifs at h
          obtain rfl := Option.some.inj h
          exact Moves.failed (.die p) hp

section Frame

variable (st : Sys) (p : Nat) (r : Rotation)

@[simp] theorem Sys.setProc_file : (st.setProc p r).file = st.file := rfl

@[simp] theorem Sys.setProc_past : (st.setProc p r).past = st.past := rfl

@[simp] theorem Sys.setProc_keycloak :
    (st.setProc p r).keycloak = st.keycloak := rfl

@[simp] theorem Sys.setProc_pod : (st.setProc p r).pod = st.pod := rfl

@[simp] theorem Sys.setProc_fileAt : (st.setProc p r).fileAt = st.fileAt := rfl

@[simp] theorem Sys.setProc_keycloakAt :
    (st.setProc p r).keycloakAt = st.keycloakAt := rfl

@[simp] theorem Sys.setProc_podAt : (st.setProc p r).podAt = st.podAt := rfl

variable {st p r} in
/-- What the others have and the new one has, all have. -/
theorem Sys.forall_setProc {Q : Rotation → Prop}
    (hold : ∀ q s, st.procs q = some s → Q s) (hnew : Q r) :
    ∀ q s, (st.setProc p r).procs q = some s → Q s := by
  intro q s hq
  have hcases : (st.setProc p r).procs q =
      if q = p then some r else st.procs q := Function.update_apply _ _ _ _
  rw [hcases] at hq
  split_ifs at hq
  · exact Option.some.inj hq ▸ hnew
  · exact hold q s hq

@[simp] theorem Sys.patchPod_file : (st.patchPod r).file = st.file := by
  unfold Sys.patchPod
  split_ifs <;> rfl

@[simp] theorem Sys.patchPod_past : (st.patchPod r).past = st.past := by
  unfold Sys.patchPod
  split_ifs <;> rfl

@[simp] theorem Sys.patchPod_keycloak :
    (st.patchPod r).keycloak = st.keycloak := by
  unfold Sys.patchPod
  split_ifs <;> rfl

theorem Sys.patchPod_pod (c : Client) :
    (st.patchPod r).pod c =
      if c = r.client ∧ r.client.consumer = true then r.secret.text
      else st.pod c := by
  unfold Sys.patchPod
  by_cases hcons : r.client.consumer = true
  · simp only [hcons, if_true, and_true]
    exact Function.update_apply _ _ _ _
  · simp only [hcons, and_false, if_false, Bool.false_eq_true]

theorem Sys.patchPod_podAt (c : Client) :
    (st.patchPod r).podAt c =
      if c = r.client ∧ r.client.consumer = true then r.number
      else st.podAt c := by
  unfold Sys.patchPod
  by_cases hcons : r.client.consumer = true
  · simp only [hcons, if_true, and_true]
    exact Function.update_apply _ _ _ _
  · simp only [hcons, and_false, if_false, Bool.false_eq_true]

@[simp] theorem Sys.patchPod_procs : (st.patchPod r).procs = st.procs := by
  unfold Sys.patchPod
  split_ifs <;> rfl

@[simp] theorem Sys.patchPod_fileAt : (st.patchPod r).fileAt = st.fileAt := by
  unfold Sys.patchPod
  split_ifs <;> rfl

@[simp] theorem Sys.patchPod_keycloakAt :
    (st.patchPod r).keycloakAt = st.keycloakAt := by
  unfold Sys.patchPod
  split_ifs <;> rfl

end Frame

/-- The line of a write is in the file. -/
theorem assignment_mem_writeSecret {c : Client} (secret : Token)
    (seen : Option Text) :
    assignment c.envKey secret.text ∈
      fileLines (some (writeSecret c.envKey secret.text seen)) := by
  have hmem : assignment c.envKey secret.text ∈
      (setLine c.envKey secret.text (fileLines seen)).filter
        (isAssignment c.envKey) := by
    rw [filter_setLine (secretKey_envKey c)]
    exact List.mem_cons_self
  rw [fileLines_writeSecret (secretKey_envKey c)]
  exact (List.mem_filter.1 hmem).1

/-- What has been written to the file, and by whom. -/
structure FirstInv (keycloak pod : Client → Text) (st : Sys) : Prop where
  procs : ∀ p r, st.procs p = some r → r.pc.written = true →
    st.WasWritten r.client r.secret.text
  keycloak : ∀ c, st.keycloak c = keycloak c ∨ st.WasWritten c (st.keycloak c)
  pod : ∀ c, st.pod c = pod c ∨ st.WasWritten c (st.pod c)

theorem FirstInv.step {keycloak pod : Client → Text} {st st' : Sys} {act : Act}
    (h : FirstInv keycloak pod st) (hmoves : Moves st act st') :
    FirstInv keycloak pod st' := by
  cases hmoves with
  | begin hfree =>
      refine ⟨Sys.forall_setProc h.procs ?_, h.keycloak, h.pod⟩
      exact fun hw => by cases hw
  | @quiet _ r pc _ hp hwritten _ =>
      refine ⟨Sys.forall_setProc h.procs ?_, h.keycloak, h.pod⟩
      exact fun hw => h.procs _ r hp (hwritten hw)
  | @replace p _ r seen hp hpc _ =>
      set content := writeSecret r.client.envKey r.secret.text seen with hcontent
      have hkeep : ∀ c secret, st.WasWritten c secret →
          (st.replaceFile r.client content).WasWritten c secret :=
        fun c secret ⟨old, hold, hline⟩ =>
          ⟨old, List.mem_cons_of_mem _ hold, hline⟩
      have hmine : (st.replaceFile r.client content).WasWritten r.client
          r.secret.text :=
        ⟨content, List.mem_cons_self, assignment_mem_writeSecret _ _⟩
      refine ⟨Sys.forall_setProc ?_ ?_, ?_, ?_⟩
      · exact fun q s hq hw => hkeep _ _ (h.procs q s hq hw)
      · exact fun _ => hmine
      · exact fun c => (h.keycloak c).imp_right (hkeep c _)
      · exact fun c => (h.pod c).imp_right (hkeep c _)
  | @put p _ r pc hp hpc _ _ =>
      have hmine : st.WasWritten r.client r.secret.text :=
        h.procs p r hp (by rw [hpc]; rfl)
      refine ⟨Sys.forall_setProc h.procs (fun _ => hmine), ?_, h.pod⟩
      intro c
      rw [Sys.setProc_keycloak]
      by_cases hc : c = r.client
      · subst hc
        right
        rw [show (st.putSecret r).keycloak r.client = r.secret.text from
          Function.update_self _ _ _]
        exact hmine
      · rw [show (st.putSecret r).keycloak c = st.keycloak c from
          Function.update_of_ne hc _ _]
        exact h.keycloak c
  | @patch p _ r pc hp hpc _ _ =>
      have hpast : ∀ c secret, st.WasWritten c secret →
          ((st.patchPod r).setProc p (r.goto pc)).WasWritten c secret := by
        intro c secret hwas
        simpa [Sys.WasWritten] using hwas
      have hmine : st.WasWritten r.client r.secret.text :=
        h.procs p r hp (by rw [hpc]; rfl)
      refine ⟨Sys.forall_setProc ?_ (fun _ => hpast _ _ hmine), ?_, ?_⟩
      · intro q s hq hw
        rw [Sys.patchPod_procs] at hq
        exact hpast _ _ (h.procs q s hq hw)
      · intro c
        rw [Sys.setProc_keycloak, Sys.patchPod_keycloak]
        exact (h.keycloak c).imp_right (hpast c _)
      · intro c
        rw [Sys.setProc_pod, Sys.patchPod_pod]
        split_ifs with hc
        · obtain ⟨rfl, -⟩ := hc
          exact Or.inr (hpast _ _ hmine)
        · exact (h.pod c).imp_right (hpast c _)

/-- In every run the file comes first. -/
theorem fileFirst {file : Option Text} {keycloak pod : Client → Text}
    {st : Sys} (h : ReachAny Sys.step (Sys.init file keycloak pod) st) :
    FileFirst keycloak pod st := by
  have hinit : FirstInv keycloak pod (Sys.init file keycloak pod) :=
    ⟨fun _ _ hp => (by cases hp), fun _ => Or.inl rfl, fun _ => Or.inl rfl⟩
  have hinv : FirstInv keycloak pod st :=
    h.inv hinit (fun _ _ _ hs _ hstep => hs.step (moves_of_step hstep))
  exact fun c => ⟨hinv.keycloak c, hinv.pod c⟩

theorem calm_step {st : Sys} {p : Nat} {o : Outcome} {r : Rotation}
    (hcalm : Calm st (.step p o)) (ho : o ≠ .fails)
    (hp : st.procs p = some r) :
    match r.pc with
    | .replacing seen =>
        st.file = seen ∧ LastWord seen r.client.envKey r.secret.text
    | .putting => st.keycloakAt r.client ≤ r.number
    | .patching => st.podAt r.client ≤ r.number
    | _ => True := by
  cases o with
  | fails => exact absurd rfl ho
  | ok => exact hcalm r hp
  | lost => exact hcalm r hp

/-- The numbers of the writes and what the places hold, while no rotation
crosses another. -/
structure RotationInv (st : Sys) : Prop where
  numbered : ∀ p r, st.procs p = some r → r.pc.written = true → r.number ≠ 0
  number_le : ∀ p r, st.procs p = some r → r.number ≤ st.fileAt r.client
  fileAt_le : ∀ c, st.fileAt c ≤ st.past.length
  keycloakAt_le : ∀ c, st.keycloakAt c ≤ st.fileAt c
  podAt_le : ∀ c, st.podAt c ≤ st.fileAt c
  /-- The file has the secret of the last write. -/
  file : ∀ p r, st.procs p = some r → r.number ≠ 0 →
    r.number = st.fileAt r.client →
      readSecret r.client.envKey st.file = some r.secret.text
  keycloak : ∀ c, st.keycloakAt c ≠ 0 → st.keycloakAt c = st.fileAt c →
    readSecret c.envKey st.file = some (st.keycloak c)
  pod : ∀ c, st.podAt c ≠ 0 → st.podAt c = st.fileAt c →
    readSecret c.envKey st.file = some (st.pod c)
  put : ∀ p r, st.procs p = some r → r.pc.isPut = true →
    r.number ≤ st.keycloakAt r.client
  patched : ∀ p r, st.procs p = some r → r.pc.isDone = true →
    r.client.consumer = true → r.number ≤ st.podAt r.client
  /-- The rotation that wrote last is still known. -/
  writer : ∀ c, st.fileAt c ≠ 0 →
    ∃ p r, st.procs p = some r ∧ r.client = c ∧ r.number = st.fileAt c

namespace RotationInv

variable {st st' : Sys}

theorem init (file : Option Text) (keycloak pod : Client → Text) :
    RotationInv (Sys.init file keycloak pod) where
  numbered := fun _ _ hp => by cases hp
  number_le := fun _ _ hp => by cases hp
  fileAt_le := fun _ => Nat.le_refl 0
  keycloakAt_le := fun _ => Nat.le_refl 0
  podAt_le := fun _ => Nat.le_refl 0
  file := fun _ _ hp => by cases hp
  keycloak := fun _ h => absurd rfl h
  pod := fun _ h => absurd rfl h
  put := fun _ _ hp => by cases hp
  patched := fun _ _ hp => by cases hp
  writer := fun _ h => absurd rfl h

/-- A rotation that has the same client and number as the one it takes the
place of keeps the last writer known. -/
theorem writer_setProc (hinv : RotationInv st) {p : Nat} {r : Rotation}
    (hp : st.procs p = some r) (r' : Rotation)
    (hclient : r'.client = r.client) (hnumber : r'.number = r.number) :
    ∀ c, st.fileAt c ≠ 0 →
      ∃ q s, Function.update st.procs p (some r') q = some s ∧
        s.client = c ∧ s.number = st.fileAt c := by
  intro c hc
  obtain ⟨q, s, hq, hsc, hsn⟩ := hinv.writer c hc
  by_cases hqp : q = p
  · subst hqp
    rw [hp] at hq
    obtain rfl := Option.some.inj hq
    exact ⟨q, r', Function.update_self _ _ _, hclient.trans hsc,
      hnumber.trans hsn⟩
  · exact ⟨q, s, (Function.update_of_ne hqp _ _).trans hq, hsc, hsn⟩

theorem of_begin (hinv : RotationInv st) {p : Nat} {c : Client}
    {secret : Token} (hfree : st.procs p = none) :
    RotationInv (st.setProc p ⟨c, secret, 0, .looking⟩) where
  numbered := Sys.forall_setProc hinv.numbered (fun hw => by cases hw)
  number_le := Sys.forall_setProc hinv.number_le (Nat.zero_le _)
  fileAt_le := hinv.fileAt_le
  keycloakAt_le := hinv.keycloakAt_le
  podAt_le := hinv.podAt_le
  file := Sys.forall_setProc hinv.file (fun h => absurd rfl h)
  keycloak := hinv.keycloak
  pod := hinv.pod
  put := Sys.forall_setProc hinv.put (fun hput => by cases hput)
  patched := Sys.forall_setProc hinv.patched (fun hdone => by cases hdone)
  writer := by
    intro c hc
    obtain ⟨q, s, hq, hs⟩ := hinv.writer c hc
    have hqp : q ≠ p := by
      rintro rfl
      rw [hfree] at hq
      cases hq
    exact ⟨q, s, (Function.update_of_ne hqp _ _).trans hq, hs⟩

theorem of_quiet (hinv : RotationInv st) {p : Nat} {r : Rotation} {pc : Pc}
    (prev : Option Text) (hp : st.procs p = some r)
    (hwritten : pc.written = true → r.pc.written = true)
    (hput : pc.isPut = false) :
    RotationInv ({ st with prev := prev }.setProc p (r.goto pc)) where
  numbered := Sys.forall_setProc hinv.numbered
    (fun hw => hinv.numbered p r hp (hwritten hw))
  number_le := Sys.forall_setProc hinv.number_le (hinv.number_le p r hp)
  fileAt_le := hinv.fileAt_le
  keycloakAt_le := hinv.keycloakAt_le
  podAt_le := hinv.podAt_le
  file := Sys.forall_setProc hinv.file (hinv.file p r hp)
  keycloak := hinv.keycloak
  pod := hinv.pod
  put := Sys.forall_setProc hinv.put (fun h => by
    rw [Rotation.goto, hput] at h
    cases h)
  patched := Sys.forall_setProc hinv.patched (fun h => by
    cases pc <;> cases h
    cases hput)
  writer := hinv.writer_setProc hp _ rfl rfl

/-- The file is replaced while it is still what was read. -/
theorem of_replace (hinv : RotationInv st) {p : Nat} {r : Rotation}
    (hp : st.procs p = some r)
    (hlast : LastWord st.file r.client.envKey r.secret.text) :
    RotationInv ((st.replaceFile r.client
        (writeSecret r.client.envKey r.secret.text st.file)).setProc p
      { r with number := st.past.length + 1, pc := .converging }) := by
  set content := writeSecret r.client.envKey r.secret.text st.file
    with hcontent
  have hself : (st.replaceFile r.client content).fileAt r.client =
      st.past.length + 1 := Function.update_self _ _ _
  have hother : ∀ c, c ≠ r.client →
      (st.replaceFile r.client content).fileAt c = st.fileAt c :=
    fun c hc => Function.update_of_ne hc _ _
  have hmono : ∀ c, st.fileAt c ≤
      (st.replaceFile r.client content).fileAt c := by
    intro c
    by_cases hc : c = r.client
    · subst hc
      rw [hself]
      exact Nat.le_succ_of_le (hinv.fileAt_le _)
    · rw [hother c hc]
  have hnew : ∀ n c, n ≤ st.fileAt c →
      n = (st.replaceFile r.client content).fileAt c → c ≠ r.client := by
    rintro n c hn heq rfl
    have hle := hinv.fileAt_le r.client
    rw [hself] at heq
    omega
  have hread : ∀ c, c ≠ r.client →
      readSecret c.envKey (st.replaceFile r.client content).file =
        readSecret c.envKey st.file := by
    intro c hc
    exact readSecret_writeSecret_ne (secretKey_envKey _)
      (fun h => hc (envKey_inj h)) st.file
  constructor
  case numbered =>
    exact Sys.forall_setProc hinv.numbered (fun _ => Nat.succ_ne_zero _)
  case number_le =>
    refine Sys.forall_setProc ?_ (Nat.le_of_eq hself.symm)
    exact fun q s hq => (hinv.number_le q s hq).trans (hmono _)
  case fileAt_le =>
    intro c
    rw [Sys.setProc_fileAt]
    by_cases hc : c = r.client
    · subst hc
      exact Nat.le_of_eq hself
    · rw [hother c hc]
      exact Nat.le_succ_of_le (hinv.fileAt_le c)
  case keycloakAt_le => exact fun c => (hinv.keycloakAt_le c).trans (hmono c)
  case podAt_le => exact fun c => (hinv.podAt_le c).trans (hmono c)
  case file =>
    refine Sys.forall_setProc ?_ ?_
    · intro q s hq hs heq
      have hc := hnew _ _ (hinv.number_le q s hq) heq
      rw [Sys.setProc_file, hread _ hc]
      rw [Sys.setProc_fileAt, hother _ hc] at heq
      exact hinv.file q s hq hs heq
    · intro _ _
      have hkey := secretKey_envKey r.client
      rw [Sys.setProc_file]
      change readSecret r.client.envKey (some content) = some r.secret.text
      rw [hcontent, readSecret_writeSecret hkey]
      cases htail : ((fileLines st.file).filter
          (isAssignment r.client.envKey)).tail.getLast? with
      | none => rfl
      | some ln => exact congrArg some (hlast ln htail)
  case keycloak =>
    intro c hc heq
    have hne := hnew _ _ (hinv.keycloakAt_le c) heq
    rw [Sys.setProc_file, hread c hne]
    rw [Sys.setProc_fileAt, hother c hne] at heq
    exact hinv.keycloak c hc heq
  case pod =>
    intro c hc heq
    have hne := hnew _ _ (hinv.podAt_le c) heq
    rw [Sys.setProc_file, hread c hne]
    rw [Sys.setProc_fileAt, hother c hne] at heq
    exact hinv.pod c hc heq
  case put => exact Sys.forall_setProc hinv.put (fun h => by cases h)
  case patched => exact Sys.forall_setProc hinv.patched (fun h => by cases h)
  case writer =>
    intro c hc
    by_cases hself' : c = r.client
    · subst hself'
      exact ⟨p, _, Function.update_self _ _ _, rfl, hself.symm⟩
    · rw [Sys.setProc_fileAt, hother c hself'] at hc ⊢
      obtain ⟨q, s, hq, hsc, hsn⟩ := hinv.writer c hc
      have hqp : q ≠ p := by
        rintro rfl
        rw [hp] at hq
        obtain rfl := Option.some.inj hq
        exact hself' hsc.symm
      exact ⟨q, s, (Function.update_of_ne hqp _ _).trans hq, hsc, hsn⟩

/-- Keycloak gets a secret, and no later one has got there. -/
theorem of_put (hinv : RotationInv st) {p : Nat} {r : Rotation} {pc : Pc}
    (hp : st.procs p = some r) (hpc : r.pc = .putting)
    (hnext : pc = .patching ∨ pc = .failed)
    (hcalm : st.keycloakAt r.client ≤ r.number) :
    RotationInv ((st.putSecret r).setProc p (r.goto pc)) := by
  have hself : (st.putSecret r).keycloakAt r.client = r.number :=
    Function.update_self _ _ _
  have hother : ∀ c, c ≠ r.client →
      (st.putSecret r).keycloakAt c = st.keycloakAt c :=
    fun c hc => Function.update_of_ne hc _ _
  have hmono : ∀ c, st.keycloakAt c ≤ (st.putSecret r).keycloakAt c := by
    intro c
    by_cases hc : c = r.client
    · subst hc
      rwa [hself]
    · rw [hother c hc]
  have hw : r.pc.written = true := by rw [hpc]; rfl
  constructor
  case numbered =>
    exact Sys.forall_setProc hinv.numbered (fun _ => hinv.numbered p r hp hw)
  case number_le =>
    exact Sys.forall_setProc hinv.number_le (hinv.number_le p r hp)
  case fileAt_le => exact hinv.fileAt_le
  case keycloakAt_le =>
    intro c
    rw [Sys.setProc_keycloakAt]
    by_cases hc : c = r.client
    · subst hc
      rw [hself]
      exact hinv.number_le p r hp
    · rw [hother c hc]
      exact hinv.keycloakAt_le c
  case podAt_le => exact hinv.podAt_le
  case file => exact Sys.forall_setProc hinv.file (hinv.file p r hp)
  case keycloak =>
    intro c hne heq
    rw [Sys.setProc_keycloakAt] at hne heq
    rw [Sys.setProc_keycloak]
    by_cases hc : c = r.client
    · subst hc
      rw [hself] at hne heq
      have hvalue : (st.putSecret r).keycloak r.client = r.secret.text :=
        Function.update_self _ _ _
      rw [hvalue]
      exact hinv.file p r hp hne heq
    · rw [hother c hc] at hne heq
      have hvalue : (st.putSecret r).keycloak c = st.keycloak c :=
        Function.update_of_ne hc _ _
      rw [hvalue]
      exact hinv.keycloak c hne heq
  case pod => exact hinv.pod
  case put =>
    refine Sys.forall_setProc ?_ (fun _ => Nat.le_of_eq hself.symm)
    exact fun q s hq hs => (hinv.put q s hq hs).trans (hmono _)
  case patched =>
    refine Sys.forall_setProc hinv.patched ?_
    intro hdone
    rcases hnext with rfl | rfl <;> cases hdone
  case writer => exact hinv.writer_setProc hp _ rfl rfl

/-- The pod gets a secret, and no later one has got there. -/
theorem of_patch (hinv : RotationInv st) {p : Nat} {r : Rotation} {pc : Pc}
    (hp : st.procs p = some r) (hpc : r.pc = .patching)
    (hcalm : st.podAt r.client ≤ r.number) :
    RotationInv ((st.patchPod r).setProc p (r.goto pc)) := by
  have hw : r.pc.written = true := by rw [hpc]; rfl
  have hprocs : (st.patchPod r).procs = st.procs := Sys.patchPod_procs st r
  have hmono : ∀ c, st.podAt c ≤ (st.patchPod r).podAt c := by
    intro c
    rw [Sys.patchPod_podAt]
    split_ifs with hc
    · rwa [hc.1]
    · exact Nat.le_refl _
  constructor
  case numbered =>
    refine Sys.forall_setProc ?_ (fun _ => hinv.numbered p r hp hw)
    rw [hprocs]
    exact hinv.numbered
  case number_le =>
    simp only [Sys.setProc_fileAt, Sys.patchPod_fileAt]
    refine Sys.forall_setProc ?_ (hinv.number_le p r hp)
    rw [hprocs]
    exact hinv.number_le
  case fileAt_le => simpa using hinv.fileAt_le
  case keycloakAt_le => simpa using hinv.keycloakAt_le
  case podAt_le =>
    intro c
    simp only [Sys.setProc_podAt, Sys.patchPod_podAt, Sys.setProc_fileAt,
      Sys.patchPod_fileAt]
    split_ifs with hc
    · rw [hc.1]
      exact hinv.number_le p r hp
    · exact hinv.podAt_le c
  case file =>
    simp only [Sys.setProc_fileAt, Sys.patchPod_fileAt, Sys.setProc_file,
      Sys.patchPod_file]
    refine Sys.forall_setProc ?_ (hinv.file p r hp)
    rw [hprocs]
    exact hinv.file
  case keycloak => simpa using hinv.keycloak
  case pod =>
    intro c hne heq
    simp only [Sys.setProc_podAt, Sys.patchPod_podAt, Sys.setProc_fileAt,
      Sys.patchPod_fileAt, Sys.setProc_file, Sys.patchPod_file,
      Sys.setProc_pod, Sys.patchPod_pod] at hne heq ⊢
    split_ifs at hne heq ⊢ with hc
    · rw [hc.1] at heq ⊢
      exact hinv.file p r hp hne heq
    · exact hinv.pod c hne heq
  case put =>
    simp only [Sys.setProc_keycloakAt, Sys.patchPod_keycloakAt]
    refine Sys.forall_setProc ?_
      (fun _ => hinv.put p r hp (by rw [hpc]; rfl))
    rw [hprocs]
    exact hinv.put
  case patched =>
    refine Sys.forall_setProc ?_ ?_
    · rw [hprocs]
      exact fun q s hq hdone hcons =>
        (hinv.patched q s hq hdone hcons).trans (hmono _)
    · intro _ hcons
      rw [Sys.setProc_podAt, Sys.patchPod_podAt, if_pos ⟨rfl, hcons⟩]
      exact Nat.le_refl _
  case writer =>
    simp only [Sys.setProc_fileAt, Sys.patchPod_fileAt]
    have hwriter := hinv.writer_setProc hp (r.goto pc) rfl rfl
    rw [← hprocs] at hwriter
    exact hwriter

theorem step (hinv : RotationInv st) {act : Act} (hcalm : Calm st act)
    (hmoves : Moves st act st') : RotationInv st' := by
  cases hmoves with
  | begin hfree => exact hinv.of_begin hfree
  | @quiet act r pc prev hp hwritten hput =>
      exact hinv.of_quiet prev hp hwritten hput
  | @replace p o r seen hp hpc ho =>
      have hcross := calm_step hcalm ho hp
      rw [hpc] at hcross
      obtain ⟨hfile, hlast⟩ := hcross
      rw [← hfile] at hlast ⊢
      exact hinv.of_replace hp hlast
  | @put p o r pc hp hpc hnext ho =>
      have hcross := calm_step hcalm ho hp
      rw [hpc] at hcross
      exact hinv.of_put hp hpc hnext hcross
  | @patch p o r pc hp hpc hnext ho =>
      have hcross := calm_step hcalm ho hp
      rw [hpc] at hcross
      exact hinv.of_patch hp hpc hcross

/-- When all have ended well, every last write has got everywhere. -/
theorem agreed (hinv : RotationInv st) : Agreed st := by
  intro hdone p r hp
  have hput : ∀ q s, st.procs q = some s → s.pc.isPut = true := by
    intro q s hq
    rw [hdone q s hq]
    rfl
  have hnumber : r.number ≠ 0 :=
    hinv.numbered p r hp (by rw [hdone p r hp]; rfl)
  have hfile : st.fileAt r.client ≠ 0 := by
    have hle := hinv.number_le p r hp
    omega
  obtain ⟨q, s, hq, hsc, hsn⟩ := hinv.writer r.client hfile
  have hkeycloak : st.keycloakAt r.client = st.fileAt r.client := by
    have hle := hinv.put q s hq (hput q s hq)
    rw [hsc, hsn] at hle
    exact Nat.le_antisymm (hinv.keycloakAt_le _) hle
  have hread := hinv.keycloak r.client (by rwa [hkeycloak]) hkeycloak
  refine ⟨hread, ?_⟩
  intro hcons
  have hpod : st.podAt r.client = st.fileAt r.client := by
    have hle := hinv.patched q s hq (by rw [hdone q s hq]; rfl)
      (by rwa [hsc])
    rw [hsc, hsn] at hle
    exact Nat.le_antisymm (hinv.podAt_le _) hle
  have hpodRead := hinv.pod r.client (by rwa [hpod]) hpod
  rw [hread] at hpodRead
  exact (Option.some.inj hpodRead).symm

end RotationInv

/-- Only the replacement of the file changes what it says. -/
theorem othersKept {st st' : Sys} {act : Act} (hcalm : Calm st act)
    (hmoves : Moves st act st') : OthersKept st act st' := by
  intro s hs c hc
  cases hmoves with
  | begin hfree => rfl
  | quiet prev hp hwritten hput => rfl
  | @replace p o r seen hp hpc ho =>
      have hcross := calm_step hcalm ho hp
      rw [hpc] at hcross
      obtain ⟨hfile, -⟩ := hcross
      have hrs : st.procs p = some s := hs
      rw [hp] at hrs
      obtain rfl := Option.some.inj hrs
      rw [hfile]
      exact readSecret_writeSecret_ne (secretKey_envKey _)
        (fun h => hc (envKey_inj h)) seen
  | put hp hpc hnext ho => rfl
  | patch hp hpc hnext ho => simp

/-- The file comes first in every run. In the runs whose steps cross no other
rotation, moreover, each rotation keeps the other clients' values, and when all
have ended well the file, Keycloak and the pods agree. -/
theorem rotations_agree (file : Option Text) (keycloak pod : Client → Text) :
    (∀ st, ReachAny Sys.step (Sys.init file keycloak pod) st →
      FileFirst keycloak pod st) ∧
    ∀ st, Reach Sys.step Calm (Sys.init file keycloak pod) st →
      Agreed st ∧ ∀ act st', Calm st act → st.step act = some st' →
        OthersKept st act st' := by
  refine ⟨fun st h => fileFirst h, ?_⟩
  intro st h
  have hinv : RotationInv st :=
    h.inv (RotationInv.init file keycloak pod)
      (fun _ _ _ hs hok hstep => hs.step hok (moves_of_step hstep))
  exact ⟨hinv.agreed,
    fun act st' hcalm hstep => othersKept hcalm (moves_of_step hstep)⟩

def seededFile : Text :=
  "KEYCLOAK_ADMIN_PASSWORD=pw\nCAMARA_CLIENT_SECRET=old\n".toList ++
    "CAMARA_API_DEMO_SECRET=demo\n".toList

def seeded : Client → Text
  | .camaraGateway => "old".toList
  | .camaraApiDemo => "demo".toList
  | .dashboardReadonly => "changeme".toList

def demoSecret : Token where
  text := "d3mo-New".toList
  urlSafe := by decide

def rotateOnce : List Act :=
  .rotate 0 .camaraGateway newSecret :: List.replicate 10 (.step 0 .ok)

/-- A rotation that nobody crosses ends with the new secret everywhere. -/
theorem rotations_agree_once :
    ∃ st, Reach Sys.step Calm (Sys.init (some seededFile) seeded seeded) st ∧
      exec Sys.step (Sys.init (some seededFile) seeded seeded) rotateOnce =
        some st ∧
      st.keycloak .camaraGateway = newSecret.text ∧ Agreed st := by
  have hlast : LastWord (some seededFile) "CAMARA_CLIENT_SECRET".toList
      newSecret.text := by
    have htail : ((fileLines (some seededFile)).filter
        (isAssignment "CAMARA_CLIENT_SECRET".toList)).tail.getLast? = none := by
      decide
    intro ln hln
    rw [htail] at hln
    cases hln
  have h₀ : Reach Sys.step Calm
      (Sys.init (some seededFile) seeded seeded) _ :=
    Reach.refl.step (a := Act.rotate 0 .camaraGateway newSecret) trivial rfl
  have h₁ := h₀.step (a := Act.step 0 .ok) (fun _ hr => by cases hr; trivial) rfl
  have h₂ := h₁.step (a := Act.step 0 .ok) (fun _ hr => by cases hr; trivial) rfl
  have h₃ := h₂.step (a := Act.step 0 .ok) (fun _ hr => by cases hr; trivial) rfl
  have h₄ := h₃.step (a := Act.step 0 .ok) (fun _ hr => by cases hr; trivial) rfl
  have h₅ := h₄.step (a := Act.step 0 .ok) (fun _ hr => by cases hr; trivial) rfl
  -- the file is replaced while it is still what was read
  have h₆ := h₅.step (a := Act.step 0 .ok)
    (fun _ hr => by cases hr; exact ⟨rfl, hlast⟩) rfl
  have h₇ := h₆.step (a := Act.step 0 .ok) (fun _ hr => by cases hr; trivial) rfl
  have h₈ := h₇.step (a := Act.step 0 .ok) (fun _ hr => by cases hr; trivial) rfl
  have h₉ := h₈.step (a := Act.step 0 .ok)
    (fun _ hr => by cases hr; exact Nat.zero_le _) rfl
  have h₁₀ := h₉.step (a := Act.step 0 .ok)
    (fun _ hr => by cases hr; exact Nat.zero_le _) rfl
  have hrotations := rotations_agree (some seededFile) seeded seeded
  exact ⟨_, h₁₀, rfl, rfl, (hrotations.2 _ h₁₀).1⟩

/-- Two rotations of different clients read the file before either replaces
it. -/
def crossed : List Act :=
  [.rotate 0 .camaraGateway newSecret, .rotate 1 .camaraApiDemo demoSecret,
    .step 0 .ok, .step 0 .ok, .step 1 .ok, .step 1 .ok] ++
    List.replicate 8 (.step 0 .ok) ++ List.replicate 8 (.step 1 .ok)

/-- The second one brings the first client's old secret back into the file,
and Keycloak has the new one. -/
theorem crossed_splits :
    ¬ ∀ file keycloak pod st,
      ReachAny Sys.step (Sys.init file keycloak pod) st →
        FileFirst keycloak pod st ∧ Agreed st ∧
          ∀ act st', st.step act = some st' → OthersKept st act st' := by
  intro h
  cases hrun : exec Sys.step (Sys.init (some seededFile) seeded seeded)
      crossed with
  | none =>
      revert hrun
      decide
  | some st =>
      have hagreed := (h _ _ _ st (Reach.refl.exec hrun)).2.1
      cases hrun
      have hread := (hagreed ?_ 0 _ rfl).1
      · revert hread
        decide
      · intro p r hp
        match p with
        | 0 =>
            cases hp
            rfl
        | 1 =>
            cases hp
            rfl
        | p + 2 => cases hp

end RotationTruth

end Iam
end Kelt
