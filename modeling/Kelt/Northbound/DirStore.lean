import Kelt.Northbound.Files

/-!
# The directory store of a Deployment

`attach_dir_store` rewrites the pod template of a Deployment: it removes what
belongs to the store by name and by path, and adds the volume, the mount and the
variable again. The volumes to remove are given by name, while the mounts of the
first container are removed by path, and those of the other containers not at
all. So the new template is well formed exactly when no other mount names one of
these volumes (`attached_iff`). The volume of the documents is one of them, and
another document mounted from it is such a mount (`not_fits_mountFile`).

Of a volume, a mount, a variable and a container, `γ` is what the rewriting does
not look at.
-/

namespace Kelt
namespace Northbound
namespace DirStore

section Settle

variable {α : Type*}

/-- Put an element at the end, and take out all of its kind before. -/
def settle (kind : α → Bool) (a : α) (l : List α) : List α :=
  l.filter (fun b => !kind b) ++ [a]

theorem mem_settle_iff {kind : α → Bool} {a b : α} {l : List α} :
    b ∈ settle kind a l ↔ (b ∈ l ∧ kind b = false) ∨ b = a := by
  rw [settle, List.mem_append, List.mem_filter, List.mem_singleton,
    Bool.not_eq_true']

/-- What is not of the kind stays as it is and in its order. -/
theorem filter_settle {kind : α → Bool} {a : α} (ha : kind a = true)
    (l : List α) :
    (settle kind a l).filter (fun b => !kind b) =
      l.filter (fun b => !kind b) := by
  have hnone : ([a]).filter (fun b => !kind b) = [] := by
    rw [List.filter_singleton, ha]
    rfl
  rw [settle, List.filter_append, hnone, List.append_nil, List.filter_filter]
  simp only [Bool.and_self]

theorem settle_settle {kind : α → Bool} {a : α} (ha : kind a = true)
    (l : List α) : settle kind a (settle kind a l) = settle kind a l := by
  rw [settle, filter_settle ha, settle]

end Settle

section Template

variable {γ : Type}

inductive Source (γ : Type) where
  | claim (name : Text)
  | configMap (name : Text)
  | other (g : γ)

structure Volume (γ : Type) where
  name : Text
  source : Source γ

structure Mount (γ : Type) where
  name : Text
  path : Text
  subPath : Option Text
  readOnly : Option Bool
  rest : Option γ

inductive EnvValue (γ : Type) where
  | text (t : Text)
  | other (g : γ)

structure Env (γ : Type) where
  name : Text
  value : EnvValue γ

structure Container (γ : Type) where
  name : Text
  mounts : Option (List (Mount γ))
  env : Option (List (Env γ))
  rest : γ

/-- The containers are `container`, which there always is, and `others`. -/
structure Template (γ : Type) where
  volumes : Option (List (Volume γ))
  initContainers : Option (List (Container γ))
  container : Container γ
  others : List (Container γ)

/-- `... or []` -/
def orEmpty {α : Type*} (l : Option (List α)) : List α :=
  l.getD []

def Template.allContainers (t : Template γ) : List (Container γ) :=
  orEmpty t.initContainers ++ t.container :: t.others

/-- Each mount of each container names a volume, and no two of a container have
one path. -/
structure Template.WellFormed (t : Template γ) : Prop where
  declared : ∀ c ∈ t.allContainers, ∀ m ∈ orEmpty c.mounts,
    m.name ∈ (orEmpty t.volumes).map Volume.name
  paths : ∀ c ∈ t.allContainers, ((orEmpty c.mounts).map Mount.path).Nodup

/-- The arguments of `attach_dir_store`. -/
structure StoreArgs where
  pvc : Text
  mountDir : Text
  envName : Text
  envValue : Text
  stripPaths : List Text
  stripInit : List Text
  stripVolumes : List Text

namespace StoreArgs

variable (a : StoreArgs)

/-- What belongs to the store: its volume and mounts, earlier ones that are to
be stripped, what is mounted at its directory, and its variable. -/
def ownsVolume (v : Volume γ) : Bool :=
  (a.pvc :: a.stripVolumes).contains v.name

def ownsMount (m : Mount γ) : Bool :=
  m.name == a.pvc || (a.mountDir :: a.stripPaths).contains m.path

def ownsEnv (e : Env γ) : Bool :=
  e.name == a.envName

def ownsInit (c : Container γ) : Bool :=
  a.stripInit.contains c.name

def volume : Volume γ :=
  ⟨a.pvc, .claim a.pvc⟩

def mount : Mount γ :=
  ⟨a.pvc, a.mountDir, none, none, none⟩

def env : Env γ :=
  ⟨a.envName, .text a.envValue⟩

/-- The init containers that are kept, `or None`. -/
def keepInit (init : Option (List (Container γ))) :
    Option (List (Container γ)) :=
  match init with
  | none => none
  | some [] => some []
  | some (c :: rest) =>
      let kept := (c :: rest).filter fun c => !a.ownsInit c
      if kept.isEmpty then none else some kept

/-- The new template. -/
def attach (t : Template γ) : Template γ where
  volumes := some (settle a.ownsVolume a.volume (orEmpty t.volumes))
  initContainers := a.keepInit t.initContainers
  container :=
    { t.container with
      mounts := some (settle a.ownsMount a.mount (orEmpty t.container.mounts))
      env := some (settle a.ownsEnv a.env (orEmpty t.container.env)) }
  others := t.others

end StoreArgs

/-- What comes of writing the Deployment back. -/
inductive Replaced where
  | ok
  | conflict
  | error

/-- The attempts, each with the template that it reads. The last one is given,
and the template that it writes. -/
def attempts (a : StoreArgs) :
    List (Template γ × Replaced) → Option (Template γ × Template γ)
  | [] => none
  | (t, .ok) :: _ => some (t, a.attach t)
  | (_, .error) :: _ => none
  | (_, .conflict) :: rest => attempts a rest

/-- `attach_dir_store` -/
def attachDirStore (a : StoreArgs) (tries : List (Template γ × Replaced)) :
    Option (Template γ × Template γ) :=
  attempts a (tries.take 5)

/-- What is claimed of the new template. -/
structure Attached (a : StoreArgs) (t t' : Template γ) : Prop where
  wellFormed : t'.WellFormed
  volume : a.volume ∈ orEmpty t'.volumes
  mount : a.mount ∈ orEmpty t'.container.mounts
  env : a.env ∈ orEmpty t'.container.env
  keptVolumes : (orEmpty t'.volumes).filter (fun v => !a.ownsVolume v) =
    (orEmpty t.volumes).filter fun v => !a.ownsVolume v
  keptMounts :
    (orEmpty t'.container.mounts).filter (fun m => !a.ownsMount m) =
      (orEmpty t.container.mounts).filter fun m => !a.ownsMount m
  keptEnv : (orEmpty t'.container.env).filter (fun e => !a.ownsEnv e) =
    (orEmpty t.container.env).filter fun e => !a.ownsEnv e
  keptInit : orEmpty t'.initContainers =
    (orEmpty t.initContainers).filter fun c => !a.ownsInit c
  keptContainer : t'.container.name = t.container.name ∧
    t'.container.rest = t.container.rest ∧ t'.others = t.others
  again : a.attach t' = t'

/-- The condition: apart from the volume of the store, no volume that is
stripped is mounted by what stays: a mount of the first container at another
path, or a mount of another container. -/
structure Fits (a : StoreArgs) (t : Template γ) : Prop where
  first : ∀ m ∈ orEmpty t.container.mounts, m.name ∈ a.stripVolumes →
    m.name = a.pvc ∨ m.path ∈ a.mountDir :: a.stripPaths
  others : ∀ c ∈ t.others, ∀ m ∈ orEmpty c.mounts,
    m.name ∈ a.stripVolumes → m.name = a.pvc
  init : ∀ c ∈ orEmpty t.initContainers, c.name ∉ a.stripInit →
    ∀ m ∈ orEmpty c.mounts, m.name ∈ a.stripVolumes → m.name = a.pvc

end Template

section Attach

variable {γ : Type} {a : StoreArgs} {t t' : Template γ}

theorem ownsVolume_iff {v : Volume γ} :
    a.ownsVolume v = true ↔ v.name = a.pvc ∨ v.name ∈ a.stripVolumes := by
  rw [StoreArgs.ownsVolume, List.contains_iff_mem, List.mem_cons]

theorem ownsMount_iff {m : Mount γ} :
    a.ownsMount m = true ↔
      m.name = a.pvc ∨ m.path ∈ a.mountDir :: a.stripPaths := by
  rw [StoreArgs.ownsMount, Bool.or_eq_true, List.contains_iff_mem, beq_iff_eq]

theorem ownsVolume_volume : a.ownsVolume (a.volume : Volume γ) = true :=
  ownsVolume_iff.2 (.inl rfl)

theorem ownsMount_mount : a.ownsMount (a.mount : Mount γ) = true :=
  ownsMount_iff.2 (.inl rfl)

theorem ownsEnv_env : a.ownsEnv (a.env : Env γ) = true :=
  beq_self_eq_true a.envName

theorem orEmpty_keepInit (init : Option (List (Container γ))) :
    orEmpty (a.keepInit init) =
      (orEmpty init).filter fun c => !a.ownsInit c := by
  cases init with
  | none => rfl
  | some l =>
      cases l with
      | nil => rfl
      | cons c rest =>
          rw [StoreArgs.keepInit]
          split
          · next hempty => exact (List.isEmpty_iff.1 hempty).symm
          · rfl

theorem keepInit_keepInit (init : Option (List (Container γ))) :
    a.keepInit (a.keepInit init) = a.keepInit init := by
  have hkept := orEmpty_keepInit (a := a) init
  cases hinit : a.keepInit init with
  | none => rfl
  | some l =>
      rw [hinit] at hkept
      have hl : l = (orEmpty init).filter fun c => !a.ownsInit c := hkept
      cases l with
      | nil => rfl
      | cons c rest =>
          have hsame : (c :: rest).filter (fun c => !a.ownsInit c) =
              c :: rest := by
            rw [hl, List.filter_filter]
            simp only [Bool.and_self]
          rw [StoreArgs.keepInit]
          simp only [hsame]
          rfl

/-- Attaching the store again changes nothing. -/
theorem attach_attach (t : Template γ) :
    a.attach (a.attach t) = a.attach t := by
  have hvolumes : settle a.ownsVolume a.volume
      (settle a.ownsVolume a.volume (orEmpty t.volumes)) = _ :=
    settle_settle ownsVolume_volume _
  have hmounts : settle a.ownsMount a.mount
      (settle a.ownsMount a.mount (orEmpty t.container.mounts)) = _ :=
    settle_settle ownsMount_mount _
  have henv : settle a.ownsEnv a.env
      (settle a.ownsEnv a.env (orEmpty t.container.env)) = _ :=
    settle_settle ownsEnv_env _
  have hinit := keepInit_keepInit (a := a) t.initContainers
  simp only [StoreArgs.attach, orEmpty, Option.getD_some] at *
  rw [hvolumes, hmounts, henv, hinit]

/-- A name that is declared before is declared afterwards, unless it is a volume
that is stripped. -/
theorem declared_attach_iff (t : Template γ) (name : Text) :
    name ∈ (orEmpty (a.attach t).volumes).map Volume.name ↔
      (name ∈ (orEmpty t.volumes).map Volume.name ∧ name ∉ a.stripVolumes) ∨
        name = a.pvc := by
  rw [List.mem_map]
  constructor
  · rintro ⟨v, hv, rfl⟩
    rcases mem_settle_iff.1 hv with ⟨hold, hother⟩ | rfl
    · refine .inl ⟨List.mem_map_of_mem hold, fun hstrip => ?_⟩
      rw [ownsVolume_iff.2 (.inr hstrip)] at hother
      cases hother
    · exact .inr rfl
  · rintro (⟨hold, hstrip⟩ | rfl)
    · by_cases hpvc : name = a.pvc
      · exact ⟨a.volume, mem_settle_iff.2 (.inr rfl), hpvc.symm⟩
      · obtain ⟨v, hv, rfl⟩ := List.mem_map.1 hold
        refine ⟨v, mem_settle_iff.2 (.inl ⟨hv, ?_⟩), rfl⟩
        rw [Bool.eq_false_iff, Ne, ownsVolume_iff]
        exact not_or.2 ⟨hpvc, hstrip⟩
    · exact ⟨a.volume, mem_settle_iff.2 (.inr rfl), rfl⟩

/-- The containers of the new template. -/
theorem mem_allContainers_attach_iff {c : Container γ} :
    c ∈ (a.attach t).allContainers ↔
      (c ∈ orEmpty t.initContainers ∧ c.name ∉ a.stripInit) ∨
        c = (a.attach t).container ∨ c ∈ t.others := by
  have hinit : orEmpty (a.attach t).initContainers =
      (orEmpty t.initContainers).filter fun c => !a.ownsInit c :=
    orEmpty_keepInit _
  have howns : (!a.ownsInit c) = true ↔ c.name ∉ a.stripInit := by
    rw [Bool.not_eq_true', Bool.eq_false_iff, Ne, StoreArgs.ownsInit,
      List.contains_iff_mem]
  rw [Template.allContainers, List.mem_append, hinit, List.mem_filter, howns,
    List.mem_cons]
  rfl

theorem paths_attach (h : t.WellFormed) :
    ∀ c ∈ (a.attach t).allContainers,
      ((orEmpty c.mounts).map Mount.path).Nodup := by
  intro c hc
  rcases mem_allContainers_attach_iff.1 hc with ⟨hinit, -⟩ | rfl | hother
  · exact h.paths c (List.mem_append_left _ hinit)
  · have hold := h.paths t.container
      (List.mem_append_right _ List.mem_cons_self)
    have hkept : (((orEmpty t.container.mounts).filter
        fun m => !a.ownsMount m).map Mount.path).Nodup :=
      hold.sublist (List.filter_sublist.map _)
    change ((settle a.ownsMount a.mount
      (orEmpty t.container.mounts)).map Mount.path).Nodup
    rw [settle, List.map_append, List.map_singleton]
    refine List.nodup_append.2 ⟨hkept, List.nodup_singleton _, ?_⟩
    intro path hpath path' hpath' heq
    rw [List.mem_singleton] at hpath'
    obtain ⟨m, hm, rfl⟩ := List.mem_map.1 hpath
    have hdir : m.path = a.mountDir := heq.trans hpath'
    have howned : a.ownsMount m = true :=
      ownsMount_iff.2 (.inr (hdir ▸ List.mem_cons_self))
    have hnot := (List.mem_filter.1 hm).2
    rw [howned] at hnot
    cases hnot
  · exact h.paths c (List.mem_append_right _ (List.mem_cons_of_mem _ hother))

/-- The new template is well formed exactly under the condition. -/
theorem wellFormed_attach_iff (h : t.WellFormed) :
    (a.attach t).WellFormed ↔ Fits a t := by
  constructor
  · intro hnew
    have hstripped : ∀ c ∈ (a.attach t).allContainers,
        ∀ m ∈ orEmpty c.mounts, m.name ∈ a.stripVolumes → m.name = a.pvc := by
      intro c hc m hm hstrip
      rcases (declared_attach_iff t m.name).1 (hnew.declared c hc m hm) with
        hold | hpvc
      · exact absurd hstrip hold.2
      · exact hpvc
    refine ⟨fun m hm hstrip => ?_, fun c hc => ?_, fun c hc hname => ?_⟩
    · by_cases howned : a.ownsMount m = true
      · exact ownsMount_iff.1 howned
      · exact .inl (hstripped _
          (mem_allContainers_attach_iff.2 (.inr (.inl rfl))) m
          (mem_settle_iff.2 (.inl ⟨hm, Bool.eq_false_iff.2 howned⟩)) hstrip)
    · exact hstripped c (mem_allContainers_attach_iff.2 (.inr (.inr hc)))
    · exact hstripped c (mem_allContainers_attach_iff.2 (.inl ⟨hc, hname⟩))
  · intro hfits
    have hdeclared {name : Text}
        (hold : name ∈ (orEmpty t.volumes).map Volume.name)
        (hstrip : name ∈ a.stripVolumes → name = a.pvc) :
        name ∈ (orEmpty (a.attach t).volumes).map Volume.name := by
      rw [declared_attach_iff]
      by_cases hmem : name ∈ a.stripVolumes
      · exact .inr (hstrip hmem)
      · exact .inl ⟨hold, hmem⟩
    refine ⟨fun c hc m hm => ?_, paths_attach h⟩
    rcases mem_allContainers_attach_iff.1 hc with ⟨hinit, hname⟩ | rfl | hother
    · exact hdeclared (h.declared c (List.mem_append_left _ hinit) m hm)
        (hfits.init c hinit hname m hm)
    · rcases mem_settle_iff.1 hm with ⟨hold, hother⟩ | rfl
      · refine hdeclared (h.declared t.container
          (List.mem_append_right _ List.mem_cons_self) m hold) fun hstrip => ?_
        rcases hfits.first m hold hstrip with hpvc | hpath
        · exact hpvc
        · rw [ownsMount_iff.2 (.inr hpath)] at hother
          cases hother
      · exact (declared_attach_iff t _).2 (.inr rfl)
    · exact hdeclared (h.declared c
        (List.mem_append_right _ (List.mem_cons_of_mem _ hother)) m hm)
        (hfits.others c hother m hm)

theorem attempts_eq_some {tries : List (Template γ × Replaced)}
    (h : attempts a tries = some (t, t')) :
    (t, Replaced.ok) ∈ tries ∧ t' = a.attach t := by
  induction tries with
  | nil => cases h
  | cons attempt rest ih =>
      obtain ⟨read, replaced⟩ := attempt
      cases replaced with
      | ok =>
          cases h
          exact ⟨List.mem_cons_self, rfl⟩
      | conflict =>
          obtain ⟨hmem, ht'⟩ := ih h
          exact ⟨List.mem_cons_of_mem _ hmem, ht'⟩
      | error => cases h

end Attach

section Upsert

variable {α κ : Type*} [DecidableEq κ]

/-- Change the element under a key, or add one at the end: how a strategic merge
treats an element of a list. -/
def upsert (key : α → κ) (f : α → α) (a : α) : List α → List α
  | [] => [a]
  | b :: rest =>
      if key b = key a then f b :: rest else b :: upsert key f a rest

theorem mem_of_mem_upsert {key : α → κ} {f : α → α} {a b : α} {l : List α}
    (h : b ∈ upsert key f a l) :
    b ∈ l ∨ b = a ∨ ∃ b' ∈ l, key b' = key a ∧ b = f b' := by
  induction l with
  | nil => exact .inr (.inl (List.mem_singleton.1 h))
  | cons c rest ih =>
      rw [upsert] at h
      split at h
      · next hkey =>
          rcases List.mem_cons.1 h with rfl | hrest
          · exact .inr (.inr ⟨c, List.mem_cons_self, hkey, rfl⟩)
          · exact .inl (List.mem_cons_of_mem _ hrest)
      · rcases List.mem_cons.1 h with rfl | hrest
        · exact .inl List.mem_cons_self
        · rcases ih hrest with hold | rfl | ⟨b', hb', hkey, rfl⟩
          · exact .inl (List.mem_cons_of_mem _ hold)
          · exact .inr (.inl rfl)
          · exact .inr (.inr ⟨b', List.mem_cons_of_mem _ hb', hkey, rfl⟩)

theorem exists_mem_upsert (key : α → κ) (f : α → α) (a : α) (l : List α) :
    ∃ b ∈ upsert key f a l, b = a ∨ ∃ b', key b' = key a ∧ b = f b' := by
  induction l with
  | nil => exact ⟨a, List.mem_cons_self, .inl rfl⟩
  | cons c rest ih =>
      rw [upsert]
      split
      · next hkey =>
          exact ⟨f c, List.mem_cons_self, .inr ⟨c, hkey, rfl⟩⟩
      · obtain ⟨b, hb, hcases⟩ := ih
        exact ⟨b, List.mem_cons_of_mem _ hb, hcases⟩

/-- Where the key stays what it is, the keys are the old ones and the new. -/
theorem map_upsert {key : α → κ} {f : α → α} {a : α}
    (hf : ∀ b, key (f b) = key b) (l : List α) :
    (upsert key f a l).map key =
      if key a ∈ l.map key then l.map key else l.map key ++ [key a] := by
  induction l with
  | nil => rfl
  | cons b rest ih =>
      rw [upsert]
      by_cases hkey : key b = key a
      · rw [if_pos hkey, List.map_cons, List.map_cons, hf, hkey,
          if_pos List.mem_cons_self]
      · have hmem : key a ∈ key b :: rest.map key ↔ key a ∈ rest.map key :=
          ⟨fun h => (List.mem_cons.1 h).resolve_left (Ne.symm hkey),
            List.mem_cons_of_mem _⟩
        rw [if_neg hkey, List.map_cons, List.map_cons, ih]
        simp only [hmem]
        split
        · rfl
        · rfl

theorem mem_map_upsert_iff {key : α → κ} {f : α → α} {a : α}
    (hf : ∀ b, key (f b) = key b) (l : List α) (k : κ) :
    k ∈ (upsert key f a l).map key ↔ k ∈ l.map key ∨ k = key a := by
  rw [map_upsert hf]
  split
  · next hmem =>
      exact ⟨.inl, fun h => h.elim id fun heq => heq ▸ hmem⟩
  · rw [List.mem_append, List.mem_singleton]

end Upsert

section ServiceFiles

variable {γ : Type}

def serviceFiles : Text :=
  "service-files".toList

/-- The arguments that `_ensure_writable_store` gives. -/
def storeArgs (name : Text) (doc : StatefulDoc) : StoreArgs where
  pvc := name ++ "-data".toList
  mountDir := storeDir
  envName := doc.env
  envValue := storePath doc
  stripPaths := [doc.path]
  stripInit := ["seed-store".toList]
  stripVolumes := [serviceFiles]

/-- The volume of the ConfigMap with the documents. -/
def fileVolume (name : Text) : Volume γ :=
  ⟨serviceFiles, .configMap (name ++ "-files".toList)⟩

def asFileVolume (name : Text) (v : Volume γ) : Volume γ :=
  { v with source := .configMap (name ++ "-files".toList) }

def fileMount (path : Text) : Mount γ :=
  ⟨serviceFiles, path, some (fileKey path), some true, none⟩

def asFileMount (path : Text) (m : Mount γ) : Mount γ :=
  { m with
    name := serviceFiles
    subPath := some (fileKey path)
    readOnly := some true }

/-- The patch of `apply_service_file` for a document with a mount of its own. -/
def mountFile (name path : Text) (t : Template γ) : Template γ :=
  { t with
    volumes := some (upsert Volume.name (asFileVolume name) (fileVolume name)
      (orEmpty t.volumes))
    container :=
      { t.container with
        mounts := some (upsert Mount.path (asFileMount path) (fileMount path)
          (orEmpty t.container.mounts)) } }

/-- Mounting a document keeps a template well formed. -/
theorem wellFormed_mountFile {t : Template γ} (h : t.WellFormed)
    (name path : Text) : (mountFile name path t).WellFormed := by
  have hdeclared {v : Text} (hv : v ∈ (orEmpty t.volumes).map Volume.name ∨
      v = serviceFiles) :
      v ∈ (orEmpty (mountFile name path t).volumes).map Volume.name :=
    (mem_map_upsert_iff (f := asFileVolume name) (a := fileVolume name)
      (fun _ => rfl) _ v).2 hv
  have hcontainers {c : Container γ}
      (hc : c ∈ (mountFile name path t).allContainers) :
      c = (mountFile name path t).container ∨ c ∈ t.allContainers := by
    rcases List.mem_append.1 hc with hinit | hrest
    · exact .inr (List.mem_append_left _ hinit)
    · rcases List.mem_cons.1 hrest with rfl | hother
      · exact .inl rfl
      · exact .inr
          (List.mem_append_right _ (List.mem_cons_of_mem _ hother))
  have hfirst : t.container ∈ t.allContainers :=
    List.mem_append_right _ List.mem_cons_self
  constructor
  · intro c hc m hm
    rcases hcontainers hc with rfl | hold
    · rcases mem_of_mem_upsert hm with hold | rfl | ⟨m', -, -, rfl⟩
      · exact hdeclared (.inl (h.declared _ hfirst m hold))
      · exact hdeclared (.inr rfl)
      · exact hdeclared (.inr rfl)
    · exact hdeclared (.inl (h.declared c hold m hm))
  · intro c hc
    rcases hcontainers hc with rfl | hold
    · have hpaths := h.paths _ hfirst
      change ((upsert Mount.path (asFileMount path) (fileMount path)
        (orEmpty t.container.mounts)).map Mount.path).Nodup
      rw [map_upsert (f := asFileMount path) fun _ => rfl]
      split
      · exact hpaths
      · next hnew =>
          exact List.nodup_append.2 ⟨hpaths, List.nodup_singleton _,
            fun p hp q hq heq => hnew (List.mem_singleton.1 hq ▸ heq ▸ hp)⟩
    · exact h.paths c hold

theorem pvc_ne_serviceFiles (name : Text) (doc : StatefulDoc) :
    serviceFiles ≠ (storeArgs name doc).pvc := by
  intro heq
  have hlast := congrArg List.getLast? heq
  rw [show (storeArgs name doc).pvc = name ++ "-data".toList from rfl,
    List.getLast?_append] at hlast
  cases hlast

/-- Where a document is mounted beside the one that the service writes, its
store cannot be attached. -/
theorem not_fits_mountFile (name : Text) (doc : StatefulDoc) {path : Text}
    (hdir : path ≠ storeDir) (hdoc : path ≠ doc.path) (t : Template γ) :
    ¬ Fits (storeArgs name doc) (mountFile name path t) := by
  intro hfits
  obtain ⟨m, hm, hcases⟩ := exists_mem_upsert Mount.path (asFileMount path)
    (fileMount path) (orEmpty t.container.mounts)
  have hmount : m.name = serviceFiles ∧ m.path = path := by
    rcases hcases with rfl | ⟨m', hpath, rfl⟩
    · exact ⟨rfl, rfl⟩
    · exact ⟨rfl, hpath⟩
  rcases hfits.first m hm (hmount.1 ▸ List.mem_cons_self) with hpvc | hpath
  · exact pvc_ne_serviceFiles name doc (hmount.1.symm.trans hpvc)
  · rw [hmount.2, List.mem_cons] at hpath
    rcases hpath with hpath | hpath
    · exact hdir hpath
    · exact hdoc (List.mem_singleton.1 hpath)

/-- A service as it is deployed: one container, without volumes. -/
def bareTemplate (name : Text) : Template Unit where
  volumes := none
  initContainers := none
  container := ⟨name, none, none, ()⟩
  others := []

theorem wellFormed_bareTemplate (name : Text) :
    (bareTemplate name).WellFormed where
  declared c hc m hm := by
    rw [List.mem_singleton.1 hc] at hm
    cases hm
  paths c hc := by
    rw [List.mem_singleton.1 hc]
    exact List.nodup_nil

end ServiceFiles

section Attached

variable {γ : Type}

/-- The template that is written has all that is claimed of it exactly when no
volume that is stripped is still mounted. -/
theorem attached_iff (a : StoreArgs) (tries : List (Template γ × Replaced))
    (t t' : Template γ) (hwf : ∀ attempt ∈ tries, attempt.1.WellFormed)
    (h : attachDirStore a tries = some (t, t')) :
    Attached a t t' ↔ Fits a t := by
  obtain ⟨hmem, rfl⟩ := attempts_eq_some h
  have hold : t.WellFormed := hwf _ (List.mem_of_mem_take hmem)
  refine ⟨fun hattached => (wellFormed_attach_iff hold).1 hattached.wellFormed,
    fun hfits => ?_⟩
  exact {
    wellFormed := (wellFormed_attach_iff hold).2 hfits
    volume := mem_settle_iff.2 (.inr rfl)
    mount := mem_settle_iff.2 (.inr rfl)
    env := mem_settle_iff.2 (.inr rfl)
    keptVolumes := filter_settle ownsVolume_volume _
    keptMounts := filter_settle ownsMount_mount _
    keptEnv := filter_settle ownsEnv_env _
    keptInit := orEmpty_keepInit _
    keptContainer := ⟨rfl, rfl, rfl⟩
    again := attach_attach t }

def wifiAdapter : Text :=
  "wifi-adapter".toList

def wifiDoc : StatefulDoc :=
  ⟨"WIFI_CONFIG_PATH".toList, "/app/config/wifi-config.json".toList⟩

/-- The service as it is deployed, after a conflict with the rollout. -/
theorem attached_iff_bareTemplate :
    Attached (storeArgs wifiAdapter wifiDoc) (bareTemplate wifiAdapter)
      ((storeArgs wifiAdapter wifiDoc).attach (bareTemplate wifiAdapter)) := by
  refine (attached_iff (storeArgs wifiAdapter wifiDoc)
    [(bareTemplate wifiAdapter, .conflict), (bareTemplate wifiAdapter, .ok)]
    _ _ ?_ rfl).2 ⟨?_, ?_, ?_⟩
  · intro attempt hattempt
    rcases List.mem_cons.1 hattempt with rfl | hattempt
    · exact wellFormed_bareTemplate _
    · rw [List.mem_singleton.1 hattempt]
      exact wellFormed_bareTemplate _
  · exact fun _ hm => nomatch hm
  · exact fun _ hc => nomatch hc
  · exact fun _ hc => nomatch hc

/-- Another document is mounted before the store is attached. -/
theorem not_attached_otherDocument :
    ¬ ∀ (a : StoreArgs) (tries : List (Template Unit × Replaced))
        (t t' : Template Unit),
      (∀ attempt ∈ tries, attempt.1.WellFormed) →
      attachDirStore a tries = some (t, t') → Attached a t t' := by
  intro h
  have hwf := wellFormed_mountFile (wellFormed_bareTemplate wifiAdapter)
    wifiAdapter "/app/config/zones.json".toList
  have hattached := h (storeArgs wifiAdapter wifiDoc)
    [(mountFile wifiAdapter "/app/config/zones.json".toList
      (bareTemplate wifiAdapter), .ok)] _ _
    (fun attempt hattempt => by
      rw [List.mem_singleton.1 hattempt]
      exact hwf)
    rfl
  exact not_fits_mountFile wifiAdapter wifiDoc (by decide) (by decide) _
    ((wellFormed_attach_iff hwf).1 hattached.wellFormed)

end Attached

end DirStore
end Northbound
end Kelt
