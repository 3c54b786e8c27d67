import Kelt.Piece.LockExclusion

/-!
# What is said about a lock

`run`, `start`, `list` and `show` learn that a lock is taken by trying it, and
who has it from the id in its file. A try of their own makes others fail, and
the id in the file may be one that was left there, or one that came later.

`Truthful` is what an answer should mean, and `Calm` says which steps cross
nobody else's. What a call has to do with either is in the part of its process
(`Part`), which every call changes as `Move.Talks` says.
-/

namespace Kelt
namespace Piece

section LockReports

/-- Where a run is between its lock and its id. -/
inductive Telling where
  | idle
  | locked (d : Nat)
  | cleared (d : Nat)

/-- The part of a process in what is said about locks: the id it runs under;
the description it opened for its run; how far it is with its id; the lock it
tries next, and whether it will give out the id it finds (`true`); the lock it
has failed to get, with the description it met; the lock it has got only to
look, or to write the env file; what it has open for that; what it will say. -/
structure Part where
  rid : Option Text
  own : Option (Nat × Text × Text)
  stage : Telling
  asks : Option (Nat × Text × Bool)
  awaits : Option (Text × Nat × Bool)
  probes : Option Text
  plain : List Nat
  pending : List Answer

def Part.none : Part :=
  ⟨.none, .none, .idle, .none, .none, .none, [], []⟩

/-- A look of a process whose part is `t` otherwise. -/
def Look.part (tells : Bool) (t : Part) (l : Look) : Part :=
  match l.pc with
  | .opening => t
  | .opened d =>
      { t with
        asks := if tells then some (d, l.key, true) else .none
        plain := [d] }
  | .got d => { t with probes := some l.key, plain := [d] }
  | .lost d seen =>
      { t with
        awaits := if tells then some (l.key, seen, true) else .none
        plain := [d] }
  | .reading seen =>
      { t with awaits := if tells then some (l.key, seen, true) else .none }

def Body.part (t : Part) (d : Nat) : Body → Part
  | .locked => { t with stage := .locked d }
  | .cleared => { t with stage := .cleared d }
  | .guardOpened g _ => { t with plain := [g] }
  | .guarded g _ => { t with probes := some guardKey, plain := [g] }
  | .guardFailed g => { t with probes := some guardKey, plain := [g] }
  | .pruning (.looking _ look _ _ _) => look.part false t
  | _ => t

def RunArgs.part (a : RunArgs) : Part :=
  { Part.none with rid := some a.rid }

def RunArgs.ownPart (a : RunArgs) (d : Nat) : Part :=
  { a.part with own := some (d, a.key, a.rid) }

def RunPc.part (a : RunArgs) : RunPc → Part
  | .opening => a.part
  | .opened d => { a.ownPart d with asks := some (d, a.key, false) }
  | .lost d seen => { a.ownPart d with awaits := some (a.key, seen, false) }
  | .refused seen => { a.part with awaits := some (a.key, seen, false) }
  | .body d b => b.part (a.ownPart d) d

def Proc.part : Proc → Part
  | .run a pc => pc.part a
  | .play a d => { Part.none with own := some (d, a.key, a.rid) }
  | .ended _ => .none
  | .start _ _ (.asking look) => look.part true .none
  | .start _ _ (.probing _ look) => look.part true .none
  | .start _ _ _ => .none
  | .list (.looking _ look _) out =>
      look.part true { Part.none with pending := out }
  | .list _ out => { Part.none with pending := out }
  | .say answers => { Part.none with pending := answers }

/-- An answer about a taken lock is truthful when the description that was met
is the one of a run under that lock key, and an id that is given as running is
the id of this run. -/
def Truthful (operation : Nat → Option (Text × Text)) : Answer → Prop
  | .refused key _ seen => ∃ rid, operation seen = some (key, rid)
  | .busy key reply seen =>
      ∃ rid, operation seen = some (key, rid) ∧
        ∀ id, reply.id = some id → id = rid
  | .running key id seen =>
      ∃ rid, operation seen = some (key, rid) ∧ ∀ i, id = some i → i = rid
  | .started _ => True
  | .failed _ => True

/-- The next call of `P` crosses nobody else's. -/
structure Orderly (st : Sys) (P : Proc) : Prop where
  /-- Nobody has the lock that it tries just to look or for the env file. -/
  noProbe : ∀ d key tells, P.part.asks = some (d, key, tells) →
    ∀ q Q, st.procs q = some Q → Q.part.probes ≠ some key
  /-- No run stands between that lock and emptying its file. -/
  noStaleId : ∀ d key, P.part.asks = some (d, key, true) →
    ∀ q Q e rid, st.procs q = some Q → Q.part.own = some (e, key, rid) →
      Q.part.stage ≠ .locked e
  /-- A run tells its id while nobody is about to read that of another. -/
  noLaterId : ∀ d key rid, P.part.stage = .cleared d →
    P.part.own = some (d, key, rid) →
    ∀ q Q seen, st.procs q = some Q →
      Q.part.awaits = some (key, seen, true) → seen = d
  /-- An id that `start` gives out is read back as it is. -/
  plainId : ∀ name p rid, P = .start name p (.launched rid) → strip rid = rid

/-- Steps that cross nobody else's; an id given to `run` is read back as it
is: no line feed ends it. -/
def Calm (st : Sys) : Act → Prop
  | .run _ _ rid => strip rid = rid
  | .step p _ => ∀ P, st.procs p = some P → Orderly st P
  | _ => True

/-- An answer that says nothing about a taken lock. -/
def Answer.Plain : Answer → Prop
  | .started _ => True
  | .failed _ => True
  | _ => False

/-- An answer made from a lock key, the description met and the id read. -/
def Answer.Fits (key : Text) (seen : Nat) (tells : Bool) (id : Option Text) :
    Answer → Prop
  | .refused key' _ seen' => key' = key ∧ seen' = seen
  | .busy key' reply seen' =>
      key' = key ∧ seen' = seen ∧ tells = true ∧ reply.id = id
  | .running key' id' seen' =>
      key' = key ∧ seen' = seen ∧ tells = true ∧ id' = id
  | .started _ => True
  | .failed _ => True

theorem busyAnswer_id (name : Text) (other : Option Text) :
    (busyAnswer name other).id = other := by
  cases other with
  | none => rfl
  | some other =>
      rw [busyAnswer]
      split_ifs <;> rfl

theorem Answer.Plain.truthful {a : Answer} (h : a.Plain)
    (operation : Nat → Option (Text × Text)) : Truthful operation a := by
  cases a with
  | started rid => trivial
  | failed rid => trivial
  | _ => cases h

theorem Answer.Fits.truthful {a : Answer} {key : Text} {seen : Nat}
    {tells : Bool} {id : Option Text} (h : a.Fits key seen tells id)
    {operation : Nat → Option (Text × Text)} {rid : Text}
    (hop : operation seen = some (key, rid))
    (hid : tells = true → id = none ∨ id = some rid) :
    Truthful operation a := by
  have hread : tells = true → ∀ i, id = some i → i = rid := by
    intro htells i hi
    rcases hid htells with hnone | hsome
    · rw [hnone] at hi
      cases hi
    · rw [hsome] at hi
      exact (Option.some.inj hi).symm
  cases a with
  | refused key' other seen' =>
      obtain ⟨rfl, rfl⟩ := h
      exact ⟨rid, hop⟩
  | busy key' reply seen' =>
      obtain ⟨rfl, rfl, htells, rfl⟩ := h
      exact ⟨rid, hop, hread htells⟩
  | running key' id' seen' =>
      obtain ⟨rfl, rfl, htells, rfl⟩ := h
      exact ⟨rid, hop, hread htells⟩
  | started rid => trivial
  | failed rid => trivial

/-- The part `t'` promises nothing that `t` does not. -/
structure Part.Le (t' t : Part) : Prop where
  rid : ∀ x, t'.rid = some x → t.rid = some x
  own : ∀ x, t'.own = some x → t.own = some x
  awaits : ∀ x, t'.awaits = some x → t.awaits = some x
  plain : ∀ d ∈ t'.plain, d ∈ t.plain
  pending : ∀ a ∈ t'.pending, a ∈ t.pending ∨ a.Plain

theorem Part.Le.refl (t : Part) : t.Le t :=
  ⟨fun _ h => h, fun _ h => h, fun _ h => h, fun _ h => h,
    fun _ h => Or.inl h⟩

theorem Part.Le.withoutPlain {t' t : Part} (h : t'.Le t) :
    ({ t' with plain := [] } : Part).Le t :=
  ⟨h.rid, h.own, h.awaits, fun _ hd => absurd hd List.not_mem_nil, h.pending⟩

/-- The part of a process after a call. -/
def Move.Talks (P : Proc) : Move → Prop
  | .openLock _ none k =>
      ∀ d, ({ (k d).part with plain := [] } : Part).Le P.part ∧
        (k d).part.stage = P.part.stage ∧
        ∀ e ∈ (k d).part.plain, e = d ∨ e ∈ P.part.plain
  | .openLock key (some rid) k =>
      P.part.rid = some rid ∧
      ∀ d, ({ (k d).part with own := none } : Part).Le P.part ∧
        (k d).part.stage = P.part.stage ∧
        (k d).part.own = some (d, key, rid)
  | .openGuard k =>
      ∀ d, ({ (k d).part with plain := [] } : Part).Le P.part ∧
        (k d).part.stage = P.part.stage ∧
        ∀ e ∈ (k d).part.plain, e = d ∨ e ∈ P.part.plain
  | .flock d k =>
      ((k none).part.Le P.part ∧
        ((k none).part.stage = P.part.stage ∧ d ∈ P.part.plain ∨
          (k none).part.stage = .locked d ∧ P.part.stage = .idle)) ∧
      ∀ seen, ({ (k (some seen)).part with awaits := none } : Part).Le
          P.part ∧
        (k (some seen)).part.stage = P.part.stage ∧
        ∀ key s tells, (k (some seen)).part.awaits = some (key, s, tells) →
          s = seen ∧ P.part.asks = some (d, key, tells)
  | .flockWait d k =>
      k.part.Le P.part ∧ k.part.stage = P.part.stage ∧ d ∈ P.part.plain
  | .close _ k => k.part.Le P.part ∧ k.part.stage = P.part.stage
  | .truncate d k =>
      P.part.stage = .locked d ∧ k.part.Le P.part ∧
        k.part.stage = .cleared d
  | .write d rid k =>
      P.part.stage = .cleared d ∧ k.part.Le P.part ∧
        k.part.stage = .idle ∧ ∃ key, P.part.own = some (d, key, rid)
  | .readId key k =>
      ∀ id, ({ (k id).part with pending := [] } : Part).Le P.part ∧
        (k id).part.stage = P.part.stage ∧
        ∀ a ∈ (k id).part.pending, a ∈ P.part.pending ∨
          ∃ seen tells, P.part.awaits = some (key, seen, tells) ∧
            a.Fits key seen tells id
  | .saveTmp _ _ k => k.part.Le P.part ∧ k.part.stage = P.part.stage
  | .saveRename _ k => k.part.Le P.part ∧ k.part.stage = P.part.stage
  | .readRecord _ k =>
      ∀ r, (k r).part.Le P.part ∧ (k r).part.stage = P.part.stage
  | .pathExists _ k =>
      ∀ found, (k found).part.Le P.part ∧
        (k found).part.stage = P.part.stage
  | .listdir k =>
      ∀ ns, (k ns).part.Le P.part ∧ (k ns).part.stage = P.part.stage
  | .unlink _ k => k.part.Le P.part ∧ k.part.stage = P.part.stage
  | .popen child _ k =>
      (∀ q, (k q).part.Le P.part ∧ (k q).part.stage = P.part.stage) ∧
      ({ child.part with rid := none } : Part).Le P.part ∧
      child.part.stage = .idle ∧
      ∀ rid, child.part.rid = some rid →
        ∃ name p, P = .start name p (.launched rid)
  | .wait _ k =>
      ∀ code, (k code).part.Le P.part ∧ (k code).part.stage = P.part.stage
  | .choose k =>
      ∀ c P', k c = some P' →
        P'.part.Le P.part ∧ P'.part.stage = P.part.stage
  | .say answers => ∀ a ∈ answers, a ∈ P.part.pending
  | .exits => True
  | .exit => True
  | .stuck => True

/-- The calls of a look, for a process whose part is `t` otherwise. -/
theorem Look.move_talks (tells : Bool) (t : Part) {l : Look}
    {again : Look → Proc} {free : Proc} {held : Nat → Option Text → Proc}
    {P : Proc} (hP : P.part = l.part tells t)
    (ht : t.asks = none ∧ t.awaits = none ∧ t.plain = [])
    (hagain : ∀ l', (again l').part = l'.part tells t)
    (hfree : free.part.Le t ∧ free.part.stage = t.stage)
    (hheld : ∀ seen id,
      ({ (held seen id).part with pending := [] } : Part).Le t ∧
        (held seen id).part.stage = t.stage ∧
        ∀ a ∈ (held seen id).part.pending, a ∈ t.pending ∨
          tells = true ∧ a.Fits l.key seen true id) :
    (l.move again free held).Talks P := by
  obtain ⟨key, pc⟩ := l
  obtain ⟨hasks, hawaits, hplain⟩ := ht
  have hle : t.Le t := Part.Le.refl t
  cases pc with
  | opening =>
      have hpart : P.part = t := hP
      intro d
      rw [hagain, hpart]
      refine ⟨⟨hle.rid, hle.own, hle.awaits, ?_, hle.pending⟩, rfl, ?_⟩
      · exact fun e he => by cases he
      · intro e he
        exact Or.inl (List.mem_singleton.1 he)
  | opened d =>
      have hpart : P.part = { t with
          asks := if tells then some (d, key, true) else none
          plain := [d] } := hP
      refine ⟨⟨?_, Or.inl ⟨?_, ?_⟩⟩, ?_⟩
      · rw [hagain, hpart]
        exact ⟨hle.rid, hle.own, hle.awaits, fun _ h => h, hle.pending⟩
      · rw [hagain, hpart]
        rfl
      · rw [hpart]
        exact List.mem_singleton.2 rfl
      · intro seen
        rw [hagain, hpart]
        refine ⟨⟨hle.rid, hle.own, fun x hx => (by cases hx), fun _ h => h,
          hle.pending⟩, rfl, ?_⟩
        intro key' s tells' h
        cases tells with
        | false => cases h
        | true =>
            obtain ⟨rfl, hrest⟩ := Prod.mk.inj (Option.some.inj h)
            obtain ⟨rfl, rfl⟩ := Prod.mk.inj hrest
            exact ⟨rfl, rfl⟩
  | got d =>
      have hpart : P.part = { t with probes := some key, plain := [d] } := hP
      obtain ⟨hfreeLe, hstage⟩ := hfree
      refine ⟨?_, ?_⟩
      · rw [hpart]
        refine ⟨hfreeLe.rid, hfreeLe.own, hfreeLe.awaits, ?_,
          hfreeLe.pending⟩
        intro e he
        have he' := hfreeLe.plain e he
        rw [hplain] at he'
        cases he'
      · rw [hstage, hpart]
  | lost d seen =>
      have hpart : P.part = { t with
          awaits := if tells then some (key, seen, true) else none
          plain := [d] } := hP
      refine ⟨?_, ?_⟩
      · rw [hagain, hpart]
        refine ⟨hle.rid, hle.own, fun _ h => h, ?_, hle.pending⟩
        intro e he
        have he' : e ∈ t.plain := he
        rw [hplain] at he'
        cases he'
      · rw [hagain, hpart]
        rfl
  | reading seen =>
      have hpart : P.part = { t with
          awaits := if tells then some (key, seen, true) else none } := hP
      intro id
      obtain ⟨hheldLe, hstage, hpending⟩ := hheld seen id
      rw [hpart]
      refine ⟨⟨hheldLe.rid, hheldLe.own, ?_, hheldLe.plain, ?_⟩, hstage, ?_⟩
      · intro x hx
        have hx' := hheldLe.awaits x hx
        rw [hawaits] at hx'
        cases hx'
      · exact fun a ha => by cases ha
      · intro a ha
        rcases hpending a ha with ha | ⟨htells, hfits⟩
        · exact Or.inl ha
        · refine Or.inr ⟨seen, true, ?_, hfits⟩
          rw [htells]
          rfl

theorem PrunePc.move_talks (reg : Registry) (a : RunArgs) (d : Nat)
    (pc : PrunePc) :
    (pc.move reg a.rid (fun pc => .run a (.body d (.pruning pc)))
      (.run a (.body d .closing))).Talks (.run a (.body d (.pruning pc))) := by
  have hle := Part.Le.refl (a.ownPart d)
  cases pc with
  | listing => exact fun _ => ⟨hle, rfl⟩
  | checking todo files doomed =>
      cases todo with
      | nil =>
          intro c P hP
          obtain rfl := Option.some.inj hP
          exact ⟨hle, rfl⟩
      | cons rid todo =>
          intro r
          cases r with
          | none =>
              beta_reduce
              split_ifs <;> exact ⟨hle, rfl⟩
          | some r =>
              beta_reduce
              dsimp only
              split_ifs <;> exact ⟨hle, rfl⟩
  | looking rid look todo files doomed =>
      rw [PrunePc.move]
      apply Look.move_talks false (a.ownPart d)
      · rfl
      · exact ⟨rfl, rfl, rfl⟩
      · exact fun _ => rfl
      · exact ⟨hle, rfl⟩
      · intro seen id
        split_ifs <;> exact ⟨hle, rfl, fun a ha => Or.inl ha⟩
  | deleting files =>
      intro c P hP
      cases c with
      | pick i =>
          obtain ⟨n, -, rfl⟩ := Option.map_eq_some_iff.1 hP
          exact ⟨hle, rfl⟩
      | stop =>
          obtain rfl := Option.some.inj hP
          exact ⟨hle, rfl⟩
      | _ => cases hP
  | unlinking n files => exact ⟨hle, rfl⟩

theorem Body.move_talks (reg : Registry) (a : RunArgs) (d : Nat) (b : Body) :
    (b.move reg a d).Talks (.run a (.body d b)) := by
  have hle := Part.Le.refl (a.ownPart d)
  cases b with
  | locked =>
      exact ⟨rfl, ⟨hle.rid, hle.own, hle.awaits, hle.plain, hle.pending⟩, rfl⟩
  | cleared =>
      exact ⟨rfl, ⟨hle.rid, hle.own, hle.awaits, hle.plain, hle.pending⟩, rfl,
        a.key, rfl⟩
  | saving todo => exact ⟨hle, rfl⟩
  | saved todo => exact ⟨hle, rfl⟩
  | jobs todo =>
      cases todo with
      | nil =>
          intro c P hP
          obtain rfl := Option.some.inj hP
          exact ⟨hle, rfl⟩
      | cons job todo =>
          cases job with
          | play =>
              refine ⟨fun _ => ⟨hle, rfl⟩, ?_, rfl, fun rid h => (by cases h)⟩
              exact ⟨fun x h => (by cases h), hle.own, hle.awaits, hle.plain,
                hle.pending⟩
          | setEnv =>
              intro c P hP
              obtain rfl := Option.some.inj hP
              exact ⟨hle, rfl⟩
  | playing child todo =>
      intro c P hP
      cases c with
      | task =>
          obtain rfl := Option.some.inj hP
          exact ⟨hle, rfl⟩
      | go =>
          obtain rfl := Option.some.inj hP
          exact ⟨hle, rfl⟩
      | _ => cases hP
  | noting child todo => exact ⟨hle, rfl⟩
  | noted child todo => exact ⟨hle, rfl⟩
  | waiting child todo =>
      intro code
      beta_reduce
      split_ifs <;> exact ⟨hle, rfl⟩
  | guardOpening todo =>
      intro g
      exact ⟨⟨hle.rid, hle.own, hle.awaits, hle.plain, hle.pending⟩, rfl,
        fun e he => Or.inl (List.mem_singleton.1 he)⟩
  | guardOpened g todo =>
      exact ⟨⟨hle.rid, hle.own, hle.awaits, fun _ h => h, hle.pending⟩, rfl,
        List.mem_singleton.2 rfl⟩
  | guarded g todo =>
      exact ⟨⟨hle.rid, hle.own, hle.awaits, fun x hx => (by cases hx),
        hle.pending⟩, rfl⟩
  | guardFailed g =>
      exact ⟨⟨hle.rid, hle.own, hle.awaits, fun x hx => (by cases hx),
        hle.pending⟩, rfl⟩
  | ending state => exact ⟨hle, rfl⟩
  | ended state => exact ⟨hle, rfl⟩
  | pruning pc => exact pc.move_talks reg a d
  | closing => trivial

theorem RunPc.move_talks (reg : Registry) (a : RunArgs) (pc : RunPc) :
    (pc.move reg a).Talks (.run a pc) := by
  have hle := Part.Le.refl a.part
  cases pc with
  | opening =>
      exact ⟨rfl, fun d => ⟨⟨hle.rid, hle.own, hle.awaits, hle.plain,
        hle.pending⟩, rfl, rfl⟩⟩
  | opened d =>
      have hown := Part.Le.refl (a.ownPart d)
      refine ⟨⟨⟨hown.rid, hown.own, hown.awaits, hown.plain, hown.pending⟩,
        Or.inr ⟨rfl, rfl⟩⟩, ?_⟩
      intro seen
      refine ⟨⟨hown.rid, hown.own, hown.awaits, hown.plain, hown.pending⟩,
        rfl, ?_⟩
      intro key s tells h
      obtain ⟨rfl, hrest⟩ := Prod.mk.inj (Option.some.inj h)
      obtain ⟨rfl, rfl⟩ := Prod.mk.inj hrest
      exact ⟨rfl, rfl⟩
  | lost d seen =>
      exact ⟨⟨hle.rid, fun x h => (by cases h), fun _ h => h, hle.plain,
        hle.pending⟩, rfl⟩
  | refused seen =>
      intro id
      refine ⟨⟨fun x h => (by cases h), hle.own, fun x h => (by cases h),
        hle.plain, hle.pending⟩, rfl, ?_⟩
      intro answer hanswer
      obtain rfl := List.mem_singleton.1 hanswer
      exact Or.inr ⟨seen, false, rfl, rfl, rfl⟩
  | body d b => exact b.move_talks reg a d

theorem StartPc.move_talks (name : Text) (p : Entry) (pc : StartPc) :
    (pc.move name p).Talks (.start name p pc) := by
  have hle := Part.Le.refl Part.none
  have hsay : ∀ a : Answer, a.Plain →
      (Proc.say [a]).part.Le Part.none := by
    intro a ha
    refine ⟨hle.rid, hle.own, hle.awaits, hle.plain, ?_⟩
    intro a' ha'
    obtain rfl := List.mem_singleton.1 ha'
    exact Or.inr ha
  have hbusy : ∀ (key : Text) (seen : Nat) (id : Option Text),
      ({ (Proc.say [.busy key (busyAnswer name id) seen]).part with
          pending := [] } : Part).Le Part.none ∧
        ∀ a ∈ (Proc.say [.busy key (busyAnswer name id) seen]).part.pending,
          a ∈ Part.none.pending ∨
            true = true ∧ a.Fits key seen true id := by
    intro key seen id
    refine ⟨hle, ?_⟩
    intro a ha
    obtain rfl := List.mem_singleton.1 ha
    exact Or.inr ⟨rfl, rfl, rfl, rfl, busyAnswer_id name id⟩
  cases pc with
  | asking look =>
      rw [StartPc.move]
      apply Look.move_talks true Part.none
      · rfl
      · exact ⟨rfl, rfl, rfl⟩
      · exact fun _ => rfl
      · exact ⟨hle, rfl⟩
      · intro seen id
        obtain ⟨hpart, hpending⟩ := hbusy look.key seen id
        exact ⟨hpart, rfl, hpending⟩
  | launching =>
      intro c P hP
      cases c with
      | stamp t =>
          dsimp only at hP
          split_ifs at hP
          obtain rfl := Option.some.inj hP
          exact ⟨hle, rfl⟩
      | _ => cases hP
  | launched rid =>
      rw [StartPc.move]
      split_ifs with h
      · refine ⟨fun _ => ⟨hle, rfl⟩, hle, rfl, ?_⟩
        intro rid' hrid'
        obtain rfl := Option.some.inj hrid'
        exact ⟨name, p, rfl⟩
      · intro c P hP
        obtain rfl := Option.some.inj hP
        exact ⟨hle, rfl⟩
  | polling rid =>
      intro c P hP
      cases c with
      | late =>
          obtain rfl := Option.some.inj hP
          exact ⟨hsay _ trivial, rfl⟩
      | go =>
          obtain rfl := Option.some.inj hP
          exact ⟨hle, rfl⟩
      | _ => cases hP
  | checking rid =>
      intro found
      cases found with
      | true => exact ⟨hsay _ trivial, rfl⟩
      | false => exact ⟨hle, rfl⟩
  | probing rid look =>
      rw [StartPc.move]
      apply Look.move_talks true Part.none
      · rfl
      · exact ⟨rfl, rfl, rfl⟩
      · exact fun _ => rfl
      · exact ⟨hle, rfl⟩
      · intro seen id
        split_ifs
        · exact ⟨hle, rfl, fun a ha => Or.inl ha⟩
        · obtain ⟨hpart, hpending⟩ := hbusy look.key seen id
          exact ⟨hpart, rfl, hpending⟩

theorem ListPc.move_talks (reg : Registry) (out : List Answer)
    (pc : ListPc) : (pc.move reg out).Talks (.list pc out) := by
  have hle := Part.Le.refl { Part.none with pending := out }
  cases pc with
  | globbing => exact fun _ => ⟨hle, rfl⟩
  | reading todo =>
      cases todo with
      | nil =>
          intro c P hP
          obtain rfl := Option.some.inj hP
          exact ⟨hle, rfl⟩
      | cons n todo =>
          intro r
          cases r with
          | none => exact ⟨hle, rfl⟩
          | some r =>
              dsimp only
              split_ifs <;> exact ⟨hle, rfl⟩
  | looking r look todo =>
      rw [ListPc.move]
      apply Look.move_talks true { Part.none with pending := out }
      · rfl
      · exact ⟨rfl, rfl, rfl⟩
      · exact fun _ => rfl
      · exact ⟨hle, rfl⟩
      · intro seen id
        have hnil : ({ Part.none with pending := [] } : Part).Le
            { Part.none with pending := out } :=
          ⟨hle.rid, hle.own, hle.awaits, hle.plain,
            fun _ ha => (by cases ha)⟩
        split_ifs with hid
        · refine ⟨hnil, rfl, ?_⟩
          intro a ha
          rcases List.mem_cons.1 ha with rfl | ha
          · exact Or.inr ⟨rfl, rfl, rfl, rfl, hid.symm⟩
          · exact Or.inl ha
        · exact ⟨hnil, rfl, fun a ha => Or.inl ha⟩

/-- Every call of every process changes its part as the call does. -/
theorem Proc.move_talks (reg : Registry) (P : Proc) :
    (P.move reg).Talks P := by
  cases P with
  | run a pc => exact pc.move_talks reg a
  | play a d => trivial
  | ended code => trivial
  | start name p pc => exact pc.move_talks name p
  | list pc out => exact pc.move_talks reg out
  | say answers => exact fun _ ha => ha

namespace Look

variable (l : Look) (tells : Bool) (t : Part)

theorem part_own : (l.part tells t).own = t.own := by
  obtain ⟨key, pc⟩ := l
  cases pc <;> rfl

theorem part_stage : (l.part tells t).stage = t.stage := by
  obtain ⟨key, pc⟩ := l
  cases pc <;> rfl

variable {l tells t}

theorem part_asks_false (ht : t.asks = none) :
    (l.part false t).asks = none := by
  obtain ⟨key, pc⟩ := l
  cases pc with
  | opened d => rfl
  | _ => exact ht

theorem fds_of_asks (ht : t.asks = none) {d : Nat} {key : Text} {r : Bool}
    (h : (l.part tells t).asks = some (d, key, r)) : (d, key) ∈ l.fds := by
  obtain ⟨key', pc⟩ := l
  cases pc with
  | opened e =>
      cases tells with
      | false => cases h
      | true =>
          obtain ⟨rfl, hrest⟩ := Prod.mk.inj (Option.some.inj h)
          obtain ⟨rfl, -⟩ := Prod.mk.inj hrest
          exact List.mem_singleton.2 rfl
  | _ =>
      have hnone : t.asks = some (d, key, r) := h
      rw [ht] at hnone
      cases hnone

theorem fds_of_plain (ht : t.plain = []) {d : Nat}
    (h : d ∈ (l.part tells t).plain) : ∃ key, (d, key) ∈ l.fds := by
  obtain ⟨key, pc⟩ := l
  cases pc with
  | opened e => exact ⟨key, List.mem_singleton.2 (by simp_all [Look.part])⟩
  | got e => exact ⟨key, List.mem_singleton.2 (by simp_all [Look.part])⟩
  | lost e seen =>
      exact ⟨key, List.mem_singleton.2 (by simp_all [Look.part])⟩
  | opening =>
      have hnil : d ∈ t.plain := h
      rw [ht] at hnil
      cases hnil
  | reading seen =>
      have hnil : d ∈ t.plain := h
      rw [ht] at hnil
      cases hnil

end Look

namespace Body

variable (b : Body) (t : Part) (d : Nat)

theorem part_own : (b.part t d).own = t.own := by
  cases b with
  | pruning pc =>
      cases pc with
      | looking rid look todo files doomed => exact look.part_own false t
      | _ => rfl
  | _ => rfl

variable {b t d}

theorem part_asks (ht : t.asks = none) : (b.part t d).asks = none := by
  cases b with
  | pruning pc =>
      cases pc with
      | looking rid look todo files doomed => exact Look.part_asks_false ht
      | _ => exact ht
  | _ => exact ht

theorem fds_of_plain (ht : t.plain = []) {e : Nat}
    (h : e ∈ (b.part t d).plain) : ∃ key, (e, key) ∈ b.fds := by
  cases b with
  | guardOpened g todo =>
      obtain rfl := List.mem_singleton.1 h
      exact ⟨guardKey, List.mem_singleton.2 rfl⟩
  | guarded g todo =>
      obtain rfl := List.mem_singleton.1 h
      exact ⟨guardKey, List.mem_singleton.2 rfl⟩
  | guardFailed g =>
      obtain rfl := List.mem_singleton.1 h
      exact ⟨guardKey, List.mem_singleton.2 rfl⟩
  | pruning pc =>
      cases pc with
      | looking rid look todo files doomed => exact Look.fds_of_plain ht h
      | _ =>
          have hnil : e ∈ t.plain := h
          rw [ht] at hnil
          cases hnil
  | _ =>
      have hnil : e ∈ t.plain := h
      rw [ht] at hnil
      cases hnil

end Body

namespace Proc

variable {P : Proc}

/-- The description that a process opened for its run is open. -/
theorem fds_of_own {d : Nat} {key rid : Text}
    (h : P.part.own = some (d, key, rid)) : (d, key) ∈ P.view.fds := by
  have hown : ∀ (a : RunArgs) (e : Nat),
      some (e, a.key, a.rid) = some (d, key, rid) → (d, key) = (e, a.key) := by
    intro a e he
    obtain ⟨rfl, hrest⟩ := Prod.mk.inj (Option.some.inj he)
    rw [(Prod.mk.inj hrest).1]
  have hlook : ∀ (l : Look) (t : Part), t.own = none →
      (l.part true t).own ≠ some (d, key, rid) := by
    intro l t ht
    rw [l.part_own, ht]
    exact fun hne => (by cases hne)
  cases P with
  | run a pc =>
      cases pc with
      | opened e => exact List.mem_singleton.2 (hown a e h)
      | lost e seen => exact List.mem_singleton.2 (hown a e h)
      | body e b =>
          have hbody : (b.part (a.ownPart e) e).own = _ := h
          rw [b.part_own] at hbody
          exact List.mem_append_right _
            (List.mem_singleton.2 (hown a e hbody))
      | _ => cases h
  | play a e => exact List.mem_singleton.2 (hown a e h)
  | start name p pc =>
      cases pc with
      | asking look => exact absurd h (hlook look _ rfl)
      | probing rid look => exact absurd h (hlook look _ rfl)
      | _ => cases h
  | list pc out =>
      cases pc with
      | looking r look todo => exact absurd h (hlook look _ rfl)
      | _ => cases h
  | _ => cases h

/-- The lock file that it tries is open. -/
theorem fds_of_asks {d : Nat} {key : Text} {r : Bool}
    (h : P.part.asks = some (d, key, r)) : (d, key) ∈ P.view.fds := by
  cases P with
  | run a pc =>
      cases pc with
      | opened e =>
          obtain ⟨rfl, hrest⟩ := Prod.mk.inj (Option.some.inj h)
          obtain ⟨rfl, -⟩ := Prod.mk.inj hrest
          exact List.mem_singleton.2 rfl
      | body e b =>
          have hbody : (b.part (a.ownPart e) e).asks = _ := h
          rw [Body.part_asks rfl] at hbody
          cases hbody
      | _ => cases h
  | start name p pc =>
      cases pc with
      | asking look => exact Look.fds_of_asks rfl h
      | probing rid look => exact Look.fds_of_asks rfl h
      | _ => cases h
  | list pc out =>
      cases pc with
      | looking r look todo => exact Look.fds_of_asks rfl h
      | _ => cases h
  | _ => cases h

/-- So are the files that it has open besides. -/
theorem fds_of_plain {d : Nat} (h : d ∈ P.part.plain) :
    ∃ key, (d, key) ∈ P.view.fds := by
  cases P with
  | run a pc =>
      cases pc with
      | body e b =>
          obtain ⟨key, hkey⟩ := Body.fds_of_plain rfl h
          exact ⟨key, List.mem_append_left _ hkey⟩
      | _ => cases h
  | start name p pc =>
      cases pc with
      | asking look => exact Look.fds_of_plain rfl h
      | probing rid look => exact Look.fds_of_plain rfl h
      | _ => cases h
  | list pc out =>
      cases pc with
      | looking r look todo => exact Look.fds_of_plain rfl h
      | _ => cases h
  | _ => cases h

/-- Who has a lock has it for a run, or to look or write the env file. -/
theorem own_or_probes {d : Nat} (h : d ∈ P.view.held) :
    (∃ key rid, P.part.own = some (d, key, rid)) ∨
      ∃ key, P.part.probes = some key ∧ (d, key) ∈ P.view.fds := by
  have hlook : ∀ (l : Look) (tells : Bool) (t : Part), d ∈ l.held →
      ∃ key, (l.part tells t).probes = some key ∧ (d, key) ∈ l.fds := by
    intro l tells t hd
    obtain ⟨key, pc⟩ := l
    cases pc with
    | got e =>
        obtain rfl := List.mem_singleton.1 hd
        exact ⟨key, rfl, List.mem_singleton.2 rfl⟩
    | _ => cases hd
  cases P with
  | run a pc =>
      cases pc with
      | body e b =>
          have hown : (Proc.run a (.body e b)).part.own =
              some (e, a.key, a.rid) := b.part_own (a.ownPart e) e
          rcases List.mem_append.1 h with hd | hd
          · right
            cases b with
            | guarded g todo =>
                obtain rfl := List.mem_singleton.1 hd
                exact ⟨guardKey, rfl, List.mem_cons_self⟩
            | guardFailed g =>
                obtain rfl := List.mem_singleton.1 hd
                exact ⟨guardKey, rfl, List.mem_cons_self⟩
            | pruning pc =>
                cases pc with
                | looking rid look todo files doomed =>
                    obtain ⟨key, hkey, hfds⟩ :=
                      hlook look false (a.ownPart e) hd
                    exact ⟨key, hkey, List.mem_append_left _ hfds⟩
                | _ => cases hd
            | _ => cases hd
          · obtain rfl := List.mem_singleton.1 hd
            exact Or.inl ⟨a.key, a.rid, hown⟩
      | _ => cases h
  | play a e =>
      obtain rfl := List.mem_singleton.1 h
      exact Or.inl ⟨a.key, a.rid, rfl⟩
  | start name p pc =>
      cases pc with
      | asking look => exact Or.inr (hlook look true Part.none h)
      | probing rid look => exact Or.inr (hlook look true Part.none h)
      | _ => cases h
  | list pc out =>
      cases pc with
      | looking r look todo =>
          exact Or.inr (hlook look true { Part.none with pending := out } h)
      | _ => cases h
  | _ => cases h

/-- A run that has not told its id yet has its lock to itself. -/
theorem stage_spec {d : Nat}
    (h : P.part.stage = .locked d ∨ P.part.stage = .cleared d) :
    P.view.shared = none ∧ d ∈ P.view.held ∧
      ∃ key rid, P.part.own = some (d, key, rid) := by
  have hidle : ¬ (Telling.idle = .locked d ∨ Telling.idle = .cleared d) := by
    rintro (h | h) <;> cases h
  have hlook : ∀ (l : Look) (tells : Bool) (t : Part), t.stage = .idle →
      ¬ ((l.part tells t).stage = .locked d ∨
        (l.part tells t).stage = .cleared d) := by
    intro l tells t ht
    rw [l.part_stage, ht]
    exact hidle
  cases P with
  | run a pc =>
      cases pc with
      | body e b =>
          cases b with
          | locked =>
              have he : e = d := by
                rcases h with h | h
                · exact Telling.locked.inj h
                · cases h
              subst he
              exact ⟨rfl, List.mem_singleton.2 rfl, a.key, a.rid, rfl⟩
          | cleared =>
              have he : e = d := by
                rcases h with h | h
                · cases h
                · exact Telling.cleared.inj h
              subst he
              exact ⟨rfl, List.mem_singleton.2 rfl, a.key, a.rid, rfl⟩
          | pruning pc =>
              cases pc with
              | looking rid look todo files doomed =>
                  exact absurd h (hlook look false (a.ownPart e) rfl)
              | _ => exact absurd h hidle
          | _ => exact absurd h hidle
      | _ => exact absurd h hidle
  | start name p pc =>
      cases pc with
      | asking look => exact absurd h (hlook look true Part.none rfl)
      | probing rid look => exact absurd h (hlook look true Part.none rfl)
      | _ => exact absurd h hidle
  | list pc out =>
      cases pc with
      | looking r look todo =>
          exact absurd h (hlook look true { Part.none with pending := out } rfl)
      | _ => exact absurd h hidle
  | _ => exact absurd h hidle

end Proc

end LockReports

end Piece
end Kelt
