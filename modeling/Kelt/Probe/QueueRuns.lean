import Kelt.Lib.IsoTime

/-!
# The runs of the queue

`_queue_execution_thread` takes the first item of the queue, runs its plan,
counts the run on the item, removes the item when its count is reached, and
pauses. A run is known by its plan and the second in which it starts, so two
runs of one plan that start in the same second share a directory.

The counting is right for every queue of items that come without a count, and
each run keeps its own record exactly when it begins and no other run of the
plan starts in its second (`orderly_iff`).
-/

namespace Kelt
namespace Probe
namespace QueueRuns

section Queue

/-- `strftime("%Y%m%dT%H%M%S")` -/
def runId (now : DateTime) : Text :=
  padded 4 now.1.year ++ (padded 2 now.1.month ++ (padded 2 now.1.day ++
    ('T' :: (padded 2 now.1.hour ++ (padded 2 now.1.minute ++
      padded 2 now.1.second)))))

/-- A row of `_run_queue`: `repeat` and `_completed`. -/
structure Item where
  plan : Text
  repeats : Int
  completed : Int

/-- Who wrote the record and the results in a run directory last. -/
inductive Writer where
  | earlier
  | run (n : Nat)
deriving DecidableEq

/-- A run of the queue: for which item, of which plan, and when. -/
structure Run where
  item : Nat
  plan : Text
  start : DateTime

/-- What the thread meets: the directory of a plan, the local time when the
`n`-th run starts, whether it begins (the plan can be read, the binding is valid
and the record can be written), and `inter_repeat_pause_s` of its plan. -/
structure World (Dir : Type) where
  place : Text → Dir
  clock : Nat → DateTime
  begins : Nat → Bool
  planPause : Nat → Option Int

variable {Dir : Type} [DecidableEq Dir]

/-- The queue with the place of each item, the runs so far, the seconds slept
after each, and the run directories. -/
structure State (Dir : Type) where
  queue : List (Item × Nat)
  runs : List Run
  slept : List Nat
  disk : Dir × Text → Option Writer

/-- `_plan_execution_thread`, as far as the directory of the run goes. -/
def State.run (w : World Dir) (item : Nat) (plan : Text) (s : State Dir) :
    State Dir :=
  let n := s.runs.length
  let now := w.clock n
  { s with
    runs := s.runs ++ [⟨item, plan, now⟩]
    disk :=
      if w.begins n then
        Function.update s.disk (w.place plan, runId now) (some (.run n))
      else s.disk }

/-- The pause after a run, where something is left to run. -/
def State.pause (w : World Dir) (delay : Int) (s : State Dir) : State Dir :=
  let planPause := (w.planPause (s.runs.length - 1)).getD 0
  let seconds := if s.queue.isEmpty then 0 else max planPause delay
  { s with slept := s.slept ++ [seconds.toNat] }

/-- One round of the loop; none when the queue is empty. -/
def State.round (w : World Dir) (delay : Int) (s : State Dir) :
    Option (State Dir) :=
  match s.queue with
  | [] => none
  | (item, place) :: rest =>
      if item.repeats ≤ item.completed then some { s with queue := rest }
      else
        let s := s.run w place item.plan
        let completed := item.completed + 1
        let queue :=
          if item.repeats ≤ completed then rest
          else ({ item with completed := completed }, place) :: rest
        some ({ s with queue := queue }.pause w delay)

/-- The loop, for a number of rounds that has to be large enough. -/
def State.loop (w : World Dir) (delay : Int) :
    Nat → State Dir → Option (State Dir)
  | 0, _ => none
  | fuel + 1, s =>
      match s.round w delay with
      | none => some s
      | some s => s.loop w delay fuel

/-- The run directories before the queue is started. -/
def diskBefore (before : Dir × Text → Bool) (dir : Dir × Text) :
    Option Writer :=
  if before dir then some .earlier else none

/-- The state when the thread starts. -/
def State.start (items : List Item) (before : Dir × Text → Bool) :
    State Dir where
  queue := items.zipIdx
  runs := []
  slept := []
  disk := diskBefore before

/-- The runs that the items ask for, in order. -/
def asked (items : List (Item × Nat)) : List (Nat × Text) :=
  items.flatMap fun (item, place) =>
    List.replicate item.repeats.toNat (place, item.plan)

/-- The directory of a run. -/
def Run.dir (w : World Dir) (r : Run) : Dir × Text :=
  (w.place r.plan, runId r.start)

/-- Each item has been run as often as it asks, in order; each run has its own
record, and the records from before are still there. -/
structure State.Orderly (w : World Dir) (items : List Item)
    (before : Dir × Text → Bool) (s : State Dir) : Prop where
  counts : s.runs.map (fun r => (r.item, r.plan)) = asked items.zipIdx
  own : ∀ (n : Nat) r, s.runs[n]? = some r → s.disk (r.dir w) = some (.run n)
  earlier : ∀ dir, before dir = true → s.disk dir = some .earlier

end Queue

section Directories

variable {K : Type} [DecidableEq K]

/-- What is in the directories after runs with these directories. -/
def written (begins : Nat → Bool) (disk : K → Option Writer) (dirs : List K) :
    K → Option Writer :=
  dirs.zipIdx.foldl (fun disk dir =>
    if begins dir.2 then Function.update disk dir.1 (some (.run dir.2))
    else disk) disk

theorem written_concat
    (begins : Nat → Bool) (disk : K → Option Writer) (dirs : List K) (dir : K) :
    written begins disk (dirs ++ [dir]) =
      if begins dirs.length then
        Function.update (written begins disk dirs) dir
          (some (.run dirs.length))
      else written begins disk dirs := by
  unfold written
  rw [List.zipIdx_append, List.foldl_append]
  simp

/-- Nothing is written by a run that has not taken place. -/
theorem lt_of_written
    {begins : Nat → Bool} {disk : K → Option Writer} {dirs : List K}
    (hdisk : ∀ dir n, disk dir ≠ some (.run n))
    {dir : K} {n : Nat}
    (h : written begins disk dirs dir = some (.run n)) :
    n < dirs.length := by
  induction dirs using List.reverseRecOn with
  | nil => exact absurd h (hdisk dir n)
  | append_singleton dirs last ih =>
      rw [written_concat] at h
      rw [List.length_append, List.length_singleton]
      by_cases hbegins : begins dirs.length = true
      · rw [if_pos hbegins] at h
        by_cases hdir : dir = last
        · rw [hdir, Function.update_self, Option.some.injEq,
            Writer.run.injEq] at h
          omega
        · rw [Function.update_of_ne hdir] at h
          have := ih h
          omega
      · rw [if_neg hbegins] at h
        have := ih h
        omega

/-- Each run has its directory, and those from before are kept. -/
def Kept (before : K → Bool) (dirs : List K) (disk : K → Option Writer) :
    Prop :=
  (∀ (n : Nat) dir, dirs[n]? = some dir → disk dir = some (.run n)) ∧
    ∀ dir, before dir = true → disk dir = some .earlier

/-- One more run that begins. -/
theorem kept_concat_iff
    {before : K → Bool} {dirs : List K} {last : K} {disk : K → Option Writer} :
    Kept before (dirs ++ [last])
        (Function.update disk last (some (.run dirs.length))) ↔
      Kept before dirs disk ∧ (∀ dir ∈ dirs, dir ≠ last) ∧
        before last = false := by
  constructor
  · rintro ⟨hown, hearlier⟩
    have hne : ∀ (n : Nat) dir, dirs[n]? = some dir → dir ≠ last := by
      intro n dir hdir heq
      obtain ⟨hn, -⟩ := List.getElem?_eq_some_iff.1 hdir
      have h := hown n dir (by rw [List.getElem?_append_left hn, hdir])
      rw [heq, Function.update_self, Option.some.injEq,
        Writer.run.injEq] at h
      omega
    have hlast : before last = false := by
      by_contra hbefore
      have h := hearlier last (by simpa using hbefore)
      rw [Function.update_self] at h
      cases h
    refine ⟨⟨?_, ?_⟩, ?_, hlast⟩
    · intro n dir hdir
      obtain ⟨hn, -⟩ := List.getElem?_eq_some_iff.1 hdir
      have h := hown n dir (by rw [List.getElem?_append_left hn, hdir])
      rwa [Function.update_of_ne (hne n dir hdir)] at h
    · intro dir hdir
      have hother : dir ≠ last := by
        rintro rfl
        rw [hlast] at hdir
        cases hdir
      have h := hearlier dir hdir
      rwa [Function.update_of_ne hother] at h
    · intro dir hdir
      obtain ⟨n, hn⟩ := List.mem_iff_getElem?.1 hdir
      exact hne n dir hn
  · rintro ⟨⟨hown, hearlier⟩, hne, hlast⟩
    constructor
    · intro n dir hdir
      rcases Nat.lt_trichotomy n dirs.length with hn | hn | hn
      · rw [List.getElem?_append_left hn] at hdir
        rw [Function.update_of_ne (hne dir (List.mem_of_getElem? hdir))]
        exact hown n dir hdir
      · subst hn
        rw [List.getElem?_concat_length, Option.some.injEq] at hdir
        rw [← hdir, Function.update_self]
      · rw [List.getElem?_eq_none (by simp; omega)] at hdir
        cases hdir
    · intro dir hdir
      have hother : dir ≠ last := by
        rintro rfl
        rw [hlast] at hdir
        cases hdir
      rw [Function.update_of_ne hother]
      exact hearlier dir hdir

/-- Everything is kept exactly when all runs begin, no directory comes twice and
none was there before. -/
theorem kept_written_iff
    {begins : Nat → Bool} {before : K → Bool} {dirs : List K} :
    Kept before dirs (written begins
        (fun dir => if before dir then some .earlier else none) dirs) ↔
      (∀ n < dirs.length, begins n = true) ∧ dirs.Nodup ∧
        ∀ dir ∈ dirs, before dir = false := by
  have hdisk : ∀ (dir : K) (n : Nat),
      (if before dir then some Writer.earlier else none) ≠ some (.run n) := by
    intro dir n
    split <;> simp
  induction dirs using List.reverseRecOn with
  | nil => simp [Kept, written]
  | append_singleton dirs last ih =>
      rw [written_concat, List.length_append, List.length_singleton]
      cases hbegins : begins dirs.length with
      | false =>
          constructor
          · rintro ⟨hown, -⟩
            have h := hown dirs.length last List.getElem?_concat_length
            rw [if_neg Bool.false_ne_true] at h
            exact absurd (lt_of_written hdisk h) (Nat.lt_irrefl _)
          · rintro ⟨hall, -⟩
            rw [hall dirs.length (Nat.lt_succ_self _)] at hbegins
            cases hbegins
      | true =>
          rw [if_pos rfl, kept_concat_iff]
          refine (and_congr_left' ih).trans ?_
          constructor
          · rintro ⟨⟨hall, hnodup, hbefore⟩, hne, hlast⟩
            refine ⟨?_, ?_, ?_⟩
            · intro n hn
              rcases Nat.lt_succ_iff_lt_or_eq.1 hn with hn | rfl
              · exact hall n hn
              · exact hbegins
            · rw [← List.concat_eq_append, List.nodup_concat]
              exact ⟨fun hmem => hne last hmem rfl, hnodup⟩
            · intro dir hdir
              rcases List.mem_append.1 hdir with hdir | hdir
              · exact hbefore dir hdir
              · rw [List.mem_singleton.1 hdir]
                exact hlast
          · rintro ⟨hall, hnodup, hbefore⟩
            rw [← List.concat_eq_append, List.nodup_concat] at hnodup
            refine ⟨⟨?_, hnodup.2, ?_⟩, ?_, ?_⟩
            · intro n hn
              exact hall n (Nat.lt_succ_of_lt hn)
            · intro dir hdir
              exact hbefore dir (List.mem_append_left _ hdir)
            · rintro dir hdir rfl
              exact hnodup.1 hdir
            · exact hbefore last
                (List.mem_append_right _ List.mem_cons_self)

end Directories

section Loop

variable {Dir : Type} [DecidableEq Dir]

/-- How often an item is still to be run. -/
def Item.remaining (item : Item) : Nat :=
  (item.repeats - item.completed).toNat

/-- The runs that the queue will make. -/
def made (queue : List (Item × Nat)) : List (Nat × Text) :=
  queue.flatMap fun (item, place) =>
    List.replicate item.remaining (place, item.plan)

/-- The rounds that the queue will take, at most. -/
def rounds (queue : List (Item × Nat)) : Nat :=
  (queue.map fun entry => entry.1.remaining + 1).sum

@[simp] theorem made_cons
    (item : Item) (place : Nat) (rest : List (Item × Nat)) :
    made ((item, place) :: rest) =
      List.replicate item.remaining (place, item.plan) ++ made rest := by
  rfl

@[simp] theorem rounds_cons
    (entry : Item × Nat) (rest : List (Item × Nat)) :
    rounds (entry :: rest) = entry.1.remaining + 1 + rounds rest := by
  rfl

/-- The queue after a run of its first item. -/
def afterRun (item : Item) (place : Nat) (rest : List (Item × Nat)) :
    List (Item × Nat) :=
  if item.repeats ≤ item.completed + 1 then rest
  else ({ item with completed := item.completed + 1 }, place) :: rest

theorem afterRun_spec
    {item : Item} {place : Nat} {rest : List (Item × Nat)}
    (h : item.completed < item.repeats) :
    made ((item, place) :: rest) =
        (place, item.plan) :: made (afterRun item place rest) ∧
      rounds (afterRun item place rest) < rounds ((item, place) :: rest) := by
  have hremaining :
      item.remaining =
        (item.repeats - (item.completed + 1)).toNat + 1 := by
    unfold Item.remaining
    omega
  rw [made_cons, rounds_cons, hremaining, List.replicate_succ,
    List.cons_append]
  unfold afterRun
  split
  · have hlast : (item.repeats - (item.completed + 1)).toNat = 0 := by
      omega
    rw [hlast]
    exact ⟨rfl, by omega⟩
  · rw [rounds_cons, made_cons]
    refine ⟨rfl, ?_⟩
    change (item.repeats - (item.completed + 1)).toNat + 1 + rounds rest < _
    omega

/-- What a round does: it drops an item that has been run often enough, or runs
the first one. -/
theorem State.round_cases
    {w : World Dir} {delay : Int} {s s' : State Dir}
    (h : s.round w delay = some s') :
    ∃ item place rest, s.queue = (item, place) :: rest ∧
      ((item.repeats ≤ item.completed ∧ s' = { s with queue := rest }) ∨
        (item.completed < item.repeats ∧
          s'.queue = afterRun item place rest ∧
          s'.runs = (s.run w place item.plan).runs ∧
          s'.disk = (s.run w place item.plan).disk)) := by
  unfold State.round at h
  cases hqueue : s.queue with
  | nil =>
      rw [hqueue] at h
      cases h
  | cons entry rest =>
      obtain ⟨item, place⟩ := entry
      rw [hqueue] at h
      dsimp only at h
      refine ⟨item, place, rest, rfl, ?_⟩
      split at h
      · rename_i hdone
        exact Or.inl ⟨hdone, (Option.some.inj h).symm⟩
      · rename_i hleft
        obtain rfl := Option.some.inj h
        exact Or.inr ⟨by omega, rfl, rfl, rfl⟩

theorem State.round_eq_none
    {w : World Dir} {delay : Int} {s : State Dir}
    (h : s.round w delay = none) :
    s.queue = [] := by
  unfold State.round at h
  cases hqueue : s.queue with
  | nil => rfl
  | cons entry rest =>
      rw [hqueue] at h
      dsimp only at h
      split at h <;> cases h

/-- What the runs so far and those to come keep. -/
structure State.Inv (w : World Dir) (before : Dir × Text → Bool)
    (total : List (Nat × Text)) (s : State Dir) : Prop where
  counts : s.runs.map (fun r => (r.item, r.plan)) ++ made s.queue = total
  starts : ∀ (n : Nat) r, s.runs[n]? = some r → r.start = w.clock n
  disk : s.disk =
    written w.begins (diskBefore before) (s.runs.map fun r => r.dir w)

theorem State.round_inv
    {w : World Dir} {delay : Int} {before : Dir × Text → Bool}
    {total : List (Nat × Text)} {s s' : State Dir}
    (h : s.round w delay = some s')
    (hinv : s.Inv w before total) :
    s'.Inv w before total := by
  obtain ⟨item, place, rest, hqueue, hcase⟩ := State.round_cases h
  have hcounts := hinv.counts
  rw [hqueue] at hcounts
  rcases hcase with ⟨hdone, rfl⟩ | ⟨hleft, hqueue', hruns, hdisk⟩
  · have hzero : item.remaining = 0 := by
      unfold Item.remaining
      omega
    refine ⟨?_, hinv.starts, hinv.disk⟩
    rw [made_cons, hzero] at hcounts
    exact hcounts
  · have hruns' :
        s'.runs = s.runs ++ [⟨place, item.plan, w.clock s.runs.length⟩] :=
      hruns
    refine ⟨?_, ?_, ?_⟩
    · rw [hqueue', hruns', List.map_append, List.append_assoc, ← hcounts,
        (afterRun_spec hleft).1]
      rfl
    · intro n r hr
      rw [hruns'] at hr
      rcases Nat.lt_or_ge n s.runs.length with hn | hn
      · rw [List.getElem?_append_left hn] at hr
        exact hinv.starts n r hr
      · rw [List.getElem?_append_right hn, List.getElem?_singleton] at hr
        split at hr
        · obtain rfl := Option.some.inj hr
          rw [show n = s.runs.length by omega]
        · cases hr
    · have hdirs := written_concat w.begins (diskBefore before)
        (s.runs.map fun r => r.dir w)
        (w.place item.plan, runId (w.clock s.runs.length))
      rw [List.length_map, ← hinv.disk] at hdirs
      rw [hdisk, hruns', List.map_append]
      exact hdirs.symm

/-- The loop ends with an empty queue, and what a round keeps it keeps. -/
theorem State.loop_inv
    {w : World Dir} {delay : Int} {before : Dir × Text → Bool}
    {total : List (Nat × Text)} {fuel : Nat} {s s' : State Dir}
    (h : s.loop w delay fuel = some s')
    (hinv : s.Inv w before total) :
    s'.Inv w before total ∧ s'.queue = [] := by
  induction fuel generalizing s with
  | zero => cases h
  | succ fuel ih =>
      rw [State.loop] at h
      cases hround : s.round w delay with
      | none =>
          rw [hround] at h
          obtain rfl := Option.some.inj h
          exact ⟨hinv, State.round_eq_none hround⟩
      | some next =>
          rw [hround] at h
          exact ih h (State.round_inv hround hinv)

/-- Every queue comes to its end. -/
theorem State.exists_loop
    (w : World Dir) (delay : Int) {fuel : Nat} {s : State Dir}
    (h : rounds s.queue < fuel) :
    ∃ s', s.loop w delay fuel = some s' := by
  induction fuel generalizing s with
  | zero => exact absurd h (Nat.not_lt_zero _)
  | succ fuel ih =>
      rw [State.loop]
      cases hround : s.round w delay with
      | none => exact ⟨s, rfl⟩
      | some next =>
          obtain ⟨item, place, rest, hqueue, hcase⟩ := State.round_cases hround
          have hless : rounds next.queue < rounds s.queue := by
            rw [hqueue]
            rcases hcase with ⟨-, rfl⟩ | ⟨hleft, hqueue', -⟩
            · rw [rounds_cons]
              dsimp only
              omega
            · rw [hqueue']
              exact (afterRun_spec hleft).2
          exact ih (by omega)

theorem State.start_inv
    (w : World Dir) (items : List Item) (before : Dir × Text → Bool) :
    (State.start items before).Inv w before (made items.zipIdx) where
  counts := rfl
  starts := by
    intro n r hr
    cases hr
  disk := rfl

end Loop

section Orderly

variable {Dir : Type}

/-- The same second of the local time. -/
def SameSecond (now now' : DateTime) : Prop :=
  now.1.year = now'.1.year ∧ now.1.month = now'.1.month ∧
    now.1.day = now'.1.day ∧ now.1.hour = now'.1.hour ∧
    now.1.minute = now'.1.minute ∧ now.1.second = now'.1.second

theorem padded_append_inj
    {width a b : Nat} {x y : Text}
    (ha : a < 10 ^ width) (hb : b < 10 ^ width) :
    padded width a ++ x = padded width b ++ y ↔ a = b ∧ x = y := by
  constructor
  · intro h
    obtain ⟨hpadded, hrest⟩ := List.append_inj h
      (by rw [length_padded, length_padded])
    refine ⟨?_, hrest⟩
    rw [← ofDigitChars_padded ha, hpadded, ofDigitChars_padded hb]
  · rintro ⟨rfl, rfl⟩
    rfl

/-- The id of a run is its second. -/
theorem runId_eq_iff (now now' : DateTime) :
    runId now = runId now' ↔ SameSecond now now' := by
  have hday : ∀ d : DateTime, d.1.day < 10 ^ 2 := fun d =>
    TimeFields.day_lt d.2
  have htail : ∀ d : DateTime,
      d.1.month < 10 ^ 2 ∧ d.1.hour < 10 ^ 2 ∧ d.1.minute < 10 ^ 2 ∧
        d.1.second < 10 ^ 2 := by
    intro d
    have hmonth := d.2.month
    have hhour := d.2.hour
    have hminute := d.2.minute
    have hsecond := d.2.second
    omega
  obtain ⟨hmonth, hhour, hminute, hsecond⟩ := htail now
  obtain ⟨hmonth', hhour', hminute', hsecond'⟩ := htail now'
  have hlast :
      padded 2 now.1.second = padded 2 now'.1.second ↔
        now.1.second = now'.1.second := by
    have h := @padded_append_inj 2 _ _ [] [] hsecond hsecond'
    simpa using h
  unfold runId SameSecond
  rw [padded_append_inj now.2.year.2 now'.2.year.2,
    padded_append_inj hmonth hmonth', padded_append_inj (hday now) (hday now'),
    List.cons.injEq, padded_append_inj hhour hhour',
    padded_append_inj hminute hminute', hlast]
  simp only [true_and]

/-- Blocks of entries that are told apart by their places are equal exactly
when their lengths are. -/
theorem blocks_eq_iff
    {α β : Type} (f g : α → Nat) (label : α → β) (items : List α) (k : Nat) :
    ((items.zipIdx k).flatMap fun entry =>
        List.replicate (f entry.1) (entry.2, label entry.1)) =
      ((items.zipIdx k).flatMap fun entry =>
        List.replicate (g entry.1) (entry.2, label entry.1)) ↔
      ∀ item ∈ items, f item = g item := by
  have hlater : ∀ (h : α → Nat) (items : List α) (k : Nat),
      (((items.zipIdx (k + 1)).flatMap fun entry =>
        List.replicate (h entry.1) (entry.2, label entry.1)).countP
          fun entry => entry.1 = k) = 0 := by
    intro h items k
    rw [List.countP_eq_zero]
    intro entry hentry
    obtain ⟨⟨item, place⟩, hitem, hin⟩ := List.mem_flatMap.1 hentry
    have hplace := List.le_snd_of_mem_zipIdx hitem
    rw [List.eq_of_mem_replicate hin]
    simp only [decide_eq_true_eq]
    omega
  induction items generalizing k with
  | nil => simp
  | cons item rest ih =>
      rw [List.zipIdx_cons, List.flatMap_cons, List.flatMap_cons,
        List.forall_mem_cons]
      constructor
      · intro h
        have hcount := congrArg (List.countP fun entry => entry.1 = k) h
        rw [List.countP_append, List.countP_append, hlater, hlater,
          List.countP_replicate, List.countP_replicate] at hcount
        have hlength : f item = g item := by simpa using hcount
        rw [hlength] at h
        exact ⟨hlength, (ih (k + 1)).1 (List.append_cancel_left h)⟩
      · rintro ⟨hlength, hrest⟩
        rw [hlength, (ih (k + 1)).2 hrest]

/-- When the queue leaves everything in order: no item comes with a count, every
run begins, no two runs of one directory start in the same second, and none in
the second of a run from before. -/
structure Spaced (w : World Dir) (items : List Item)
    (before : Dir × Text → Bool) : Prop where
  fresh : ∀ item ∈ items, item.remaining = item.repeats.toNat
  begins : ∀ n < (asked items.zipIdx).length, w.begins n = true
  apart : ∀ (m n : Nat) p q, m < n → (asked items.zipIdx)[m]? = some p →
    (asked items.zipIdx)[n]? = some q → w.place p.2 = w.place q.2 →
    ¬ SameSecond (w.clock m) (w.clock n)
  clear : ∀ (n : Nat) p, (asked items.zipIdx)[n]? = some p →
    before (w.place p.2, runId (w.clock n)) = false

/-- The directories of the runs, by what was asked for and when they started. -/
theorem dirs_getElem?
    {w : World Dir} {items : List Item} {s : State Dir}
    (hcounts : s.runs.map (fun r => (r.item, r.plan)) = asked items.zipIdx)
    (hstarts : ∀ (n : Nat) r, s.runs[n]? = some r → r.start = w.clock n)
    (n : Nat) :
    (s.runs.map fun r => r.dir w)[n]? =
      (asked items.zipIdx)[n]?.map fun p =>
        (w.place p.2, runId (w.clock n)) := by
  rw [← hcounts, List.getElem?_map, List.getElem?_map, Option.map_map]
  cases hr : s.runs[n]? with
  | none => rfl
  | some r =>
      rw [← hstarts n r hr]
      rfl

/-- The directories of orderly runs are all different exactly when no two start
in one second. -/
theorem nodup_dirs_iff
    {w : World Dir} {items : List Item} {s : State Dir}
    (hcounts : s.runs.map (fun r => (r.item, r.plan)) = asked items.zipIdx)
    (hstarts : ∀ (n : Nat) r, s.runs[n]? = some r → r.start = w.clock n) :
    (s.runs.map fun r => r.dir w).Nodup ↔
      ∀ (m n : Nat) p q, m < n → (asked items.zipIdx)[m]? = some p →
        (asked items.zipIdx)[n]? = some q → w.place p.2 = w.place q.2 →
        ¬ SameSecond (w.clock m) (w.clock n) := by
  have hget := dirs_getElem? hcounts hstarts
  rw [List.nodup_iff_getElem?_ne_getElem?]
  constructor
  · intro h m n p q hmn hp hq hplace hsecond
    have hn : n < (s.runs.map fun r => r.dir w).length := by
      refine (List.getElem?_eq_some_iff.1
        (?_ : _ = some (w.place q.2, runId (w.clock n)))).1
      rw [hget, hq]
      rfl
    apply h m n hmn hn
    rw [hget, hget, hp, hq, Option.map_some, Option.map_some, hplace,
      (runId_eq_iff _ _).2 hsecond]
  · intro h m n hmn hn heq
    have hn' := List.getElem?_eq_getElem hn
    rw [hget] at heq hn'
    rw [hget] at heq
    obtain ⟨q, hq, hdir⟩ := Option.map_eq_some_iff.1 hn'
    rw [hq] at heq
    obtain ⟨p, hp, hsame⟩ := Option.map_eq_some_iff.1 heq
    obtain ⟨hplace, hid⟩ := Prod.mk.inj hsame
    exact h m n p q hmn hp hq hplace ((runId_eq_iff _ _).1 hid)

theorem length_dirs
    {w : World Dir} {items : List Item} {s : State Dir}
    (hcounts : s.runs.map (fun r => (r.item, r.plan)) = asked items.zipIdx) :
    (s.runs.map fun r => r.dir w).length = (asked items.zipIdx).length := by
  rw [← hcounts, List.length_map, List.length_map]

theorem before_dirs_iff
    {w : World Dir} {items : List Item} {before : Dir × Text → Bool}
    {s : State Dir}
    (hcounts : s.runs.map (fun r => (r.item, r.plan)) = asked items.zipIdx)
    (hstarts : ∀ (n : Nat) r, s.runs[n]? = some r → r.start = w.clock n) :
    (∀ dir ∈ s.runs.map fun r => r.dir w, before dir = false) ↔
      ∀ (n : Nat) p, (asked items.zipIdx)[n]? = some p →
        before (w.place p.2, runId (w.clock n)) = false := by
  have hget := dirs_getElem? hcounts hstarts
  constructor
  · intro h n p hp
    apply h
    refine List.mem_of_getElem? (i := n) ?_
    rw [hget, hp]
    rfl
  · intro h dir hdir
    obtain ⟨n, hn⟩ := List.mem_iff_getElem?.1 hdir
    rw [hget] at hn
    obtain ⟨p, hp, rfl⟩ := Option.map_eq_some_iff.1 hn
    exact h n p hp

theorem kept_dirs_iff
    {w : World Dir} {before : Dir × Text → Bool} {s : State Dir} :
    ((∀ (n : Nat) r, s.runs[n]? = some r →
        s.disk (r.dir w) = some (.run n)) ∧
      ∀ dir, before dir = true → s.disk dir = some .earlier) ↔
      Kept before (s.runs.map fun r => r.dir w) s.disk := by
  refine and_congr_left' ?_
  constructor
  · intro h n dir hdir
    rw [List.getElem?_map] at hdir
    obtain ⟨r, hr, rfl⟩ := Option.map_eq_some_iff.1 hdir
    exact h n r hr
  · intro h n r hr
    apply h n
    rw [List.getElem?_map, hr]
    rfl

variable [DecidableEq Dir]

/-- The end of the queue is in order exactly when the queue was spaced. -/
theorem State.orderly_iff_of_end
    {w : World Dir} {items : List Item} {before : Dir × Text → Bool}
    {s : State Dir}
    (hinv : s.Inv w before (made items.zipIdx)) (hend : s.queue = []) :
    s.Orderly w items before ↔ Spaced w items before := by
  have hruns : s.runs.map (fun r => (r.item, r.plan)) = made items.zipIdx := by
    have hcounts := hinv.counts
    rw [hend] at hcounts
    simpa [made] using hcounts
  have hfresh :
      s.runs.map (fun r => (r.item, r.plan)) = asked items.zipIdx ↔
        ∀ item ∈ items, item.remaining = item.repeats.toNat := by
    rw [hruns]
    exact blocks_eq_iff Item.remaining (fun item => item.repeats.toNat)
      Item.plan items 0
  constructor
  · intro h
    have hkept := kept_dirs_iff.1 ⟨h.own, h.earlier⟩
    rw [hinv.disk] at hkept
    obtain ⟨hbegins, hnodup, hbefore⟩ := kept_written_iff.1 hkept
    refine ⟨hfresh.1 h.counts, ?_, ?_, ?_⟩
    · rw [← length_dirs h.counts]
      exact hbegins
    · exact (nodup_dirs_iff h.counts hinv.starts).1 hnodup
    · exact (before_dirs_iff h.counts hinv.starts).1 hbefore
  · intro h
    have hcounts := hfresh.2 h.fresh
    have hkept : Kept before (s.runs.map fun r => r.dir w) s.disk := by
      rw [hinv.disk]
      refine kept_written_iff.2 ⟨?_, ?_, ?_⟩
      · rw [length_dirs hcounts]
        exact h.begins
      · exact (nodup_dirs_iff hcounts hinv.starts).2 h.apart
      · exact (before_dirs_iff hcounts hinv.starts).2 h.clear
    obtain ⟨hown, hearlier⟩ := kept_dirs_iff.2 hkept
    exact ⟨hcounts, hown, hearlier⟩

/-- The thread comes to the end of every queue; it is in order there exactly
when the queue is spaced. -/
theorem orderly_iff
    (w : World Dir) (delay : Int) (items : List Item)
    (before : Dir × Text → Bool) :
    (∃ fuel s, (State.start items before).loop w delay fuel = some s ∧
      s.Orderly w items before) ↔ Spaced w items before := by
  constructor
  · rintro ⟨fuel, s, hloop, horderly⟩
    obtain ⟨hinv, hend⟩ :=
      State.loop_inv hloop (State.start_inv w items before)
    exact (State.orderly_iff_of_end hinv hend).1 horderly
  · intro hspaced
    obtain ⟨s, hloop⟩ := State.exists_loop w delay
      (Nat.lt_succ_self (rounds (State.start items before).queue))
    obtain ⟨hinv, hend⟩ :=
      State.loop_inv hloop (State.start_inv w items before)
    exact ⟨_, s, hloop, (State.orderly_iff_of_end hinv hend).2 hspaced⟩

/-- Half past eight, as long as it lasts. -/
def oneSecond : World Text where
  place := id
  clock := fun _ => ⟨⟨2026, 3, 1, 8, 30, 0, 0⟩, by decide⟩
  begins := fun _ => true
  planPause := fun _ => some 0

/-- Two runs of a plan that is done at once, without a delay. -/
def twice : List Item :=
  [⟨"smoke".toList, 2, 0⟩]

theorem not_orderly_twice :
    ¬ ∃ fuel s, (State.start twice fun _ => false).loop oneSecond 0 fuel
        = some s ∧
      s.Orderly oneSecond twice fun _ => false := by
  rintro ⟨fuel, s, hloop, horderly⟩
  obtain ⟨hinv, hend⟩ :=
    State.loop_inv hloop (State.start_inv oneSecond twice _)
  have hspaced := (State.orderly_iff_of_end hinv hend).1 horderly
  exact hspaced.apart 0 1 (0, "smoke".toList) (0, "smoke".toList)
    Nat.zero_lt_one rfl rfl rfl ⟨rfl, rfl, rfl, rfl, rfl, rfl⟩

end Orderly

end QueueRuns
end Probe
end Kelt
