import Kelt.Audit.Record

/-!
# What trimming leaves of the audit record

`Moves` says all that a step can do. As long as no step crosses another call,
the young lines of the file are the young lines of the log, in their order
(`Retained`), and so is what every call holds of the file it has read. A step
that does cross another call loses a young line (`complete_iff_uncrossed`).
-/

namespace Kelt
namespace Audit

section Retention

variable {days : Int}

/-- What a call holds of the file it has read, and when it read it. -/
def Place.copy : Place → Option (List Line × Nat)
  | .read lines mark => some (lines, mark)
  | .kept lines mark => some (lines, mark)
  | _ => none

/-- All that a step can do. -/
inductive Moves (days : Int) (s : Sys) : Act → Sys → Prop
  | tick {now mono : Int} :
      Moves days s (.tick now mono)
        { s with now := now, seen := max s.seen now, mono := mono }
  | quiet {act : Act} {p : Place} (i : Nat) (lastTrim : Int)
      (hact : s.Uncrossed days act) (hp : p.copy = none) :
      Moves days s act ({ s with lastTrim := lastTrim }.put i p)
  | append {i : Nat} {e : Entry} {fd : Nat}
      (hi : s.calls i = .opened e fd) :
      Moves days s (.go i) ({ s with
        file := Function.update s.file fd (s.file fd ++ [Line.entry e])
        log := s.log ++ [Line.entry e] }.put i .appended)
  | read {i : Nat} (hi : s.calls i = .trimming) :
      Moves days s (.go i) (s.put i (.read s.lines s.log.length))
  | keep {i mark : Nat} {lines : List Line}
      (hi : s.calls i = .read lines mark) :
      Moves days s (.go i) (s.put i (.kept (trimLines lines s.now days) mark))
  | replace {i mark : Nat} {lines : List Line}
      (hi : s.calls i = .kept lines mark) :
      Moves days s (.go i) ({ s with
        file := Function.update s.file (s.cur + 1) lines
        cur := s.cur + 1 }.put i .returned)

theorem moves_of_go {s s' : Sys} {i : Nat} (h : s.go days i = some s') :
    Moves days s (.go i) s' := by
  have hquiet : ∀ (p : Place) (lastTrim : Int),
      s.Uncrossed days (.go i) → p.copy = none →
      Moves days s (.go i) ({ s with lastTrim := lastTrim }.put i p) :=
    fun p lastTrim hact hp => .quiet i lastTrim hact hp
  unfold Sys.go at h
  cases hi : s.calls i with
  | idle =>
      rw [hi] at h
      cases h
  | stamped e =>
      rw [hi] at h
      obtain rfl := Option.some.inj h
      exact hquiet _ s.lastTrim (by simp [Sys.Uncrossed, hi]) rfl
  | opened e fd =>
      rw [hi] at h
      obtain rfl := Option.some.inj h
      exact .append hi
  | appended =>
      rw [hi] at h
      dsimp only at h
      have hact : s.Uncrossed days (.go i) := by simp [Sys.Uncrossed, hi]
      split_ifs at h
      all_goals
        obtain rfl := Option.some.inj h
        exact hquiet _ s.lastTrim hact rfl
  | due =>
      rw [hi] at h
      obtain rfl := Option.some.inj h
      exact hquiet _ s.mono (by simp [Sys.Uncrossed, hi]) rfl
  | trimming =>
      rw [hi] at h
      obtain rfl := Option.some.inj h
      exact .read hi
  | read lines mark =>
      rw [hi] at h
      dsimp only at h
      split_ifs at h
      · obtain rfl := Option.some.inj h
        exact hquiet _ s.lastTrim (by simp [Sys.Uncrossed, hi]) rfl
      · obtain rfl := Option.some.inj h
        exact .keep hi
  | kept lines mark =>
      rw [hi] at h
      obtain rfl := Option.some.inj h
      exact .replace hi
  | returned =>
      rw [hi] at h
      cases h

theorem moves_of_step {s s' : Sys} {act : Act}
    (h : s.step days act = some s') : Moves days s act s' := by
  unfold Sys.step at h
  cases act with
  | tick now mono =>
      dsimp only at h
      split_ifs at h
      obtain rfl := Option.some.inj h
      exact .tick
  | write i event actor request details =>
      dsimp only at h
      split at h
      · obtain rfl := Option.some.inj h
        exact .quiet i s.lastTrim trivial rfl
      · cases h
  | go i => exact moves_of_go h
  | raise i =>
      dsimp only at h
      split at h
      · cases h
      · cases h
      · obtain rfl := Option.some.inj h
        exact .quiet i s.lastTrim trivial rfl

/-- No young line of the log is missing from the file, and none is there that
is not in the log; the same for what the calls hold of the file. -/
structure Retained (days : Int) (s : Sys) : Prop where
  clock : s.now ≤ s.seen
  same : s.lines.filter (s.young days) = s.log.filter (s.young days)
  copies : ∀ (i : Nat) (lines : List Line) (mark : Nat),
    (s.calls i).copy = some (lines, mark) →
      mark ≤ s.log.length ∧
      lines.filter (s.young days) = (s.log.take mark).filter (s.young days)

theorem Line.since_mono {cut cut' : Int} (hle : cut ≤ cut') {l : Line}
    (h : l.since cut' = true) : l.since cut = true := by
  unfold Line.since at h ⊢
  cases hts : l.ts with
  | none => rfl
  | some ts =>
      rw [hts] at h
      have hcut : cut' ≤ ts := of_decide_eq_true h
      exact decide_eq_true (by omega)

/-- A later cutoff after an earlier one cuts like the later one alone. -/
theorem filter_since_since {cut cut' : Int} (hle : cut ≤ cut')
    (lines : List Line) :
    (lines.filter (Line.since cut)).filter (Line.since cut') =
      lines.filter (Line.since cut') := by
  rw [List.filter_filter]
  apply List.filter_congr
  intro l _
  cases hl : l.since cut' with
  | false => rfl
  | true => simp [Line.since_mono hle hl]

theorem cutoff_mono {now now' : Int} (h : now ≤ now') (days : Int) :
    cutoff now days ≤ cutoff now' days := by
  unfold cutoff
  omega

/-- Lines with the same young part keep it as the clock goes on. -/
theorem filter_since_congr {cut cut' : Int} (hle : cut ≤ cut')
    {a b : List Line}
    (h : a.filter (Line.since cut) = b.filter (Line.since cut)) :
    a.filter (Line.since cut') = b.filter (Line.since cut') := by
  rw [← filter_since_since hle a, h, filter_since_since hle b]

/-- Trimming leaves the young lines. -/
theorem filter_trimLines {now seen : Int} (h : now ≤ seen)
    (lines : List Line) :
    (trimLines lines now days).filter (Line.since (cutoff seen days)) =
      lines.filter (Line.since (cutoff seen days)) :=
  filter_since_since (cutoff_mono h days) lines

@[simp] theorem put_lines (s : Sys) (i : Nat) (p : Place) :
    (s.put i p).lines = s.lines := rfl

@[simp] theorem put_log (s : Sys) (i : Nat) (p : Place) :
    (s.put i p).log = s.log := rfl

@[simp] theorem put_young (s : Sys) (i : Nat) (p : Place) :
    (s.put i p).young days = s.young days := rfl

theorem put_calls (s : Sys) (i j : Nat) (p : Place) :
    (s.put i p).calls j = if j = i then p else s.calls j := by
  simp [Sys.put, Function.update_apply]

/-- A call that goes on keeps the invariant, when what it holds now is right. -/
theorem Retained.put {s : Sys} (hs : Retained days s) {i : Nat} {p : Place}
    (hp : ∀ (lines : List Line) (mark : Nat), p.copy = some (lines, mark) →
      mark ≤ s.log.length ∧
      lines.filter (s.young days) =
        (s.log.take mark).filter (s.young days)) :
    Retained days (s.put i p) where
  clock := hs.clock
  same := hs.same
  copies := by
    intro j lines mark hj
    rw [put_calls] at hj
    by_cases hji : j = i
    · rw [if_pos hji] at hj
      exact hp lines mark hj
    · rw [if_neg hji] at hj
      exact hs.copies j lines mark hj

theorem Retained.tick {s : Sys} (hs : Retained days s) (now mono : Int) :
    Retained days
      { s with now := now, seen := max s.seen now, mono := mono } where
  clock := le_max_right _ _
  same :=
    filter_since_congr (cutoff_mono (le_max_left _ _) days) hs.same
  copies := by
    intro i lines mark hi
    obtain ⟨hmark, hsame⟩ := hs.copies i lines mark hi
    exact ⟨hmark,
      filter_since_congr (cutoff_mono (le_max_left _ _) days) hsame⟩

/-- What the path shows after a line is appended to the file `fd`. -/
theorem lines_append (s : Sys) (fd : Nat) (l : Line) :
    (Function.update s.file fd (s.file fd ++ [l])) s.cur =
      if fd = s.cur then s.lines ++ [l] else s.lines := by
  by_cases h : fd = s.cur
  · subst h
    simp [Sys.lines]
  · rw [if_neg h, Function.update_of_ne (fun heq => h heq.symm)]
    rfl

/-- The young lines of the file and of the log after an append. -/
theorem append_same_iff {s : Sys} (hs : Retained days s) {e : Entry}
    {fd : Nat} :
    (if fd = s.cur then s.lines ++ [Line.entry e] else s.lines).filter
        (s.young days) =
      (s.log ++ [Line.entry e]).filter (s.young days) ↔
    (s.young days (.entry e) = true → fd = s.cur) := by
  rw [List.filter_append, ← hs.same]
  by_cases hfd : fd = s.cur
  · simp [hfd]
  · cases hyoung : s.young days (.entry e) <;> simp [hfd, hyoung]

theorem Retained.append {s : Sys} (hs : Retained days s) {e : Entry}
    {fd : Nat} (h : s.young days (.entry e) = true → fd = s.cur) :
    Retained days { s with
      file := Function.update s.file fd (s.file fd ++ [Line.entry e])
      log := s.log ++ [Line.entry e] } where
  clock := hs.clock
  same := by
    have hlines := lines_append s fd (.entry e)
    exact (congrArg _ hlines).trans ((append_same_iff hs).mpr h)
  copies := by
    intro i lines mark hi
    obtain ⟨hmark, hsame⟩ := hs.copies i lines mark hi
    refine ⟨?_, ?_⟩
    · simp only [List.length_append, List.length_singleton]
      omega
    · rw [List.take_append_of_le_length hmark]
      exact hsame

/-- The young part of a log is that of its two halves. -/
theorem filter_take_drop (p : Line → Bool) (log : List Line) (mark : Nat) :
    log.filter p = (log.take mark).filter p ++ (log.drop mark).filter p := by
  rw [← List.filter_append, List.take_append_drop]

theorem Retained.replace {s : Sys} (hs : Retained days s) {lines : List Line}
    {mark : Nat}
    (hsame : lines.filter (s.young days) =
      (s.log.take mark).filter (s.young days))
    (h : (s.log.drop mark).filter (s.young days) = []) :
    Retained days { s with
      file := Function.update s.file (s.cur + 1) lines
      cur := s.cur + 1 } where
  clock := hs.clock
  same := by
    have hlines :
        (Function.update s.file (s.cur + 1) lines) (s.cur + 1) = lines :=
      Function.update_self _ _ _
    have hlog : s.log.filter (s.young days) =
        (s.log.take mark).filter (s.young days) := by
      rw [filter_take_drop _ s.log mark, h, List.append_nil]
    exact (congrArg _ hlines).trans (hsame.trans hlog.symm)
  copies := hs.copies

theorem Moves.retained {s s' : Sys} {act : Act} (h : Moves days s act s')
    (hs : Retained days s) (hok : s.Uncrossed days act) :
    Retained days s' := by
  have hnone : ∀ {p : Place}, p.copy = none →
      ∀ (lines : List Line) (mark : Nat), p.copy = some (lines, mark) →
        mark ≤ s.log.length ∧
        lines.filter (s.young days) =
          (s.log.take mark).filter (s.young days) := by
    intro p hp lines mark hcopy
    rw [hp] at hcopy
    cases hcopy
  cases h with
  | tick => exact hs.tick _ _
  | quiet i lastTrim hact hp =>
      have hset : Retained days { s with lastTrim := lastTrim } :=
        ⟨hs.clock, hs.same, hs.copies⟩
      exact hset.put (hnone hp)
  | append hi =>
      have hfd := hok
      simp only [Sys.Uncrossed, hi] at hfd
      exact (hs.append hfd).put (by intro lines mark h; cases h)
  | read hi =>
      refine hs.put ?_
      rintro lines mark h
      cases h
      refine ⟨le_refl _, ?_⟩
      rw [List.take_length]
      exact hs.same
  | keep hi =>
      refine hs.put ?_
      rintro lines mark h
      cases h
      obtain ⟨hmark, hsame⟩ :=
        hs.copies _ _ _ (by rw [hi]; rfl)
      exact ⟨hmark, (filter_trimLines hs.clock _).trans hsame⟩
  | replace hi =>
      have hdrop := hok
      simp only [Sys.Uncrossed, hi] at hdrop
      obtain ⟨_, hsame⟩ := hs.copies _ _ _ (by rw [hi]; rfl)
      exact (hs.replace hsame hdrop).put (by intro lines mark h; cases h)

theorem retained_start (lines : List Line) (now mono : Int) :
    Retained days (start lines now mono) where
  clock := le_refl _
  same := rfl
  copies := by
    intro i lines mark h
    cases h

theorem Retained.complete {s : Sys} (hs : Retained days s) :
    s.Complete days := by
  intro l hl
  rw [← List.count_filter hl, hs.same, List.count_filter hl]

/-- An entry appended to a file that has lost the path is not in the record. -/
theorem not_complete_append {s : Sys} (hs : Retained days s) {i fd : Nat}
    {e : Entry} (hyoung : s.young days (.entry e) = true) (hfd : fd ≠ s.cur) :
    ¬ Sys.Complete days ({ s with
      file := Function.update s.file fd (s.file fd ++ [Line.entry e])
      log := s.log ++ [Line.entry e] }.put i .appended) := by
  intro hcomplete
  have hcount := hcomplete (.entry e) hyoung
  have hlines := lines_append s fd (.entry e)
  rw [if_neg hfd] at hlines
  have hleft : s.lines.count (.entry e) =
      (s.log ++ [Line.entry e]).count (.entry e) :=
    (congrArg (List.count (Line.entry e)) hlines).symm.trans hcount
  rw [List.count_append, List.count_singleton_self,
    hs.complete _ hyoung] at hleft
  omega

/-- What was appended since a file was read is lost when it is replaced. -/
theorem not_complete_replace {s : Sys} {i mark : Nat} {lines : List Line}
    (hsame : lines.filter (s.young days) =
      (s.log.take mark).filter (s.young days))
    {l : Line} (hyoung : s.young days l = true) (hl : l ∈ s.log.drop mark) :
    ¬ Sys.Complete days ({ s with
      file := Function.update s.file (s.cur + 1) lines
      cur := s.cur + 1 }.put i .returned) := by
  intro hcomplete
  have hcount := hcomplete l hyoung
  have hlines :
      (Function.update s.file (s.cur + 1) lines) (s.cur + 1) = lines :=
    Function.update_self _ _ _
  have hkept : lines.count l = s.log.count l :=
    (congrArg (List.count l) hlines).symm.trans hcount
  have htake : lines.count l = (s.log.take mark).count l := by
    rw [← List.count_filter hyoung, hsame, List.count_filter hyoung]
  have hsplit : s.log.count l =
      (s.log.take mark).count l + (s.log.drop mark).count l := by
    rw [← List.count_append, List.take_append_drop]
  have hpos : 0 < (s.log.drop mark).count l := List.count_pos_iff.mpr hl
  omega

/-- From a state in which nothing is lost, a step loses a young line exactly
when it crosses another call. -/
theorem complete_iff_uncrossed {s s' : Sys} {act : Act}
    (hs : Retained days s) (h : s.step days act = some s') :
    s'.Complete days ↔ s.Uncrossed days act := by
  have hmoves := moves_of_step h
  constructor
  · intro hcomplete
    cases hmoves with
    | tick => trivial
    | quiet i lastTrim hact hp => exact hact
    | append hi =>
        simp only [Sys.Uncrossed, hi]
        intro hyoung
        by_contra hfd
        exact not_complete_append hs hyoung hfd hcomplete
    | read hi => simp only [Sys.Uncrossed, hi]
    | keep hi => simp only [Sys.Uncrossed, hi]
    | replace hi =>
        simp only [Sys.Uncrossed, hi]
        obtain ⟨_, hsame⟩ := hs.copies _ _ _ (by rw [hi]; rfl)
        by_contra hdrop
        obtain ⟨l, hl⟩ := List.exists_mem_of_ne_nil _ hdrop
        obtain ⟨hmem, hyoung⟩ := List.mem_filter.mp hl
        exact not_complete_replace hsame hyoung hmem hcomplete
  · intro hok
    exact (hmoves.retained hs hok).complete

theorem retained_of_reach {lines : List Line} {now mono : Int} {s : Sys}
    (h : Reach (Sys.step days) (Sys.Uncrossed days) (start lines now mono) s) :
    Retained days s :=
  h.inv (retained_start lines now mono)
    (fun _ _ _ hs hok hstep => (moves_of_step hstep).retained hs hok)

/-- Runs in which no step crosses another call lose no entry that is not past
retention: it is in the file as often as it was appended. The first step that
does cross another call ends this. -/
theorem young_kept {lines : List Line} {now mono : Int} {s : Sys}
    (h : Reach (Sys.step days) (Sys.Uncrossed days) (start lines now mono) s) :
    s.Complete days ∧
      ∀ (act : Act) (s' : Sys), s.step days act = some s' →
        (s'.Complete days ↔ s.Uncrossed days act) := by
  have hs : Retained days s := retained_of_reach h
  exact ⟨hs.complete, fun act s' hstep => complete_iff_uncrossed hs hstep⟩

/-- A line of thirty-one days before the run begins. -/
def oldLine : Line :=
  .other "old".toList (some 0)

/-- The record as a run finds it, with one line that is past retention. -/
def found : Sys :=
  start [oldLine] (31 * 86400 * second) 1

/-- A call begins. -/
def writes (i : Nat) (event : String) : Act :=
  .write i event.toList none none []

theorem young_kept_trimmed :
    ∃ s : Sys, s.lines.length = 1 ∧ s.log.length = 2 ∧ s.Complete 30 := by
  have hstart : Reach (Sys.step 30) (Sys.Uncrossed 30) found found := .refl
  have happended :=
    ((hstart.step (a := writes 0 "subscriber.create") trivial rfl).step
      (a := Act.go 0) trivial rfl).step (a := Act.go 0) (fun _ => rfl) rfl
  have hread :=
    ((happended.step (a := Act.go 0) trivial rfl).step
      (a := Act.go 0) trivial rfl).step (a := Act.go 0) trivial rfl
  have hreplaced :=
    (hread.step (a := Act.go 0) trivial rfl).step (a := Act.go 0) rfl rfl
  exact ⟨_, rfl, rfl, (young_kept hreplaced).1⟩

/-- One call reads the file to trim it, another appends its entry and returns,
then the first replaces the file. -/
def crossing : List Act :=
  [writes 0 "subscriber.create", .go 0, .go 0, .go 0, .go 0, .go 0,
    writes 1 "subscriber.delete", .go 1, .go 1, .go 1, .go 0, .go 0]

/-- The entry of the second call. -/
def lostEntry : Line :=
  .entry ⟨31 * 86400 * second, "subscriber.delete".toList, none, none, []⟩

theorem young_entry_lost :
    ¬ ∀ (days : Int) (lines : List Line) (now mono : Int) (s : Sys),
      ReachAny (Sys.step days) (start lines now mono) s → s.Quiet →
        s.Complete days := by
  intro hall
  have hrun : ∃ s : Sys, exec (Sys.step 30) found crossing = some s ∧
      s.Quiet ∧ s.young 30 lostEntry = true ∧
      s.lines.count lostEntry = 0 ∧ s.log.count lostEntry = 1 := by
    refine ⟨_, rfl, ?_, rfl, rfl, rfl⟩
    rintro (_ | _ | i)
    · exact Or.inr rfl
    · exact Or.inr rfl
    · exact Or.inl rfl
  obtain ⟨s, hexec, hquiet, hyoung, hlines, hlog⟩ := hrun
  have hcount := hall 30 _ _ _ s (Reach.exec .refl hexec) hquiet _ hyoung
  rw [hlines, hlog] at hcount
  cases hcount

end Retention

end Audit
end Kelt
