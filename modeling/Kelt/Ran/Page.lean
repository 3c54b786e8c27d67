import Kelt.Piece.ReadBack
import Kelt.Ran.Chain

/-!
# The RAN page

The page shows the chain under a headline, runs pieces, and follows a piece's run
by polling its operation until it ends. Following ends with the first poll whose
record is settled, or with the third failed read in a row (`follow_eq_none_iff`).
It shows a run as done only when a read-back has held, or none was made and the
chain read afterwards does not contradict it (`readBack_of_doneShown`).
-/

namespace Kelt
namespace Ran

section Headline

structure Headline where
  title : Text
  sub : Text
  dot : Text
  checking : Bool
  deriving DecidableEq

/-- `DOING[piece] || "Working…"` -/
def doing (piece : Text) : Text :=
  if piece = "ran_attach".toList then "Attaching…".toList
  else if piece = "ran_detach".toList then "Detaching…".toList
  else if piece = "ran_link".toList then "Bringing the link up…".toList
  else "Working…".toList

/-- A piece that runs, and the last step it has reached. -/
structure Running where
  piece : Text
  step : Text

/-- `chain.links.find((l) => l.id === id)` -/
def Chain.find (c : Chain) (id : LinkId) : Option Link :=
  c.links.find? fun l => l.id = id

def chainHeadline (c : Chain) (ues : Nat) : Option Headline :=
  match c.state with
  | .detached =>
      some ⟨"Detached".toList,
        ("The core is not connected to the RAN. " ++
          "Attach brings it back.").toList, "bg-slate-500".toList, false⟩
  | .serving =>
      some ⟨"Serving".toList,
        if 0 < ues then
          "1 gNB, ".toList ++ intText ues ++ " UE".toList ++ plural ues ++
            ". Every link from the cable to the UEs checked.".toList
        else "1 gNB, no UE yet. Every link up to the UEs checked.".toList,
        "bg-emerald-400".toList, false⟩
  | .broken =>
      -- without a first link the page would fail on `first.name`
      (c.firstBroken.bind c.find).map fun first =>
        ⟨"Broken at ".toList ++ lower first.id.name, first.verdict ++ ['.'],
          "bg-rose-400".toList, false⟩

/-- `pathHeadline`: nothing where the page would fail. -/
def pathHeadline (chain : Option Chain) (ues : Option Nat) (error : Text)
    (running : Option Running) : Option Headline :=
  match running.filter (fun r => !r.piece.isEmpty), chain with
  | some r, some _ =>
      some ⟨doing r.piece,
        orElse r.step "Started; reading its steps.".toList,
        "bg-indigo-400".toList, false⟩
  | none, some c => chainHeadline c (ues.getD 0)
  | _, none =>
      some
        (if error ≠ [] then
          ⟨"Could not read the RAN status".toList, error,
            "bg-rose-400".toList, false⟩
        else
          ⟨"Checking the path…".toList,
            "From the cable to the UEs, in order.".toList,
            "bg-slate-500".toList, true⟩)

end Headline

section Follow

/-- A record as the page reads it. -/
structure Polled where
  state : Piece.Shown
  check : Option Piece.Check
  error : Text
  exit : Option Int

/-- A record, or a failed read with its status. -/
abbrev Read := Except (Option Nat) Polled

structure Outcome where
  ok : Bool
  message : Text
  checked : Bool
  deriving DecidableEq

inductive Next where
  | wait (errors : Nat)
  | done (outcome : Outcome)

/-- `{ ok: false, message }` -/
def failure (message : Text) : Outcome :=
  ⟨false, message, false⟩

/-- `MAX_READ_ERRORS` -/
def maxReadErrors : Nat := 3

def Polled.isPending (r : Polled) : Bool :=
  r.check.any fun c => c.pending

def Polled.why (r : Polled) : Text :=
  match r.check.filter fun c => c.ok = some false with
  | some c => c.message
  | none =>
      orElse r.error
        (match r.exit with
        | some exit => "the playbook exited ".toList ++ intText exit
        | none => "the run failed".toList)

/-- `followStep` -/
def followStep (read : Read) (errors : Nat) : Next :=
  match read with
  | .error status =>
      if status = some 404 then
        .done (failure "the operation's record is gone".toList)
      else if maxReadErrors ≤ errors + 1 then
        .done (failure ("lost track of the run (".toList ++
          intText (errors + 1 : Nat) ++ " failed reads)".toList))
      else .wait (errors + 1)
  | .ok r =>
      match r.state with
      | .running => .wait 0
      | .interrupted => .done (failure "the run was interrupted".toList)
      | .done =>
          if r.isPending then .wait 0
          else
            .done ⟨r.check.all fun c => c.ok ≠ some false,
              (r.check.map Piece.Check.message).getD [],
              r.check.any fun c => c.ok = some true⟩
      | .failed => .done (failure r.why)

/-- The polls of an operation, one after the other. -/
def follow (errors : Nat) : List Read → Option Outcome
  | [] => none
  | read :: rest =>
      match followStep read errors with
      | .wait errors => follow errors rest
      | .done outcome => some outcome

/-- `verifyAfter` -/
def verifyAfter (piece : Text) (target : LinkId) (chain : Option Chain) :
    Except Text Unit :=
  match chain with
  | none => .error "the RAN status could not be read back".toList
  | some c =>
      if piece = "ran_detach".toList then
        if c.state = .detached then .ok ()
        else .error "the RAN still reads as attached".toList
      else if c.state = .detached then
        .error "the RAN still reads as detached".toList
      else
        match (c.find target).filter fun l => l.state = .bad with
        | some l =>
            .error ("still broken at ".toList ++ l.id.name ++ ':' :: ' ' ::
              l.verdict)
        | none => .ok ()

/-- `finish`: whether the page shows the run as done. -/
def doneShown (piece : Text) (target : LinkId) (o : Outcome)
    (chain : Option Chain) : Bool :=
  if !o.ok && !o.message.isEmpty then false
  else o.checked || (verifyAfter piece target chain).isOk

/-- The runner's answer to a start. -/
structure Answer where
  failed : Bool
  error : Text
  id : Text

/-- `followStart` -/
def followStart (a : Answer) : Option Outcome :=
  if a.failed then some (failure (orElse a.error "the run did not start".toList))
  else if a.id = [] then
    some (failure "the runner did not say which run holds the piece".toList)
  else none

/-- What the page shows of a run once it has ended: whether it is done. -/
def pageShows (piece : Text) (target : LinkId) (a : Answer) (polls : List Read)
    (chain : Option Chain) : Option Bool :=
  ((followStart a).or (follow 0 polls)).map fun o =>
    doneShown piece target o chain

end Follow

section HeadlineTotal

variable {f : Facts} {c : Chain} {id : LinkId}

theorem Chain.BrokenAt.find (h : c.BrokenAt id)
    (hids : c.links.map Link.id = LinkId.all) :
    ∃ l, c.find id = some l ∧ l.id = id ∧ l.state = .bad := by
  obtain ⟨pre, l, post, hlinks, hid, hbad, -, -⟩ := h
  refine ⟨l, ?_, hid, hbad⟩
  rw [Chain.find, hlinks, List.find?_append, List.find?_cons_of_pos (by simp [hid])]
  have hnodup : (c.links.map Link.id).Nodup := by
    rw [hids]
    decide
  rw [hlinks, List.map_append, List.map_cons, List.nodup_append] at hnodup
  have hpre : pre.find? (fun r => r.id = id) = none := by
    rw [List.find?_eq_none]
    intro r hr
    simpa [← hid] using hnodup.2.2 r.id (List.mem_map_of_mem hr) l.id (by simp)
  rw [hpre, Option.none_or]

/-- The page has a headline for every chain that is built, and calls the path
broken at the first link whose facts do not hold. -/
theorem pathHeadline_total (f : Facts) (ues : Option Nat) (error : Text)
    (running : Option Running) :
    (pathHeadline none ues error running).isSome = true ∧
      (pathHeadline (some (buildChain f)) ues error running).isSome = true ∧
      ∀ id, f.brokenAt = some id → running = none →
        ∃ h l, pathHeadline (some (buildChain f)) ues error running = some h ∧
          (buildChain f).find id = some l ∧ l.state = .bad ∧
          h.title = "Broken at ".toList ++ lower id.name ∧
          h.sub = l.verdict ++ ['.'] := by
  obtain ⟨hids, hfirst, hnone, hsome⟩ := buildChain_shape f
  have hchain : (chainHeadline (buildChain f) (ues.getD 0)).isSome = true := by
    unfold chainHeadline
    split
    · rfl
    · rfl
    · rename_i hstate
      cases hat : f.brokenAt with
      | none =>
          rw [(hnone hat).1] at hstate
          split at hstate <;> cases hstate
      | some id =>
          obtain ⟨l, hfind, -⟩ := (hsome id hat).2.1.find hids
          rw [hfirst, hat, Option.bind_some, hfind]
          rfl
  refine ⟨?_, ?_, fun id hid hrun => ?_⟩
  · unfold pathHeadline
    split
    · rfl
    · rename_i hc
      cases hc
    · rfl
  · unfold pathHeadline
    split
    · rfl
    · rename_i hc
      obtain rfl := Option.some.inj hc
      exact hchain
    · rfl
  · obtain ⟨hstate, hbroken, -⟩ := hsome id hid
    obtain ⟨l, hfind, hl, hbad⟩ := hbroken.find hids
    subst hrun
    refine ⟨⟨"Broken at ".toList ++ lower id.name, l.verdict ++ ['.'],
      "bg-rose-400".toList, false⟩, l, ?_, hfind, hbad, rfl, rfl⟩
    change chainHeadline (buildChain f) _ = _
    rw [chainHeadline, hstate, hfirst, hid, Option.bind_some, hfind, ← hl]
    rfl

end HeadlineTotal

section FollowEnds

/-- A failed read that is tried again. -/
def Read.isLost : Read → Bool
  | .error status => status ≠ some 404
  | .ok _ => false

/-- A record that is gone, or one whose run and read-back have ended. -/
def Read.isSettled : Read → Bool
  | .error status => status = some 404
  | .ok r =>
      match r.state with
      | .running => false
      | .done => !r.isPending
      | .interrupted | .failed => true

variable {reads rest : List Read} {read : Read} {n : Nat} {o : Outcome}

theorem followStep_wait (hsettled : read.isSettled = false)
    (hn : read.isLost = true → n + 1 < maxReadErrors) :
    followStep read n = .wait (if read.isLost then n + 1 else 0) := by
  cases read with
  | error status =>
      have hstatus : status ≠ some 404 := by simpa [Read.isSettled] using hsettled
      have hlost : Read.isLost (.error status) = true := by
        simpa [Read.isLost] using hstatus
      rw [followStep, if_neg hstatus, if_neg (Nat.not_le.2 (hn hlost)),
        if_pos hlost]
  | ok r =>
      have hlost : ¬ Read.isLost (.ok r) = true := nofun
      rw [if_neg hlost, followStep]
      unfold Read.isSettled at hsettled
      dsimp only at hsettled
      cases hstate : r.state with
      | running => rfl
      | done =>
          rw [hstate] at hsettled
          rw [if_pos (by simpa using hsettled)]
      | interrupted | failed =>
          rw [hstate] at hsettled
          cases hsettled

theorem threeLost_skip (hn : n < maxReadErrors) (bs : List Bool) :
    [true, true, true] <:+: List.replicate n true ++ false :: bs ↔
      [true, true, true] <:+: bs := by
  have hcases : n = 0 ∨ n = 1 ∨ n = 2 := by
    unfold maxReadErrors at hn
    omega
  rcases hcases with rfl | rfl | rfl <;>
    simp [List.replicate, List.infix_cons_iff, List.cons_prefix_cons]

/-- Following ends at a settled read. -/
theorem followStep_settled (hsettled : read.isSettled = true) :
    ∃ o, followStep read n = .done o := by
  cases read with
  | error status =>
      have hstatus : status = some 404 := by simpa [Read.isSettled] using hsettled
      exact ⟨_, if_pos hstatus⟩
  | ok r =>
      unfold Read.isSettled at hsettled
      dsimp only at hsettled
      unfold followStep
      dsimp only
      cases hstate : r.state with
      | running =>
          rw [hstate] at hsettled
          cases hsettled
      | done =>
          rw [hstate] at hsettled
          exact ⟨_, if_neg (by simpa using hsettled)⟩
      | interrupted | failed => exact ⟨_, rfl⟩

/-- Following ends at the third failed read. -/
theorem followStep_lost (hlost : read.isLost = true)
    (hn : maxReadErrors ≤ n + 1) : ∃ o, followStep read n = .done o := by
  cases read with
  | error status =>
      have hstatus : status ≠ some 404 := by simpa [Read.isLost] using hlost
      rw [followStep, if_neg hstatus, if_pos hn]
      exact ⟨_, rfl⟩
  | ok r => cases hlost

theorem replicate_append_cons (n : Nat) (bs : List Bool) :
    List.replicate n true ++ true :: bs = List.replicate (n + 1) true ++ bs := by
  rw [List.replicate_succ', List.append_assoc, List.singleton_append]

/-- Following goes on as long as no read is settled and no three reads in a row
have failed. -/
theorem follow_eq_none_iff (hn : n < maxReadErrors) :
    follow n reads = none ↔ (∀ read ∈ reads, read.isSettled = false) ∧
      ¬ [true, true, true] <:+:
        List.replicate n true ++ reads.map Read.isLost := by
  induction reads generalizing n with
  | nil =>
      have hshort : ¬ [true, true, true] <:+: List.replicate n true ++ [] := by
        intro h
        have hlength := h.length_le
        simp only [List.append_nil, List.length_replicate, List.length_cons,
          List.length_nil] at hlength
        unfold maxReadErrors at hn
        omega
      exact iff_of_true rfl ⟨nofun, hshort⟩
  | cons read reads ih =>
      rw [follow, List.forall_mem_cons, List.map_cons]
      cases hsettled : read.isSettled with
      | true =>
          obtain ⟨o, ho⟩ := followStep_settled hsettled (n := n)
          rw [ho]
          exact iff_of_false nofun fun h => nomatch h.1.1
      | false =>
          cases hlost : read.isLost with
          | false =>
              rw [followStep_wait hsettled (by rw [hlost]; exact nofun), hlost,
                threeLost_skip hn]
              simpa using ih (n := 0) (by decide)
          | true =>
              rw [replicate_append_cons]
              by_cases hlast : n + 1 < maxReadErrors
              · rw [followStep_wait hsettled fun _ => hlast, hlost]
                simpa using ih hlast
              · obtain ⟨o, ho⟩ := followStep_lost hlost (n := n) (by omega)
                rw [ho]
                refine iff_of_false nofun fun h => h.2 ?_
                have htwo : n + 1 = 3 := by
                  unfold maxReadErrors at hn hlast
                  omega
                rw [htwo]
                exact ⟨[], _, rfl⟩

theorem follow_eq_none_oneLost : follow 1 [.error (some 502)] = none :=
  (follow_eq_none_iff (by decide)).2 ⟨by decide, by decide⟩

/-- Following ends with what one of the reads gives. -/
theorem exists_of_follow (h : follow n reads = some o) :
    ∃ read ∈ reads, ∃ k, followStep read k = .done o := by
  induction reads generalizing n with
  | nil => cases h
  | cons read reads ih =>
      rw [follow] at h
      cases hstep : followStep read n with
      | wait k =>
          rw [hstep] at h
          obtain ⟨r, hr, hdone⟩ := ih h
          exact ⟨r, List.mem_cons_of_mem _ hr, hdone⟩
      | done o' =>
          rw [hstep] at h
          obtain rfl := Option.some.inj h
          exact ⟨read, List.mem_cons_self, n, hstep⟩

theorem orElse_ne_nil {x y : Text} (hy : y ≠ []) : orElse x y ≠ [] := by
  unfold orElse
  split
  · exact hy
  · assumption

/-- A failed check says why. -/
def Polled.SaysWhy (r : Polled) : Prop :=
  ∀ c, r.check = some c → c.ok = some false → c.message ≠ []

theorem Polled.why_ne_nil {r : Polled} (h : r.SaysWhy) : r.why ≠ [] := by
  unfold Polled.why
  split
  · rename_i c hc
    obtain ⟨hcheck, hok⟩ := Option.filter_eq_some_iff.1 hc
    exact h c hcheck (of_decide_eq_true hok)
  · refine orElse_ne_nil ?_
    split
    · exact List.append_ne_nil_of_left_ne_nil (by decide) _
    · decide

/-- A failure that is told is not shown as done. -/
theorem doneShown_failure {piece message : Text} {target : LinkId}
    {chain : Option Chain} (h : message ≠ []) :
    doneShown piece target (failure message) chain = false := by
  rw [doneShown, if_pos]
  simpa [failure] using h

/-- Without a read-back of the backend the chain decides. -/
theorem verifyAfter_of_doneShown {piece : Text} {target : LinkId}
    {chain : Option Chain} (hok : o.ok = true) (hchecked : o.checked = false)
    (h : doneShown piece target o chain = true) :
    verifyAfter piece target chain = .ok () := by
  rw [doneShown, hok, hchecked] at h
  cases hverify : verifyAfter piece target chain with
  | ok _ => rfl
  | error e =>
      rw [hverify] at h
      cases h

/-- The page shows a run as done only when the record it has read was done, and
the backend's read-back has held, or there was none and the chain that was read
afterwards does not contradict it. -/
theorem readBack_of_doneShown {piece : Text} {target : LinkId}
    {chain : Option Chain} {a : Answer}
    (hwhy : ∀ r, .ok r ∈ reads → r.SaysWhy)
    (h : pageShows piece target a reads chain = some true) :
    ∃ r, .ok r ∈ reads ∧ r.state = .done ∧ r.isPending = false ∧
      ((∃ c, r.check = some c ∧ c.ok = some true) ∨
        (∀ c, r.check = some c → c.ok = none) ∧
          verifyAfter piece target chain = .ok ()) := by
  obtain ⟨o, ho, hshown⟩ := Option.map_eq_some_iff.1 h
  have hstart : followStart a = none := by
    cases hstart : followStart a with
    | none => rfl
    | some o' =>
        rw [hstart] at ho
        obtain rfl := Option.some.inj ho
        unfold followStart at hstart
        split at hstart
        · obtain rfl := Option.some.inj hstart
          rw [doneShown_failure (orElse_ne_nil (by decide))] at hshown
          cases hshown
        · split at hstart
          · obtain rfl := Option.some.inj hstart
            rw [doneShown_failure (by decide)] at hshown
            cases hshown
          · cases hstart
  rw [hstart, Option.none_or] at ho
  obtain ⟨read, hread, k, hstep⟩ := exists_of_follow ho
  cases read with
  | error status =>
      unfold followStep at hstep
      dsimp only at hstep
      split at hstep
      · cases hstep
        rw [doneShown_failure (by decide)] at hshown
        cases hshown
      · split at hstep
        · cases hstep
          rw [doneShown_failure (by simp)] at hshown
          cases hshown
        · cases hstep
  | ok r =>
      unfold followStep at hstep
      dsimp only at hstep
      cases hstate : r.state with
      | running =>
          rw [hstate] at hstep
          cases hstep
      | interrupted =>
          rw [hstate] at hstep
          cases hstep
          rw [doneShown_failure (by decide)] at hshown
          cases hshown
      | failed =>
          rw [hstate] at hstep
          cases hstep
          rw [doneShown_failure (Polled.why_ne_nil (hwhy r hread))] at hshown
          cases hshown
      | done =>
          rw [hstate] at hstep
          dsimp only at hstep
          split at hstep
          · cases hstep
          · rename_i hpending
            cases hstep
            refine ⟨r, hread, hstate, by simpa using hpending, ?_⟩
            cases hcheck : r.check with
            | none =>
                rw [hcheck] at hshown
                exact .inr ⟨nofun, verifyAfter_of_doneShown rfl rfl hshown⟩
            | some c =>
                rw [hcheck] at hshown
                cases hok : c.ok with
                | none =>
                    refine .inr ⟨?_, verifyAfter_of_doneShown ?_ ?_ hshown⟩
                    · intro c' hc'
                      obtain rfl := Option.some.inj hc'
                      exact hok
                    · simp [hok]
                    · simp [hok]
                | some ok =>
                    cases ok with
                    | true => exact .inl ⟨c, rfl, hok⟩
                    | false =>
                        have hmessage := hwhy r hread c hcheck hok
                        simp [doneShown, hok, hmessage] at hshown

end FollowEnds

end Ran
end Kelt
