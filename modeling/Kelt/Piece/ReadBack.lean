import Kelt.Lib.Runs
import Kelt.Piece.Listing
import Kelt.Piece.OpsDir

/-!
# The read-back of a run

A run that ended with exit 0 is judged by the first request that opens it
(`get_operation`): it reads the record, asks the testbed, and adds what it
found to the record (`_store_check`). These are separate steps. `_store_check`
writes beside the record, into one file that all requests share, and renames it
onto the record.

`Sys` holds what the two names stand for, as files with a content: an open file
stays the file it was when its name goes to another. `verdicts` are the results
that were put into the record, in their order, and `seen` is the first of them
at the time a request read the record.

As long as a request stores its result alone and first, the record is written
once and no request sees another result (`stable_of_alone`). Nothing in the
code makes it so.
-/

namespace Kelt
namespace Piece
namespace ReadBack

section ReadBack

/-- What the record says of the end of the run, in microseconds. -/
structure Ending where
  exit : Option Int
  ended : Option Int
deriving DecidableEq

/-- The text of the record with a read-back result, as `json.dumps` spells it,
and what `json.loads` makes of a text. -/
structure RecordJson where
  dumps : Option Check → Text
  loads : Text → Option (Option Check)
  loads_dumps : ∀ c, loads (dumps c) = some c

/-- A run, and what its requests have in common; `checks` are the names of the
read-backs. -/
structure Opened where
  json : RecordJson
  reg : Registry
  checks : List Text
  op : OpRecord Shown Ending

/-- `CHECK_WINDOW_S` -/
def checkWindow : Int :=
  600 * 1000000

def notReadBack : Text :=
  "not read back: opened after the run ended".toList

/-- `piece.get("check") in checks`; a value without a hash raises. -/
def checkOf (reg : Registry) (checks : List Text) (piece : Text) :
    Except PyError Bool :=
  match Entry.get ((reg.piece? piece).getD []) "check" with
  | .str name => .ok (checks.contains name)
  | .list _ _ => .error .typeError
  | .map _ _ => .error .typeError
  | _ => .ok false

/-- The result that a request gives the run; `result` is what the testbed
answers, `none` while it is still settling. -/
def Ending.judge (e : Ending) (now : Int) (result : Option Bool × Text) :
    Check :=
  if now - e.ended.getD now ≤ checkWindow then
    match result.1 with
    | none => ⟨none, true, result.2⟩
    | some ok => ⟨some ok, false, result.2⟩
  else
    ⟨none, false, notReadBack⟩

/-- The record as `get_operation` returns it. -/
def returned (r : OpRecord Shown Ending) : OpRecord Shown Ending :=
  if r.checkFailed then { r with state := .failed } else r

/-- Why a request fails. -/
inductive Fault where
  | noOperation
  | unreadable
  | noTmp
deriving DecidableEq, Repr

/-- Where a request stands. Inside `_store_check` it is about to read the
record, about to open the shared file, or writing there: `off` characters are
written and `left` are not. -/
inductive Request where
  | idle
  | judging
  | judged (c : Check)
  | storing (c : Check)
  | read (c : Check)
  | writing (c : Check) (fd off : Nat) (left : Text)
  | answered (r : OpRecord Shown Ending)
  | raised
  | failed (f : Fault)

/-- The request is in `_store_check`. -/
def Request.inside : Request → Bool
  | storing _ => true
  | read _ => true
  | writing _ _ _ _ => true
  | _ => false

/-- The request has found no result and has none of its own in the record. -/
def Request.isOpen : Request → Bool
  | judging => true
  | judged _ => true
  | r => r.inside

structure Sys where
  record : Nat
  tmp : Option Nat
  next : Nat
  content : Nat → Text
  requests : Nat → Request
  seen : Nat → Option Check
  verdicts : List Check

def Sys.put (s : Sys) (i : Nat) (r : Request) : Sys :=
  { s with requests := Function.update s.requests i r }

/-- Write at an offset; a gap is filled with null characters. -/
def writeAt (t : Text) (off : Nat) (new : Text) : Text :=
  t.take off ++ List.replicate (off - t.length) '\x00' ++ new ++
    t.drop (off + new.length)

inductive Act where
  | look (i : Nat)
  | judge (i : Nat) (now : Int) (result : Option Bool × Text)
  | store (i : Nat)
  | go (i : Nat)
  | write (i n : Nat)
  | replace (i : Nat)

/-- The answer of the runner, and what the request does with it. -/
def Opened.shown (o : Opened) (c : Option Check) : Request :=
  let r : OpRecord Shown Ending := { o.op with check := c }
  if r.rest.exit = some 0 ∧ c = none then
    match checkOf o.reg o.checks r.piece with
    | .error _ => .raised
    | .ok true => .judging
    | .ok false => .answered (returned r)
  else
    .answered (returned r)

def Opened.withCheck (o : Opened) (c : Check) : OpRecord Shown Ending :=
  returned { o.op with check := some c }

/-- A step of one request; other requests take theirs between any two. -/
def Sys.step (o : Opened) (s : Sys) : Act → Option Sys
  | .look i =>
      match s.requests i with
      | .idle =>
          let s : Sys := { s with
            seen := Function.update s.seen i s.verdicts.head? }
          if idRe o.op.id then
            match o.json.loads (s.content s.record) with
            | none => some (s.put i (.failed .noOperation))
            | some c => some (s.put i (o.shown c))
          else
            some (s.put i .raised)
      | _ => none
  | .judge i now result =>
      match s.requests i with
      | .judging =>
          let c := o.op.rest.judge now result
          if c.pending then
            some (s.put i (.answered (o.withCheck c)))
          else
            some (s.put i (.judged c))
      | _ => none
  | .store i =>
      match s.requests i with
      | .judged c => some (s.put i (.storing c))
      | _ => none
  | .go i =>
      match s.requests i with
      | .storing c =>
          match o.json.loads (s.content s.record) with
          | none => some (s.put i (.failed .unreadable))
          | some _ => some (s.put i (.read c))
      | .read c =>
          let text := o.json.dumps (some c)
          match s.tmp with
          | some fd =>
              some ({ s with content := Function.update s.content fd [] }.put i
                (.writing c fd 0 text))
          | none =>
              some ({ s with
                tmp := some s.next
                next := s.next + 1
                content := Function.update s.content s.next [] }.put i
                  (.writing c s.next 0 text))
      | _ => none
  | .write i n =>
      match s.requests i with
      | .writing c fd off left =>
          some ({ s with
            content := Function.update s.content fd
              (writeAt (s.content fd) off (left.take n)) }.put i
                (.writing c fd (off + (left.take n).length) (left.drop n)))
      | _ => none
  | .replace i =>
      match s.requests i with
      | .writing c _ _ [] =>
          match s.tmp with
          | none => some (s.put i (.failed .noTmp))
          | some fd =>
              some ({ s with
                record := fd
                tmp := none
                verdicts := s.verdicts ++ [c] }.put i
                  (.answered (o.withCheck c)))
      | _ => none

/-- Before the first request: the record may have a result already, and a
request of an earlier process may have left the shared file behind. -/
def Opened.start (o : Opened) (check : Option Check) (left : Option Text) :
    Sys where
  record := 0
  tmp := left.map (fun _ => 1)
  next := 2
  content := fun fd => if fd = 0 then o.json.dumps check else left.getD []
  requests := fun _ => .idle
  seen := fun _ => none
  verdicts := check.toList

/-- No request has failed, the record was written once at most, and a request
that read it after a result was there has answered with that result. -/
structure Sys.Stable (s : Sys) : Prop where
  no_fault : ∀ i f, s.requests i ≠ .failed f
  once : s.verdicts.length ≤ 1
  same : ∀ i v r, s.seen i = some v → s.requests i = .answered r →
    r.check = some v

/-- A request goes on to store its result only when the record has none and no
other request is storing one. -/
def Sys.Alone (s : Sys) : Act → Prop
  | .store _ => s.verdicts = [] ∧ ∀ j, (s.requests j).inside = false
  | _ => True

theorem put_requests_self (s : Sys) (i : Nat) (r : Request) :
    (s.put i r).requests i = r :=
  Function.update_self ..

theorem put_requests_of_ne {i j : Nat} (s : Sys) (r : Request) (h : j ≠ i) :
    (s.put i r).requests j = s.requests j :=
  Function.update_of_ne h ..

/-- Writing on at the end of a text. -/
theorem writeAt_length (t new : Text) : writeAt t t.length new = t ++ new := by
  unfold writeAt
  rw [List.take_length, Nat.sub_self, List.replicate_zero, List.append_nil,
    List.drop_eq_nil_of_le (Nat.le_add_right _ _), List.append_nil]

/-- Where a request that is inside stands, the shared file is its own, and what
is in it and what it has still to write are its text. -/
def Owns (o : Opened) (s : Sys) : Request → Prop
  | .writing c fd off left =>
      s.tmp = some fd ∧ s.content fd ++ left = o.json.dumps (some c) ∧
        off = (s.content fd).length
  | _ => True

theorem owns_of_not_inside (o : Opened) (s : Sys) {r : Request}
    (h : r.inside = false) : Owns o s r := by
  cases r <;> trivial

/-- Holds as long as results are stored alone: the record has the first result
and nobody is inside once it has one; one request at a time is inside. -/
structure Inv (o : Opened) (s : Sys) : Prop where
  record_lt : s.record < s.next
  tmp_lt : ∀ fd, s.tmp = some fd → fd < s.next ∧ fd ≠ s.record
  text : s.content s.record = o.json.dumps s.verdicts.head?
  stable : s.Stable
  alone : ∀ i j, (s.requests i).inside = true →
    (s.requests j).inside = true → i = j
  first : ∀ i, (s.requests i).inside = true → s.verdicts = []
  unseen : ∀ i, (s.requests i).isOpen = true → s.seen i = none
  owns : ∀ i, Owns o s (s.requests i)

theorem inv_start (o : Opened) (check : Option Check) (left : Option Text) :
    Inv o (o.start check left) where
  record_lt := Nat.succ_pos 1
  tmp_lt := by
    intro fd h
    cases left with
    | none => cases h
    | some t =>
        obtain rfl := Option.some.inj h
        exact ⟨Nat.lt_succ_self 1, Nat.one_ne_zero⟩
  text := by cases check <;> rfl
  stable :=
    { no_fault := by
        intro i f h
        cases h
      once := by cases check <;> simp [Opened.start]
      same := by
        intro i v r h
        cases h }
  alone := by
    intro i j h
    cases h
  first := by
    intro i h
    cases h
  unseen := fun _ _ => rfl
  owns := fun _ => trivial

variable {o : Opened} {s s' : Sys}

/-- A request that stays outside or comes out answers with the first result, if
it has seen one, and leaves the files alone. -/
theorem Inv.put_outside {i : Nat} {r : Request} (h : Inv o s)
    (hr : r.inside = false) (hfault : ∀ f, r ≠ .failed f)
    (hopen : r.isOpen = true → s.seen i = none)
    (hsame : ∀ v a, s.seen i = some v → r = .answered a → a.check = some v) :
    Inv o (s.put i r) where
  record_lt := h.record_lt
  tmp_lt := h.tmp_lt
  text := h.text
  stable :=
    { no_fault := by
        intro j f
        by_cases hj : j = i
        · rw [hj, put_requests_self]
          exact hfault f
        · rw [put_requests_of_ne s r hj]
          exact h.stable.no_fault j f
      once := h.stable.once
      same := by
        intro j v a hseen ha
        by_cases hj : j = i
        · subst hj
          rw [put_requests_self] at ha
          exact hsame v a hseen ha
        · rw [put_requests_of_ne s r hj] at ha
          exact h.stable.same j v a hseen ha }
  alone := by
    have hne : ∀ j, ((s.put i r).requests j).inside = true →
        (s.requests j).inside = true := by
      intro j hj
      by_cases hji : j = i
      · rw [hji, put_requests_self, hr] at hj
        cases hj
      · rwa [put_requests_of_ne s r hji] at hj
    exact fun j k hj hk => h.alone j k (hne j hj) (hne k hk)
  first := by
    intro j hj
    by_cases hji : j = i
    · rw [hji, put_requests_self, hr] at hj
      cases hj
    · rw [put_requests_of_ne s r hji] at hj
      exact h.first j hj
  unseen := by
    intro j hj
    by_cases hji : j = i
    · rw [hji, put_requests_self] at hj
      rw [hji]
      exact hopen hj
    · rw [put_requests_of_ne s r hji] at hj
      exact h.unseen j hj
  owns := by
    intro j
    by_cases hji : j = i
    · rw [hji, put_requests_self]
      exact owns_of_not_inside o _ hr
    · rw [put_requests_of_ne s r hji]
      exact h.owns j

/-- A request goes inside, or on inside, while no other one is there. -/
theorem Inv.put_inside {i : Nat} {r : Request} (h : Inv o s)
    (hfirst : s.verdicts = [])
    (halone : ∀ j, j ≠ i → (s.requests j).inside = false)
    (hr : r.inside = true) (hopen : s.seen i = none)
    (hrequests : s'.requests = Function.update s.requests i r)
    (hverdicts : s'.verdicts = s.verdicts) (hseen : s'.seen = s.seen)
    (hrecord : s'.record = s.record) (hnext : s.next ≤ s'.next)
    (htmp : ∀ fd, s'.tmp = some fd → fd < s'.next ∧ fd ≠ s.record)
    (htext : s'.content s.record = s.content s.record)
    (howns : Owns o s' r) : Inv o s' := by
  have hself : s'.requests i = r := by
    rw [hrequests, Function.update_self]
  have hother : ∀ j, j ≠ i → s'.requests j = s.requests j := by
    intro j hj
    rw [hrequests, Function.update_of_ne hj]
  have hinside : ∀ j, (s'.requests j).inside = true → j = i := by
    intro j hj
    by_contra hji
    rw [hother j hji, halone j hji] at hj
    cases hj
  refine
    { record_lt := by rw [hrecord]; exact h.record_lt.trans_le hnext
      tmp_lt := by rw [hrecord]; exact htmp
      text := by rw [hrecord, htext, hverdicts]; exact h.text
      stable :=
        { no_fault := ?_
          once := by rw [hverdicts]; exact h.stable.once
          same := ?_ }
      alone := fun j k hj hk => (hinside j hj).trans (hinside k hk).symm
      first := fun j _ => by rw [hverdicts]; exact hfirst
      unseen := ?_
      owns := ?_ }
  · intro j f hj
    by_cases hji : j = i
    · rw [hji, hself] at hj
      rw [hj] at hr
      cases hr
    · exact h.stable.no_fault j f (hother j hji ▸ hj)
  · intro j v a hv ha
    by_cases hji : j = i
    · rw [hji, hself] at ha
      rw [ha] at hr
      cases hr
    · rw [hseen] at hv
      exact h.stable.same j v a hv (hother j hji ▸ ha)
  · intro j hj
    rw [hseen]
    by_cases hji : j = i
    · rw [hji]
      exact hopen
    · exact h.unseen j (hother j hji ▸ hj)
  · intro j
    by_cases hji : j = i
    · rw [hji, hself]
      exact howns
    · rw [hother j hji]
      exact owns_of_not_inside o s' (halone j hji)

/-- The record reads as the first result, or as none. -/
theorem Inv.loads_record (h : Inv o s) :
    o.json.loads (s.content s.record) = some s.verdicts.head? := by
  rw [h.text, o.json.loads_dumps]

theorem check_returned (r : OpRecord Shown Ending) :
    (returned r).check = r.check := by
  unfold returned
  split_ifs <;> rfl

/-- A request that finds a result answers with it. -/
theorem shown_some (o : Opened) (v : Check) :
    o.shown (some v) = .answered (o.withCheck v) := by
  have hcond : ¬ (o.op.rest.exit = some 0 ∧ some v = none) := by simp
  exact if_neg hcond

theorem shown_none (o : Opened) :
    o.shown none = .judging ∨ o.shown none = .raised ∨
      ∃ r, o.shown none = .answered r := by
  unfold Opened.shown
  dsimp only
  split_ifs
  · split
    · exact Or.inr (Or.inl rfl)
    · exact Or.inl rfl
    · exact Or.inr (Or.inr ⟨_, rfl⟩)
  · exact Or.inr (Or.inr ⟨_, rfl⟩)

theorem Inv.look {i : Nat} (h : Inv o s) (hi : s.requests i = .idle) :
    Inv o { s with seen := Function.update s.seen i s.verdicts.head? } :=
  { h with
    stable :=
      { h.stable with
        same := by
          intro j v r hseen hr
          by_cases hji : j = i
          · subst hji
            have hidle : Request.idle = .answered r := hi.symm.trans hr
            cases hidle
          · refine h.stable.same j v r ?_ hr
            rwa [← Function.update_of_ne hji s.verdicts.head? s.seen] }
    unseen := by
      intro j hj
      by_cases hji : j = i
      · subst hji
        have hidle : (s.requests j).isOpen = true := hj
        rw [hi] at hidle
        cases hidle
      · have hold := h.unseen j hj
        rwa [← Function.update_of_ne hji s.verdicts.head? s.seen] at hold }

theorem Inv.step_look {i : Nat} (h : Inv o s)
    (hs : s.step o (.look i) = some s') : Inv o s' := by
  unfold Sys.step at hs
  cases hi : s.requests i with
  | idle =>
      have hlook := h.look hi
      have hseen : ∀ v, Function.update s.seen i s.verdicts.head? i = some v →
          s.verdicts.head? = some v := by
        intro v hv
        rwa [Function.update_self] at hv
      simp only [hi, h.loads_record] at hs
      split_ifs at hs with hid
      · obtain rfl := Option.some.inj hs
        cases hv : s.verdicts.head? with
        | some v =>
            rw [hv] at hlook hseen
            rw [shown_some]
            refine hlook.put_outside rfl (by simp) (by simp [Request.isOpen,
              Request.inside]) ?_
            rintro w a hw ⟨⟩
            exact (check_returned _).trans (hseen w hw)
        | none =>
            rw [hv] at hlook hseen
            obtain hnone | hnone | ⟨r, hnone⟩ := shown_none o <;> rw [hnone]
            · exact hlook.put_outside rfl (by simp)
                (fun _ => Function.update_self ..) (by simp)
            · exact hlook.put_outside rfl (by simp)
                (fun _ => Function.update_self ..) (by simp)
            · refine hlook.put_outside rfl (by simp)
                (fun _ => Function.update_self ..) ?_
              intro w a hw
              cases hseen w hw
      · obtain rfl := Option.some.inj hs
        exact hlook.put_outside rfl (by simp) (by simp [Request.isOpen,
          Request.inside]) (by simp)
  | _ => simp [hi] at hs

theorem Inv.step_judge {i : Nat} {now : Int} {result : Option Bool × Text}
    (h : Inv o s) (hs : s.step o (.judge i now result) = some s') :
    Inv o s' := by
  unfold Sys.step at hs
  cases hi : s.requests i with
  | judging =>
      have hseen : s.seen i = none := h.unseen i (by rw [hi]; rfl)
      simp only [hi] at hs
      split_ifs at hs
      · obtain rfl := Option.some.inj hs
        refine h.put_outside rfl (by simp) (fun _ => hseen) ?_
        intro v a hv
        rw [hseen] at hv
        cases hv
      · obtain rfl := Option.some.inj hs
        exact h.put_outside rfl (by simp) (fun _ => hseen) (by simp)
  | _ => simp [hi] at hs

/-- Nobody else is inside while a request is. -/
theorem Inv.others {i : Nat} (h : Inv o s)
    (hi : (s.requests i).inside = true) :
    ∀ j, j ≠ i → (s.requests j).inside = false := by
  intro j hj
  by_contra hin
  exact hj (h.alone j i (Bool.of_not_eq_false hin) hi)

theorem Inv.step_store {i : Nat} (h : Inv o s) (hok : s.Alone (.store i))
    (hs : s.step o (.store i) = some s') : Inv o s' := by
  unfold Sys.step at hs
  cases hi : s.requests i with
  | judged c =>
      have hseen : s.seen i = none := h.unseen i (by rw [hi]; rfl)
      simp only [hi] at hs
      obtain rfl := Option.some.inj hs
      exact h.put_inside hok.1 (fun j _ => hok.2 j) rfl hseen rfl rfl rfl rfl
        le_rfl h.tmp_lt rfl trivial
  | _ => simp [hi] at hs

theorem Inv.step_go {i : Nat} (h : Inv o s)
    (hs : s.step o (.go i) = some s') : Inv o s' := by
  unfold Sys.step at hs
  cases hi : s.requests i with
  | storing c =>
      have hin : (s.requests i).inside = true := by rw [hi]; rfl
      have hseen : s.seen i = none := h.unseen i (by rw [hi]; rfl)
      simp only [hi, h.loads_record] at hs
      obtain rfl := Option.some.inj hs
      exact h.put_inside (h.first i hin) (h.others hin) rfl hseen rfl rfl rfl
        rfl le_rfl h.tmp_lt rfl trivial
  | read c =>
      have hin : (s.requests i).inside = true := by rw [hi]; rfl
      have hseen : s.seen i = none := h.unseen i (by rw [hi]; rfl)
      cases htmp : s.tmp with
      | some fd =>
          simp only [hi, htmp] at hs
          obtain rfl := Option.some.inj hs
          refine h.put_inside (h.first i hin) (h.others hin) rfl hseen rfl rfl
            rfl rfl le_rfl (fun e he => h.tmp_lt e (htmp ▸ he)) ?_ ?_
          · exact Function.update_of_ne (h.tmp_lt fd htmp).2.symm ..
          · refine ⟨rfl, ?_, ?_⟩ <;> simp [Sys.put]
      | none =>
          simp only [hi, htmp] at hs
          obtain rfl := Option.some.inj hs
          refine h.put_inside (h.first i hin) (h.others hin) rfl hseen rfl rfl
            rfl rfl (Nat.le_succ _) ?_ ?_ ?_
          · intro e he
            obtain rfl := Option.some.inj he
            exact ⟨Nat.lt_succ_self _, h.record_lt.ne'⟩
          · exact Function.update_of_ne h.record_lt.ne ..
          · refine ⟨rfl, ?_, ?_⟩ <;> simp [Sys.put]
  | _ => simp [hi] at hs

theorem Inv.step_write {i n : Nat} (h : Inv o s)
    (hs : s.step o (.write i n) = some s') : Inv o s' := by
  unfold Sys.step at hs
  cases hi : s.requests i with
  | writing c fd off left =>
      have hin : (s.requests i).inside = true := by rw [hi]; rfl
      have hseen : s.seen i = none := h.unseen i (by rw [hi]; rfl)
      obtain ⟨htmp, htext, rfl⟩ : Owns o s (.writing c fd off left) :=
        hi ▸ h.owns i
      simp only [hi, writeAt_length] at hs
      obtain rfl := Option.some.inj hs
      refine h.put_inside (h.first i hin) (h.others hin) rfl hseen rfl rfl rfl
        rfl le_rfl h.tmp_lt ?_ ⟨htmp, ?_, ?_⟩
      · exact Function.update_of_ne (h.tmp_lt fd htmp).2.symm ..
      · simp [Sys.put, htext]
      · simp [Sys.put]
  | _ => simp [hi] at hs

/-- The record gets its first and only result. -/
theorem Inv.step_replace {i : Nat} (h : Inv o s)
    (hs : s.step o (.replace i) = some s') : Inv o s' := by
  unfold Sys.step at hs
  cases hi : s.requests i with
  | writing c fd off left =>
      have hin : (s.requests i).inside = true := by rw [hi]; rfl
      have hseen : s.seen i = none := h.unseen i (by rw [hi]; rfl)
      obtain ⟨htmp, htext, -⟩ : Owns o s (.writing c fd off left) :=
        hi ▸ h.owns i
      cases left with
      | cons a left => simp [hi] at hs
      | nil =>
          rw [List.append_nil] at htext
          have hfirst := h.first i hin
          simp only [hi, htmp, hfirst] at hs
          have hs' := (Option.some.inj hs).symm
          have hself : s'.requests i = .answered (o.withCheck c) := by
            rw [hs']
            exact put_requests_self ..
          have hother : ∀ j, j ≠ i → s'.requests j = s.requests j := by
            intro j hj
            rw [hs']
            exact put_requests_of_ne _ _ hj
          have hseen' : s'.seen = s.seen := by rw [hs']; rfl
          have hout : ∀ j, (s'.requests j).inside = false := by
            intro j
            by_cases hji : j = i
            · rw [hji, hself]
              rfl
            · rw [hother j hji]
              exact h.others hin j hji
          refine
            { record_lt := by rw [hs']; exact (h.tmp_lt fd htmp).1
              tmp_lt := fun e he => by rw [hs'] at he; cases he
              text := by rw [hs']; exact htext
              stable :=
                { no_fault := ?_
                  once := by rw [hs']; exact le_rfl
                  same := ?_ }
              alone := fun j k hj => by rw [hout j] at hj; cases hj
              first := fun j hj => by rw [hout j] at hj; cases hj
              unseen := ?_
              owns := fun j => owns_of_not_inside o s' (hout j) }
          · intro j f
            by_cases hji : j = i
            · rw [hji, hself]
              rintro ⟨⟩
            · rw [hother j hji]
              exact h.stable.no_fault j f
          · intro j v r hv hr
            rw [hseen'] at hv
            by_cases hji : j = i
            · rw [hji, hseen] at hv
              cases hv
            · exact h.stable.same j v r hv (hother j hji ▸ hr)
          · intro j hj
            rw [hseen']
            by_cases hji : j = i
            · rw [hji]
              exact hseen
            · exact h.unseen j (hother j hji ▸ hj)
  | _ => simp [hi] at hs

theorem Inv.step {act : Act} (h : Inv o s) (hok : s.Alone act)
    (hs : s.step o act = some s') : Inv o s' := by
  cases act with
  | look i => exact h.step_look hs
  | judge i now result => exact h.step_judge hs
  | store i => exact h.step_store hok hs
  | go i => exact h.step_go hs
  | write i n => exact h.step_write hs
  | replace i => exact h.step_replace hs

/-- The piece `ran_link` with its read-back. -/
def checkedLink : Registry where
  items :=
    [("ran_link".toList,
      .map
        [("title".toList, .str "Bring the RAN link up".toList),
          ("runs".toList,
            .list [.map [("phase".toList, .str "04-overlay-network".toList),
              ("tags".toList, .list [.str "ran_link".toList] [])] []] []),
          ("tier".toList, .str "change".toList),
          ("changes".toList, .str "The RAN link.".toList),
          ("check".toList, .str "ran_link_up".toList)] [])]
  accepted := by rfl

/-- A spelling to run the definitions with. -/
def briefJson : RecordJson where
  dumps
    | none => "\x7b\x7d".toList
    | some c =>
        '\x7b' ::
          (match c.ok with
            | none => 'n'
            | some true => 't'
            | some false => 'f') ::
          (if c.pending then 'p' else 's') :: (c.message ++ ['\x7d'])
  loads
    | ['\x7b', '\x7d'] => some none
    | '\x7b' :: ok :: pending :: rest =>
        if rest.getLast? = some '\x7d' then
          some (some
            ⟨if ok = 'n' then none else some (ok == 't'), pending == 'p',
              rest.dropLast⟩)
        else
          none
    | _ => none
  loads_dumps := by
    rintro (_ | ⟨_ | _ | _, _ | _, message⟩)
    · rfl
    all_goals simp

def linkRun : Opened where
  json := briefJson
  reg := checkedLink
  checks := ["ran_link_up".toList]
  op :=
    { id := "20260926-221248-577734-ran_link".toList
      piece := "ran_link".toList
      state := .done
      check := none
      rest := ⟨some 0, some 0⟩ }

/-- In every run in which requests store alone and first, no request fails, the
record is written once at most, and every request that finds a result answers
with the one that was stored first. -/
theorem stable_of_alone (o : Opened) (check : Option Check)
    (left : Option Text) (s : Sys)
    (h : Reach (Sys.step o) Sys.Alone (o.start check left) s) : s.Stable :=
  (h.inv (inv_start o check left)
    fun _ _ _ hinv hok hs => hinv.step hok hs).stable

/-- One request finds the link up and stores it, a second one reads it. -/
theorem stable_of_alone_storedOnce :
    ∃ s, Reach (Sys.step linkRun) Sys.Alone (linkRun.start none none) s ∧
      s.verdicts = [⟨some true, false, "enp0s9 is up".toList⟩] ∧
      s.seen 1 = s.verdicts.head? ∧ s.Stable := by
  have hstart : Reach (Sys.step linkRun) Sys.Alone
      (linkRun.start none none) (linkRun.start none none) := .refl
  have hreach :=
    ((((((((hstart.step (a := Act.look 0) trivial rfl).step
      (a := Act.judge 0 1000000 (some true, "enp0s9 is up".toList)) trivial
        rfl).step
      (a := Act.store 0) ⟨rfl, fun j => by cases j <;> rfl⟩ rfl).step
      (a := Act.go 0) trivial rfl).step
      (a := Act.go 0) trivial rfl).step
      (a := Act.write 0 99) trivial rfl).step
      (a := Act.replace 0) trivial rfl).step
      (a := Act.look 1) trivial rfl)
  exact ⟨_, hreach, rfl, rfl, stable_of_alone _ _ _ _ hreach⟩

/-- Two requests find no result, one while the link is up, the other while it is
down; both store theirs. -/
def crossed : List Act :=
  let linkUp := (some true, "enp0s9 is up".toList)
  let linkDown := (some false, "enp0s9 is down".toList)
  [.look 0, .look 1, .judge 0 1000000 linkUp, .judge 1 2000000 linkDown,
    .store 0, .go 0, .go 0, .write 0 99, .replace 0, .look 2,
    .store 1, .go 1, .go 1, .write 1 99, .replace 1, .look 3]

/-- The result flips. -/
theorem not_stable_crossed :
    ¬ ∀ (o : Opened) (check : Option Check) (left : Option Text) (s : Sys),
      ReachAny (Sys.step o) (o.start check left) s → s.Stable := by
  intro h
  cases hrun : exec (Sys.step linkRun) (linkRun.start none none) crossed with
  | none => cases hrun
  | some s =>
      have hstable := h linkRun none none s (Reach.refl.exec hrun)
      have hrun' := hrun
      obtain rfl := Option.some.inj hrun'
      have hflip := hstable.same 3 _ _ rfl rfl
      cases hflip

end ReadBack

end ReadBack
end Piece
end Kelt
