import Mathlib.Logic.Function.Basic
import Mathlib.Logic.Relation
import Mathlib.Tactic

/-!
# Scripts over files that may be cut off anywhere

A directory gives each name the content of its file. A script does one file
operation after the other; an operation can fail, which the script handles, and
the script can be cut off between any two steps.

`Script.wp I Q` is the condition on a directory under which `I` holds in every
state the script goes through, and `Q` when it is done. It is a recursion over
the script, so a proof about a script follows its text; `wp_safe` and `wp_done`
turn it into a statement about runs.
-/

namespace Kelt
namespace Fs

universe u v

section CrashFs

variable {ν : Type u} {α : Type v}

/-- The content of each file that is there. -/
abbrev Dir (ν : Type u) (α : Type v) := ν → Option (List α)

inductive Op (ν : Type u) (α : Type v) where
  | createNew (n : ν)
  | create (n : ν)
  | append (n : ν) (chunk : List α)
  | chmod (n : ν)
  | remove (n : ν)
  | rename (src dst : ν)

/-- A program over files: a step and what follows it, also when it fails. -/
inductive Script (ν : Type u) (α : Type v) where
  | done (ok : Bool)
  | op (o : Op ν α) (next onFail : Script ν α)
  | look (k : Dir ν α → Script ν α)

/-- Append the chunks of a content one by one. -/
def Script.appendAll (n : ν) (chunks : List (List α))
    (next onFail : Script ν α) : Script ν α :=
  match chunks with
  | [] => next
  | c :: rest => .op (.append n c) (appendAll n rest next onFail) onFail

/-- The names whose content an operation can change. -/
def Op.touches : Op ν α → List ν
  | createNew n => [n]
  | create n => [n]
  | append n _ => [n]
  | chmod _ => []
  | remove n => [n]
  | rename src dst => [src, dst]

variable [DecidableEq ν]

/-- What an operation does when it succeeds. -/
def Op.apply (d : Dir ν α) : Op ν α → Option (Dir ν α)
  | createNew n =>
      match d n with
      | none => some (Function.update d n (some []))
      | some _ => none
  | create n => some (Function.update d n (some []))
  | append n chunk =>
      match d n with
      | none => none
      | some t => some (Function.update d n (some (t ++ chunk)))
  | chmod n => if (d n).isSome then some d else none
  | remove n => some (Function.update d n none)
  | rename src dst =>
      match d src with
      | none => none
      | some t =>
          some (Function.update (Function.update d src none) dst (some t))

/-- One step of a script; any operation can fail. -/
inductive Step : Script ν α × Dir ν α → Script ν α × Dir ν α → Prop
  | op {o : Op ν α} {next onFail : Script ν α} {d d' : Dir ν α}
      (h : o.apply d = some d') : Step (.op o next onFail, d) (next, d')
  | fail {o : Op ν α} {next onFail : Script ν α} {d : Dir ν α} :
      Step (.op o next onFail, d) (onFail, d)
  | look {k : Dir ν α → Script ν α} {d : Dir ν α} :
      Step (.look k, d) (k d, d)

/-- Any number of steps: what a script can have done when it is cut off. -/
abbrev Steps : Script ν α × Dir ν α → Script ν α × Dir ν α → Prop :=
  Relation.ReflTransGen Step

/-- The run that is not cut off and in which nothing fails that can be done. -/
def Script.exec : Script ν α → Dir ν α → Bool × Dir ν α
  | done ok, d => (ok, d)
  | op o next onFail, d =>
      match o.apply d with
      | some d' => next.exec d'
      | none => onFail.exec d
  | look k, d => (k d).exec d

/-- `I` holds from here on at every moment, and `Q` at the end. -/
def Script.wp (I : Dir ν α → Prop) (Q : Bool → Dir ν α → Prop) :
    Script ν α → Dir ν α → Prop
  | done ok, d => I d ∧ Q ok d
  | op o next onFail, d =>
      I d ∧ (∀ d', o.apply d = some d' → next.wp I Q d') ∧ onFail.wp I Q d
  | look k, d => I d ∧ (k d).wp I Q d

/-- An operation leaves the other names alone. -/
theorem Op.apply_frame {o : Op ν α} {d d' : Dir ν α} {n : ν}
    (h : o.apply d = some d') (hn : n ∉ o.touches) : d' n = d n := by
  cases o with
  | createNew m =>
      have hne : n ≠ m := by simpa [touches] using hn
      unfold apply at h
      cases hm : d m with
      | none =>
          simp only [hm, Option.some.injEq] at h
          rw [← h, Function.update_of_ne hne]
      | some t => simp [hm] at h
  | create m =>
      have hne : n ≠ m := by simpa [touches] using hn
      rw [← Option.some.inj h, Function.update_of_ne hne]
  | append m chunk =>
      have hne : n ≠ m := by simpa [touches] using hn
      unfold apply at h
      cases hm : d m with
      | none => simp [hm] at h
      | some t =>
          simp only [hm, Option.some.injEq] at h
          rw [← h, Function.update_of_ne hne]
  | chmod m =>
      simp only [apply] at h
      split_ifs at h
      rw [Option.some.inj h]
  | remove m =>
      have hne : n ≠ m := by simpa [touches] using hn
      rw [← Option.some.inj h, Function.update_of_ne hne]
  | rename src dst =>
      have hne : n ≠ src ∧ n ≠ dst := by simpa [touches] using hn
      unfold apply at h
      cases hm : d src with
      | none => simp [hm] at h
      | some t =>
          simp only [hm, Option.some.injEq] at h
          rw [← h, Function.update_of_ne hne.2, Function.update_of_ne hne.1]

theorem apply_createNew {d d' : Dir ν α} {n : ν}
    (h : (Op.createNew n).apply d = some d') : d' n = some [] := by
  unfold Op.apply at h
  cases hn : d n with
  | none =>
      simp only [hn, Option.some.injEq] at h
      rw [← h, Function.update_self]
  | some t => simp [hn] at h

theorem apply_create {d d' : Dir ν α} {n : ν}
    (h : (Op.create n).apply d = some d') : d' n = some [] := by
  rw [← Option.some.inj h, Function.update_self]

theorem apply_append {d d' : Dir ν α} {n : ν} {chunk t : List α}
    (hn : d n = some t) (h : (Op.append n chunk).apply d = some d') :
    d' n = some (t ++ chunk) := by
  unfold Op.apply at h
  simp only [hn, Option.some.injEq] at h
  rw [← h, Function.update_self]

theorem apply_rename {d d' : Dir ν α} {src dst : ν}
    (h : (Op.rename src dst).apply d = some d') : d' dst = d src := by
  unfold Op.apply at h
  cases hsrc : d src with
  | none => simp [hsrc] at h
  | some t =>
      simp only [hsrc, Option.some.injEq] at h
      rw [← h, Function.update_self]

/-- A script comes to its end when it is let run. -/
theorem exec_steps (s : Script ν α) (d : Dir ν α) :
    Steps (s, d) (.done (s.exec d).1, (s.exec d).2) := by
  induction s generalizing d with
  | done ok => exact .refl
  | op o next onFail ihnext ihfail =>
      cases happly : o.apply d with
      | some d' =>
          simp only [Script.exec, happly]
          exact .head (.op happly) (ihnext d')
      | none =>
          simp only [Script.exec, happly]
          exact .head .fail (ihfail d)
  | look k ih => exact .head .look (ih d d)

section Wp

variable {I I' : Dir ν α → Prop} {Q Q' : Bool → Dir ν α → Prop}

theorem wp_inv {s : Script ν α} {d : Dir ν α} (h : s.wp I Q d) : I d := by
  cases s with
  | done ok => exact h.1
  | op o next onFail => exact h.1
  | look k => exact h.1

theorem wp_mono (hI : ∀ d, I d → I' d) (hQ : ∀ ok d, Q ok d → Q' ok d)
    {s : Script ν α} {d : Dir ν α} (h : s.wp I Q d) : s.wp I' Q' d := by
  induction s generalizing d with
  | done ok => exact ⟨hI d h.1, hQ ok d h.2⟩
  | op o next onFail ihnext ihfail =>
      exact ⟨hI d h.1, fun d' hd' => ihnext (h.2.1 d' hd'), ihfail h.2.2⟩
  | look k ih => exact ⟨hI d h.1, ih d h.2⟩

/-- A step goes on as the condition says. -/
theorem wp_step {s s' : Script ν α} {d d' : Dir ν α}
    (hstep : Step (s, d) (s', d')) (h : s.wp I Q d) : s'.wp I Q d' := by
  cases hstep with
  | op happly => exact h.2.1 _ happly
  | fail => exact h.2.2
  | look => exact h.2

theorem wp_steps {p p' : Script ν α × Dir ν α} (hsteps : Steps p p')
    (h : p.1.wp I Q p.2) : p'.1.wp I Q p'.2 := by
  induction hsteps with
  | refl => exact h
  | tail _ hstep ih => exact wp_step hstep ih

/-- Cut off anywhere, the script leaves a directory with `I`. -/
theorem wp_safe {s s' : Script ν α} {d d' : Dir ν α}
    (hsteps : Steps (s, d) (s', d')) (h : s.wp I Q d) : I d' :=
  wp_inv (wp_steps hsteps h)

/-- Done, it leaves one with `Q`. -/
theorem wp_done {s : Script ν α} {d d' : Dir ν α} {ok : Bool}
    (hsteps : Steps (s, d) (.done ok, d')) (h : s.wp I Q d) : Q ok d' :=
  (wp_steps hsteps h).2

/-- Appending to a file that `I`, the handler and `next` see only through its
final content: `P` is what stays true of the rest of the directory. -/
theorem wp_appendAll {P : Dir ν α → Prop} {n : ν}
    {next onFail : Script ν α}
    (hP : ∀ d d' : Dir ν α, (∀ m, m ≠ n → d' m = d m) → P d → P d')
    (hI : ∀ d, P d → I d) (hfail : ∀ d, P d → onFail.wp I Q d)
    (chunks : List (List α)) {t : List α} {d : Dir ν α}
    (hnext : ∀ d', P d' → d' n = some (t ++ chunks.flatten) →
      next.wp I Q d')
    (hd : P d) (hn : d n = some t) :
    (Script.appendAll n chunks next onFail).wp I Q d := by
  induction chunks generalizing t d with
  | nil => exact hnext d hd (by simpa using hn)
  | cons c rest ih =>
      refine ⟨hI d hd, ?_, hfail d hd⟩
      intro d' happly
      have hd' : P d' :=
        hP d d' (fun m hm => Op.apply_frame happly (by simpa [Op.touches] using hm)) hd
      refine ih ?_ hd' (apply_append hn happly)
      intro d'' hP'' hn''
      exact hnext d'' hP'' (by simpa using hn'')

end Wp

end CrashFs

end Fs
end Kelt
