import Kelt.Lib.PyInt
import Mathlib.Data.List.Infix
import Mathlib.Tactic

/-!
# Backtracking regular expressions

A regular expression is tried at a place of a text and gives every way in which
it matches there, the preferred one first: the left branch of an alternative
before the right one, a greedy repetition from its longest run on and a lazy one
from its shortest. A search takes the first way at the first place that has one.

What a match needs is read off the expression: characters that it can start with
(`starts`), characters that it never has (`avoids`), and literal words one of
which it has (`clauses`). The first way is found step by step (`first_field`,
`first_skip`), where what stands in the text leaves one way to go on.
-/

namespace Kelt

section Case

/-- The lower case of a character, as far as it tells whether the character and
an ASCII one are the same without regard to case. -/
def foldCase (c : Char) : Char :=
  if c = Char.ofNat 0x130 ∨ c = Char.ofNat 0x131 then 'i'
  else if c = Char.ofNat 0x17f then 's'
  else if c = Char.ofNat 0x212a then 'k'
  else c.toLower

end Case

section Results

/-- Regular expressions in which single characters are repeated. -/
inductive Re where
  | lit (word : Text)
  | fold (word : Text)
  | many (p : Char → Bool) (least : ℕ) (most : Option ℕ) (lazy : Bool)
  | seq (r s : Re)
  | alt (r s : Re)
  | group (n : ℕ) (r : Re)
  | boundary (isWord : Char → Bool)

/-- What a match takes from the text, and what its groups have taken. -/
abbrev Found := Text × List (ℕ × Text)

def Found.append (m m' : Found) : Found :=
  (m.1 ++ m'.1, m.2 ++ m'.2)

/-- The character before the text that follows. -/
def lastChar (prev : Option Char) (taken : Text) : Option Char :=
  taken.getLast?.or prev

/-- The lengths of a repetition, the preferred one first. -/
def runLengths (longest least : ℕ) (most : Option ℕ) (lazy : Bool) : List ℕ :=
  let lengths := (List.range ((most.elim longest (min longest)) + 1)).filter
    fun n => decide (least ≤ n)
  if lazy then lengths else lengths.reverse

/-- The ways in which an expression matches at the front of a text, behind a
character. -/
def Re.results : Re → Option Char → Text → List Found
  | .lit word, _, t => if word <+: t then [(word, [])] else []
  | .fold word, _, t =>
      if (t.take word.length).map foldCase = word.map foldCase then
        [(t.take word.length, [])]
      else []
  | .many p least most lazy, _, t =>
      (runLengths (t.takeWhile p).length least most lazy).map fun n =>
        (t.take n, [])
  | .seq r s, prev, t =>
      (r.results prev t).flatMap fun m =>
        (s.results (lastChar prev m.1) (t.drop m.1.length)).map m.append
  | .alt r s, prev, t => r.results prev t ++ s.results prev t
  | .group n r, prev, t =>
      (r.results prev t).map fun m => (m.1, m.2 ++ [(n, m.1)])
  | .boundary isWord, prev, t =>
      if prev.any isWord = t.head?.any isWord then [] else [([], [])]

/-- The preferred way. -/
def Re.first (r : Re) (prev : Option Char) (t : Text) : Option Found :=
  (r.results prev t).head?

/-- The first match in a text. -/
def Re.searchFrom (r : Re) (prev : Option Char) : Text → Option Found
  | [] => r.first prev []
  | c :: t => (r.first prev (c :: t)).or (r.searchFrom (some c) t)

/-- `re.search`: what the groups have taken. -/
def Re.search (r : Re) (t : Text) : Option (List (ℕ × Text)) :=
  (r.searchFrom none t).map Prod.snd

/-- `m.group(n)` -/
def captured (groups : List (ℕ × Text)) (n : ℕ) : Option Text :=
  (groups.find? fun g => g.1 == n).map Prod.snd

/-- `re.sub` with nothing: what is taken is skipped. -/
def Re.removeFrom (r : Re) (skip : ℕ) (prev : Option Char) : Text → Text
  | [] => []
  | c :: t =>
      match skip with
      | n + 1 => r.removeFrom n (some c) t
      | 0 =>
          match r.first prev (c :: t) with
          | some (_ :: taken, _) => r.removeFrom taken.length (some c) t
          | _ => c :: r.removeFrom 0 (some c) t

def Re.remove (r : Re) (t : Text) : Text :=
  r.removeFrom 0 none t

/-- The expressions one after the other. -/
def Re.cat (rs : List Re) : Re :=
  rs.foldr .seq (.lit [])

def Re.opt (r : Re) : Re :=
  .alt r (.lit [])

def Re.word (s : String) : Re :=
  .lit s.toList

def Re.noCase (s : String) : Re :=
  .fold s.toList

end Results

section Members

variable {prev : Option Char} {t : Text} {m : Found}

theorem Re.mem_lit {word : Text} :
    m ∈ (Re.lit word).results prev t ↔ word <+: t ∧ m = (word, []) := by
  unfold Re.results
  split
  · rename_i h
    rw [List.mem_singleton, and_iff_right h]
  · rename_i h
    exact iff_of_false List.not_mem_nil fun hm => h hm.1

theorem Re.mem_fold {word : Text} :
    m ∈ (Re.fold word).results prev t ↔
      m.1 <+: t ∧ m.1.map foldCase = word.map foldCase ∧ m.2 = [] := by
  unfold Re.results
  constructor
  · intro h
    split at h
    · rename_i hfold
      rw [List.mem_singleton] at h
      rw [h]
      exact ⟨List.take_prefix _ _, hfold, rfl⟩
    · cases h
  · rintro ⟨hpre, hfold, hgroups⟩
    have hlength : m.1.length = word.length := by
      have := congrArg List.length hfold
      rwa [List.length_map, List.length_map] at this
    have htake : t.take word.length = m.1 := by
      rw [← hlength]
      exact (List.prefix_iff_eq_take.1 hpre).symm
    rw [htake, if_pos hfold, List.mem_singleton]
    exact Prod.ext rfl hgroups

theorem mem_runLengths {longest least : ℕ} {most : Option ℕ} {lazy : Bool}
    {n : ℕ} :
    n ∈ runLengths longest least most lazy ↔
      n ≤ longest ∧ least ≤ n ∧ ∀ k ∈ most, n ≤ k := by
  have hmem : ∀ lengths : List ℕ,
      n ∈ (if lazy then lengths else lengths.reverse) ↔ n ∈ lengths := by
    intro lengths
    cases lazy <;> simp
  unfold runLengths
  dsimp only
  rw [hmem, List.mem_filter, List.mem_range, decide_eq_true_iff]
  cases most with
  | none => simp
  | some k =>
      simp only [Option.elim_some, Option.mem_some_iff, forall_eq']
      omega

theorem Re.mem_many {p : Char → Bool} {least : ℕ} {most : Option ℕ}
    {lazy : Bool} :
    m ∈ (Re.many p least most lazy).results prev t ↔
      m.1 <+: t ∧ (∀ c ∈ m.1, p c = true) ∧ least ≤ m.1.length ∧
        (∀ k ∈ most, m.1.length ≤ k) ∧ m.2 = [] := by
  unfold Re.results
  rw [List.mem_map]
  constructor
  · rintro ⟨n, hn, rfl⟩
    obtain ⟨hlongest, hleast, hmost⟩ := mem_runLengths.1 hn
    have hlength : (t.take n).length = n := by
      rw [List.length_take]
      exact min_eq_left
        (hlongest.trans (List.takeWhile_prefix p).length_le)
    have htake : t.take n <+: t.takeWhile p :=
      List.prefix_of_prefix_length_le (List.take_prefix _ _)
        (List.takeWhile_prefix p) (by rw [hlength]; exact hlongest)
    refine ⟨List.take_prefix _ _, fun c hc => ?_, by rwa [hlength],
      by rwa [hlength], rfl⟩
    exact List.mem_takeWhile_imp (htake.subset hc)
  · rintro ⟨hpre, hp, hleast, hmost, hgroups⟩
    obtain ⟨after, rfl⟩ := hpre
    refine ⟨m.1.length, mem_runLengths.2 ⟨?_, hleast, hmost⟩, ?_⟩
    · rw [List.takeWhile_append_of_pos hp, List.length_append]
      exact Nat.le_add_right _ _
    · rw [List.take_left]
      exact Prod.ext rfl hgroups.symm

theorem Re.mem_seq {r s : Re} :
    m ∈ (Re.seq r s).results prev t ↔
      ∃ a ∈ r.results prev t,
        ∃ b ∈ s.results (lastChar prev a.1) (t.drop a.1.length),
          a.append b = m := by
  simp only [Re.results, List.mem_flatMap, List.mem_map]

theorem Re.mem_alt {r s : Re} :
    m ∈ (Re.alt r s).results prev t ↔
      m ∈ r.results prev t ∨ m ∈ s.results prev t :=
  List.mem_append

theorem Re.mem_group {n : ℕ} {r : Re} :
    m ∈ (Re.group n r).results prev t ↔
      ∃ a ∈ r.results prev t, (a.1, a.2 ++ [(n, a.1)]) = m :=
  List.mem_map

theorem Re.mem_boundary {isWord : Char → Bool} :
    m ∈ (Re.boundary isWord).results prev t ↔
      prev.any isWord ≠ t.head?.any isWord ∧ m = ([], []) := by
  unfold Re.results
  split
  · rename_i h
    exact iff_of_false List.not_mem_nil fun hm => hm.1 h
  · rename_i h
    rw [List.mem_singleton, and_iff_right h]

/-- A match takes the front of the text. -/
theorem Re.prefix_of_mem {r : Re} (h : m ∈ r.results prev t) : m.1 <+: t := by
  induction r generalizing prev t m with
  | lit word =>
      obtain ⟨hword, rfl⟩ := Re.mem_lit.1 h
      exact hword
  | fold word => exact (Re.mem_fold.1 h).1
  | many p least most lazy => exact (Re.mem_many.1 h).1
  | seq r s ihr ihs =>
      obtain ⟨a, ha, b, hb, rfl⟩ := Re.mem_seq.1 h
      obtain ⟨rest, rfl⟩ := ihr ha
      rw [List.drop_left] at hb
      exact (List.prefix_append_right_inj a.1).2 (ihs hb)
  | alt r s ihr ihs =>
      rcases Re.mem_alt.1 h with h | h
      · exact ihr h
      · exact ihs h
  | group n r ih =>
      obtain ⟨a, ha, rfl⟩ := Re.mem_group.1 h
      exact @ih prev t a ha
  | boundary isWord =>
      rw [(Re.mem_boundary.1 h).2]
      exact List.nil_prefix

end Members

section Needs

variable {prev : Option Char} {t : Text} {m : Found}

/-- The expression can match nothing. -/
def Re.nullable : Re → Bool
  | .lit word => word.isEmpty
  | .fold word => word.isEmpty
  | .many _ least _ _ => least == 0
  | .seq r s => r.nullable && s.nullable
  | .alt r s => r.nullable || s.nullable
  | .group _ r => r.nullable
  | .boundary _ => true

/-- A match can start with the character. -/
def Re.starts (c : Char) : Re → Bool
  | .lit word => word.head?.any fun d => d == c
  | .fold word => word.head?.any fun d => foldCase d == foldCase c
  | .many p _ _ _ => p c
  | .seq r s => r.starts c || r.nullable && s.starts c
  | .alt r s => r.starts c || s.starts c
  | .group _ r => r.starts c
  | .boundary _ => false

/-- No match has the character. -/
def Re.avoids (c : Char) : Re → Bool
  | .lit word => !word.contains c
  | .fold word => !(word.map foldCase).contains (foldCase c)
  | .many p _ _ _ => !p c
  | .seq r s => r.avoids c && s.avoids c
  | .alt r s => r.avoids c && s.avoids c
  | .group _ r => r.avoids c
  | .boundary _ => true

/-- There is no group. -/
def Re.captureless : Re → Bool
  | .lit _ => true
  | .fold _ => true
  | .many _ _ _ _ => true
  | .seq r s => r.captureless && s.captureless
  | .alt r s => r.captureless && s.captureless
  | .group _ _ => false
  | .boundary _ => true

/-- Lists of words; a match has one of the words of each list, but for the case
of the letters. -/
def Re.clauses : Re → List (List Text)
  | .lit word => [[word]]
  | .fold word => [[word]]
  | .many _ _ _ _ => []
  | .seq r s => r.clauses ++ s.clauses
  | .alt r s => r.clauses.flatMap fun a => s.clauses.map fun b => a ++ b
  | .group _ r => r.clauses
  | .boundary _ => []

theorem Re.starts_of_mem {r : Re} (h : m ∈ r.results prev t) :
    (m.1 = [] ∧ r.nullable = true) ∨
      ∃ c rest, m.1 = c :: rest ∧ r.starts c = true := by
  induction r generalizing prev t m with
  | lit word =>
      obtain ⟨-, rfl⟩ := Re.mem_lit.1 h
      cases word with
      | nil => exact .inl ⟨rfl, rfl⟩
      | cons c rest => exact .inr ⟨c, rest, rfl, by simp [Re.starts]⟩
  | fold word =>
      obtain ⟨-, hfold, -⟩ := Re.mem_fold.1 h
      cases word with
      | nil => exact .inl ⟨List.map_eq_nil_iff.1 hfold, rfl⟩
      | cons d rest =>
          rw [List.map_cons, List.map_eq_cons_iff] at hfold
          obtain ⟨c, taken, htaken, hc, -⟩ := hfold
          exact .inr ⟨c, taken, htaken, by simp [Re.starts, hc]⟩
  | many p least most lazy =>
      obtain ⟨-, hp, hleast, -⟩ := Re.mem_many.1 h
      cases htaken : m.1 with
      | nil =>
          rw [htaken, List.length_nil, Nat.le_zero] at hleast
          exact .inl ⟨rfl, by simp [Re.nullable, hleast]⟩
      | cons c rest =>
          exact .inr ⟨c, rest, rfl, hp c (by simp [htaken])⟩
  | seq r s ihr ihs =>
      obtain ⟨a, ha, b, hb, rfl⟩ := Re.mem_seq.1 h
      unfold Found.append
      rcases ihr ha with ⟨hnil, hnull⟩ | ⟨c, rest, hc, hstarts⟩
      · rw [hnil, List.nil_append]
        rcases ihs hb with ⟨hnil', hnull'⟩ | ⟨c, rest, hc, hstarts⟩
        · exact .inl ⟨hnil', by simp [Re.nullable, hnull, hnull']⟩
        · exact .inr ⟨c, rest, hc, by simp [Re.starts, hnull, hstarts]⟩
      · exact .inr ⟨c, rest ++ b.1, by rw [hc, List.cons_append],
          by simp [Re.starts, hstarts]⟩
  | alt r s ihr ihs =>
      rcases Re.mem_alt.1 h with h | h
      · rcases ihr h with ⟨hnil, hnull⟩ | ⟨c, rest, hc, hstarts⟩
        · exact .inl ⟨hnil, by simp [Re.nullable, hnull]⟩
        · exact .inr ⟨c, rest, hc, by simp [Re.starts, hstarts]⟩
      · rcases ihs h with ⟨hnil, hnull⟩ | ⟨c, rest, hc, hstarts⟩
        · exact .inl ⟨hnil, by simp [Re.nullable, hnull]⟩
        · exact .inr ⟨c, rest, hc, by simp [Re.starts, hstarts]⟩
  | group n r ih =>
      obtain ⟨a, ha, rfl⟩ := Re.mem_group.1 h
      exact @ih prev t a ha
  | boundary isWord =>
      rw [(Re.mem_boundary.1 h).2]
      exact .inl ⟨rfl, rfl⟩

theorem Re.notMem_of_avoids {r : Re} {c : Char} (havoids : r.avoids c = true)
    (h : m ∈ r.results prev t) : c ∉ m.1 := by
  induction r generalizing prev t m with
  | lit word =>
      obtain ⟨-, rfl⟩ := Re.mem_lit.1 h
      simpa [Re.avoids] using havoids
  | fold word =>
      obtain ⟨-, hfold, -⟩ := Re.mem_fold.1 h
      unfold Re.avoids at havoids
      rw [← hfold] at havoids
      intro hmem
      have hcase := List.mem_map_of_mem (f := foldCase) hmem
      rw [← List.contains_iff_mem] at hcase
      rw [hcase] at havoids
      cases havoids
  | many p least most lazy =>
      intro hmem
      unfold Re.avoids at havoids
      rw [(Re.mem_many.1 h).2.1 c hmem] at havoids
      cases havoids
  | seq r s ihr ihs =>
      obtain ⟨a, ha, b, hb, rfl⟩ := Re.mem_seq.1 h
      unfold Re.avoids at havoids
      rw [Bool.and_eq_true] at havoids
      intro hmem
      rcases List.mem_append.1 hmem with hmem | hmem
      · exact ihr havoids.1 ha hmem
      · exact ihs havoids.2 hb hmem
  | alt r s ihr ihs =>
      unfold Re.avoids at havoids
      rw [Bool.and_eq_true] at havoids
      rcases Re.mem_alt.1 h with h | h
      · exact ihr havoids.1 h
      · exact ihs havoids.2 h
  | group n r ih =>
      obtain ⟨a, ha, rfl⟩ := Re.mem_group.1 h
      exact @ih prev t a havoids ha
  | boundary isWord =>
      rw [(Re.mem_boundary.1 h).2]
      exact List.not_mem_nil

theorem Re.groups_of_captureless {r : Re} (hless : r.captureless = true)
    (h : m ∈ r.results prev t) : m.2 = [] := by
  induction r generalizing prev t m with
  | lit word => rw [(Re.mem_lit.1 h).2]
  | fold word => exact (Re.mem_fold.1 h).2.2
  | many p least most lazy => exact (Re.mem_many.1 h).2.2.2.2
  | seq r s ihr ihs =>
      obtain ⟨a, ha, b, hb, rfl⟩ := Re.mem_seq.1 h
      unfold Re.captureless at hless
      rw [Bool.and_eq_true] at hless
      unfold Found.append
      rw [ihr hless.1 ha, ihs hless.2 hb]
      rfl
  | alt r s ihr ihs =>
      unfold Re.captureless at hless
      rw [Bool.and_eq_true] at hless
      rcases Re.mem_alt.1 h with h | h
      · exact ihr hless.1 h
      · exact ihs hless.2 h
  | group n r ih => cases hless
  | boundary isWord => rw [(Re.mem_boundary.1 h).2]

theorem Re.exists_word {r : Re} {clause : List Text}
    (hclause : clause ∈ r.clauses) (h : m ∈ r.results prev t) :
    ∃ word ∈ clause, word.map foldCase <:+: m.1.map foldCase := by
  induction r generalizing prev t m clause with
  | lit word =>
      rw [(Re.mem_lit.1 h).2]
      rw [Re.clauses, List.mem_singleton] at hclause
      exact ⟨word, by simp [hclause], List.infix_refl _⟩
  | fold word =>
      rw [(Re.mem_fold.1 h).2.1]
      rw [Re.clauses, List.mem_singleton] at hclause
      exact ⟨word, by simp [hclause], List.infix_refl _⟩
  | many p least most lazy => cases hclause
  | seq r s ihr ihs =>
      obtain ⟨a, ha, b, hb, rfl⟩ := Re.mem_seq.1 h
      unfold Found.append
      rw [List.map_append]
      rcases List.mem_append.1 hclause with hclause | hclause
      · obtain ⟨word, hword, hinf⟩ := ihr hclause ha
        exact ⟨word, hword, hinf.trans (List.infix_append' [] _ _)⟩
      · obtain ⟨word, hword, hinf⟩ := ihs hclause hb
        exact ⟨word, hword, hinf.trans (List.suffix_append _ _).isInfix⟩
  | alt r s ihr ihs =>
      unfold Re.clauses at hclause
      obtain ⟨a, ha, hclause⟩ := List.mem_flatMap.1 hclause
      obtain ⟨b, hb, rfl⟩ := List.mem_map.1 hclause
      rcases Re.mem_alt.1 h with h | h
      · obtain ⟨word, hword, hinf⟩ := ihr ha h
        exact ⟨word, List.mem_append_left _ hword, hinf⟩
      · obtain ⟨word, hword, hinf⟩ := ihs hb h
        exact ⟨word, List.mem_append_right _ hword, hinf⟩
  | group n r ih =>
      obtain ⟨a, ha, rfl⟩ := Re.mem_group.1 h
      exact @ih prev t a clause hclause ha
  | boundary isWord => cases hclause

end Needs

section First

variable {prev : Option Char} {t : Text} {m : Found}

theorem Re.mem_of_first {r : Re} (h : r.first prev t = some m) :
    m ∈ r.results prev t :=
  List.mem_of_head? h

theorem Re.first_lit (word rest : Text) :
    (Re.lit word).first prev (word ++ rest) = some (word, []) := by
  unfold Re.first Re.results
  rw [if_pos (List.prefix_append word rest)]
  rfl

theorem Re.first_alt (r s : Re) :
    (Re.alt r s).first prev t = (r.first prev t).or (s.first prev t) :=
  List.head?_append

theorem Re.first_eq_none_of_starts {r : Re} {c : Char}
    (hnull : r.nullable = false) (hstarts : r.starts c = false) :
    r.first prev (c :: t) = none := by
  cases h : r.first prev (c :: t) with
  | none => rfl
  | some m =>
      have hmem := Re.mem_of_first h
      rcases Re.starts_of_mem hmem with ⟨-, hn⟩ | ⟨d, rest, hd, hs⟩
      · rw [hnull] at hn
        cases hn
      · have hpre := Re.prefix_of_mem hmem
        rw [hd, List.cons_prefix_cons] at hpre
        rw [hpre.1, hstarts] at hs
        cases hs

theorem Re.first_eq_none_of_clause {r : Re} {clause : List Text}
    (hclause : clause ∈ r.clauses)
    (hword : ∀ word ∈ clause, ¬ word.map foldCase <:+: t.map foldCase) :
    r.first prev t = none := by
  cases h : r.first prev t with
  | none => rfl
  | some m =>
      have hmem := Re.mem_of_first h
      obtain ⟨word, hmem', hfold⟩ := Re.exists_word hclause hmem
      have hinf := (Re.prefix_of_mem hmem).isInfix.map foldCase
      exact absurd (hfold.trans hinf) (hword word hmem')

/-- Only one element of a list gives something. -/
theorem head?_flatMap_of_only {α β : Type} {f : α → List β} {xs : List α}
    {a : α} (ha : a ∈ xs) (honly : ∀ b ∈ xs, f b ≠ [] → b = a) :
    (xs.flatMap f).head? = (f a).head? := by
  induction xs with
  | nil => cases ha
  | cons b xs ih =>
      rw [List.flatMap_cons, List.head?_append]
      have hrest : ∀ c ∈ xs, f c ≠ [] → c = a :=
        fun c hc => honly c (List.mem_cons_of_mem b hc)
      by_cases hb : f b = []
      · rw [hb, List.head?_nil, Option.none_or]
        rcases List.mem_cons.1 ha with rfl | ha
        · rw [hb, List.head?_nil, List.head?_eq_none_iff,
            List.flatMap_eq_nil_iff]
          intro c hc
          by_contra hne
          rw [hrest c hc hne] at hne
          exact hne hb
        · exact ih ha hrest
      · have hba := honly b List.mem_cons_self hb
        rw [hba] at hb ⊢
        obtain ⟨m, hm⟩ := Option.ne_none_iff_exists'.1
          (fun hnone => hb (List.head?_eq_none_iff.1 hnone))
        rw [hm, Option.some_or]

/-- One way of the first expression is the only one behind which the second
matches. -/
theorem Re.first_seq {r s : Re} {a : Found} (ha : a ∈ r.results prev t)
    (honly : ∀ b ∈ r.results prev t,
      s.results (lastChar prev b.1) (t.drop b.1.length) ≠ [] → b = a) :
    (Re.seq r s).first prev t =
      (s.first (lastChar prev a.1) (t.drop a.1.length)).map a.append := by
  have hhead := head?_flatMap_of_only (f := fun m : Found =>
      (s.results (lastChar prev m.1) (t.drop m.1.length)).map m.append) ha
    fun b hb hne => honly b hb fun hnil => hne (by rw [hnil, List.map_nil])
  exact hhead.trans List.head?_map

theorem Re.results_seq_alt (r s u : Re) :
    (Re.seq (.alt r s) u).results prev t =
      (Re.alt (.seq r u) (.seq s u)).results prev t :=
  List.flatMap_append

theorem lastChar_append (prev : Option Char) (s t : Text) :
    lastChar prev (s ++ t) = lastChar (lastChar prev s) t := by
  unfold lastChar
  rw [List.getLast?_append, Option.or_assoc]

theorem Re.results_seq_assoc (r s u : Re) :
    (Re.seq (.seq r s) u).results prev t =
      (Re.seq r (.seq s u)).results prev t := by
  simp only [Re.results, List.flatMap_assoc, List.flatMap_map,
    List.map_flatMap, List.map_map]
  refine congrArg (fun f => List.flatMap f _) (funext fun a => ?_)
  refine congrArg (fun f => List.flatMap f _) (funext fun b => ?_)
  have hdrop : t.drop (a.append b).1.length =
      (t.drop a.1.length).drop b.1.length := by
    unfold Found.append
    rw [List.length_append, List.drop_drop]
  have hlast : lastChar prev (a.append b).1 =
      lastChar (lastChar prev a.1) b.1 :=
    lastChar_append prev a.1 b.1
  rw [hdrop, hlast]
  refine congrArg (fun f => List.map f _) (funext fun m => ?_)
  unfold Found.append
  rw [Function.comp_apply, List.append_assoc, List.append_assoc]

/-- The fixed text at the front. -/
theorem Re.first_seq_lit (word rest : Text) (s : Re) :
    (Re.seq (.lit word) s).first prev (word ++ rest) =
      (s.first (lastChar prev word) rest).map
        (Found.append (word, [])) := by
  have hmem : ((word, []) : Found) ∈
      (Re.lit word).results prev (word ++ rest) :=
    Re.mem_lit.2 ⟨List.prefix_append _ _, rfl⟩
  rw [Re.first_seq hmem fun b hb _ => (Re.mem_lit.1 hb).2, List.drop_left]

theorem Re.first_seq_fold {word taken : Text} (rest : Text) (s : Re)
    (h : taken.map foldCase = word.map foldCase) :
    (Re.seq (.fold word) s).first prev (taken ++ rest) =
      (s.first (lastChar prev taken) rest).map
        (Found.append (taken, [])) := by
  have hmem : ((taken, []) : Found) ∈
      (Re.fold word).results prev (taken ++ rest) :=
    Re.mem_fold.2 ⟨List.prefix_append _ _, h, rfl⟩
  rw [Re.first_seq hmem, List.drop_left]
  intro b hb _
  obtain ⟨hpre, hfold, hgroups⟩ := Re.mem_fold.1 hb
  have hlength : b.1.length = taken.length := by
    have := congrArg List.length (hfold.trans h.symm)
    rwa [List.length_map, List.length_map] at this
  have htaken := List.prefix_iff_eq_take.1 hpre
  rw [hlength, List.take_left] at htaken
  exact Prod.ext htaken hgroups

theorem Re.prefix_of_seq_lit {word : Text} {s : Re}
    (h : (Re.seq (.lit word) s).results prev t ≠ []) : word <+: t := by
  obtain ⟨m, hm⟩ := List.exists_mem_of_ne_nil _ h
  obtain ⟨a, ha, -⟩ := Re.mem_seq.1 hm
  exact (Re.mem_lit.1 ha).1

/-- A group that ends at the first of some character. -/
theorem Re.first_field {r s : Re} {n : ℕ} {field : Text} {c : Char}
    (word rest : Text) (hr : (field, []) ∈ r.results prev
      (field ++ (c :: word ++ rest)))
    (havoids : r.avoids c = true) (hless : r.captureless = true) :
    (Re.seq (.group n r) (.seq (.lit (c :: word)) s)).first prev
        (field ++ (c :: word ++ rest)) =
      (s.first (lastChar (lastChar prev field) (c :: word)) rest).map
        (Found.append (field ++ c :: word, [(n, field)])) := by
  have hmem : (field, [(n, field)]) ∈ (Re.group n r).results prev
      (field ++ (c :: word ++ rest)) :=
    Re.mem_group.2 ⟨_, hr, rfl⟩
  rw [Re.first_seq hmem, List.drop_left, Re.first_seq_lit, Option.map_map]
  · refine congrArg (fun f => Option.map f _) (funext fun m => ?_)
    unfold Found.append
    rw [Function.comp_apply, List.nil_append, ← List.append_assoc]
  · intro b hb hne
    obtain ⟨m, hm, rfl⟩ := Re.mem_group.1 hb
    obtain ⟨rest', hrest'⟩ := Re.prefix_of_seq_lit hne
    obtain ⟨tail, htail⟩ := Re.prefix_of_mem hm
    dsimp only at hrest'
    rw [← htail, List.drop_left] at hrest'
    rw [← hrest', List.cons_append, List.cons_append] at htail
    have hfield : m.1 = field := by
      have hbefore := congrArg (before c) htail
      rwa [before_append_cons (Re.notMem_of_avoids havoids hm),
        before_append_cons (Re.notMem_of_avoids havoids hr)] at hbefore
    rw [Re.groups_of_captureless hless hm, hfield]
    rfl

/-- A repetition up to some text, where the text stands only once. -/
theorem Re.first_skip {p : Char → Bool} {lazy : Bool} {skipped word : Text}
    (rest : Text) (s : Re) (hp : ∀ c ∈ skipped, p c = true)
    (honly : ∀ x z, (∀ c ∈ x, p c = true) →
      x ++ (word ++ z) = skipped ++ (word ++ rest) → x = skipped) :
    (Re.seq (.many p 0 none lazy) (.seq (.lit word) s)).first prev
        (skipped ++ (word ++ rest)) =
      (s.first (lastChar (lastChar prev skipped) word) rest).map
        (Found.append (skipped ++ word, [])) := by
  have hmem : ((skipped, []) : Found) ∈ (Re.many p 0 none lazy).results prev
      (skipped ++ (word ++ rest)) :=
    Re.mem_many.2 ⟨List.prefix_append _ _, hp, Nat.zero_le _,
      fun _ h => (Option.not_mem_none _ h).elim, rfl⟩
  rw [Re.first_seq hmem, List.drop_left, Re.first_seq_lit, Option.map_map]
  · refine congrArg (fun f => Option.map f _) (funext fun m => ?_)
    unfold Found.append
    rw [Function.comp_apply, List.nil_append, ← List.append_assoc]
    rfl
  · intro b hb hne
    obtain ⟨z, hz⟩ := Re.prefix_of_seq_lit hne
    obtain ⟨hpre, hb', -, -, hgroups⟩ := Re.mem_many.1 hb
    obtain ⟨tail, htail⟩ := hpre
    rw [← htail, List.drop_left] at hz
    rw [← hz] at htail
    exact Prod.ext (honly _ _ hb' htail) hgroups

/-- A greedy repetition takes all that it can. -/
theorem Re.first_many_greedy {p : Char → Bool} {least : ℕ} {taken : Text}
    (hp : ∀ c ∈ taken, p c = true) (hleast : least ≤ taken.length) :
    (Re.many p least none false).first prev taken = some (taken, []) := by
  have hlengths : (runLengths taken.length least none false).head? =
      some taken.length := by
    unfold runLengths
    dsimp only [Option.elim_none]
    have hlast : [taken.length].filter (fun n => decide (least ≤ n)) =
        [taken.length] := by
      rw [List.filter_singleton, decide_eq_true hleast]
      rfl
    rw [if_neg Bool.false_ne_true, List.range_succ, List.filter_append, hlast,
      List.reverse_append]
    rfl
  unfold Re.first Re.results
  rw [List.takeWhile_eq_self_iff.2 hp, List.head?_map, hlengths,
    Option.map_some, List.take_length]

theorem Re.first_group (n : ℕ) (r : Re) :
    (Re.group n r).first prev t =
      (r.first prev t).map fun m => (m.1, m.2 ++ [(n, m.1)]) :=
  List.head?_map

end First

section Takes

variable {prev : Option Char} {t : Text} {groups : List (ℕ × Text)}

/-- The preferred way gives the groups. -/
def Re.Takes (r : Re) (prev : Option Char) (t : Text)
    (groups : List (ℕ × Text)) : Prop :=
  ∃ taken, r.first prev t = some (taken, groups)

theorem Re.results_seq_nil (r : Re) :
    (Re.seq r (.lit [])).results prev t = r.results prev t := by
  have hone : ∀ m : Found, ((Re.lit []).results (lastChar prev m.1)
      (t.drop m.1.length)).map m.append = [m] := by
    intro m
    unfold Re.results Found.append
    rw [if_pos List.nil_prefix, List.map_singleton, List.append_nil,
      List.append_nil]
  rw [Re.results, funext hone, List.flatMap_singleton']

theorem Re.takes_of_map {r s : Re} {p : Option Char} {rest : Text}
    {taken : Text} {before : List (ℕ × Text)}
    (hfirst : r.first prev t =
      (s.first p rest).map (Found.append (taken, before)))
    (h : s.Takes p rest groups) : r.Takes prev t (before ++ groups) := by
  obtain ⟨taken', htaken'⟩ := h
  rw [htaken'] at hfirst
  exact ⟨taken ++ taken', hfirst⟩

theorem Re.takes_nil : (Re.lit []).Takes prev t [] :=
  ⟨[], Re.first_lit [] t⟩

theorem Re.takes_lit {s : Re} {word rest : Text}
    (h : s.Takes (lastChar prev word) rest groups) :
    (Re.seq (.lit word) s).Takes prev (word ++ rest) groups :=
  Re.takes_of_map (Re.first_seq_lit word rest s) h

theorem Re.takes_fold {s : Re} {word taken rest : Text}
    (hfold : taken.map foldCase = word.map foldCase)
    (h : s.Takes (lastChar prev taken) rest groups) :
    (Re.seq (.fold word) s).Takes prev (taken ++ rest) groups :=
  Re.takes_of_map (Re.first_seq_fold rest s hfold) h

theorem Re.takes_field {r s : Re} {n : ℕ} {field rest : Text} {c : Char}
    (hr : (field, []) ∈ r.results prev (field ++ ([c] ++ rest)))
    (havoids : r.avoids c = true) (hless : r.captureless = true)
    (h : s.Takes (lastChar (lastChar prev field) [c]) rest groups) :
    (Re.seq (.group n r) (.seq (.lit [c]) s)).Takes prev
      (field ++ ([c] ++ rest)) ((n, field) :: groups) :=
  Re.takes_of_map (Re.first_field [] rest hr havoids hless) h

theorem Re.takes_skip {p : Char → Bool} {lazy : Bool}
    {skipped word rest : Text} {s : Re} (hp : ∀ c ∈ skipped, p c = true)
    (honly : ∀ x z, (∀ c ∈ x, p c = true) →
      x ++ (word ++ z) = skipped ++ (word ++ rest) → x = skipped)
    (h : s.Takes (lastChar (lastChar prev skipped) word) rest groups) :
    (Re.seq (.many p 0 none lazy) (.seq (.lit word) s)).Takes prev
      (skipped ++ (word ++ rest)) groups :=
  Re.takes_of_map (Re.first_skip rest s hp honly) h

/-- A greedy group at the end of the text. -/
theorem Re.takes_greedy {p : Char → Bool} {least n : ℕ} {taken : Text}
    (hp : ∀ c ∈ taken, p c = true) (hleast : least ≤ taken.length) :
    (Re.seq (.group n (.many p least none false)) (.lit [])).Takes prev taken
      [(n, taken)] := by
  refine ⟨taken, ?_⟩
  unfold Re.first
  rw [Re.results_seq_nil]
  exact (Re.first_group n _).trans
    (congrArg _ (Re.first_many_greedy hp hleast))

theorem Re.takes_of_captureless {r : Re} (hless : r.captureless = true)
    (h : r.results prev t ≠ []) : r.Takes prev t [] := by
  cases hfirst : r.first prev t with
  | none => exact absurd (List.head?_eq_none_iff.1 hfirst) h
  | some m =>
      have hgroups :=
        Re.groups_of_captureless hless (Re.mem_of_first hfirst)
      exact ⟨m.1, hfirst.trans (congrArg some (Prod.ext rfl hgroups))⟩

theorem Re.takes_alt_left {r s : Re} (h : r.Takes prev t groups) :
    (Re.alt r s).Takes prev t groups := by
  obtain ⟨taken, htaken⟩ := h
  refine ⟨taken, ?_⟩
  rw [Re.first_alt, htaken, Option.some_or]

theorem Re.takes_alt_right {r s : Re} (hr : r.first prev t = none)
    (h : s.Takes prev t groups) : (Re.alt r s).Takes prev t groups := by
  obtain ⟨taken, htaken⟩ := h
  refine ⟨taken, ?_⟩
  rw [Re.first_alt, hr, htaken, Option.none_or]

theorem Re.takes_congr {r s : Re}
    (hresults : r.results prev t = s.results prev t)
    (h : s.Takes prev t groups) : r.Takes prev t groups := by
  unfold Re.Takes Re.first at *
  rwa [hresults]

theorem Re.results_seq_congr {r s u : Re}
    (h : ∀ p t, s.results p t = u.results p t) :
    (Re.seq r s).results prev t = (Re.seq r u).results prev t := by
  simp only [Re.results, h]

theorem Re.mem_many_append {p : Char → Bool} {least : ℕ} {most : Option ℕ}
    {lazy : Bool} {taken : Text} (rest : Text) (hp : ∀ c ∈ taken, p c = true)
    (hleast : least ≤ taken.length)
    (hmost : ∀ k ∈ most, taken.length ≤ k) :
    (taken, []) ∈ (Re.many p least most lazy).results prev (taken ++ rest) :=
  Re.mem_many.2 ⟨List.prefix_append _ _, hp, hleast, hmost, rfl⟩

theorem Re.mem_seq_append {r s : Re} {u v rest : Text}
    (hu : (u, []) ∈ r.results prev (u ++ rest))
    (hv : (v, []) ∈ s.results (lastChar prev u) rest) :
    (u ++ v, []) ∈ (Re.seq r s).results prev (u ++ rest) :=
  Re.mem_seq.2 ⟨_, hu, _, by rw [List.drop_left]; exact hv, rfl⟩

/-- One way of the first expression, behind which the second has a way. -/
theorem Re.results_seq_ne_nil {r s : Re} {u rest : Text}
    (hu : (u, []) ∈ r.results prev (u ++ rest))
    (h : s.results (lastChar prev u) rest ≠ []) :
    (Re.seq r s).results prev (u ++ rest) ≠ [] := by
  obtain ⟨m, hm⟩ := List.exists_mem_of_ne_nil _ h
  refine List.ne_nil_of_mem (Re.mem_seq.2 ⟨_, hu, m, ?_, rfl⟩)
  rw [List.drop_left]
  exact hm

theorem Re.results_nil_ne_nil : (Re.lit []).results prev t ≠ [] :=
  List.ne_nil_of_mem (Re.mem_lit.2 ⟨List.nil_prefix, rfl⟩)

end Takes

section Pairs

variable {α : Type} {a b : α}

/-- What ends in `a` after a `b` does so behind it. -/
theorem exists_concat_of_append (hab : a ≠ b) {x s t : List α}
    (h : x ++ [a] = s ++ b :: t) : ∃ u, t = u ++ [a] := by
  rcases List.eq_nil_or_concat t with rfl | ⟨u, c, rfl⟩
  · have hlast := List.append_inj_right' h rfl
    exact absurd (List.cons_eq_cons.1 hlast).1 hab
  · have hlast : x ++ [a] = (s ++ b :: u) ++ [c] := by
      rw [h, List.concat_eq_append, List.append_assoc, List.cons_append]
    have hca := List.append_inj_right' hlast rfl
    rw [List.concat_eq_append, (List.cons_eq_cons.1 hca).1]
    exact ⟨u, rfl⟩

/-- A pair in a text that is cut at its second element stands before the cut or
behind it. -/
theorem not_pair_append_cons (hab : a ≠ b) {s t : List α} (hs : b ∉ s)
    (hlast : s.getLast? ≠ some a) (ht : ¬ [a, b] <:+: t) :
    ¬ [a, b] <:+: s ++ b :: t := by
  rintro ⟨x, z, h⟩
  have hcut : (x ++ [a]) ++ b :: z = s ++ b :: t := by
    rw [← h, List.append_assoc, List.append_assoc]
    rfl
  have hne : x ++ [a] ≠ s := by
    rintro rfl
    exact hlast List.getLast?_concat
  rcases List.append_eq_append_iff.1 hcut with
    ⟨c, hfull, htail⟩ | ⟨c, hfull, htail⟩
  · cases c with
    | nil =>
        rw [List.append_nil] at hfull
        exact hne hfull.symm
    | cons d c =>
        rw [(List.cons_eq_cons.1 htail).1, hfull] at hs
        exact hs (List.mem_append_right _ List.mem_cons_self)
  · cases c with
    | nil =>
        rw [List.append_nil] at hfull
        exact hne hfull
    | cons d c =>
        obtain ⟨hd, hrest⟩ : b = d ∧ t = c ++ b :: z :=
          List.cons_eq_cons.1 htail
        rw [← hd] at hfull
        obtain ⟨u, rfl⟩ := exists_concat_of_append hab hfull
        refine ht ⟨u, z, ?_⟩
        rw [hrest, List.append_assoc, List.append_assoc]
        rfl

/-- No part of a text that is cut at each `b` ends in `a`. -/
theorem not_pair_cuts (hab : a ≠ b) {cuts : List (List α)} {last : List α}
    (hcuts : ∀ s ∈ cuts, b ∉ s ∧ s.getLast? ≠ some a) (hlast : b ∉ last) :
    ¬ [a, b] <:+: cuts.foldr (fun s t => s ++ b :: t) last := by
  induction cuts with
  | nil => exact fun hinf => hlast (hinf.subset (by simp))
  | cons s cuts ih =>
      obtain ⟨hs, hrest⟩ := List.forall_mem_cons.1 hcuts
      exact not_pair_append_cons hab hs.1 hs.2 (ih hrest)

/-- Behind each `b` there is something else. -/
theorem not_behind_append_cons {w s t : List α} (hs : b ∉ s)
    (hw : ¬ w <+: t) (ht : ¬ b :: w <:+: t) :
    ¬ b :: w <:+: s ++ b :: t := by
  rintro ⟨x, z, h⟩
  rw [List.append_assoc, List.cons_append] at h
  rcases List.append_eq_append_iff.1 h with
    ⟨c, hfull, htail⟩ | ⟨c, hfull, htail⟩
  · cases c with
    | nil => exact hw ⟨z, (List.cons_eq_cons.1 htail).2⟩
    | cons d c =>
        rw [(List.cons_eq_cons.1 htail).1, hfull] at hs
        exact hs (List.mem_append_right _ List.mem_cons_self)
  · cases c with
    | nil => exact hw ⟨z, (List.cons_eq_cons.1 htail).2.symm⟩
    | cons d c =>
        have hrest : t = c ++ b :: (w ++ z) := (List.cons_eq_cons.1 htail).2
        refine ht ⟨c, z, ?_⟩
        rw [hrest, List.append_assoc, List.cons_append]

/-- A word that ends in a pair stands at one place only, if the pair is neither
before that place nor behind it. -/
theorem eq_of_pair_once (hab : a ≠ b) {w x y s t : List α}
    (hfront : ¬ [a, b] <:+: y ++ (w ++ [a])) (ht : ¬ [a, b] <:+: t)
    (h : x ++ (w ++ [a, b] ++ s) = y ++ (w ++ [a, b] ++ t)) : x = y := by
  have hcut : (x ++ (w ++ [a])) ++ b :: s = (y ++ (w ++ [a])) ++ b :: t := by
    simpa using h
  rcases List.append_eq_append_iff.1 hcut with
    ⟨c, hfull, htail⟩ | ⟨c, hfull, htail⟩
  · cases c with
    | nil =>
        rw [List.append_nil] at hfull
        exact (List.append_cancel_right hfull).symm
    | cons d c =>
        obtain ⟨rfl, -⟩ := List.cons_eq_cons.1 htail
        refine (hfront ⟨x ++ w, c, ?_⟩).elim
        rw [hfull]
        simp
  · cases c with
    | nil =>
        rw [List.append_nil] at hfull
        exact List.append_cancel_right hfull
    | cons d c =>
        obtain ⟨hd, hrest⟩ : b = d ∧ t = c ++ b :: s :=
          List.cons_eq_cons.1 htail
        rw [← hd, ← List.append_assoc] at hfull
        obtain ⟨u, rfl⟩ := exists_concat_of_append hab hfull
        refine (ht ⟨u, s, ?_⟩).elim
        rw [hrest, List.append_assoc, List.append_assoc]
        rfl

end Pairs

section Search

variable {r : Re} {t : Text} {groups : List (ℕ × Text)}

/-- The first place at which a match can start. -/
theorem Re.searchFrom_of_first {prev : Option Char} {skipped : Text}
    {m : Found} (hnull : r.nullable = false)
    (hskip : ∀ c ∈ skipped, r.starts c = false)
    (h : r.first (lastChar prev skipped) t = some m) :
    r.searchFrom prev (skipped ++ t) = some m := by
  induction skipped generalizing prev with
  | nil =>
      have hfirst : r.first prev t = some m := h
      cases t with
      | nil => exact hfirst
      | cons c t =>
          rw [List.nil_append, Re.searchFrom, hfirst, Option.some_or]
  | cons c skipped ih =>
      rw [List.cons_append, Re.searchFrom,
        Re.first_eq_none_of_starts hnull (hskip c List.mem_cons_self),
        Option.none_or]
      refine ih (fun d hd => hskip d (List.mem_cons_of_mem c hd)) ?_
      exact (congrArg (fun p => r.first p t)
        (lastChar_append prev [c] skipped)).symm.trans h

theorem Re.search_of_takes {skipped : Text} (hnull : r.nullable = false)
    (hskip : ∀ c ∈ skipped, r.starts c = false)
    (h : r.Takes skipped.getLast? t groups) :
    r.search (skipped ++ t) = some groups := by
  obtain ⟨taken, h⟩ := h
  unfold Re.search
  have hlast : lastChar none skipped = skipped.getLast? := by
    unfold lastChar
    rw [Option.or_none]
  rw [@Re.searchFrom_of_first r t none skipped _ hnull hskip
    (by rw [hlast]; exact h)]
  rfl

/-- A match stands in the text. -/
theorem Re.infix_of_searchFrom {prev : Option Char} {m : Found}
    (h : r.searchFrom prev t = some m) :
    m.1 <:+: t ∧ ∃ p s, m ∈ r.results p s := by
  induction t generalizing prev with
  | nil =>
      have hmem := Re.mem_of_first h
      exact ⟨(Re.prefix_of_mem hmem).isInfix, _, _, hmem⟩
  | cons c t ih =>
      rw [Re.searchFrom, Option.or_eq_some_iff] at h
      rcases h with h | ⟨-, h⟩
      · have hmem := Re.mem_of_first h
        exact ⟨(Re.prefix_of_mem hmem).isInfix, _, _, hmem⟩
      · obtain ⟨hinf, hmem⟩ := ih h
        exact ⟨hinf.trans (List.suffix_cons c t).isInfix, hmem⟩

/-- Without the words of a list that it needs, there is no match. -/
theorem Re.search_eq_none {clause : List Text} (hclause : clause ∈ r.clauses)
    (hword : ∀ word ∈ clause, ¬ word.map foldCase <:+: t.map foldCase) :
    r.search t = none := by
  unfold Re.search
  rw [Option.map_eq_none_iff]
  by_contra hne
  obtain ⟨m, hm⟩ := Option.ne_none_iff_exists'.1 hne
  obtain ⟨hinf, _, _, hmem⟩ := Re.infix_of_searchFrom hm
  obtain ⟨word, hmem', hfold⟩ := Re.exists_word hclause hmem
  exact hword word hmem' (hfold.trans (hinf.map foldCase))

end Search

end Kelt
