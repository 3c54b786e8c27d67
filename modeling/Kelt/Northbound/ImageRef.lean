import Kelt.Frontend.SelfUpdate
import Kelt.Northbound.Files

/-!
# The parts of an image reference

Four small parsers take an image reference apart: `_image_basename`,
`_image_tag` and `_repo_path` of `northbound_service.py`, and `_parse_ref` of
`selfupdate_service.py`. Here they are compared with the grammar

`host[:port]/path[:tag][@digest]`

whose parts are fields of `Ref`, so that what each parser ought to give can be
named. The base name is always found. The other three take the last, or the
first, colon for the one before the tag, which a digest and a port have as well:
they agree with the grammar where there is no digest and, for `ghcr.io`, no port
(`split_iff`).
-/

namespace Kelt
namespace Northbound
namespace ImageRef

open Versions
open Frontend.SelfUpdate (parseRef ghcr)

section Grammar

/-- A part that no separator of the grammar occurs in. -/
def Part (t : Text) : Prop :=
  t ≠ [] ∧ '/' ∉ t ∧ ':' ∉ t ∧ '@' ∉ t

instance (t : Text) : Decidable (Part t) :=
  inferInstanceAs (Decidable (_ ∧ _))

/-- A host is a name or, in brackets, an address with colons. -/
def Host (t : Text) : Prop :=
  Part t ∨ (t.head? = some '[' ∧ t.getLast? = some ']' ∧ '/' ∉ t ∧ '@' ∉ t)

instance (t : Text) : Decidable (Host t) :=
  inferInstanceAs (Decidable (_ ∨ _))

/-- A digest: `algorithm:hex`. -/
structure Digest where
  algorithm : Text
  hex : Text
  algorithm_part : Part algorithm
  hex_part : Part hex

/-- An image reference by its parts. The path has the parts of `owner` before
its last one, `name`. -/
structure Ref where
  host : Text
  port : Option Text
  owner : List Text
  name : Text
  tag : Option Text
  digest : Option Digest
  host_ok : Host host
  port_part : ∀ p ∈ port, Part p
  owner_part : ∀ p ∈ owner, Part p
  name_part : Part name
  tag_part : ∀ t ∈ tag, Part t

/-- An optional part with the separator before it. -/
def marked (c : Char) : Option Text → Text
  | none => []
  | some t => c :: t

def Digest.text (d : Digest) : Text :=
  d.algorithm ++ ':' :: d.hex

def Ref.path (r : Ref) : Text :=
  r.owner.flatMap (fun p => p ++ ['/']) ++ r.name

/-- What follows the base name. -/
def Ref.suffix (r : Ref) : Text :=
  marked ':' r.tag ++ marked '@' (r.digest.map Digest.text)

def Ref.text (r : Ref) : Text :=
  r.host ++ marked ':' r.port ++ '/' :: (r.path ++ r.suffix)

/-- The parsers give the parts of the grammar. `untagged` is the tag that the
parsed reference has where none is written. -/
structure Split (untagged : Text) (r : Ref) : Prop where
  basename : imageBasename r.text = r.name
  tag : imageTag r.text = r.tag.getD []
  repo : r.host = "ghcr.io".toList → repoPath r.text = r.path
  ref : r.host = "ghcr.io".toList →
    parseRef r.text = some (r.path, r.tag.getD untagged)

end Grammar

section Separators

theorem baseName_append_cons (s : Text) {t : Text} (h : '/' ∉ t) :
    baseName (s ++ '/' :: t) = t := by
  unfold baseName
  have hall : ∀ c ∈ t.reverse, (c != '/') = true := by
    intro c hc
    have hne : c ≠ '/' := fun hcs => h (hcs ▸ List.mem_reverse.1 hc)
    simpa using hne
  rw [List.rtakeWhile, List.reverse_append, List.reverse_cons,
    List.append_assoc, List.takeWhile_append_of_pos hall]
  simp

theorem afterLast_slash (t : Text) : afterLast '/' t = baseName t := by
  rfl

theorem before_of_notMem {c : Char} {t : Text} (h : c ∉ t) :
    before c t = t := by
  unfold before
  rw [List.takeWhile_eq_self_iff]
  intro x hx
  have hne : x ≠ c := fun hxc => h (hxc ▸ hx)
  simpa using hne

theorem after_of_notMem {c : Char} {t : Text} (h : c ∉ t) :
    after c t = [] := by
  unfold after
  have hdrop : t.dropWhile (fun x => x != c) = [] := by
    rw [List.dropWhile_eq_nil_iff]
    intro x hx
    have hne : x ≠ c := fun hxc => h (hxc ▸ hx)
    simpa using hne
  rw [hdrop]
  rfl

theorem beforeLast_append_cons {c : Char} (s : Text) {t : Text} (h : c ∉ t) :
    beforeLast c (s ++ c :: t) = s := by
  unfold beforeLast
  have hall : ∀ x ∈ t.reverse, (x != c) = true := by
    intro x hx
    have hne : x ≠ c := fun hxc => h (hxc ▸ List.mem_reverse.1 hx)
    simpa using hne
  rw [if_pos (by simp), List.reverse_append, List.reverse_cons,
    List.append_assoc, List.dropWhile_append_of_pos hall]
  simp

theorem beforeLast_of_notMem {c : Char} {t : Text} (h : c ∉ t) :
    beforeLast c t = t := by
  unfold beforeLast
  rw [if_neg h]

theorem afterText_append (s t : Text) : afterText s (s ++ t) = t := by
  unfold afterText
  have hfind : (s ++ t).tails.find? (fun u => s.isPrefixOf u) = some (s ++ t) := by
    cases hst : s ++ t with
    | nil =>
        obtain ⟨rfl, rfl⟩ := List.append_eq_nil_iff.1 hst
        rfl
    | cons x u =>
        have hpre : s.isPrefixOf (x :: u) = true := by
          rw [← hst]
          simp
        rw [List.tails, List.find?_cons_of_pos hpre]
  rw [hfind]
  simp

end Separators

section Parts

variable (r : Ref)

theorem marked_of_notMem {c x : Char} (hcx : c ≠ x) {o : Option Text}
    (h : ∀ t ∈ o, c ∉ t) : c ∉ marked x o := by
  cases o with
  | none => simp [marked]
  | some t => simp [marked, hcx, h t rfl]

theorem Digest.slash_notMem (d : Digest) : '/' ∉ d.text := by
  unfold Digest.text
  simp [d.algorithm_part.2.1, d.hex_part.2.1]

theorem Ref.slash_suffix : '/' ∉ r.suffix := by
  unfold Ref.suffix
  have htag : '/' ∉ marked ':' r.tag :=
    marked_of_notMem (by decide) fun t ht => (r.tag_part t ht).2.1
  have hdigest : '/' ∉ marked '@' (r.digest.map Digest.text) := by
    refine marked_of_notMem (by decide) fun t ht => ?_
    obtain ⟨d, -, rfl⟩ := Option.mem_map.1 ht
    exact d.slash_notMem
  simp [htag, hdigest]

/-- The last slash of the text is the one before the name. -/
theorem Ref.exists_text_eq :
    ∃ s, r.text = s ++ '/' :: (r.name ++ r.suffix) := by
  obtain ⟨s, hs⟩ : ∃ s, '/' :: r.path = s ++ '/' :: r.name := by
    unfold Ref.path
    induction r.owner with
    | nil => exact ⟨[], rfl⟩
    | cons p owner ih =>
        obtain ⟨s, hs⟩ := ih
        refine ⟨'/' :: p ++ s, ?_⟩
        rw [List.append_assoc, ← hs]
        simp
  refine ⟨r.host ++ marked ':' r.port ++ s, ?_⟩
  unfold Ref.text
  rw [List.append_assoc _ s, ← List.cons_append, hs]
  simp

theorem Ref.baseName_text : baseName r.text = r.name ++ r.suffix := by
  obtain ⟨s, hs⟩ := r.exists_text_eq
  have hslash : '/' ∉ r.name ++ r.suffix := by
    simp [r.name_part.2.1, r.slash_suffix]
  rw [hs, baseName_append_cons s hslash]

theorem Ref.notMem_path {c : Char} (hc : c ≠ '/')
    (hpart : ∀ {t}, Part t → c ∉ t) : c ∉ r.path := by
  unfold Ref.path
  intro h
  rcases List.mem_append.1 h with h | h
  · obtain ⟨p, hp, hcp⟩ := List.mem_flatMap.1 h
    rcases List.mem_append.1 hcp with hcp | hcp
    · exact hpart (r.owner_part p hp) hcp
    · exact hc (List.mem_singleton.1 hcp)
  · exact hpart r.name_part h

theorem Ref.colon_path : ':' ∉ r.path :=
  r.notMem_path (by decide) fun h => h.2.2.1

theorem Ref.at_path : '@' ∉ r.path :=
  r.notMem_path (by decide) fun h => h.2.2.2

end Parts

section Parsers

variable {r : Ref}

/-- A name ends at the first colon or at the first `@` of what follows it. -/
theorem imageBasename_text (r : Ref) : imageBasename r.text = r.name := by
  unfold imageBasename
  rw [r.baseName_text, Ref.suffix]
  have hat : '@' ∉ r.name := r.name_part.2.2.2
  have hcolon : ':' ∉ r.name := r.name_part.2.2.1
  cases htag : r.tag with
  | none =>
      cases r.digest with
      | none => simp [marked, before_of_notMem hat, before_of_notMem hcolon]
      | some d =>
          simp [marked, before_append_cons hat, before_of_notMem hcolon]
  | some t =>
      have hat' : '@' ∉ r.name ++ ':' :: t := by
        simp [hat, (r.tag_part t htag).2.2.2]
      cases r.digest with
      | none =>
          simp [marked, before_of_notMem hat', before_append_cons hcolon]
      | some d =>
          have happ : r.name ++ (marked ':' (some t) ++
              marked '@' ((some d).map Digest.text)) =
              (r.name ++ ':' :: t) ++ '@' :: d.text := by
            simp [marked]
          rw [happ, before_append_cons hat', before_append_cons hcolon]

theorem imageTag_text_of_none (h : r.digest = none) :
    imageTag r.text = r.tag.getD [] := by
  unfold imageTag
  rw [afterLast_slash, r.baseName_text, Ref.suffix, h]
  have hcolon : ':' ∉ r.name := r.name_part.2.2.1
  cases r.tag with
  | none => simp [marked, hcolon]
  | some t => simp [marked, after_append_cons hcolon]

/-- Of a digest the tag keeps at least the part after its colon. -/
theorem imageTag_text_of_some {d : Digest} (h : r.digest = some d) :
    imageTag r.text ≠ r.tag.getD [] := by
  unfold imageTag
  rw [afterLast_slash, r.baseName_text, Ref.suffix, h]
  have hcolon : ':' ∉ r.name := r.name_part.2.2.1
  cases r.tag with
  | none =>
      have hat : ':' ∉ r.name ++ '@' :: d.algorithm := by
        simp [hcolon, d.algorithm_part.2.2.1]
      have happ : r.name ++ (marked ':' none ++
          marked '@' ((some d).map Digest.text)) =
          (r.name ++ '@' :: d.algorithm) ++ ':' :: d.hex := by
        simp [marked, Digest.text]
      rw [happ, if_pos (by simp), after_append_cons hat]
      exact d.hex_part.1
  | some t => simp [marked, after_append_cons hcolon]

theorem Ref.text_ghcr (hhost : r.host = "ghcr.io".toList)
    (hport : r.port = none) : r.text = ghcr ++ (r.path ++ r.suffix) := by
  unfold Ref.text ghcr
  rw [hhost, hport]
  simp [marked]

theorem repoPath_text (hhost : r.host = "ghcr.io".toList)
    (hport : r.port = none) (h : r.digest = none) :
    repoPath r.text = r.path := by
  have hrepo : repoPath r.text =
      before '@' (beforeLast ':' (r.path ++ r.suffix)) := by
    rw [r.text_ghcr hhost hport]
    exact congrArg (fun t => before '@' (beforeLast ':' t))
      (afterText_append ghcr _)
  rw [hrepo, Ref.suffix, h]
  cases htag : r.tag with
  | none =>
      have hcolon : ':' ∉ r.path ++ (marked ':' none ++
          marked '@' ((none : Option Digest).map Digest.text)) := by
        simpa [marked] using r.colon_path
      rw [beforeLast_of_notMem hcolon]
      simp [marked, before_of_notMem r.at_path]
  | some t =>
      have happ : r.path ++ (marked ':' (some t) ++
          marked '@' ((none : Option Digest).map Digest.text)) =
          r.path ++ ':' :: t := by
        simp [marked]
      rw [happ, beforeLast_append_cons r.path (r.tag_part t htag).2.2.1,
        before_of_notMem r.at_path]

theorem parseRef_text (hhost : r.host = "ghcr.io".toList)
    (hport : r.port = none) (h : r.digest = none) :
    parseRef r.text = some (r.path, r.tag.getD "latest".toList) := by
  unfold parseRef
  rw [r.text_ghcr hhost hport, if_pos (by simp), Ref.suffix, h]
  cases htag : r.tag with
  | none =>
      simp [marked, before_of_notMem r.colon_path, after_of_notMem r.colon_path]
  | some t =>
      simp [marked, before_append_cons r.colon_path,
        after_append_cons r.colon_path, (r.tag_part t htag).1]

/-- With a port the reference does not start with the host and a slash. -/
theorem parseRef_text_of_port {p : Text} (hhost : r.host = "ghcr.io".toList)
    (hport : r.port = some p) : parseRef r.text = none := by
  have hghcr : ghcr = "ghcr.io".toList ++ ['/'] := rfl
  have hprefix : ¬ ghcr.isPrefixOf r.text = true := by
    unfold Ref.text
    rw [hhost, hport, hghcr, List.isPrefixOf_iff_prefix, List.append_assoc,
      List.prefix_append_right_inj]
    simp [marked]
  unfold parseRef
  rw [if_neg hprefix]

end Parsers

section Agreement

theorem Split.digest_eq_none {untagged : Text} {r : Ref}
    (h : Split untagged r) : r.digest = none := by
  cases hd : r.digest with
  | none => rfl
  | some d => exact absurd h.tag (imageTag_text_of_some hd)

theorem Split.port_eq_none {untagged : Text} {r : Ref}
    (h : Split untagged r) (hhost : r.host = "ghcr.io".toList) :
    r.port = none := by
  cases hp : r.port with
  | none => rfl
  | some p =>
      have hnone := parseRef_text_of_port hhost hp
      rw [h.ref hhost] at hnone
      cases hnone

theorem split_latest {r : Ref} (h : r.digest = none)
    (hport : r.host = "ghcr.io".toList → r.port = none) :
    Split "latest".toList r where
  basename := imageBasename_text r
  tag := imageTag_text_of_none h
  repo hhost := repoPath_text hhost (hport hhost) h
  ref hhost := parseRef_text hhost (hport hhost) h

/-- The parsers give the parts of exactly the references without a digest and,
on `ghcr.io`, without a port. The parsed reference has `latest` for a tag that is
not written; an empty one it has only of references with a tag. -/
theorem split_iff (r : Ref) :
    (Split "latest".toList r ↔
      r.digest = none ∧ (r.host = "ghcr.io".toList → r.port = none)) ∧
    (Split [] r ↔
      r.digest = none ∧
        (r.host = "ghcr.io".toList → r.port = none ∧ r.tag ≠ none)) := by
  refine ⟨⟨fun h => ⟨h.digest_eq_none, h.port_eq_none⟩,
    fun h => split_latest h.1 h.2⟩, ?_⟩
  constructor
  · intro h
    refine ⟨h.digest_eq_none, fun hhost => ⟨h.port_eq_none hhost, ?_⟩⟩
    intro htag
    have hparsed := parseRef_text hhost (h.port_eq_none hhost) h.digest_eq_none
    rw [h.ref hhost, htag] at hparsed
    simp at hparsed
  · rintro ⟨hdigest, hport⟩
    have hlatest := split_latest hdigest fun hhost => (hport hhost).1
    refine ⟨hlatest.basename, hlatest.tag, hlatest.repo, fun hhost => ?_⟩
    rw [hlatest.ref hhost]
    obtain ⟨t, ht⟩ := Option.ne_none_iff_exists'.1 (hport hhost).2
    rw [ht]
    rfl

/-- `ghcr.io/jacobbista/5g-northbound/vendor-adapter@sha256:0…0` -/
def pinned : Ref where
  host := "ghcr.io".toList
  port := none
  owner := ["jacobbista".toList, "5g-northbound".toList]
  name := "vendor-adapter".toList
  tag := none
  digest := some
    { algorithm := "sha256".toList
      hex := List.replicate 64 '0'
      algorithm_part := by decide
      hex_part := by decide }
  host_ok := by decide
  port_part := by simp
  owner_part := by decide
  name_part := by decide
  tag_part := by simp

theorem not_split_pinned : ¬ ∀ r, Split "latest".toList r := by
  intro h
  have hnone : pinned.digest = none := (h pinned).digest_eq_none
  cases hnone

end Agreement

end ImageRef
end Northbound
end Kelt
