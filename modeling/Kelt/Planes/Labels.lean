import Kelt.Lib.PyInt
import Kelt.Planes.Filter

/-!
# Labels of the plane filter, read back

The dashboard knows the filter by the texts it leaves: `parse_rule` takes a
label apart, `samples` finds the label of a rule in a line of the kernel log.
The patterns of both programs are greedy runs of characters between fixed
texts, in which a shorter run is never followed by what the pattern asks next;
`run` and `expect` follow them from left to right.

What counts as a letter or digit beyond ASCII is the parameter `alnum`.
-/

namespace Kelt
namespace Planes

section Labels

/-- One or more characters of a kind, as many as there are. -/
def run (p : Char → Bool) (t : Text) : Option (Text × Text) :=
  if t.takeWhile p = [] then none
  else some (t.takeWhile p, t.dropWhile p)

/-- A fixed text. -/
def expect (lit t : Text) : Option Text :=
  if lit.isPrefixOf t then some (t.drop lit.length) else none

def kernelMark : Text := " kernel: KELT-PLANES ".toList

/-- `$` -/
def atEnd (t : Text) : Bool :=
  t == [] || t == ['\n']

/-- `\S` -/
def nonBlank (c : Char) : Bool :=
  !isBlank c

/-- `^(\S+) -> (\S+)( replies)?$` -/
def arrowMatch (rule : Text) : Option (Text × Text × Bool) := do
  let (a, t) ← run nonBlank rule
  let t ← expect arrow t
  let (b, t) ← run nonBlank t
  if atEnd t then
    some (a, b, false)
  else do
    let t ← expect repliesMark t
    if atEnd t then some (a, b, true) else none

inductive Kind where
  | outside
  | replies
  | pair
  | egress
deriving DecidableEq

/-- What `parse_rule` returns. -/
structure Parsed where
  kind : Kind
  source : Option Text
  target : Option Text
deriving DecidableEq

def parseRule (rule : Text) : Parsed :=
  match arrowMatch rule with
  | none =>
      { kind := .outside
        source :=
          if "from br-".toList.isPrefixOf rule then
            some (rule.drop "from ".toList.length)
          else
            none
        target := none }
  | some (a, b, true) => ⟨.replies, some a, some b⟩
  | some (a, b, false) =>
      if "br-".toList.isPrefixOf a && "br-".toList.isPrefixOf b then
        ⟨.pair, some a, some b⟩
      else
        ⟨.egress, some a, some b⟩

/-- A line of the kernel log, as `samples` returns it. -/
structure Sample where
  time : Text
  mode : Text
  rule : Option Text
  inIf : Option Text
  outIf : Option Text
  src : Option Text
  dst : Option Text
  proto : Option Text
  sport : Option Nat
  dport : Option Nat
deriving DecidableEq

section Scan

variable (alnum : Char → Bool)

/-- `\w` -/
def isWord (c : Char) : Bool :=
  c.isAlphanum || c == '_' || (decide (128 ≤ c.toNat) && alnum c)

/-- The keys of `_FIELD`. -/
def fieldKeys : List Text :=
  ["IN".toList, "OUT".toList, "SRC".toList, "DST".toList, "PROTO".toList,
    "SPT".toList, "DPT".toList]

/-- A field that begins here. -/
def fieldAt (t : Text) : Option (Text × Text) :=
  fieldKeys.findSome? fun key =>
    (expect (key ++ "=".toList) t).map fun v => (key, v.takeWhile nonBlank)

/-- `_FIELD.findall`: `skip` characters belong to the field before, `inWord` is
whether the character before is of a word. -/
def findFields : Nat → Bool → Text → List (Text × Text)
  | _, _, [] => []
  | skip + 1, _, c :: t => findFields skip (isWord alnum c) t
  | 0, inWord, c :: t =>
      match (if inWord then none else fieldAt (c :: t)) with
      | some (k, v) =>
          (k, v) :: findFields (k.length + v.length) (isWord alnum c) t
      | none => findFields 0 (isWord alnum c) t

/-- The value of a field: the first one counts. -/
def field (fields : List (Text × Text)) (key : String) : Option Text :=
  (fields.find? (fun f => f.1 == key.toList)).map Prod.snd

/-- A port, when the field is a number. -/
def portField (fields : List (Text × Text)) (key : String) : Option Nat :=
  match field fields key with
  | none => none
  | some t =>
      if t = [] then none
      else (t.mapM decimalValue?).map (Nat.ofDigits 10 ·.reverse)

/-- `rest.split(" [", 1)[0]`: the outer packet only. -/
def outerPacket : Text → Text
  | [] => []
  | c :: t =>
      if c = ' ' ∧ t.head? = some '[' then [] else c :: outerPacket t

/-- The rule id, when the log prefix has one. -/
def idMatch (t : Text) : Option (Option Text × Text) :=
  match (expect space t).bind
      (run (fun c => nonBlank c && c != ':')) with
  | some (rule, t) => (expect colon t).map (fun t => (some rule, t))
  | none => (expect colon t).map (fun t => (none, t))

/-- The groups of `_SAMPLE`: time, mode, rule id and the rest. -/
def sampleMatch (line : Text) : Option (Text × Text × Option Text × Text) := do
  let (time, t) ← run nonBlank line
  let t ← expect space t
  let (_, t) ← run nonBlank t
  let t ← expect kernelMark t
  let (mode, t) ← run (isWord alnum) t
  let (rule, rest) ← idMatch t
  if '\n' ∈ rest then none else some (time, mode, rule, rest)

/-- `rule_id.replace("_", " ")` -/
def ruleOfId (id : Text) : Text :=
  id.map (fun c => if c = '_' then ' ' else c)

/-- The sample of one line. -/
def parseSample (line : Text) : Option Sample :=
  match sampleMatch alnum (strip line) with
  | none => none
  | some (time, mode, id, rest) =>
      let fields := findFields alnum 0 false (outerPacket rest)
      some
        { time := time
          mode := mode
          rule := id.map ruleOfId
          inIf := field fields "IN"
          outIf := field fields "OUT"
          src := field fields "SRC"
          dst := field fields "DST"
          proto := field fields "PROTO"
          sport := portField fields "SPT"
          dport := portField fields "DPT" }

/-- The lines newest first, with at most `limit` samples of a rule. -/
def takeSamples (limit : Int) : List (Option Text) → List Text → List Sample
  | _, [] => []
  | taken, line :: lines =>
      match parseSample alnum line with
      | none => takeSamples limit taken lines
      | some s =>
          if (taken.count s.rule : Int) ≥ limit then
            takeSamples limit taken lines
          else
            s :: takeSamples limit (s.rule :: taken) lines

/-- What `samples` returns. -/
structure Samples where
  available : Bool
  reason : Option Text
  samples : List Sample

/-- How reading the journal over ssh ends. -/
inductive Journal where
  | raised (exc : Text)
  | exited (rc : Int) (stdout stderr : Text)

def unavailable (why : Text) : Samples :=
  ⟨false, some ("Cannot read the worker kernel log: ".toList ++ why), []⟩

def samples (limit : Int) : Journal → Samples
  | .raised exc => unavailable exc
  | .exited rc stdout stderr =>
      if (rc ≠ 0 ∧ rc ≠ 1) ∨
          (rc = 1 ∧ strip stderr ≠ [] ∧
            ¬ "No entries".toList <:+: stderr) then
        unavailable
          (if strip stderr = [] then "exit ".toList ++ (toString rc).toList
          else strip stderr)
      else
        ⟨true, none, takeSamples alnum limit [] (splitlines stdout).reverse⟩

end Scan

end Labels

end Planes
end Kelt
