import Kelt.Lib.Dict
import Kelt.Lib.PyText

/-!
# JSON values

Values over any type of numbers. Of a name that occurs twice in an object only
the first member is ever looked up; an object that was parsed has no such name.
-/

namespace Kelt

universe u

inductive Json (ν : Type u) where
  | null
  | bool (b : Bool)
  | num (n : ν)
  | str (t : Text)
  | arr (items : List (Json ν))
  | obj (fields : List (Text × Json ν))

namespace Json

section Json

variable {ν : Type u}

/-- The members of an object, in their order. -/
abbrev Members (ν : Type u) := List (Text × Json ν)

/-- The member of an object under a name. -/
def field? (name : Text) : Json ν → Option (Json ν)
  | obj fields => Dict.getItem name fields
  | _ => none

/-- What counts as true in Python once it has been parsed. -/
def pyTrue [Zero ν] [DecidableEq ν] : Json ν → Bool
  | null => false
  | bool b => b
  | num n => decide (n ≠ 0)
  | str t => !t.isEmpty
  | arr items => !items.isEmpty
  | obj fields => !fields.isEmpty

end Json

end Json

end Kelt
