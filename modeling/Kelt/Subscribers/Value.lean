import Kelt.Lib.Dict
import Kelt.Lib.PyText

/-!
# Values of subscriber documents

What a request, the database and the snapshot hold: JSON values, and the values
of the database driver that JSON has no spelling for. A whole floating-point
number knows which integer it equals, so that numbers compare by value. Fields
have distinct names in a document; in a value nested in one, only the first of
a name is ever looked up.
-/

namespace Kelt
namespace Subscribers

section Value

inductive Value where
  | null
  | bool (b : Bool)
  | int (n : Int)
  | float (shown : Text) (whole : Option Int)
  | str (t : Text)
  | list (items : List Value)
  | doc (fields : List (Text × Value))
  | other (shown : Text) (empty : Bool)

/-- Named values. -/
abbrev Fields := List (Text × Value)

/-- A document, and the payload of a request. -/
abbrev Doc := Dict Text Value

/-- What `str` prints of a list or a mapping after the bracket, and of a whole
floating-point number. -/
class Printer where
  shown : Value → Text
  double : Int → Text

/-- A printer to run the definitions with. -/
instance bracketPrinter : Printer where
  shown := fun _ => "…".toList
  double := fun n => (toString n).toList ++ ".0".toList

mutual

/-- A value and all values in it pass a test. -/
def Value.all (p : Value → Bool) : Value → Bool
  | .list items => p (.list items) && Value.allItems p items
  | .doc fields => p (.doc fields) && Value.allFields p fields
  | v => p v

def Value.allItems (p : Value → Bool) : List Value → Bool
  | [] => true
  | v :: rest => Value.all p v && Value.allItems p rest

def Value.allFields (p : Value → Bool) : List (Text × Value) → Bool
  | [] => true
  | (_, v) :: rest => Value.all p v && Value.allFields p rest

end

namespace Value

/-- A value that only the database has. -/
def isOther : Value → Bool
  | other _ _ => true
  | _ => false

/-- A number that `json.dumps` spells in a way that is no JSON. -/
def isNonFinite : Value → Bool
  | float shown _ =>
      shown = "nan".toList ∨ shown = "inf".toList ∨ shown = "-inf".toList
  | _ => false

/-- `json.dumps` takes it. -/
def isPlain (v : Value) : Bool :=
  v.all (fun v => !v.isOther)

/-- `JSON.parse` takes what `json.dumps` has spelt. -/
def isJson (v : Value) : Bool :=
  v.all (fun v => !v.isOther && !v.isNonFinite)

/-- `bool(v)`. -/
def truthy : Value → Bool
  | null => false
  | bool b => b
  | int n => n != 0
  | float _ whole => whole != some 0
  | str t => !t.isEmpty
  | list items => !items.isEmpty
  | doc fields => !fields.isEmpty
  | other _ empty => !empty

/-- `str(v)`. -/
def text [Printer] : Value → Text
  | null => "None".toList
  | bool b => (if b then "True" else "False").toList
  | int n => (toString n).toList
  | float shown _ => shown
  | str t => t
  | list items => '[' :: Printer.shown (list items)
  | doc fields => '\x7b' :: Printer.shown (doc fields)
  | other shown _ => shown

/-- A text, or else nothing. -/
def ofText : Option Text → Value
  | some t => str t
  | none => null

end Value

/-- `fields.get(name)`. -/
def Fields.get (fields : Fields) (name : String) : Option Value :=
  Dict.getItem name.toList fields

/-- `fields[name] = v`. -/
def Fields.set (fields : Fields) (name : String) (v : Value) : Fields :=
  Dict.setItem name.toList v fields

def imsiField : Text :=
  "imsi".toList

def securityField : Text :=
  "security".toList

def idField : Text :=
  "_id".toList

theorem idField_ne_imsiField : idField ≠ imsiField := by
  decide

theorem securityField_ne_idField : securityField ≠ idField := by
  decide

theorem securityField_ne_imsiField : securityField ≠ imsiField := by
  decide

theorem Fields.get_set (fields : Fields) (name name' : String) (v : Value) :
    (fields.set name v).get name' =
      if name = name' then some v else fields.get name' := by
  simp only [Fields.get, Fields.set, Dict.getItem_setItem, String.toList_inj]

@[simp] theorem Fields.get_set_self (fields : Fields) (name : String)
    (v : Value) : (fields.set name v).get name = some v := by
  rw [get_set, if_pos rfl]

theorem Fields.get_set_of_ne (fields : Fields) {name name' : String}
    (v : Value) (hne : name ≠ name') :
    (fields.set name v).get name' = fields.get name' := by
  rw [get_set, if_neg hne]

end Value

end Subscribers
end Kelt
