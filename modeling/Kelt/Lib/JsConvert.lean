import Kelt.Lib.JsonSame
import Kelt.Lib.JsValue

/-!
# Conversions of JavaScript

`String` of a value and `Number` of a text, the entries of a value, and names
that every object inherits. Numbers are those of a document: finite, with one
zero. How one is written and read is a parameter (`Numerals`), with the two
laws that are documented of it: what was written reads back, and it is not
blank.
-/

namespace Kelt
namespace Json

universe u

section Truth

variable {ν : Type u} [Zero ν] [DecidableEq ν]

theorem isTruthy_of_same {v w : Json ν} (h : Same v w) :
    v.isTruthy = w.isTruthy := by
  cases h with
  | _ => rfl

end Truth

section Trim

/-- What `trim` removes: white space and line terminators. -/
def isJsSpace (c : Char) : Bool :=
  (9 ≤ c.toNat && c.toNat ≤ 13) || c.toNat == 32 || c.toNat == 0xa0 ||
    c.toNat == 0x1680 || (0x2000 ≤ c.toNat && c.toNat ≤ 0x200a) ||
    c.toNat == 0x2028 || c.toNat == 0x2029 || c.toNat == 0x202f ||
    c.toNat == 0x205f || c.toNat == 0x3000 || c.toNat == 0xfeff

def trim (t : Text) : Text :=
  stripBy isJsSpace t

theorem trim_trim (t : Text) : trim (trim t) = trim t :=
  stripBy_stripBy isJsSpace t

end Trim

section Inherited

/-- The member that is no data: assigning it sets the prototype. -/
def protoName : Text := "__proto__".toList

/-- The members that every object inherits. -/
def inheritedNames : List Text :=
  ["constructor".toList, "__defineGetter__".toList, "__defineSetter__".toList,
    "hasOwnProperty".toList, "__lookupGetter__".toList,
    "__lookupSetter__".toList, "isPrototypeOf".toList,
    "propertyIsEnumerable".toList, "toString".toList, "valueOf".toList,
    protoName, "toLocaleString".toList]

theorem protoName_mem : protoName ∈ inheritedNames := by
  simp [inheritedNames]

end Inherited

section Conversions

variable {ν : Type u}

/-- `Number(text)` -/
inductive Numeric (ν : Type u) where
  | nan
  | infinite
  | finite (n : ν)

/-- How numbers are written and read. -/
structure Numerals (ν : Type u) where
  toText : ν → Text
  number : Text → Numeric ν
  number_toText : ∀ n, number (toText n) = .finite n
  trim_toText : ∀ n, trim (toText n) ≠ []

def isNull : Json ν → Bool
  | .null => true
  | _ => false

mutual

/-- `String(v)`. An object with a member `toString` of its own, which is no
function, cannot be converted. -/
def textOf (N : Numerals ν) : Json ν → Except JsError Text
  | .null => .ok "null".toList
  | .bool b => .ok (if b then "true".toList else "false".toList)
  | .num n => .ok (N.toText n)
  | .str t => .ok t
  | .arr items => joinTexts N items
  | .obj fields =>
      if (Dict.getItem "toString".toList fields).isSome then
        .error .typeError
      else .ok "[object Object]".toList

/-- `items.join(",")`, where null is the empty text. -/
def joinTexts (N : Numerals ν) : List (Json ν) → Except JsError Text
  | [] => .ok []
  | v :: rest =>
      (if v.isNull then .ok [] else textOf N v) >>= fun t =>
        if rest.isEmpty then .ok t
        else (joinTexts N rest).map fun ts => t ++ ',' :: ts

end

/-- `Object.entries(v)`. In a text every unit is an entry. -/
def entries : Json ν → Members ν
  | obj fields => distinct fields
  | arr items =>
      items.zipIdx.map fun (x, i) => ((toString i).toList, x)
  | str t => t.zipIdx.map fun (c, i) => ((toString i).toList, str [c])
  | _ => []

/-- `v?.[name]` of what is data. -/
def index (v : Option (Json ν)) (name : Text) : Option (Json ν) :=
  v.bind fun v => Dict.getItem name (entries v)

/-- `o[name] = x` -/
def assign (name : Text) (x : Json ν) (o : Members ν) : Members ν :=
  if name = protoName then o else Dict.setItem name x o

@[simp] theorem index_none (name : Text) :
    index (none : Option (Json ν)) name = none :=
  rfl

@[simp] theorem index_obj (fields : Members ν) (name : Text) :
    index (some (obj fields)) name = Dict.getItem name fields :=
  getItem_distinct name fields

theorem index_zero_arr (x : Json ν) (xs : List (Json ν)) :
    index (some (arr (x :: xs))) ['0'] = some x :=
  rfl

theorem getItem_assign (name other : Text) (x : Json ν) (o : Members ν) :
    Dict.getItem other (assign name x o) =
      if name = other ∧ other ≠ protoName then some x
      else Dict.getItem other o := by
  unfold assign
  by_cases hproto : name = protoName
  · rw [if_pos hproto, if_neg (fun h => h.2 (h.1 ▸ hproto))]
  · rw [if_neg hproto, Dict.getItem_setItem]
    by_cases hname : name = other
    · subst hname
      rw [if_pos rfl, if_pos ⟨rfl, hproto⟩]
    · rw [if_neg hname, if_neg (fun h => hname h.1)]

end Conversions

end Json
end Kelt
