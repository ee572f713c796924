import Mathlib.Data.Rat.Defs
import Elpis.Js.Text

/-!
# JSON values

The values of JSON, with numbers in `ν`. An object keeps its members in order, and a member of a
missing name reads as nothing. In what `JSON.parse` returns numbers are only compared and carried
along, so any rational will do.
-/

namespace Elpis.Js

inductive JsonOf (ν : Type) where
  | null
  | bool (value : Bool)
  | num (value : ν)
  | str (value : String)
  | arr (members : List (JsonOf ν))
  | obj (fields : List (String × JsonOf ν))

namespace JsonOf

variable {ν : Type}

/-- `value[key]` of an object, with the last of several of one name. -/
def field? (v : JsonOf ν) (key : String) : Option (JsonOf ν) :=
  match v with
  | obj fields => (fields.reverse.find? (fun f => decide (f.1 = key))).map Prod.snd
  | _ => none

/-- `typeof value === 'string'`. -/
def str? : JsonOf ν → Option String
  | str value => some value
  | _ => none

/-- `typeof value === 'number'`. -/
def num? : JsonOf ν → Option ν
  | num value => some value
  | _ => none

/-- `typeof value === 'boolean'`. -/
def bool? : JsonOf ν → Option Bool
  | bool value => some value
  | _ => none

/-- `Array.isArray(value)`. -/
def arr? : JsonOf ν → Option (List (JsonOf ν))
  | arr members => some members
  | _ => none

@[simp] theorem str?_str (s : String) : (str s : JsonOf ν).str? = some s := rfl
@[simp] theorem num?_num (n : ν) : (num n).num? = some n := rfl
@[simp] theorem bool?_bool (b : Bool) : (bool b : JsonOf ν).bool? = some b := rfl
@[simp] theorem arr?_arr (xs : List (JsonOf ν)) : (arr xs).arr? = some xs := rfl

@[simp] theorem bool?_eq_some {v : JsonOf ν} {b : Bool} : v.bool? = some b ↔ v = .bool b := by
  cases v <;> simp [bool?]

/-- The members that are present, in order: a member that is `undefined` is not written. -/
def object (members : List (String × Option (JsonOf ν))) : JsonOf ν :=
  .obj (members.filterMap (fun (key, value) => value.map (fun v => (key, v))))

end JsonOf

/-- What `JSON.parse` returns. -/
abbrev Value := JsonOf ℚ

namespace Value

export JsonOf (null bool num str arr obj)

end Value

end Elpis.Js
