import Elpis.Js.Value

/-!
# JSON values and their text

The values that the gateway's codecs write, and what `JSON.stringify` makes of them. Objects
keep their keys in order. Numbers are the integers from zero on, the only ones that occur.
-/

namespace Elpis.Js

abbrev Json := JsonOf ℕ

namespace Json

export JsonOf (null bool num str arr obj)

end Json

namespace JsonOf

mutual

/-- `JSON.stringify`. -/
def text : Json → String
  | null => "null"
  | bool value => if value then "true" else "false"
  | num value => toString value
  | str value => stringify value
  | arr members => "[" ++ texts members ++ "]"
  | obj fields => "\x7b" ++ memberTexts fields ++ "\x7d"

def texts : List Json → String
  | [] => ""
  | [x] => text x
  | x :: y :: rest => text x ++ "," ++ texts (y :: rest)

def memberTexts : List (String × Json) → String
  | [] => ""
  | [x] => memberText x
  | x :: y :: rest => memberText x ++ "," ++ memberTexts (y :: rest)

def memberText : String × Json → String
  | (key, value) => stringify key ++ ":" ++ text value

end

example : text (.obj [("a", .arr [.num 12, .null]), ("b", .str "x")]) =
    "\x7b\"a\":[12,null],\"b\":\"x\"\x7d" := by decide

/-! ## Reading -/

/-- The object has these keys and no others. -/
def exact (keys : List String) (j : Json) : Bool :=
  match j with
  | obj fields => decide (fields.length = keys.length) && fields.all (fun f => decide (f.1 ∈ keys))
  | _ => false

/-- A value or `null`. -/
def nullable {α : Type} (read : Json → Option α) (j : Json) : Option (Option α) :=
  match j with
  | null => some none
  | other => (read other).map some

/-- What an optional value is written as. -/
def ofOption {α : Type} (write : α → Json) : Option α → Json
  | none => null
  | some a => write a

theorem nullable_ofOption {α : Type} {read : Json → Option α} {write : α → Json}
    (h : ∀ a, read (write a) = some a) (hnull : ∀ a, write a ≠ null) (x : Option α) :
    nullable read (ofOption write x) = some x := by
  cases x with
  | none => rfl
  | some a =>
      unfold nullable ofOption
      split
      · rename_i heq
        exact absurd heq (hnull a)
      · rw [h a]
        rfl

theorem mapM_read {α : Type} {read : Json → Option α} {write : α → Json} {xs : List α}
    (h : ∀ a ∈ xs, read (write a) = some a) : (xs.map write).mapM read = some xs := by
  induction xs with
  | nil => rfl
  | cons x xs ih =>
      rw [List.map_cons, List.mapM_cons, h x List.mem_cons_self, ih (fun a ha => h a (List.mem_cons_of_mem x ha))]
      rfl

end JsonOf

/-- The member of an enumeration with a name. -/
def byName {α : Type} (all : List α) (name : α → String) (s : String) : Option α :=
  all.find? (fun a => decide (name a = s))

end Elpis.Js
