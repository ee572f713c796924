import Mathlib.Tactic

/-!
# Codecs that accept one text for each value

A value is checked, written as a tree, and the tree as a text of bounded size. A text is read
back the same way, and taken only if it is the one that its value is written as. The printer
and the parser of trees are parameters.
-/

namespace Elpis.Lib

/-- How one kind of value goes through a tree. -/
structure Codec (ω τ : Type) where
  valid : ω → Bool
  wire : ω → τ
  read : τ → Option ω

namespace Codec

variable {ω τ : Type} (c : Codec ω τ)

/-- The text of a value that passes the check and fits. -/
def serialize (print : τ → String) (fits : String → Bool) (v : ω) : Option String :=
  if c.valid v && fits (print (c.wire v)) then some (print (c.wire v)) else none

/-- The value of a text that is the one written for it. -/
def decode (print : τ → String) (fits : String → Bool) (parse : String → Option τ) (t : String) : Option ω :=
  if fits t then
    match (parse t).bind c.read with
    | none => none
    | some v => if c.serialize print fits v = some t then some v else none
  else none

variable {c} {print : τ → String} {fits : String → Bool} {parse : String → Option τ} {v : ω} {t : String}

theorem serialize_eq_some : c.serialize print fits v = some t ↔
    c.valid v = true ∧ fits (print (c.wire v)) = true ∧ print (c.wire v) = t := by
  unfold serialize
  split
  · rename_i h
    rw [Bool.and_eq_true] at h
    simp [h.1, h.2]
  · rename_i h
    rw [Bool.and_eq_true] at h
    simp only [reduceCtorEq, false_iff]
    exact fun hv => h ⟨hv.1, hv.2.1⟩

/-- What is written is read back, where the parser inverts the printer on the value's tree. -/
theorem decode_serialize (hread : ∀ v, c.valid v = true → c.read (c.wire v) = some v)
    (hparse : parse (print (c.wire v)) = some (c.wire v)) (h : c.serialize print fits v = some t) :
    c.decode print fits parse t = some v := by
  obtain ⟨hvalid, hfits, rfl⟩ := serialize_eq_some.mp h
  unfold decode
  rw [if_pos hfits, hparse, Option.bind_some, hread v hvalid]
  exact if_pos h

/-- A text that is taken is the one its value is written as. -/
theorem serialize_of_decode (h : c.decode print fits parse t = some v) : c.serialize print fits v = some t := by
  unfold decode at h
  split at h
  · split at h
    · cases h
    · split at h
      · rename_i hcanonical
        cases h
        exact hcanonical
      · cases h
  · cases h

end Codec

end Elpis.Lib
