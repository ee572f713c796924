import Elpis.Js.Text
import Elpis.Lib.Marks
import Elpis.Lib.Substring

/-!
# Searching in a text

Places of a pattern in a text and what the string methods that look for them return, on
lists of characters. Patterns are never empty where they are used.
-/

namespace Elpis.Js

export Lib.Substring (indexOf)

/-- `text.includes(pat)`. -/
def includes (pat cs : List Char) : Bool := (indexOf pat cs).isSome

/-- `text.lastIndexOf(pat)`, `none` where it is not in the text. -/
def lastIndexOf (pat : List Char) : List Char → Option ℕ
  | [] => if pat = [] then some 0 else none
  | c :: cs =>
      match lastIndexOf pat cs with
      | some i => some (i + 1)
      | none => if pat.isPrefixOf (c :: cs) then some 0 else none

open Lib in
/-- A pattern that begins with its only `start` is found behind a text that does not hold it. -/
theorem indexOf_append {start : Char} {rest : List Char} (hrest : start ∉ rest) {a : List Char}
    (ha : occurrences (fun cs => (start :: rest).isPrefixOf cs) a = 0) (b : List Char) :
    indexOf (start :: rest) (a ++ (start :: rest ++ b)) = some a.length := by
  have hmark : IsMark start (fun s => s = start) (fun cs => (start :: rest).isPrefixOf cs) :=
    isMark_isPrefixOf (fun s hs => hs ▸ hrest)
  induction a with
  | nil =>
      have hpre : (start :: rest).isPrefixOf (start :: (rest ++ b)) = true :=
        List.isPrefixOf_iff_prefix.mpr (List.prefix_append (start :: rest) b)
      rw [List.nil_append, List.cons_append, indexOf, if_pos hpre, List.length_nil]
  | cons c cs ih =>
      obtain ⟨hc, hcs⟩ := occurrences_eq_zero_cons.mp ha
      have hnot : (start :: rest).isPrefixOf (c :: cs ++ (start :: rest ++ b)) = false := by
        rw [← hc]
        exact hmark.stops (List.cons_ne_nil c cs) rfl
      rw [List.cons_append] at hnot ⊢
      rw [indexOf, hnot, ih hcs]
      rfl

open Lib in
/-- A text without the pattern has no place for it. -/
theorem indexOf_eq_none {pat : List Char} (hpat : pat ≠ []) {a : List Char}
    (ha : occurrences (fun cs => pat.isPrefixOf cs) a = 0) : indexOf pat a = none := by
  induction a with
  | nil => rw [indexOf, if_neg hpat]
  | cons c cs ih =>
      obtain ⟨hc, hcs⟩ := occurrences_eq_zero_cons.mp ha
      rw [indexOf, hc, ih hcs]
      rfl

open Lib in
theorem occurrences_of_indexOf_eq_none {pat a : List Char} (h : indexOf pat a = none) :
    occurrences (fun cs => pat.isPrefixOf cs) a = 0 := by
  induction a with
  | nil => rfl
  | cons c cs ih =>
      rw [indexOf] at h
      split at h
      · cases h
      · rename_i hnot
        rw [occurrences_eq_zero_cons]
        exact ⟨Bool.eq_false_iff.mpr hnot, ih (Option.map_eq_none_iff.mp h)⟩

open Lib in
theorem lastIndexOf_eq_none {pat : List Char} (hpat : pat ≠ []) {a : List Char}
    (ha : occurrences (fun cs => pat.isPrefixOf cs) a = 0) : lastIndexOf pat a = none := by
  induction a with
  | nil => rw [lastIndexOf, if_neg hpat]
  | cons c cs ih =>
      obtain ⟨hc, hcs⟩ := occurrences_eq_zero_cons.mp ha
      rw [lastIndexOf, ih hcs]
      simp [hc]

open Lib in
/-- The last place of a pattern is the one that nothing behind it repeats. -/
theorem lastIndexOf_append {start : Char} {rest : List Char} {b : List Char}
    (hb : occurrences (fun cs => (start :: rest).isPrefixOf cs) (rest ++ b) = 0) (a : List Char) :
    lastIndexOf (start :: rest) (a ++ (start :: rest ++ b)) = some a.length := by
  induction a with
  | nil =>
      have hpre : (start :: rest).isPrefixOf (start :: (rest ++ b)) = true :=
        List.isPrefixOf_iff_prefix.mpr (List.prefix_append (start :: rest) b)
      rw [List.nil_append, List.cons_append, lastIndexOf,
        lastIndexOf_eq_none (List.cons_ne_nil _ _) hb]
      exact if_pos hpre
  | cons c cs ih =>
      rw [List.cons_append, lastIndexOf, ih]
      rfl

end Elpis.Js
