import Elpis.Js.Order
import Elpis.Lib.Substring
import Elpis.Sandbox.Read

/-!
# Replacing in a file

`src/lib/editor.ts`, on the code units of texts. What is replaced has to stand in the text once, or all
of it is to be replaced; whatever is refused is refused before a text is made.
-/

namespace Elpis.Sandbox.Editor

open Elpis.Js (codeUnits)
open Elpis.Lib.Substring

abbrev Text := List ℕ

def newline : ℕ := '\n'.toNat

/-! ## Lines -/

/-- `text.trim()`: all white space is in the basic plane. -/
def trim (text : Text) : Text :=
  let space := fun unit => Js.isSpace (Char.ofNat unit)
  ((text.dropWhile space).reverse.dropWhile space).reverse

def lineNumberAt (source : Text) (offset : ℕ) : ℕ := 1 + (source.take offset).count newline

def startOfLine (source : Text) (offset : ℕ) : ℕ :=
  offset - ((source.take offset).reverse.takeWhile (· ≠ newline)).length

/-- The end of the line that `offset` is in. -/
def endOfLine (source : Text) (offset : ℕ) : ℕ :=
  offset + ((source.drop offset).takeWhile (· ≠ newline)).length

def formatLineList (lines : List ℕ) : String :=
  ", ".intercalate ((lines.take 8).map toString) ++ if 8 < lines.length then ", …" else ""

/-! ## The closest line -/

/-- The cells of a row behind the first: what is left of a cell, and what is above it. -/
def cells (unit : ℕ) : ℕ → List ℕ → Text → List ℕ
  | left, diagonal :: above :: prev, other :: b =>
      let cell := min (min (above + 1) (left + 1)) (diagonal + if unit = other then 0 else 1)
      cell :: cells unit cell (above :: prev) b
  | _, _, _ => []

/-- The rows of a table whose last row is `prev`, until one is above `max` everywhere. -/
def rows (b : Text) (max : Option ℕ) : ℕ → List ℕ → Text → ℕ
  | _, prev, [] => prev.getLastD 0
  | i, prev, unit :: a =>
      let curr := i :: cells unit i prev b
      let rowMin := curr.foldl min i
      if max.any (fun m => decide (m < rowMin)) then rowMin else rows b max (i + 1) curr a

/-- `levenshtein`, where no `max` stands for the infinite one. -/
def levenshtein (a b : Text) (max : Option ℕ) : ℕ :=
  if a = b then 0
  else if a = [] then b.length
  else if b = [] then a.length
  else rows b max 1 (List.range (b.length + 1)) a

/-- The loop over the lines, with the best line and its score so far. -/
def closest (probe : Text) : List (Text × ℕ) → ℕ × Option ℕ → ℕ
  | [], (best, _) => best
  | (line, i) :: lines, (best, bestScore) =>
      let d := levenshtein (trim line) probe bestScore
      if bestScore.all (fun score => decide (d < score)) then closest probe lines (i, some d)
      else closest probe lines (best, bestScore)

def nearMiss (source oldStr : Text) : Text :=
  let lines := source.splitOn newline
  let needleLines := oldStr.splitOn newline
  let probe := trim (needleLines.headD [])
  if probe = [] ∨ lines = [[]] then codeUnits "(no near-miss suggestion — the file is empty)"
  else
    let best := closest probe lines.zipIdx (0, none)
    let span := max 1 needleLines.length
    let first := best - 2
    let last := min (lines.length - 1) (min (best + span - 1 + 2) (first + 11))
    let shown := (List.range' first (last + 1 - first)).map (fun i =>
      codeUnits (Read.padded (i + 1) ++ ": ") ++ lines.getD i [])
    [newline].intercalate (codeUnits ("closest match near line " ++ toString (best + 1) ++ ":") :: shown)

/-! ## Replacing -/

structure EditHunk where
  «from» : ℕ
  removed : List Text
  inserted : List Text
deriving DecidableEq

structure EditResult where
  source : Text
  count : ℕ
  hunks : List EditHunk
deriving DecidableEq

/-- The loop over `source.indexOf(oldStr, i)`; each place is behind the one before. -/
def offsetsOf (source oldStr : Text) : List ℕ := offsetsFrom oldStr source (source.length + 1) 0

def hunkAt (source oldStr newStr : Text) (off : ℕ) : EditHunk :=
  let lineStart := startOfLine source off
  let spanEnd := off + oldStr.length
  let lineEnd := endOfLine source spanEnd
  { «from» := lineNumberAt source lineStart
    removed := ((source.take lineEnd).drop lineStart).splitOn newline
    inserted := ((source.take off).drop lineStart ++ newStr ++ (source.take lineEnd).drop spanEnd).splitOn newline }

/-- `replace`. `none` is an argument that is no text; an error is its message. -/
def replace (source : Text) (oldStr? newStr? : Option Text) (all : Bool) : Except Text EditResult :=
  match oldStr? with
  | none => .error (codeUnits "edit: oldString must be a non-empty string")
  | some oldStr =>
      if oldStr = [] then .error (codeUnits "edit: oldString must be a non-empty string")
      else
        match newStr? with
        | none => .error (codeUnits "edit: newString must be a string")
        | some newStr =>
            if oldStr = newStr then .error (codeUnits "edit: newString must differ from oldString")
            else
              match offsetsOf source oldStr with
              | [] => .error (codeUnits "edit: oldString not found.\n" ++ nearMiss source oldStr)
              | off :: offsets =>
                  if 1 < (off :: offsets).length ∧ all = false then
                    .error (codeUnits ("edit: oldString is not unique — " ++ toString (off :: offsets).length ++
                      " occurrences (lines " ++ formatLineList ((off :: offsets).map (lineNumberAt source)) ++ "). " ++
                      "Include more surrounding text to make it unique, or pass \x7b replaceAll: true \x7d."))
                  else
                    let targets := if all then off :: offsets else [off]
                    .ok
                      { source := (targets.mergeSort (fun a b => decide (b ≤ a))).foldl (splice oldStr.length newStr) source
                        count := targets.length
                        hunks := targets.map (hunkAt source oldStr newStr) }

/-! ## What is replaced -/

section Replace
variable {source oldStr newStr : Text}

theorem scan_offsetsOf (source : Text) (hold : oldStr ≠ []) : Scan oldStr source 0 (offsetsOf source oldStr) :=
  scan_offsetsFrom hold (by omega)

/-- From the back to the front is the found order the other way round. -/
theorem mergeSort_ascending {offs : List ℕ} (h : offs.Pairwise (· < ·)) :
    offs.mergeSort (fun a b => decide (b ≤ a)) = offs.reverse := by
  have hsorted : (offs.mergeSort (fun a b => decide (b ≤ a))).Pairwise (fun a b => decide (b ≤ a) = true) :=
    List.pairwise_mergeSort
      (fun a b c hab hbc => decide_eq_true ((of_decide_eq_true hbc).trans (of_decide_eq_true hab)))
      (fun a b => by
        rw [Bool.or_eq_true, decide_eq_true_eq, decide_eq_true_eq]
        exact le_total b a) offs
  have hreverse : offs.reverse.Pairwise (fun a b => b ≤ a) := List.pairwise_reverse.mpr (h.imp le_of_lt)
  exact List.Perm.eq_of_pairwise (fun a b _ _ hab hba => Nat.le_antisymm hba hab)
    (hsorted.imp of_decide_eq_true) hreverse ((List.mergeSort_perm _ _).trans (List.reverse_perm _).symm)

theorem replace_none (hold : oldStr ≠ []) (hne : oldStr ≠ newStr) (hnone : ∀ i, ¬Occurs oldStr source i) (all : Bool) :
    ∃ e, replace source (some oldStr) (some newStr) all = .error e := by
  have hoffs : offsetsOf source oldStr = [] := (scan_offsetsOf source hold).eq_nil_iff.mpr (fun i _ => hnone i)
  rw [replace]
  dsimp only
  rw [if_neg hold, if_neg hne, hoffs]
  exact ⟨_, rfl⟩

theorem replace_one (hold : oldStr ≠ []) (hne : oldStr ≠ newStr) {i : ℕ} (honly : ∀ j, Occurs oldStr source j ↔ j = i) :
    ∃ r, replace source (some oldStr) (some newStr) false = .ok r ∧ r.count = 1 ∧
      r.source = source.take i ++ newStr ++ source.drop (i + oldStr.length) := by
  have hoffs : offsetsOf source oldStr = [i] := (scan_offsetsOf source hold).eq_singleton hold (Nat.zero_le i) honly
  rw [replace]
  dsimp only
  rw [if_neg hold, if_neg hne, hoffs]
  refine ⟨_, rfl, rfl, ?_⟩
  change ([i].mergeSort _).foldl _ source = _
  rw [List.mergeSort_singleton]
  rfl

theorem replace_two (hold : oldStr ≠ []) (hne : oldStr ≠ newStr) {i j : ℕ} (hi : Occurs oldStr source i)
    (hj : Occurs oldStr source j) (hij : i + oldStr.length ≤ j) :
    ∃ e, replace source (some oldStr) (some newStr) false = .error e := by
  have htwo := (scan_offsetsOf source hold).two_le hi hj (Nat.zero_le i) hij
  rw [replace]
  dsimp only
  rw [if_neg hold, if_neg hne]
  cases hoffs : offsetsOf source oldStr with
  | nil => exact ⟨_, rfl⟩
  | cons off offsets =>
      rw [hoffs] at htwo
      exact ⟨_, if_pos ⟨htwo, rfl⟩⟩

theorem replace_all (hold : oldStr ≠ []) (hne : oldStr ≠ newStr) {i : ℕ} (hi : Occurs oldStr source i) :
    ∃ r, replace source (some oldStr) (some newStr) true = .ok r ∧ r.source = replaceAll oldStr newStr source := by
  have hscan := scan_offsetsOf source hold
  rw [replace]
  dsimp only
  rw [if_neg hold, if_neg hne]
  cases hoffs : offsetsOf source oldStr with
  | nil => exact absurd hi (hscan.eq_nil_iff.mp hoffs i (Nat.zero_le i))
  | cons off offsets =>
      rw [hoffs] at hscan
      refine ⟨_, if_neg (fun h => Bool.false_ne_true h.2.symm), ?_⟩
      change ((off :: offsets).mergeSort _).foldl _ source = _
      rw [mergeSort_ascending (hscan.pairwise hold), hscan.foldl_splice hold]
      rfl

end Replace

/-- Without `all`, a text that stands in one place is replaced there, literally; one that stands in no
place, or in two that do not overlap, is refused. With `all`, each occurrence is replaced from left to
right, unless there is none. What is empty, or would stay the same, is refused. -/
theorem replace_spec (source oldStr newStr : Text) :
    (oldStr = [] ∨ oldStr = newStr → ∀ all, ∃ e, replace source (some oldStr) (some newStr) all = .error e) ∧
    (oldStr ≠ [] → oldStr ≠ newStr →
      (∀ i, (∀ j, Occurs oldStr source j ↔ j = i) →
        ∃ r, replace source (some oldStr) (some newStr) false = .ok r ∧ r.count = 1 ∧
          r.source = source.take i ++ newStr ++ source.drop (i + oldStr.length)) ∧
      (∀ i j, Occurs oldStr source i → Occurs oldStr source j → i + oldStr.length ≤ j →
        ∃ e, replace source (some oldStr) (some newStr) false = .error e) ∧
      (∀ i, Occurs oldStr source i → ∃ r, replace source (some oldStr) (some newStr) true = .ok r ∧
        r.source = replaceAll oldStr newStr source) ∧
      ((∀ i, ¬Occurs oldStr source i) → ∀ all, ∃ e, replace source (some oldStr) (some newStr) all = .error e)) := by
  refine ⟨?_, fun hold hne => ⟨fun i => replace_one hold hne, fun i j => replace_two hold hne,
    fun i => replace_all hold hne, replace_none hold hne⟩⟩
  intro hguard all
  by_cases hempty : oldStr = []
  · exact ⟨_, if_pos hempty⟩
  · have hsame : oldStr = newStr := hguard.resolve_left hempty
    rw [replace]
    dsimp only
    rw [if_neg hempty, if_pos hsame]
    exact ⟨_, rfl⟩

/-- A text that stands in one place is refused if it would stay the same. -/
theorem replace_same : (∀ j, Occurs [0x61] [0x61] j ↔ j = 0) ∧
    replace [0x61] (some [0x61]) (some [0x61]) false =
      .error (codeUnits "edit: newString must differ from oldString") := by
  refine ⟨fun j => ⟨fun h => ?_, ?_⟩, rfl⟩
  · have hlt := occurs_lt (List.cons_ne_nil _ _) h
    exact Nat.lt_one_iff.mp hlt
  · rintro rfl
    exact List.prefix_refl _

end Elpis.Sandbox.Editor
