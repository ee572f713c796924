import Elpis.Lib.JsonText

/-!
# Canonical JSON texts

`print` writes a tree without white space and with the fewest escapes; `canonical` is the literal
that the value of a number literal is written as, if it is finite. What is printed reads as the
tree, with its numbers as they are written.
-/

namespace Elpis.Lib.JsonText

/-! ## Strings -/

def hexUnit (n : ℕ) : ℕ := if n < 10 then 48 + n else 87 + n

def unicodeEscape (c : ℕ) : Text :=
  ['\\'.toNat, 'u'.toNat, hexUnit (c / 4096 % 16), hexUnit (c / 256 % 16), hexUnit (c / 16 % 16), hexUnit (c % 16)]

/-- The letter that stands for a unit behind a backslash. -/
def shortEscapes : List (ℕ × ℕ) :=
  [('"'.toNat, '"'.toNat), ('\\'.toNat, '\\'.toNat), (8, 'b'.toNat), (9, 't'.toNat), (10, 'n'.toNat),
    (12, 'f'.toNat), (13, 'r'.toNat)]

/-- Half of a surrogate pair. -/
def isHalf (c : ℕ) : Bool := decide (0xD800 ≤ c ∧ c < 0xE000)

def isPair (c d : ℕ) : Bool := decide (0xD800 ≤ c ∧ c < 0xDC00 ∧ 0xDC00 ≤ d ∧ d < 0xE000)

/-- A unit on its own; a half pair is escaped. -/
def quoteUnit (c : ℕ) : Text :=
  match shortEscapes.lookup c with
  | some e => ['\\'.toNat, e]
  | none => if c < 32 ∨ isHalf c = true then unicodeEscape c else [c]

def quoteUnits : Text → Text
  | [] => []
  | [c] => quoteUnit c
  | c :: d :: s => if isPair c d then c :: d :: quoteUnits s else quoteUnit c ++ quoteUnits (d :: s)

def quote (s : Text) : Text := '"'.toNat :: (quoteUnits s ++ ['"'.toNat])

theorem hexValue_hexUnit {n : ℕ} (h : n < 16) : hexValue (hexUnit n) = some n := by
  have hall : ∀ m < 16, hexValue (hexUnit m) = some m := by decide
  exact hall n h

theorem chars_unicodeEscape {c : ℕ} (hc : c < 0x10000) {text s behind : Text} (h : Chars text s behind) :
    Chars (unicodeEscape c ++ text) (c :: s) behind := by
  refine .unicode ?_ h
  rw [hex4, hexValue_hexUnit (Nat.mod_lt _ (by decide)), hexValue_hexUnit (Nat.mod_lt _ (by decide)),
    hexValue_hexUnit (Nat.mod_lt _ (by decide)), hexValue_hexUnit (Nat.mod_lt _ (by decide))]
  simp only [Option.bind_eq_bind, Option.bind_some, Option.some.injEq]
  omega

/-- A unit is escaped by a letter or by its number, or stands for itself. -/
theorem quoteUnit_cases (c : ℕ) : (∃ p ∈ shortEscapes, p.1 = c ∧ quoteUnit c = ['\\'.toNat, p.2]) ∨
    quoteUnit c = unicodeEscape c ∨ quoteUnit c = [c] ∧ ∀ p ∈ shortEscapes, c ≠ p.1 := by
  rw [quoteUnit]
  split
  · rename_i e he
    obtain ⟨before, behind, heq, -⟩ := List.lookup_eq_some_iff.mp he
    exact Or.inl ⟨(c, e), by rw [heq]; simp, rfl, rfl⟩
  · rename_i hnone
    split
    · exact Or.inr (Or.inl rfl)
    · exact Or.inr (Or.inr ⟨rfl, fun p hp => bne_iff_ne.mp (List.lookup_eq_none_iff.mp hnone p hp)⟩)

theorem isPlain_of {c : ℕ} (h : shortEscapes.lookup c = none) (hc : 32 ≤ c) : isPlain c = true := by
  rw [List.lookup_eq_none_iff] at h
  have hquote := h ('"'.toNat, '"'.toNat) (by decide)
  have hslash := h ('\\'.toNat, '\\'.toNat) (by decide)
  rw [bne_iff_ne] at hquote hslash
  rw [isPlain, decide_eq_true_eq]
  exact ⟨hc, hquote, hslash⟩

theorem chars_quoteUnit (c : ℕ) {text s behind : Text} (h : Chars text s behind) :
    Chars (quoteUnit c ++ text) (c :: s) behind := by
  rw [quoteUnit]
  split
  · rename_i e he
    have hshort : ∀ p ∈ shortEscapes, escapes.lookup p.2 = some p.1 := by decide
    obtain ⟨before, behind', heq, -⟩ := List.lookup_eq_some_iff.mp he
    exact .escape (hshort (c, e) (by rw [heq]; simp)) h
  · rename_i hnone
    split
    · rename_i hescape
      refine chars_unicodeEscape ?_ h
      simp only [isHalf, decide_eq_true_eq] at hescape
      omega
    · rename_i hplain
      rw [not_or] at hplain
      exact .plain (isPlain_of hnone (by omega)) h

theorem isPlain_half {c : ℕ} (h : 0xD800 ≤ c) : isPlain c = true := by
  simp only [isPlain, decide_eq_true_eq, Char.reduceToNat]
  omega

theorem chars_quoteUnits (s behind : Text) : Chars (quoteUnits s ++ '"'.toNat :: behind) s behind := by
  induction s using quoteUnits.induct with
  | case1 => exact .close behind
  | case2 c => exact chars_quoteUnit c (.close behind)
  | case3 c d s hpair ih =>
      rw [quoteUnits, if_pos hpair]
      rw [isPair, decide_eq_true_eq] at hpair
      exact .plain (isPlain_half hpair.1) (.plain (isPlain_half (by omega)) ih)
  | case4 c d s hpair ih =>
      rw [quoteUnits, if_neg hpair, List.append_assoc]
      exact chars_quoteUnit c ih

/-! ## Values -/

section Print
variable (canonical : NumberLiteral → Option NumberLiteral)

mutual

def print : Tree → Text
  | .null => word "null"
  | .bool b => if b then word "true" else word "false"
  | .num n =>
      match canonical n with
      | some m => m.text
      | none => word "null"
  | .str s => quote s
  | .arr xs => '['.toNat :: (List.intercalate [','.toNat] (printAll xs) ++ [']'.toNat])
  | .obj ms => '{'.toNat :: (List.intercalate [','.toNat] (printMembers ms) ++ ['}'.toNat])

def printAll : List Tree → List Text
  | [] => []
  | x :: xs => print x :: printAll xs

def printMembers : List (Text × Tree) → List Text
  | [] => []
  | m :: ms => printMember m :: printMembers ms

def printMember : Text × Tree → Text
  | (k, x) => quote k ++ ':'.toNat :: print x

end

mutual

/-- The tree with its numbers as they are printed. -/
def rounded : Tree → Tree
  | .num n =>
      match canonical n with
      | some m => .num m
      | none => .null
  | .arr xs => .arr (roundedAll xs)
  | .obj ms => .obj (roundedMembers ms)
  | .null => .null
  | .bool b => .bool b
  | .str s => .str s

def roundedAll : List Tree → List Tree
  | [] => []
  | x :: xs => rounded x :: roundedAll xs

def roundedMembers : List (Text × Tree) → List (Text × Tree)
  | [] => []
  | m :: ms => roundedMember m :: roundedMembers ms

def roundedMember : Text × Tree → Text × Tree
  | (k, x) => (k, rounded x)

end

theorem spaced_rfl (text : Text) : Spaced text text := ⟨[], rfl, by simp⟩

theorem reads_quote (s rest : Text) : Reads (.value (.str s)) (quote s ++ rest) rest := by
  rw [quote, List.cons_append, List.append_assoc]
  exact .str (chars_quoteUnits s rest)

mutual

theorem reads_print (x : Tree) (rest : Text) : Reads (.value (rounded canonical x)) (print canonical x ++ rest) rest := by
  match x with
  | .null =>
      rw [print, rounded]
      exact .word (by simp [words])
  | .bool true =>
      rw [print, rounded]
      exact .word (by simp [words])
  | .bool false =>
      rw [print, rounded]
      exact .word (by simp [words])
  | .num n =>
      rw [print, rounded]
      split
      · exact .num
      · exact .word (by simp [words])
  | .str s => exact reads_quote s rest
  | .arr [] => exact .emptyArr (spaced_rfl _)
  | .arr (x :: xs) =>
      rw [print, rounded, List.cons_append, List.append_assoc]
      exact .arr (reads_printAll x xs rest)
  | .obj [] => exact .emptyObj (spaced_rfl _)
  | .obj (m :: ms) =>
      rw [print, rounded, List.cons_append, List.append_assoc]
      exact .obj (reads_printMembers m ms rest)
termination_by sizeOf x

theorem reads_printAll (x : Tree) (xs : List Tree) (rest : Text) :
    Reads (.elements (roundedAll canonical (x :: xs)))
      (List.intercalate [','.toNat] (printAll canonical (x :: xs)) ++ (']'.toNat :: rest)) rest := by
  match xs with
  | [] =>
      rw [printAll, printAll, List.intercalate_singleton, roundedAll, roundedAll]
      exact .lastElement (spaced_rfl _) (reads_print x _) (spaced_rfl _)
  | y :: ys =>
      rw [printAll, printAll, List.intercalate_cons_cons, ← printAll, List.append_assoc, List.append_assoc, roundedAll]
      exact .element (spaced_rfl _) (reads_print x _) (spaced_rfl _) (reads_printAll y ys rest)
termination_by sizeOf x + sizeOf xs

theorem reads_printMembers (m : Text × Tree) (ms : List (Text × Tree)) (rest : Text) :
    Reads (.members (roundedMembers canonical (m :: ms)))
      (List.intercalate [','.toNat] (printMembers canonical (m :: ms)) ++ ('}'.toNat :: rest)) rest := by
  match m, ms with
  | (k, x), [] =>
      rw [printMembers, printMembers, List.intercalate_singleton, printMember, roundedMembers, roundedMembers,
        roundedMember, quote, List.cons_append, List.cons_append, List.append_assoc, List.append_assoc]
      exact .lastMember (spaced_rfl _) (chars_quoteUnits k _) (spaced_rfl _) (spaced_rfl _) (reads_print x _)
        (spaced_rfl _)
  | (k, x), n :: ns =>
      rw [printMembers, printMembers, List.intercalate_cons_cons, ← printMembers, printMember, roundedMembers,
        roundedMember, quote]
      simp only [List.cons_append, List.append_assoc]
      exact .member (spaced_rfl _) (chars_quoteUnits k _) (spaced_rfl _) (spaced_rfl _) (reads_print x _)
        (spaced_rfl _) (reads_printMembers n ns rest)
termination_by sizeOf m + sizeOf ms

end

theorem document_print (x : Tree) : Document (print canonical x) (rounded canonical x) := by
  refine ⟨print canonical x, [], spaced_rfl _, ?_, spaced_rfl _⟩
  simpa using reads_print canonical x []

end Print

end Elpis.Lib.JsonText
