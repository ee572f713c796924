import Mathlib.Data.Rat.Floor
import Mathlib.Tactic

/-!
# Strings and numbers as the program's language has them

A string is a sequence of Unicode characters here. `length` counts UTF-16
code units, `trim` strips the white space and the line ends the language
strips, and `stringify` is `JSON.stringify` of a string. A number is a finite
rational or one of the values `Number.isFinite` refuses.
-/

namespace Elpis.Js

/-! ## Strings -/

/-- White space and line terminators, the characters `trim` removes. -/
def isSpace (c : Char) : Bool :=
  let n := c.toNat
  (9 ≤ n && n ≤ 13) || n == 32 || n == 0xa0 || n == 0x1680 ||
    (0x2000 ≤ n && n ≤ 0x200a) || n == 0x2028 || n == 0x2029 || n == 0x202f ||
    n == 0x205f || n == 0x3000 || n == 0xfeff

/-- What `.` does not match. -/
def isLineEnd (c : Char) : Bool := c == '\n' || c == '\r' || c == '\u2028' || c == '\u2029'

/-- A literal is searched as the list of its characters. -/
theorem not_mem_literal {c : Char} {l : List Char} (h : c ∉ l) : c ∉ (String.ofList l).toList := by
  rwa [String.toList_ofList]

def trimList (cs : List Char) : List Char :=
  ((cs.dropWhile isSpace).reverse.dropWhile isSpace).reverse

def trim (s : String) : String := String.ofList (trimList s.toList)

/-- `s.length`: a character outside the basic plane counts twice. -/
def length (s : String) : ℕ :=
  (s.toList.map (fun c => if c.toNat < 0x10000 then 1 else 2)).sum

def sliceList : List Char → ℕ → List Char
  | [], _ => []
  | _ :: _, 0 => []
  | c :: cs, max + 1 =>
      if c.toNat < 0x10000 then c :: sliceList cs max
      else if max = 0 then ['\uFFFD'] else c :: sliceList cs (max - 1)

/-- `s.slice(0, max)`. A character whose second half falls behind the cut becomes
the replacement character, which is what is stored of it. -/
def slice (s : String) (max : ℕ) : String := String.ofList (sliceList s.toList max)

/-- Neither end of a list holds a white-space character. -/
def Trimmed (cs : List Char) : Prop :=
  (∀ c ∈ cs.head?, isSpace c = false) ∧ ∀ c ∈ cs.getLast?, isSpace c = false

theorem dropWhile_head {p : Char → Bool} (cs : List Char) :
    ∀ c ∈ (cs.dropWhile p).head?, p c = false := by
  intro c hc
  have h := List.head?_dropWhile_not p cs
  rw [Option.mem_def.mp hc] at h
  exact h

theorem dropWhile_eq_self {p : Char → Bool} {cs : List Char}
    (h : ∀ c ∈ cs.head?, p c = false) : cs.dropWhile p = cs := by
  cases cs with
  | nil => rfl
  | cons x cs =>
      have hx : p x = false := h x (by simp)
      rw [List.dropWhile_cons_of_neg (by simp [hx])]

theorem trimList_trimmed (cs : List Char) : Trimmed (trimList cs) := by
  refine ⟨?_, ?_⟩
  · intro c hc
    -- the second `dropWhile` works on the far end, so the head is the first one's
    have hsuf : (cs.dropWhile isSpace).reverse.dropWhile isSpace <:+
        (cs.dropWhile isSpace).reverse := List.dropWhile_suffix _
    have hpre : trimList cs <+: cs.dropWhile isSpace := by
      have := List.reverse_prefix.mpr hsuf
      rwa [List.reverse_reverse] at this
    obtain ⟨rest, hrest⟩ := hpre
    refine dropWhile_head cs c ?_
    rw [← hrest, List.head?_append]
    rw [Option.mem_def] at hc
    rw [hc]
    rfl
  · intro c hc
    rw [trimList, List.getLast?_reverse] at hc
    exact dropWhile_head _ c hc

theorem trimList_eq_self {cs : List Char} (h : Trimmed cs) : trimList cs = cs := by
  rw [trimList, dropWhile_eq_self h.1, dropWhile_eq_self, List.reverse_reverse]
  intro c hc
  rw [List.head?_reverse] at hc
  exact h.2 c hc

/-- Trimming a trimmed string changes nothing. -/
@[simp] theorem trim_trim (s : String) : trim (trim s) = trim s := by
  simp only [trim, String.toList_ofList]
  rw [trimList_eq_self (trimList_trimmed _)]

/-- The hexadecimal digit of a number below 16. -/
def hexDigit (n : ℕ) : Char := "0123456789abcdef".toList.getD n '0'

/-- One character as `JSON.stringify` writes it inside a string. -/
def escapeChar (c : Char) : List Char :=
  if c = '"' then ['\\', '"']
  else if c = '\\' then ['\\', '\\']
  else if c.toNat = 8 then ['\\', 'b']
  else if c.toNat = 9 then ['\\', 't']
  else if c.toNat = 10 then ['\\', 'n']
  else if c.toNat = 12 then ['\\', 'f']
  else if c.toNat = 13 then ['\\', 'r']
  else if c.toNat < 32 then
    ['\\', 'u', '0', '0', hexDigit (c.toNat / 16), hexDigit (c.toNat % 16)]
  else [c]

/-- `JSON.stringify` of a string. -/
def stringify (s : String) : String :=
  String.ofList (['"'] ++ s.toList.flatMap escapeChar ++ ['"'])

/-- The UTF-16 code units of a string. -/
def codeUnits (s : String) : List ℕ :=
  s.toList.flatMap (fun c =>
    if c.toNat < 0x10000 then [c.toNat]
    else [0xD800 + (c.toNat - 0x10000) / 0x400, 0xDC00 + (c.toNat - 0x10000) % 0x400])

/-- The text of code units; a half of a pair becomes the replacement character. -/
def ofUnits : List ℕ → List Char
  | [] => []
  | [u] => [if 0xD800 ≤ u ∧ u < 0xE000 then '\uFFFD' else Char.ofNat u]
  | u :: v :: rest =>
      if 0xD800 ≤ u ∧ u < 0xDC00 ∧ 0xDC00 ≤ v ∧ v < 0xE000 then
        Char.ofNat (0x10000 + (u - 0xD800) * 0x400 + (v - 0xDC00)) :: ofUnits rest
      else (if 0xD800 ≤ u ∧ u < 0xE000 then '\uFFFD' else Char.ofNat u) :: ofUnits (v :: rest)

/-- `xs.sort()`: by code units. -/
def sort (xs : List String) : List String :=
  xs.mergeSort (fun x y => decide (¬codeUnits y < codeUnits x))

/-- Runs of white space become one dash: `s.replace(/\s+/g, '-')`. -/
def dashRuns : Bool → List Char → List Char
  | _, [] => []
  | inRun, c :: cs =>
      if isSpace c then
        if inRun then dashRuns true cs else '-' :: dashRuns true cs
      else c :: dashRuns false cs

/-- The parts of the Unicode tables the program asks the language for. -/
structure Unicode where
  toLowerCase : String → String
  /-- `\p{L}` -/
  isLetter : Char → Bool
  /-- `\p{N}` -/
  isNumber : Char → Bool

/-- The tables restricted to ASCII. -/
def Unicode.ascii : Unicode where
  toLowerCase s := String.ofList (s.toList.map Char.toLower)
  isLetter c := c.isAlpha
  isNumber c := c.isDigit

/-! ## Patterns -/

/-- The characters of a string, each in its class: a regular expression without
repetition, anchored at both ends. -/
def fits (classes : List (Char → Bool)) (s : String) : Bool :=
  s.toList.length == classes.length && (classes.zip s.toList).all (fun (p, c) => p c)

def literal (s : String) : List (Char → Bool) := s.toList.map (fun c d => decide (d = c))

theorem fits_length {classes : List (Char → Bool)} {s : String} (h : fits classes s = true) :
    s.toList.length = classes.length := by
  simp only [fits, Bool.and_eq_true, beq_iff_eq] at h
  exact h.1

theorem fits_append {p q : List (Char → Bool)} {a b : String} (ha : fits p a = true)
    (hb : fits q b = true) : fits (p ++ q) (a ++ b) = true := by
  have hlen := fits_length ha
  simp only [fits, Bool.and_eq_true, beq_iff_eq] at ha hb ⊢
  rw [String.toList_append, List.length_append, List.length_append, List.zip_append hlen.symm,
    List.all_append, ha.2, hb.2, ha.1, hb.1]
  exact ⟨rfl, rfl⟩

theorem fits_literal (s : String) : fits (literal s) s = true := by
  have hall : ∀ cs : List Char,
      (((cs.map (fun c d => decide (d = c))).zip cs).all (fun (p, c) => p c)) = true := by
    intro cs
    induction cs with
    | nil => rfl
    | cons c cs ih => simpa using ih
  simp [fits, literal, hall]

/-- `[0-9a-f]`. -/
def hexClass (c : Char) : Bool := c.isDigit || (decide ('a' ≤ c) && decide (c ≤ 'f'))

/-- `[A-Za-z0-9_-]`. -/
def base64urlClass (c : Char) : Bool := c.isAlphanum || c == '_' || c == '-'

/-- `\p{Cc}`. -/
def isControl (c : Char) : Bool := decide (c.toNat < 32) || (decide (127 ≤ c.toNat) && decide (c.toNat < 160))

/-! ## Numbers -/

inductive Num where
  | finite (value : ℚ)
  | nonFinite
deriving DecidableEq

/-- `Number.isInteger`, with the integer. -/
def Num.toInt? : Num → Option ℤ
  | .finite q => if q.den = 1 then some q.num else none
  | .nonFinite => none

/-! ## Dates -/

/-- A number written with at least `width` digits. -/
def padded (width n : ℕ) : String :=
  let digits := Nat.toDigits 10 n
  String.ofList (List.replicate (width - digits.length) '0' ++ digits)

/-- Year, month and day of a day counted from 1970-01-01. -/
def civil (days : ℤ) : ℤ × ℤ × ℤ :=
  let z := days + 719468
  let era := z.ediv 146097
  let doe := z - era * 146097
  let yoe := (doe - doe / 1460 + doe / 36524 - doe / 146096) / 365
  let doy := doe - (365 * yoe + yoe / 4 - yoe / 100)
  let mp := (5 * doy + 2) / 153
  let day := doy - (153 * mp + 2) / 5 + 1
  let month := if mp < 10 then mp + 3 else mp - 9
  let year := yoe + era * 400 + (if month ≤ 2 then 1 else 0)
  (year, month, day)

/-- `new Date(ms).toISOString()` for a year of four digits. -/
def isoDate (ms : ℤ) : String :=
  let (year, month, day) := civil (ms.ediv 86400000)
  let rest := (ms.emod 86400000).toNat
  padded 4 year.toNat ++ "-" ++ padded 2 month.toNat ++ "-" ++ padded 2 day.toNat ++
    "T" ++ padded 2 (rest / 3600000) ++ ":" ++ padded 2 (rest / 60000 % 60) ++ ":" ++
    padded 2 (rest / 1000 % 60) ++ "." ++ padded 3 (rest % 1000) ++ "Z"

example : isoDate 1757500245007 = "2025-09-10T10:30:45.007Z" := by decide

end Elpis.Js
