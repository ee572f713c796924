import Elpis.Lib.Double
import Elpis.Lib.JsonPrint

/-!
# The numbers of JSON texts

What a number literal stands for, and how whole numbers are written. A literal is read as the double
next to its exact value, so a whole number that a double holds comes back from its digits.
-/

namespace Elpis.Lib.JsonText

open Elpis.Lib.Double

/-! ## Reading -/

/-- The number with these decimal digits. -/
def ofDigits (ds : Text) : ℕ := ds.foldl (fun n c => 10 * n + (c - '0'.toNat)) 0

def exponentValue (text : Text) : ℤ :=
  match after '-'.toNat text with
  | some behind => -ofDigits behind
  | none => ofDigits (unsigned ['+'.toNat] text)

/-- Digits, a fraction and an exponent. -/
def unsignedValue (text : Text) : ℚ :=
  let behind := text.dropWhile isDigit
  let (decimals, rest) := match after '.'.toNat behind with
    | some fractional => (fractional.takeWhile isDigit, fractional.dropWhile isDigit)
    | none => ([], behind)
  ofDigits (text.takeWhile isDigit ++ decimals) * 10 ^ (exponentValue rest.tail - decimals.length)

/-- The exact value of a number. -/
def literalValue (text : Text) : ℚ :=
  match after '-'.toNat text with
  | some behind => -unsignedValue behind
  | none => unsignedValue text

/-- The double that the literal stands for. -/
def NumberLiteral.value (n : NumberLiteral) : ℚ := double (literalValue n.text)

/-! ## Writing -/

/-- The decimal digits of a number. -/
def decimal (n : ℕ) : Text := (Nat.toDigits 10 n).map Char.toNat

theorem decimal_of_lt {n : ℕ} (h : n < 10) : decimal n = ['0'.toNat + n] := by
  rw [decimal, Nat.toDigits_of_lt_base h, List.map_singleton]
  interval_cases n <;> rfl

theorem decimal_of_le {n : ℕ} (h : 10 ≤ n) : decimal n = decimal (n / 10) ++ ['0'.toNat + n % 10] := by
  rw [decimal, Nat.toDigits_of_base_le (by decide) h, List.map_append, ← decimal,
    ← decimal_of_lt (Nat.mod_lt n (by decide)), decimal, decimal, Nat.toDigits_of_lt_base (Nat.mod_lt n (by decide))]

theorem isDigit_decimal (n : ℕ) : ∀ c ∈ decimal n, isDigit c = true := by
  intro c hc
  obtain ⟨d, hd, rfl⟩ := List.mem_map.mp hc
  have hdigit := Nat.isDigit_of_mem_toDigits (by decide) (by decide) hd
  rw [Char.isDigit_iff_toNat] at hdigit
  rw [isDigit, decide_eq_true_eq]
  simpa using hdigit

theorem ofDigits_decimal (n : ℕ) : ofDigits (decimal n) = n := by
  have h := Nat.ofDigitChars_ten_toDigits (n := n)
  rw [Nat.ofDigitChars_eq_foldl] at h
  rw [ofDigits, decimal, List.foldl_map]
  exact h

theorem decimal_head {n : ℕ} (h : 0 < n) : ∃ c ds, decimal n = c :: ds ∧ isDigit c = true ∧ c ≠ '0'.toNat := by
  induction n using Nat.strongRecOn with
  | ind n ih =>
      rcases lt_or_ge n 10 with hlt | hge
      · refine ⟨_, [], decimal_of_lt hlt, ?_, ?_⟩
        · exact isDigit_decimal n _ (by rw [decimal_of_lt hlt]; exact List.mem_singleton_self _)
        · simp
          omega
      · obtain ⟨c, ds, hds, hc⟩ := ih (n / 10) (by omega) (by omega)
        exact ⟨c, ds ++ ['0'.toNat + n % 10], by rw [decimal_of_le hge, hds, List.cons_append], hc⟩

theorem digit_ne_minus {c : ℕ} (h : isDigit c = true) : c ≠ '-'.toNat := by
  rintro rfl
  cases h

theorem whole_decimal (n : ℕ) : whole (decimal n) = some [] := by
  rcases Nat.eq_zero_or_pos n with rfl | hpos
  · rfl
  · obtain ⟨c, ds, hds, hc, hzero⟩ := decimal_head hpos
    have hrest : ds.dropWhile isDigit = [] := by
      rw [List.dropWhile_eq_nil_iff]
      intro d hd
      exact isDigit_decimal n d (by rw [hds]; exact List.mem_cons_of_mem c hd)
    rw [whole, hds, after, if_neg hzero]
    simp [digits, hc, hrest]

/-- `-` before the digits of a negative number. -/
def wholeText (n : ℤ) : Text := if n < 0 then '-'.toNat :: decimal n.natAbs else decimal n.natAbs

theorem after_minus_decimal (n : ℕ) : after '-'.toNat (decimal n) = none := by
  cases hds : decimal n with
  | nil => rfl
  | cons c ds =>
      rw [after, if_neg]
      exact digit_ne_minus (isDigit_decimal n c (by rw [hds]; exact List.mem_cons_self))

theorem unsigned_decimal (n : ℕ) : unsigned ['-'.toNat] (decimal n) = decimal n := by
  cases hds : decimal n with
  | nil => rfl
  | cons c ds =>
      have hc := digit_ne_minus (isDigit_decimal n c (by rw [hds]; exact List.mem_cons_self))
      rw [unsigned, if_neg]
      simpa using hc

theorem isNumber_wholeText (n : ℤ) : isNumber (wholeText n) = true := by
  have hunsigned : unsigned ['-'.toNat] (wholeText n) = decimal n.natAbs := by
    rw [wholeText]
    split
    · rfl
    · exact unsigned_decimal _
  rw [isNumber, hunsigned, whole_decimal]
  rfl

/-- How a whole number is written. -/
def wholeLiteral (n : ℤ) : NumberLiteral := ⟨wholeText n, isNumber_wholeText n⟩

theorem unsignedValue_decimal (n : ℕ) : unsignedValue (decimal n) = n := by
  have htake : (decimal n).takeWhile isDigit = decimal n := List.takeWhile_eq_self_iff.mpr (isDigit_decimal n)
  have hdrop : (decimal n).dropWhile isDigit = [] := List.dropWhile_eq_nil_iff.mpr (isDigit_decimal n)
  have hnil : ofDigits [] = 0 := rfl
  simp [unsignedValue, htake, hdrop, after, exponentValue, unsigned, ofDigits_decimal, hnil]

theorem literalValue_wholeText (n : ℤ) : literalValue (wholeText n) = n := by
  rw [wholeText]
  split
  · rename_i hneg
    rw [literalValue, after, if_pos rfl]
    simp only [unsignedValue_decimal]
    rw [Nat.cast_natAbs, abs_of_neg hneg]
    simp
  · rename_i hpos
    rw [literalValue, after_minus_decimal]
    simp only [unsignedValue_decimal]
    rw [Nat.cast_natAbs, abs_of_nonneg (not_lt.mp hpos)]

/-- A whole number that a double holds comes back. -/
theorem value_wholeLiteral {n : ℤ} (h : |n| < 2 ^ 53) : (wholeLiteral n).value = n := by
  rw [NumberLiteral.value, wholeLiteral, literalValue_wholeText, double_intCast h]

/-- How `JSON.stringify` writes a number; `other` is how it writes one with a fraction, and one too
large for plain digits. -/
def numeral (other : ℚ → NumberLiteral) (q : ℚ) : NumberLiteral :=
  if q.den = 1 ∧ |q| < 10 ^ 21 then wholeLiteral q.num else other q

theorem value_numeral (other : ℚ → NumberLiteral) {n : ℤ} (h : |n| < 2 ^ 53) : (numeral other n).value = n := by
  have hsmall : |(n : ℚ)| < 10 ^ 21 := by
    have hcast : |(n : ℚ)| < 2 ^ 53 := by exact_mod_cast h
    exact hcast.trans (by norm_num)
  rw [numeral, if_pos ⟨Rat.den_intCast n, hsmall⟩, Rat.num_intCast, value_wholeLiteral h]

/-! ## A tree without literals to rewrite -/

mutual

theorem rounded_some (x : Tree) : rounded some x = x := by
  match x with
  | .null | .bool _ | .num _ | .str _ => rw [rounded]
  | .arr xs => rw [rounded, roundedAll_some xs]
  | .obj ms => rw [rounded, roundedMembers_some ms]
termination_by sizeOf x

theorem roundedAll_some (xs : List Tree) : roundedAll some xs = xs := by
  match xs with
  | [] => rw [roundedAll]
  | x :: xs => rw [roundedAll, rounded_some x, roundedAll_some xs]
termination_by sizeOf xs

theorem roundedMembers_some (ms : List (Text × Tree)) : roundedMembers some ms = ms := by
  match ms with
  | [] => rw [roundedMembers]
  | (k, x) :: ms => rw [roundedMembers, roundedMember, rounded_some x, roundedMembers_some ms]
termination_by sizeOf ms

end

/-- What is written literal by literal reads as it was. -/
theorem parse_print (x : Tree) : parse (print some x) = some x := by
  rw [parse_iff]
  have h := document_print some x
  rwa [rounded_some] at h

end Elpis.Lib.JsonText
