import Elpis.Js.Text

/-!
# Character classes and repetition

What the checks of the gateway's texts need of regular expressions: classes of characters,
and a first character with a run of others behind it.
-/

namespace Elpis.Js

/-- `\p{Cf}`. -/
def formatRanges : List (ℕ × ℕ) :=
  [(0xAD, 0xAD), (0x600, 0x605), (0x61C, 0x61C), (0x6DD, 0x6DD), (0x70F, 0x70F), (0x890, 0x891),
    (0x8E2, 0x8E2), (0x180E, 0x180E), (0x200B, 0x200F), (0x202A, 0x202E), (0x2060, 0x2064),
    (0x2066, 0x206F), (0xFEFF, 0xFEFF), (0xFFF9, 0xFFFB), (0x110BD, 0x110BD), (0x110CD, 0x110CD),
    (0x13430, 0x1343F), (0x1BCA0, 0x1BCA3), (0x1D173, 0x1D17A), (0xE0001, 0xE0001), (0xE0020, 0xE007F)]

def isFormat (c : Char) : Bool :=
  formatRanges.any (fun (first, last) => decide (first ≤ c.toNat) && decide (c.toNat ≤ last))

/-- `[\p{Cc}\p{Cf}]` occurs in the text. -/
def hasControlOrFormat (s : String) : Bool := s.toList.any (fun c => isControl c || isFormat c)

/-- `[a-z0-9]`. -/
def lowerClass (c : Char) : Bool := c.isDigit || (decide ('a' ≤ c) && decide (c ≤ 'z'))

/-- `[a-z0-9._-]`. -/
def slugClass (c : Char) : Bool := lowerClass c || c == '.' || c == '_' || c == '-'

/-- One character of the first class, then any number of the second. -/
def startsAs (first rest : Char → Bool) : List Char → Bool
  | [] => false
  | c :: cs => first c && cs.all rest

/-- The text is base64url without padding of 16 bytes: the last character has four bits of
zeros. -/
def isCanonical16 (s : String) : Bool :=
  fits (List.replicate 21 base64urlClass ++ [fun c => decide (c ∈ ['A', 'Q', 'g', 'w'])]) s

end Elpis.Js
