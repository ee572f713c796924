import Elpis.Js.Pattern

/-!
# Texts as bytes

UTF-8, and base64url without padding by way of the six-bit groups of the bytes.
-/

namespace Elpis.Js

/-- `new TextEncoder().encode`. -/
def encodeUtf8 (s : String) : List UInt8 := s.toUTF8.data.toList

/-- `new TextDecoder('utf-8', { fatal: true }).decode`. -/
def decodeUtf8 (bytes : List UInt8) : Option String := String.fromUTF8? ⟨bytes.toArray⟩

theorem decodeUtf8_encodeUtf8 (s : String) : decodeUtf8 (encodeUtf8 s) = some s := by
  have hbytes : (⟨(encodeUtf8 s).toArray⟩ : ByteArray) = s.toByteArray := rfl
  unfold decodeUtf8 String.fromUTF8?
  rw [hbytes, dif_pos s.isValidUTF8]
  rfl

/-! ## Groups of six bits -/

def sextets : List UInt8 → List ℕ
  | [] => []
  | [a] => [a.toNat / 4, 16 * (a.toNat % 4)]
  | [a, b] => [a.toNat / 4, 16 * (a.toNat % 4) + b.toNat / 16, 4 * (b.toNat % 16)]
  | a :: b :: c :: rest => (a.toNat / 4) :: (16 * (a.toNat % 4) + b.toNat / 16) ::
      (4 * (b.toNat % 16) + c.toNat / 64) :: (c.toNat % 64) :: sextets rest

/-- The bits that the last group leaves over are dropped. -/
def ofSextets : List ℕ → Option (List UInt8)
  | [] => some []
  | [_] => none
  | [x, y] => some [UInt8.ofNat (4 * x + y / 16)]
  | [x, y, z] => some [UInt8.ofNat (4 * x + y / 16), UInt8.ofNat (16 * (y % 16) + z / 4)]
  | x :: y :: z :: w :: rest => do
      let tail ← ofSextets rest
      pure (UInt8.ofNat (4 * x + y / 16) :: UInt8.ofNat (16 * (y % 16) + z / 4) ::
        UInt8.ofNat (64 * (z % 4) + w) :: tail)

theorem ofNat_eq_of_toNat {n : ℕ} {a : UInt8} (h : n = a.toNat) : UInt8.ofNat n = a := by
  rw [h, UInt8.ofNat_toNat]

theorem sextets_lt (bytes : List UInt8) : ∀ n ∈ sextets bytes, n < 64 := by
  induction bytes using sextets.induct with
  | case1 => simp [sextets]
  | case2 a =>
      have := a.toNat_lt
      simp [sextets]
      omega
  | case3 a b =>
      have := a.toNat_lt
      have := b.toNat_lt
      simp [sextets]
      omega
  | case4 a b c rest ih =>
      have := a.toNat_lt
      have := b.toNat_lt
      have := c.toNat_lt
      simp only [sextets, List.mem_cons]
      rintro n (rfl | rfl | rfl | rfl | hn)
      · omega
      · omega
      · omega
      · omega
      · exact ih n hn

section Groups
variable (a b c : UInt8)

theorem only_byte : UInt8.ofNat (4 * (a.toNat / 4) + 16 * (a.toNat % 4) / 16) = a := ofNat_eq_of_toNat (by omega)

theorem first_byte : UInt8.ofNat (4 * (a.toNat / 4) + (16 * (a.toNat % 4) + b.toNat / 16) / 16) = a := by
  have hb := b.toNat_lt
  exact ofNat_eq_of_toNat (by omega)

theorem last_byte : UInt8.ofNat (16 * ((16 * (a.toNat % 4) + b.toNat / 16) % 16) + 4 * (b.toNat % 16) / 4) = b := by
  have hb := b.toNat_lt
  exact ofNat_eq_of_toNat (by omega)

theorem second_byte : UInt8.ofNat (16 * ((16 * (a.toNat % 4) + b.toNat / 16) % 16) +
    (4 * (b.toNat % 16) + c.toNat / 64) / 4) = b := by
  have hb := b.toNat_lt
  have hc := c.toNat_lt
  exact ofNat_eq_of_toNat (by omega)

theorem third_byte : UInt8.ofNat (64 * ((4 * (b.toNat % 16) + c.toNat / 64) % 4) + c.toNat % 64) = c := by
  have hc := c.toNat_lt
  exact ofNat_eq_of_toNat (by omega)

end Groups

theorem ofSextets_sextets (bytes : List UInt8) : ofSextets (sextets bytes) = some bytes := by
  induction bytes using sextets.induct with
  | case1 => rfl
  | case2 a => simp only [sextets, ofSextets, only_byte]
  | case3 a b => simp only [sextets, ofSextets, first_byte, last_byte]
  | case4 a b c rest ih =>
      simp only [sextets, ofSextets, ih, first_byte, second_byte, third_byte]
      rfl

/-! ## base64url -/

def base64urlAlphabet : List Char :=
  "ABCDEFGHIJKLMNOPQRSTUVWXYZabcdefghijklmnopqrstuvwxyz0123456789-_".toList

def base64urlChar (n : ℕ) : Char := base64urlAlphabet.getD n 'A'

def base64urlValue (c : Char) : Option ℕ := base64urlAlphabet.idxOf? c

theorem base64urlValue_char {n : ℕ} (h : n < 64) : base64urlValue (base64urlChar n) = some n := by
  have hall : ∀ m : Fin 64, base64urlValue (base64urlChar m) = some m.val := by decide +kernel
  exact hall ⟨n, h⟩

theorem base64urlClass_char {n : ℕ} (h : n < 64) : base64urlClass (base64urlChar n) = true := by
  have hall : ∀ m : Fin 64, base64urlClass (base64urlChar m) = true := by decide +kernel
  exact hall ⟨n, h⟩

/-- `buffer.toString('base64url')`. -/
def base64url (bytes : List UInt8) : String := String.ofList ((sextets bytes).map base64urlChar)

/-- `Buffer.from(text, 'base64url')`, of a text of the alphabet. -/
def ofBase64url (s : String) : Option (List UInt8) := do
  let values ← s.toList.mapM base64urlValue
  ofSextets values

theorem mapM_base64urlValue {values : List ℕ} (h : ∀ n ∈ values, n < 64) :
    (values.map base64urlChar).mapM base64urlValue = some values := by
  induction values with
  | nil => rfl
  | cons n rest ih =>
      rw [List.map_cons, List.mapM_cons, base64urlValue_char (h n List.mem_cons_self),
        ih (fun m hm => h m (List.mem_cons_of_mem n hm))]
      rfl

theorem ofBase64url_base64url (bytes : List UInt8) : ofBase64url (base64url bytes) = some bytes := by
  unfold ofBase64url base64url
  rw [String.toList_ofList, mapM_base64urlValue (sextets_lt bytes)]
  exact ofSextets_sextets bytes

theorem base64url_class (bytes : List UInt8) : (base64url bytes).toList.all base64urlClass = true := by
  unfold base64url
  rw [String.toList_ofList, List.all_map, List.all_eq_true]
  exact fun n hn => base64urlClass_char (sextets_lt bytes n hn)

end Elpis.Js
