import Elpis.Lib.Stride
import Mathlib.Data.Int.Bitwise
import Mathlib.Data.Nat.Bitwise
import Mathlib.Data.Nat.Digits.Lemmas

/-!
# XXH64

`src/llm/oauth/xxhash.ts` computes XXH64 with integers of any size and masks the results. The
algorithm is defined on words of 64 bits, whose sum, product and rotation wrap around. Both are
here, and `xxh64_eq` says that they are one function: each step of the program on the values of
words has the value of the step on the words.
-/

namespace Elpis.Xxhash

open Elpis.Lib

/-! ## The algorithm on words -/

namespace Spec

abbrev Word := BitVec 64

def prime1 : Word := 0x9E3779B185EBCA87#64
def prime2 : Word := 0xC2B2AE3D27D4EB4F#64
def prime3 : Word := 0x165667B19E3779F9#64
def prime4 : Word := 0x85EBCA77C2B2AE63#64
def prime5 : Word := 0x27D4EB2F165667C5#64

/-- The word whose least significant byte is the first. -/
def littleEndian (bytes : List UInt8) : Word := BitVec.ofNat 64 (Nat.ofDigits 256 (bytes.map UInt8.toNat))

structure Accumulators where
  acc1 : Word
  acc2 : Word
  acc3 : Word
  acc4 : Word

def init (seed : Word) : Accumulators := ⟨seed + prime1 + prime2, seed + prime2, seed, seed - prime1⟩

def round (acc lane : Word) : Word := (acc + lane * prime2).rotateLeft 31 * prime1

/-- One stripe: four lanes of eight bytes. -/
def stripe (accs : Accumulators) (bytes : List UInt8) : Accumulators where
  acc1 := round accs.acc1 (littleEndian (bytes.take 8))
  acc2 := round accs.acc2 (littleEndian ((bytes.drop 8).take 8))
  acc3 := round accs.acc3 (littleEndian ((bytes.drop 16).take 8))
  acc4 := round accs.acc4 (littleEndian ((bytes.drop 24).take 8))

def mergeAccumulator (acc accN : Word) : Word := (acc ^^^ round 0 accN) * prime1 + prime4

def converge (accs : Accumulators) : Word :=
  let acc := accs.acc1.rotateLeft 1 + accs.acc2.rotateLeft 7 + accs.acc3.rotateLeft 12 + accs.acc4.rotateLeft 18
  let acc := mergeAccumulator acc accs.acc1
  let acc := mergeAccumulator acc accs.acc2
  let acc := mergeAccumulator acc accs.acc3
  mergeAccumulator acc accs.acc4

/-- The remaining input, eight bytes at a time. -/
def consume8 (acc : Word) (bytes : List UInt8) : Word :=
  (acc ^^^ round 0 (littleEndian bytes)).rotateLeft 27 * prime1 + prime4

/-- Four bytes, once at most. -/
def consume4 (acc : Word) (bytes : List UInt8) : Word :=
  (acc ^^^ littleEndian bytes * prime1).rotateLeft 23 * prime2 + prime3

def consume1 (acc : Word) (bytes : List UInt8) : Word :=
  (acc ^^^ littleEndian bytes * prime5).rotateLeft 11 * prime1

def avalanche (acc : Word) : Word :=
  let acc := (acc ^^^ acc >>> 33) * prime2
  let acc := (acc ^^^ acc >>> 29) * prime3
  acc ^^^ acc >>> 32

/-- The accumulator behind the stripes, and the bytes that no stripe has taken. -/
def stripes (input : List UInt8) (seed : Word) : Word × List UInt8 :=
  let accs := consume 32 stripe (init seed) input
  (if 32 ≤ input.length then converge accs.1 else seed + prime5, accs.2)

/-- **XXH64.** -/
def xxh64 (input : List UInt8) (seed : Word) : Word :=
  let acc := stripes input seed
  let acc := (acc.1 + BitVec.ofNat 64 input.length, acc.2)
  let acc := consume 8 consume8 acc.1 acc.2
  let acc := consume 4 consume4 acc.1 acc.2
  let acc := consume 1 consume1 acc.1 acc.2
  avalanche acc.1

end Spec

/-! ## The program -/

def mask : ℤ := 0xffffffffffffffff
def prime1 : ℤ := 0x9e3779b185ebca87
def prime2 : ℤ := 0xc2b2ae3d27d4eb4f
def prime3 : ℤ := 0x165667b19e3779f9
def prime4 : ℤ := 0x85ebca77c2b2ae63
def prime5 : ℤ := 0x27d4eb2f165667c5

def mul (a b : ℤ) : ℤ := Int.land (a * b) mask
def add (a b : ℤ) : ℤ := Int.land (a + b) mask

def rotl (x r : ℤ) : ℤ := Int.land (Int.lor (x <<< r) (x >>> (64 - r))) mask

def round (acc input : ℤ) : ℤ :=
  let acc := add acc (mul input prime2)
  let acc := rotl acc 31
  mul acc prime1

def mergeRound (acc val : ℤ) : ℤ :=
  let val := round 0 val
  let acc := Int.xor acc val
  add (mul acc prime1) prime4

/-- `buf[i]`. -/
def byteAt (buf : List UInt8) (i : ℕ) : ℤ := (buf.getD i 0).toNat

/-- `for (let b = n - 1; b >= 0; b--) v = (v << 8n) | BigInt(buf[i + b])`. -/
def readBytes (buf : List UInt8) (i : ℕ) : ℕ → ℤ → ℤ
  | 0, v => v
  | b + 1, v => readBytes buf i b (Int.lor (v <<< (8 : ℤ)) (byteAt buf (i + b)))

def read64 (buf : List UInt8) (i : ℕ) : ℤ := readBytes buf i 8 0

def read32 (buf : List UInt8) (i : ℕ) : ℤ := readBytes buf i 4 0

structure Lanes where
  v1 : ℤ
  v2 : ℤ
  v3 : ℤ
  v4 : ℤ

def initLanes (seed : ℤ) : Lanes where
  v1 := add (add seed prime1) prime2
  v2 := add seed prime2
  v3 := Int.land seed mask
  v4 := Int.land (seed - prime1) mask

def stripeAt (buf : List UInt8) (p : ℕ) (v : Lanes) : Lanes where
  v1 := round v.v1 (read64 buf p)
  v2 := round v.v2 (read64 buf (p + 8))
  v3 := round v.v3 (read64 buf (p + 16))
  v4 := round v.v4 (read64 buf (p + 24))

def convergeLanes (v : Lanes) : ℤ :=
  let h64 := add (add (rotl v.v1 1) (rotl v.v2 7)) (add (rotl v.v3 12) (rotl v.v4 18))
  let h64 := mergeRound h64 v.v1
  let h64 := mergeRound h64 v.v2
  let h64 := mergeRound h64 v.v3
  mergeRound h64 v.v4

def tail8 (buf : List UInt8) (p : ℕ) (h64 : ℤ) : ℤ :=
  let h64 := Int.xor h64 (round 0 (read64 buf p))
  add (mul (rotl h64 27) prime1) prime4

def tail4 (buf : List UInt8) (p : ℕ) (h64 : ℤ) : ℤ :=
  let h64 := Int.xor h64 (mul (read32 buf p) prime1)
  add (mul (rotl h64 23) prime2) prime3

def tail1 (buf : List UInt8) (p : ℕ) (h64 : ℤ) : ℤ :=
  let h64 := Int.xor h64 (mul (byteAt buf p) prime5)
  mul (rotl h64 11) prime1

def finish (h64 : ℤ) : ℤ :=
  let h64 := Int.xor h64 (h64 >>> (33 : ℤ))
  let h64 := mul h64 prime2
  let h64 := Int.xor h64 (h64 >>> (29 : ℤ))
  let h64 := mul h64 prime3
  let h64 := Int.xor h64 (h64 >>> (32 : ℤ))
  Int.land h64 mask

/-- The part up to the addition of the length: `p` and `h64`. -/
def stripes (buf : List UInt8) (seed : ℤ) : ℕ × ℤ :=
  let len := buf.length
  if 32 ≤ len then
    -- the loop runs while `p <= limit`, with `limit = len - 32`
    let v := strideLoop 32 len (stripeAt buf) len 0 (initLanes seed)
    (v.1, convergeLanes v.2)
  else (0, add seed prime5)

/-- `xxh64`, with `p` and `h64` as a pair. A loop takes at most one round for each byte, which is
its fuel. -/
def xxh64 (buf : List UInt8) (seed : ℤ) : ℤ :=
  let len := buf.length
  let s := stripes buf seed
  let s := (s.1, add s.2 len)
  let s := strideLoop 8 len (tail8 buf) len s.1 s.2
  let s := if s.1 + 4 ≤ len then (s.1 + 4, tail4 buf s.1 s.2) else s
  let s := strideLoop 1 len (tail1 buf) len s.1 s.2
  finish s.2

/-! ## Words as integers -/

/-- The integer that the program has for a word. -/
def value (w : Spec.Word) : ℤ := w.toNat

theorem xor_value (a b : Spec.Word) : Int.xor (value a) (value b) = value (a ^^^ b) := by
  show ((a.toNat ^^^ b.toNat : ℕ) : ℤ) = _
  rw [value, BitVec.toNat_xor]

theorem shiftRight_value (a : Spec.Word) (n : ℕ) : value a >>> (n : ℤ) = value (a >>> n) := by
  rw [value, Int.shiftRight_natCast, value, BitVec.toNat_ushiftRight]

/-- The bits above a mask are gone, of a negative number too. -/
theorem land_mask (x : ℤ) : Int.land x mask = x % 2 ^ 64 := by
  cases x with
  | ofNat n =>
      show ((n &&& (2 ^ 64 - 1) : ℕ) : ℤ) = _
      rw [Nat.and_two_pow_sub_one_eq_mod]
      rfl
  | negSucc n =>
      have hbits : Nat.ldiff (2 ^ 64 - 1) n = 2 ^ 64 - (n % 2 ^ 64 + 1) := by
        apply Nat.eq_of_testBit_eq
        intro i
        rw [Nat.testBit_ldiff, Nat.testBit_two_pow_sub_one,
          Nat.testBit_two_pow_sub_succ (Nat.mod_lt _ (by decide)), Nat.testBit_mod_two_pow]
        cases decide (i < 64) <;> simp
      show ((Nat.ldiff (2 ^ 64 - 1) n : ℕ) : ℤ) = _
      rw [hbits]
      omega

theorem land_value (w : Spec.Word) : Int.land (value w) mask = value w := by
  rw [land_mask, value]
  have := w.isLt
  omega

theorem mul_value (a b : Spec.Word) : mul (value a) (value b) = value (a * b) := by
  rw [mul, land_mask, value, value, value, BitVec.toNat_mul]
  push_cast
  rfl

theorem add_value (a b : Spec.Word) : add (value a) (value b) = value (a + b) := by
  rw [add, land_mask, value, value, value, BitVec.toNat_add]
  push_cast
  rfl

theorem rotl_value (a : Spec.Word) {r : ℕ} (hr : r < 64) : rotl (value a) r = value (a.rotateLeft r) := by
  have hback : (64 : ℤ) - r = ((64 - r : ℕ) : ℤ) := by omega
  have hlow : a.toNat >>> (64 - r) < 2 ^ 64 := by
    rw [Nat.shiftRight_eq_div_pow]
    exact lt_of_le_of_lt (Nat.div_le_self _ _) a.isLt
  rw [rotl, hback, value, Int.shiftLeft_natCast, Int.shiftRight_natCast]
  show Int.land ((a.toNat <<< r ||| a.toNat >>> (64 - r) : ℕ) : ℤ) mask = _
  rw [land_mask, value, BitVec.toNat_rotateLeft, Nat.mod_eq_of_lt hr, ← Nat.mod_eq_of_lt hlow,
    ← Nat.or_mod_two_pow, Nat.mod_eq_of_lt hlow]
  push_cast
  rfl

theorem value_prime1 : prime1 = value Spec.prime1 := rfl
theorem value_prime2 : prime2 = value Spec.prime2 := rfl
theorem value_prime3 : prime3 = value Spec.prime3 := rfl
theorem value_prime4 : prime4 = value Spec.prime4 := rfl
theorem value_prime5 : prime5 = value Spec.prime5 := rfl

theorem round_value (acc lane : Spec.Word) : round (value acc) (value lane) = value (Spec.round acc lane) := by
  rw [round, value_prime1, value_prime2, mul_value, add_value]
  exact (congrArg (mul · _) (rotl_value _ (r := 31) (by decide))).trans (mul_value _ _)

theorem mergeRound_value (acc accN : Spec.Word) :
    mergeRound (value acc) (value accN) = value (Spec.mergeAccumulator acc accN) := by
  have hround : round 0 (value accN) = value (Spec.round 0 accN) := round_value 0 accN
  rw [mergeRound, hround, xor_value, value_prime1, value_prime4, mul_value, add_value]
  rfl

/-! ## Reading words -/

/-- One more byte of a number, the most significant one. -/
theorem ofDigits_take_succ (bytes : List UInt8) (n : ℕ) :
    Nat.ofDigits 256 ((bytes.take (n + 1)).map UInt8.toNat) =
      Nat.ofDigits 256 ((bytes.take n).map UInt8.toNat) + 256 ^ n * (bytes.getD n 0).toNat := by
  by_cases hn : n < bytes.length
  · rw [List.take_add_one, List.getElem?_eq_getElem hn, List.map_append, Nat.ofDigits_append, List.length_map,
      List.length_take_of_le hn.le, List.getD_eq_getElem _ _ hn]
    simp
  · rw [List.take_of_length_le (by omega), List.take_of_length_le (by omega), List.getD_eq_default _ _ (by omega)]
    simp

theorem readBytes_eq (buf : List UInt8) (i n v : ℕ) :
    readBytes buf i n v = (Nat.ofDigits 256 (((buf.drop i).take n).map UInt8.toNat) + 256 ^ n * v : ℕ) := by
  induction n generalizing v with
  | zero => simp [readBytes]
  | succ n ih =>
      have hbyte : (buf.getD (i + n) 0).toNat < 2 ^ 8 := (buf.getD (i + n) 0).toNat_lt
      have hor : Int.lor ((v : ℤ) <<< (8 : ℤ)) (byteAt buf (i + n)) = (256 * v + (buf.getD (i + n) 0).toNat : ℕ) := by
        show Int.lor ((v : ℤ) <<< ((8 : ℕ) : ℤ)) _ = _
        rw [Int.shiftLeft_natCast]
        show ((v <<< 8 ||| (buf.getD (i + n) 0).toNat : ℕ) : ℤ) = _
        rw [Nat.shiftLeft_eq, Nat.mul_comm v, ← Nat.two_pow_add_eq_or_of_lt hbyte]
      have hget : (buf.drop i).getD n 0 = buf.getD (i + n) 0 := by simp [List.getD]
      rw [readBytes, hor, ih, ofDigits_take_succ, hget]
      congr 1
      ring

theorem littleEndian_value {bytes : List UInt8} (h : bytes.length ≤ 8) :
    value (Spec.littleEndian bytes) = (Nat.ofDigits 256 (bytes.map UInt8.toNat) : ℕ) := by
  have hlt : Nat.ofDigits 256 (bytes.map UInt8.toNat) < 2 ^ 64 := by
    have hdigits : ∀ d ∈ bytes.map UInt8.toNat, d < 256 := by
      intro d hd
      obtain ⟨b, -, rfl⟩ := List.mem_map.mp hd
      exact b.toNat_lt
    refine lt_of_lt_of_le (Nat.ofDigits_lt_base_pow_length (by decide) hdigits) ?_
    rw [List.length_map]
    exact Nat.pow_le_pow_right (n := 256) (by decide) h
  rw [value, Spec.littleEndian, BitVec.toNat_ofNat, Nat.mod_eq_of_lt hlt]

theorem read64_value (buf : List UInt8) (i : ℕ) :
    read64 buf i = value (Spec.littleEndian ((buf.drop i).take 8)) := by
  rw [littleEndian_value (List.length_take_le _ _)]
  simpa [read64] using readBytes_eq buf i 8 0

theorem read32_value (buf : List UInt8) (i : ℕ) :
    read32 buf i = value (Spec.littleEndian ((buf.drop i).take 4)) := by
  rw [littleEndian_value ((List.length_take_le _ _).trans (by decide))]
  simpa [read32] using readBytes_eq buf i 4 0

theorem byteAt_value (buf : List UInt8) (i : ℕ) :
    byteAt buf i = value (Spec.littleEndian ((buf.drop i).take 1)) := by
  have hget : (buf.drop i).getD 0 0 = buf.getD i 0 := by simp [List.getD]
  rw [littleEndian_value ((List.length_take_le _ _).trans (by decide)), ofDigits_take_succ (buf.drop i) 0, hget]
  simp [byteAt]

/-! ## Steps -/

/-- The lanes of the program for the accumulators of the algorithm. -/
def lanes (accs : Spec.Accumulators) : Lanes := ⟨value accs.acc1, value accs.acc2, value accs.acc3, value accs.acc4⟩

theorem sub_value (a b : Spec.Word) : Int.land (value a - value b) mask = value (a - b) := by
  have ha := a.isLt
  have hb := b.isLt
  rw [land_mask, value, value, value, BitVec.toNat_sub]
  omega

theorem initLanes_value (seed : Spec.Word) : initLanes (value seed) = lanes (Spec.init seed) := by
  rw [initLanes, value_prime1, value_prime2, add_value, add_value, add_value, land_value, sub_value]
  rfl

theorem stripeAt_value (buf : List UInt8) (p : ℕ) (accs : Spec.Accumulators) :
    stripeAt buf p (lanes accs) = lanes (Spec.stripe accs ((buf.drop p).take 32)) := by
  have hlane : ∀ k, k + 8 ≤ 32 → (buf.drop (p + k)).take 8 = (((buf.drop p).take 32).drop k).take 8 := by
    intro k hk
    rw [List.drop_take, List.drop_drop, List.take_take, Nat.min_eq_left (by omega)]
  have hfirst : (buf.drop p).take 8 = ((buf.drop p).take 32).take 8 := by
    rw [List.take_take]
    rfl
  simp only [stripeAt, lanes, read64_value, round_value, Spec.stripe]
  rw [hlane 8 (by decide), hlane 16 (by decide), hlane 24 (by decide), ← hfirst]

theorem convergeLanes_value (accs : Spec.Accumulators) : convergeLanes (lanes accs) = value (Spec.converge accs) := by
  have h1 := rotl_value accs.acc1 (r := 1) (by decide)
  have h7 := rotl_value accs.acc2 (r := 7) (by decide)
  have h12 := rotl_value accs.acc3 (r := 12) (by decide)
  have h18 := rotl_value accs.acc4 (r := 18) (by decide)
  push_cast at h1 h7 h12 h18
  simp only [convergeLanes, lanes, h1, h7, h12, h18, add_value, mergeRound_value, Spec.converge, ← BitVec.add_assoc]

theorem tail8_value (buf : List UInt8) (p : ℕ) (acc : Spec.Word) :
    tail8 buf p (value acc) = value (Spec.consume8 acc ((buf.drop p).take 8)) := by
  have hround := round_value 0 (Spec.littleEndian ((buf.drop p).take 8))
  have hrotl := fun a => rotl_value a (r := 27) (by decide)
  push_cast at hrotl
  rw [tail8, read64_value]
  rw [show (0 : ℤ) = value 0 from rfl, hround, xor_value, hrotl, value_prime1, value_prime4, mul_value, add_value]
  rfl

theorem tail4_value (buf : List UInt8) (p : ℕ) (acc : Spec.Word) :
    tail4 buf p (value acc) = value (Spec.consume4 acc ((buf.drop p).take 4)) := by
  have hrotl := fun a => rotl_value a (r := 23) (by decide)
  push_cast at hrotl
  rw [tail4, read32_value, value_prime1, value_prime2, value_prime3, mul_value, xor_value, hrotl, mul_value, add_value]
  rfl

theorem tail1_value (buf : List UInt8) (p : ℕ) (acc : Spec.Word) :
    tail1 buf p (value acc) = value (Spec.consume1 acc ((buf.drop p).take 1)) := by
  have hrotl := fun a => rotl_value a (r := 11) (by decide)
  push_cast at hrotl
  rw [tail1, byteAt_value, value_prime1, value_prime5, mul_value, xor_value, hrotl, mul_value]
  rfl

theorem finish_value (acc : Spec.Word) : finish (value acc) = value (Spec.avalanche acc) := by
  have hshift := shiftRight_value
  have h33 := fun a => hshift a 33
  have h29 := fun a => hshift a 29
  have h32 := fun a => hshift a 32
  push_cast at h33 h29 h32
  simp only [finish, h33, h29, h32, xor_value, value_prime2, value_prime3, mul_value, land_value]
  rfl

/-! ## Equality -/

/-- The program stands where the algorithm does: its accumulator has the value of the word, and the
bytes from its index on are the ones left over. -/
structure Matches (buf : List UInt8) (s : ℕ × ℤ) (t : Spec.Word × List UInt8) : Prop where
  acc : s.2 = value t.1
  rest : t.2 = buf.drop s.1

section Matches
variable {buf : List UInt8} {s : ℕ × ℤ} {t : Spec.Word × List UInt8}

theorem matches_stripes (buf : List UInt8) (seed : Spec.Word) :
    Matches buf (stripes buf (value seed)) (Spec.stripes buf seed) := by
  by_cases hlen : 32 ≤ buf.length
  · obtain ⟨q, hloop, hrest⟩ := strideLoop_consume buf (by decide) lanes (stripeAt_value buf) 0 (Spec.init seed)
    simp only [List.drop_zero] at hloop hrest
    simp only [stripes, Spec.stripes, if_pos hlen, initLanes_value, hloop]
    exact ⟨convergeLanes_value _, hrest⟩
  · simp only [stripes, Spec.stripes, if_neg hlen, value_prime5, add_value]
    refine ⟨rfl, ?_⟩
    rw [consume, Nat.div_eq_of_lt (not_le.mp hlen)]

theorem Matches.length (h : Matches buf s t) :
    Matches buf (s.1, add s.2 buf.length) (t.1 + BitVec.ofNat 64 buf.length, t.2) := by
  refine ⟨?_, h.rest⟩
  rw [h.acc, add, land_mask, value, value, BitVec.toNat_add, BitVec.toNat_ofNat]
  push_cast
  exact (Int.add_emod_emod _ _ _).symm

/-- A loop of the program is a pass over the chunks of what is left. -/
theorem Matches.loop (h : Matches buf s t) {width : ℕ} (hwidth : 0 < width) {body : ℕ → ℤ → ℤ}
    {step : Spec.Word → List UInt8 → Spec.Word}
    (hbody : ∀ p acc, body p (value acc) = value (step acc ((buf.drop p).take width))) :
    Matches buf (strideLoop width buf.length body buf.length s.1 s.2) (consume width step t.1 t.2) := by
  obtain ⟨q, hloop, hrest⟩ := strideLoop_consume _ hwidth value hbody s.1 t.1
  rw [h.acc, h.rest, hloop]
  exact ⟨rfl, hrest⟩

/-- Four bytes are taken once at most where less than eight are left. -/
theorem Matches.once (h : Matches buf s t) (hleft : t.2.length < 8) :
    Matches buf (if s.1 + 4 ≤ buf.length then (s.1 + 4, tail4 buf s.1 s.2) else s)
      (consume 4 Spec.consume4 t.1 t.2) := by
  rw [h.rest, List.length_drop] at hleft
  rw [h.rest, consume, List.length_drop]
  split
  · rw [show (buf.length - s.1) / 4 = 1 by omega]
    refine ⟨?_, List.drop_drop⟩
    rw [h.acc]
    exact tail4_value buf s.1 t.1
  · rw [show (buf.length - s.1) / 4 = 0 by omega]
    exact ⟨h.acc, rfl⟩

end Matches

/-- **The program computes XXH64**, of every input and with every seed of 64 bits. -/
theorem xxh64_eq (buf : List UInt8) (seed : Spec.Word) : xxh64 buf (value seed) = value (Spec.xxh64 buf seed) := by
  have hlength := (matches_stripes buf seed).length
  have height := hlength.loop (by decide) (tail8_value buf)
  have hfour := height.once ((length_consume _ _).trans_lt (Nat.mod_lt _ (by decide)))
  have hone := hfour.loop (by decide) (tail1_value buf)
  rw [xxh64, hone.acc, finish_value]
  rfl

example : xxh64 "The quick brown fox jumps over the lazy dog!!!!".toUTF8.data.toList 0 = 0xa9b4233048596906 := by
  decide +kernel

end Elpis.Xxhash
