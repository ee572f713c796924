import Elpis.Memory.Chunks
import Elpis.Sandbox.Read
import Elpis.Sandbox.RunIds
import Mathlib.Data.List.GetD

/-!
# The output guard

`cap` and `capLines` of `src/sandbox/preview.ts`, on the code units of a text. Both measure bytes:
`cap` cuts the bytes themselves and turns what is left back into a text, `capLines` takes whole lines
as long as the marker that names the rest still fits behind them.
-/

namespace Elpis.Sandbox.Preview

open Elpis.Js (codeUnits charUnits codeUnits_append ofUnits)
open Elpis.Memory.Units (textOf)
open Elpis.Sandbox.Read (renderedByteLength)

/-! ## Bytes -/

/-- `Buffer.from(str, 'utf8')`: half of a pair becomes the replacement character. -/
def utf8 (str : List ℕ) : List UInt8 := (ofUnits str).flatMap String.utf8EncodeChar

/-- `Buffer.byteLength(str, 'utf8')`. -/
def byteLength (str : List ℕ) : ℕ := (utf8 str).length

/-- A sequence of bytes that is not complete: how many are missing, the bits so far, and between what
the next byte has to be. -/
structure Partial where
  left : ℕ
  point : ℕ
  lower : ℕ := 0x80
  upper : ℕ := 0xBF
deriving DecidableEq

/-- A byte that begins a character. -/
def beginChar (b : ℕ) : List Char × Option Partial :=
  if b < 0x80 then ([Char.ofNat b], none)
  else if b < 0xC2 then (['\uFFFD'], none)
  else if b < 0xE0 then ([], some { left := 1, point := b - 0xC0 })
  else if b = 0xE0 then ([], some { left := 2, point := 0, lower := 0xA0 })
  else if b = 0xED then ([], some { left := 2, point := 0xD, upper := 0x9F })
  else if b < 0xF0 then ([], some { left := 2, point := b - 0xE0 })
  else if b = 0xF0 then ([], some { left := 3, point := 0, lower := 0x90 })
  else if b < 0xF4 then ([], some { left := 3, point := b - 0xF0 })
  else if b = 0xF4 then ([], some { left := 3, point := 4, upper := 0x8F })
  else (['\uFFFD'], none)

/-- `buffer.toString('utf8')`: what is not complete becomes one replacement character. -/
def decode : Option Partial → List UInt8 → List Char
  | none, [] => []
  | some _, [] => ['\uFFFD']
  | none, b :: rest => (beginChar b.toNat).1 ++ decode (beginChar b.toNat).2 rest
  | some p, b :: rest =>
      if p.lower ≤ b.toNat ∧ b.toNat ≤ p.upper then
        let point := p.point * 64 + (b.toNat - 0x80)
        if p.left = 1 then Char.ofNat point :: decode none rest
        else decode (some { left := p.left - 1, point := point }) rest
      else '\uFFFD' :: ((beginChar b.toNat).1 ++ decode (beginChar b.toNat).2 rest)

/-! ## The cut by bytes -/

/-- The loop back over bytes that continue a character. -/
def backUp (buf : List UInt8) : ℕ → ℕ
  | 0 => 0
  | cut + 1 => if buf.getD (cut + 1) 0 &&& 0xC0 = 0x80 then backUp buf cut else cut + 1

/-- `need`: how many bytes a character takes, by its first. -/
def need (lead : UInt8) : ℕ := if lead < 0x80 then 1 else if lead < 0xE0 then 2 else if lead < 0xF0 then 3 else 4

/-- Where the buffer is cut. -/
def cutOf (buf : List UInt8) (maxBytes : ℕ) : ℕ :=
  let cut := backUp buf maxBytes
  if 0 < cut ∧ maxBytes < cut + need (buf.getD cut 0) then cut - 1 else cut

/-- `suffix`. -/
def moreBytes (n : ℕ) : String := " …[+" ++ toString n ++ " more bytes]"

/-- The loop that shortens what is kept. -/
def shrinkTo (overflows : ℕ → Bool) : ℕ → ℕ
  | 0 => 0
  | shrink + 1 => if overflows shrink then shrinkTo overflows shrink else shrink

def cap (str : List ℕ) (maxBytes : ℕ) : List ℕ :=
  let buf := utf8 str
  if buf.length ≤ maxBytes then str
  else
    let cut := cutOf buf maxBytes
    let kept := (decode none (buf.take cut)).flatMap charUnits
    let suffix := codeUnits (moreBytes (buf.length - cut))
    let out := kept ++ suffix
    if byteLength out ≤ maxBytes then out
    else kept.take (shrinkTo (fun n => decide (maxBytes < byteLength (kept.take n ++ suffix))) cut) ++ suffix

/-! ## The cut by lines -/

/-- The marker behind `shownLines` lines of `totalLines`. -/
def linesMarker (shownLines totalLines remaining : ℕ) : String :=
  "\n[showing first " ++ toString shownLines ++ " of " ++ toString totalLines ++ " logged lines; +" ++
    toString remaining ++ " more bytes — the values live in your variables, print a narrower slice]"

/-- The loop over the lines that are left, behind what is kept of those before. -/
def keepLines (totalBytes totalLines maxBytes : ℕ) : List (List ℕ) → List ℕ × ℕ → List ℕ × ℕ
  | [], shown => shown
  | line :: rest, (kept, shownLines) =>
      let candidateKept := if shownLines = 0 then line else kept ++ 0x0A :: line
      let remaining := totalBytes - byteLength candidateKept
      if maxBytes < byteLength candidateKept + byteLength (codeUnits (linesMarker (shownLines + 1) totalLines remaining))
      then (kept, shownLines)
      else keepLines totalBytes totalLines maxBytes rest (candidateKept, shownLines + 1)

def capLines (str : List ℕ) (maxBytes : ℕ) : List ℕ :=
  let totalBytes := byteLength str
  if totalBytes ≤ maxBytes then str
  else
    let lines := str.splitOn 0x0A
    let (kept, shownLines) := keepLines totalBytes lines.length maxBytes lines ([], 0)
    if shownLines = 0 then cap str maxBytes
    else kept ++ codeUnits (linesMarker shownLines lines.length (totalBytes - byteLength kept))

/-! ## Byte lengths -/

theorem byteLength_eq (str : List ℕ) : byteLength str = ((ofUnits str).map Char.utf8Size).sum := by
  unfold byteLength utf8
  rw [List.length_flatMap]
  simp only [String.length_utf8EncodeChar]

theorem byteLength_codeUnits (text : String) : byteLength (codeUnits text) = renderedByteLength text := by
  rw [byteLength_eq, Js.codeUnits_eq, Memory.Units.ofUnits_flatMap]
  rfl

theorem renderedByteLength_moreBytes (n : ℕ) :
    renderedByteLength (moreBytes n) = 18 + renderedByteLength (toString n) := by
  have hopen : renderedByteLength " …[+" = 6 := by decide
  have hclose : renderedByteLength " more bytes]" = 12 := by decide
  rw [moreBytes, Read.renderedByteLength_append, Read.renderedByteLength_append, hopen, hclose]
  omega

/-! ## Backing up -/

section BackUp
variable {buf : List UInt8}

theorem first_not_continuation {b : UInt8} (h : b.IsUTF8FirstByte) : b &&& 0xC0 ≠ 0x80 := by
  have hall : ∀ n : Fin 256, (UInt8.ofNat n).IsUTF8FirstByte → UInt8.ofNat n &&& 0xC0 ≠ 0x80 := by decide +kernel
  have hb := hall ⟨b.toNat, b.toNat_lt⟩
  rw [UInt8.ofNat_toNat] at hb
  exact hb h

/-- In the bytes of characters, one of four bytes in a row begins a character. -/
theorem exists_first (cs : List Char) {n : ℕ} (h : n < (cs.flatMap String.utf8EncodeChar).length) :
    ∃ k ≤ 3, k ≤ n ∧ (cs.flatMap String.utf8EncodeChar).getD (n - k) 0 &&& 0xC0 ≠ 0x80 := by
  induction cs generalizing n with
  | nil => exact absurd h (Nat.not_lt_zero n)
  | cons c cs ih =>
      rw [List.flatMap_cons] at h ⊢
      have hpos : 0 < (String.utf8EncodeChar c).length := by
        rw [String.length_utf8EncodeChar]
        exact c.utf8Size_pos
      have hfour : (String.utf8EncodeChar c).length ≤ 4 := by
        rw [String.length_utf8EncodeChar]
        exact c.utf8Size_le_four
      by_cases hn : n < (String.utf8EncodeChar c).length
      · refine ⟨n, by omega, le_refl n, ?_⟩
        rw [Nat.sub_self, List.getD_append _ _ _ _ hpos, List.getD_eq_getElem _ _ hpos]
        exact first_not_continuation UInt8.isUTF8FirstByte_getElem_zero_utf8EncodeChar
      · rw [List.length_append] at h
        obtain ⟨k, hk, hkn, hfirst⟩ := ih (n := n - (String.utf8EncodeChar c).length) (by omega)
        refine ⟨k, hk, by omega, ?_⟩
        rw [List.getD_append_right _ _ _ _ (by omega),
          show n - k - (String.utf8EncodeChar c).length = n - (String.utf8EncodeChar c).length - k by omega]
        exact hfirst

theorem backUp_le (buf : List UInt8) (n : ℕ) : backUp buf n ≤ n := by
  induction n with
  | zero => exact le_refl 0
  | succ n ih =>
      rw [backUp]
      split_ifs
      · omega
      · exact le_refl _

/-- The loop goes back no further than to a byte that begins a character. -/
theorem le_backUp {n k : ℕ} (h : buf.getD (n - k) 0 &&& 0xC0 ≠ 0x80) : n - k ≤ backUp buf n := by
  induction n generalizing k with
  | zero => omega
  | succ n ih =>
      rw [backUp]
      split_ifs with hcontinued
      · cases k with
        | zero => exact absurd hcontinued h
        | succ k =>
            rw [Nat.succ_sub_succ] at h ⊢
            exact ih h
      · omega

/-- The cut is no more than four bytes below the budget. -/
theorem cutOf_bounds (str : List ℕ) {maxBytes : ℕ} (h : maxBytes < (utf8 str).length) :
    cutOf (utf8 str) maxBytes ≤ maxBytes ∧ maxBytes ≤ cutOf (utf8 str) maxBytes + 4 := by
  obtain ⟨k, hk, -, hfirst⟩ := exists_first (ofUnits str) h
  have hle := backUp_le (utf8 str) maxBytes
  have hge : maxBytes - k ≤ backUp (utf8 str) maxBytes := le_backUp hfirst
  unfold cutOf
  constructor
  · dsimp only
    split_ifs <;> omega
  · dsimp only
    split_ifs <;> omega

end BackUp

/-! ## What the count says -/

section Count

theorem plus_notMem_digits (n : ℕ) : 0x2B ∉ codeUnits (toString n) := by
  intro hplus
  exact absurd (Js.mem_codeUnits_toString hplus).1 (by decide)

theorem digits_injective {m n : ℕ} (h : codeUnits (toString m) = codeUnits (toString n)) : m = n := by
  have hdigits := congrArg String.toList (Js.codeUnits_injective h)
  rw [toList_toString, toList_toString] at hdigits
  exact toDigits_injective hdigits

theorem append_cons_cancel {α : Type} {a : α} {xs ys us vs : List α} (hus : a ∉ us) (hvs : a ∉ vs)
    (h : xs ++ a :: us = ys ++ a :: vs) : xs = ys ∧ us = vs := by
  rcases List.append_eq_append_iff.mp h with ⟨ts, rfl, hts⟩ | ⟨ts, rfl, hts⟩
  · cases ts with
    | nil => exact ⟨(List.append_nil xs).symm, (List.cons.inj hts).2⟩
    | cons t ts =>
        have hmem : a ∈ us := by
          rw [(List.cons.inj hts).2]
          exact List.mem_append_right ts List.mem_cons_self
        exact absurd hmem hus
  · cases ts with
    | nil => exact ⟨List.append_nil ys, (List.cons.inj hts).2.symm⟩
    | cons t ts =>
        have hmem : a ∈ vs := by
          rw [(List.cons.inj hts).2]
          exact List.mem_append_right ts List.mem_cons_self
        exact absurd hmem hvs

/-- What stands before the suffix, and its count, are determined by the whole. -/
theorem moreBytes_cancel {xs ys : List ℕ} {m n : ℕ}
    (h : xs ++ codeUnits (moreBytes m) = ys ++ codeUnits (moreBytes n)) : xs = ys ∧ m = n := by
  have hsplit : ∀ n, codeUnits (moreBytes n) =
      codeUnits " …[" ++ 0x2B :: codeUnits (toString n) ++ codeUnits " more bytes]" := by
    intro n
    rw [moreBytes, codeUnits_append, codeUnits_append]
    rfl
  rw [hsplit, hsplit, ← List.append_assoc, ← List.append_assoc ys] at h
  have hdigits := List.append_cancel_right h
  rw [← List.append_assoc, ← List.append_assoc ys] at hdigits
  obtain ⟨hbefore, hcount⟩ := append_cons_cancel (plus_notMem_digits m) (plus_notMem_digits n) hdigits
  exact ⟨List.append_cancel_right hbefore, digits_injective hcount⟩

end Count

/-! ## What `cap` says -/

/-- The text where it fits; else a part of it from the start and how many bytes are left out, in no
more bytes than there may be. -/
def Capped (text : String) (maxBytes : ℕ) (out : List ℕ) : Prop :=
  if byteLength (codeUnits text) ≤ maxBytes then out = codeUnits text
  else ∃ shown omitted, shown ++ omitted = text ∧
    out = codeUnits shown ++ codeUnits (moreBytes (byteLength (codeUnits omitted))) ∧ byteLength out ≤ maxBytes

/-- A text that is cut ends with the count of what the cut left out, not of what is missing. -/
theorem cap_eq_of_lt {str : List ℕ} {maxBytes : ℕ} (h : maxBytes < byteLength str) :
    ∃ kept, cap str maxBytes = kept ++ codeUnits (moreBytes (byteLength str - cutOf (utf8 str) maxBytes)) := by
  have hcut : ¬(utf8 str).length ≤ maxBytes := not_le.mpr h
  unfold cap
  dsimp only
  rw [if_neg hcut]
  split_ifs
  · exact ⟨_, rfl⟩
  · exact ⟨_, rfl⟩

theorem not_capped {text : String} {maxBytes : ℕ} (h : maxBytes < byteLength (codeUnits text)) :
    ¬Capped text maxBytes (cap (codeUnits text) maxBytes) := by
  rw [Capped, if_neg (not_le.mpr h)]
  rintro ⟨shown, omitted, htext, hout, hfits⟩
  obtain ⟨kept, hcap⟩ := cap_eq_of_lt h
  obtain ⟨-, hcount⟩ := moreBytes_cancel (hcap.symm.trans hout)
  obtain ⟨hle, hnear⟩ := cutOf_bounds (codeUnits text) h
  -- with a true count, all bytes up to the cut are shown, and no room is left for the suffix
  rw [hout, ← codeUnits_append, byteLength_codeUnits, Read.renderedByteLength_append,
    renderedByteLength_moreBytes] at hfits
  have htotal : byteLength (codeUnits text) = renderedByteLength shown + renderedByteLength omitted := by
    rw [← htext, byteLength_codeUnits, Read.renderedByteLength_append]
  rw [byteLength_codeUnits omitted] at hcount
  have hcut : cutOf (utf8 (codeUnits text)) maxBytes = renderedByteLength shown := by omega
  omega

/-- What is shown and what the count says agree, within the budget, only where nothing is cut. -/
theorem cap_iff (text : String) (maxBytes : ℕ) :
    Capped text maxBytes (cap (codeUnits text) maxBytes) ↔ byteLength (codeUnits text) ≤ maxBytes := by
  constructor
  · intro hcapped
    by_contra h
    exact not_capped (not_le.mp h) hcapped
  · intro h
    rw [Capped, if_pos h, cap]
    exact if_pos h

/-- Six of thirty bytes are shown, and six are said to be left out. -/
theorem cap_thirty : cap (codeUnits "aaaaaaaaaaaaaaaaaaaaaaaaaaaaaa") 25 = codeUnits "aaaaaa …[+6 more bytes]" ∧
    ¬Capped "aaaaaaaaaaaaaaaaaaaaaaaaaaaaaa" 25 (cap (codeUnits "aaaaaaaaaaaaaaaaaaaaaaaaaaaaaa") 25) :=
  ⟨by decide, not_capped (by decide)⟩

/-! ## Whole lines -/

section Lines
variable {str : List ℕ} {maxBytes : ℕ}

/-- A unit that is not the second half of a pair begins a character of its own. -/
theorem ofUnits_append {v : ℕ} (hv : ¬(0xDC00 ≤ v ∧ v < 0xE000)) (xs ys : List ℕ) :
    ofUnits (xs ++ v :: ys) = ofUnits xs ++ ofUnits (v :: ys) := by
  induction xs using Js.ofUnits.induct with
  | case1 => rfl
  | case2 u =>
      exact if_neg (fun h => hv ⟨h.2.2.1, h.2.2.2⟩)
  | case3 u w rest hpair ih =>
      rw [List.cons_append, List.cons_append, ofUnits, if_pos hpair, ofUnits, if_pos hpair, ih, List.cons_append]
  | case4 u w rest hpair ih =>
      rw [List.cons_append] at ih
      rw [List.cons_append, List.cons_append, ofUnits, if_neg hpair, ih, ofUnits, if_neg hpair, List.cons_append]

theorem byteLength_append_cons {v : ℕ} (hv : ¬(0xDC00 ≤ v ∧ v < 0xE000)) (xs ys : List ℕ) :
    byteLength (xs ++ v :: ys) = byteLength xs + byteLength (v :: ys) := by
  rw [byteLength_eq, byteLength_eq, byteLength_eq, ofUnits_append hv, List.map_append, List.sum_append]

theorem byteLength_newline (ys : List ℕ) : byteLength (0x0A :: ys) = 1 + byteLength ys := by
  rw [byteLength_eq, byteLength_eq, Memory.Units.ofUnits_plain (by omega), List.map_cons, List.sum_cons]
  rfl

/-- The first `k` lines as they stand in the text. -/
def firstLines (str : List ℕ) (k : ℕ) : List ℕ := [0x0A].intercalate ((str.splitOn 0x0A).take k)

/-- The marker behind the first `k` lines, with the bytes behind them. -/
def markerBehind (str : List ℕ) (k : ℕ) : List ℕ :=
  codeUnits (linesMarker k (str.splitOn 0x0A).length (byteLength str - byteLength (firstLines str k)))

/-- The bytes of the first `k` lines and of their marker. -/
def pageBytes (str : List ℕ) (k : ℕ) : ℕ := byteLength (firstLines str k) + byteLength (markerBehind str k)

theorem intercalate_concat {sep : List ℕ} {lines : List (List ℕ)} (h : lines ≠ []) (line : List ℕ) :
    sep.intercalate (lines ++ [line]) = sep.intercalate lines ++ (sep ++ line) := by
  induction lines with
  | nil => exact absurd rfl h
  | cons first lines ih =>
      cases lines with
      | nil => simp [List.intercalate_cons_cons]
      | cons second lines =>
          have hrest := ih (List.cons_ne_nil second lines)
          rw [List.cons_append, List.cons_append, List.intercalate_cons_cons, ← List.cons_append, hrest,
            List.intercalate_cons_cons]
          simp only [List.append_assoc]

theorem firstLines_succ {k : ℕ} (h : k < (str.splitOn 0x0A).length) :
    firstLines str (k + 1) =
      if k = 0 then (str.splitOn 0x0A)[k] else firstLines str k ++ 0x0A :: (str.splitOn 0x0A)[k] := by
  rw [firstLines, List.take_succ_eq_append_getElem h]
  split_ifs with hk
  · subst hk
    exact List.intercalate_singleton
  · refine intercalate_concat (fun hnil => ?_) _
    rw [List.take_eq_nil_iff] at hnil
    rcases hnil with hnil | hnil
    · exact hk hnil
    · rw [hnil] at h
      exact absurd h (Nat.not_lt_zero k)

theorem firstLines_all (str : List ℕ) : firstLines str (str.splitOn 0x0A).length = str := by
  rw [firstLines, List.take_length, List.intercalate_splitOn]

theorem byteLength_firstLines_succ (str : List ℕ) {k : ℕ} (h : k < (str.splitOn 0x0A).length) :
    byteLength (firstLines str k) + (if k = 0 then 0 else 1) ≤ byteLength (firstLines str (k + 1)) := by
  rw [firstLines_succ h]
  split_ifs with hk
  · subst hk
    exact Nat.zero_le _
  · rw [byteLength_append_cons (by omega), byteLength_newline]
    omega

theorem byteLength_firstLines_mono {j k : ℕ} (hjk : j ≤ k) (hk : k ≤ (str.splitOn 0x0A).length) :
    byteLength (firstLines str j) ≤ byteLength (firstLines str k) := by
  induction k, hjk using Nat.le_induction with
  | base => exact le_refl _
  | succ k hjk ih =>
      have hstep := byteLength_firstLines_succ str (k := k) hk
      exact (ih (Nat.le_of_succ_le hk)).trans (by omega)

theorem byteLength_firstLines_le (str : List ℕ) {k : ℕ} (hk : k ≤ (str.splitOn 0x0A).length) :
    byteLength (firstLines str k) ≤ byteLength str := by
  have hall := byteLength_firstLines_mono hk (le_refl _)
  rw [firstLines_all] at hall
  exact hall

theorem digits_mono {m n : ℕ} (h : m ≤ n) : renderedByteLength (toString m) ≤ renderedByteLength (toString n) := by
  rw [Read.renderedByteLength_digits, Read.renderedByteLength_digits,
    Nat.length_toDigits_le_iff (by decide) Nat.length_toDigits_pos]
  exact lt_of_le_of_lt h ((Nat.length_toDigits_le_iff (by decide) Nat.length_toDigits_pos).mp (le_refl _))

theorem byteLength_markerBehind (str : List ℕ) (k : ℕ) : byteLength (markerBehind str k) =
    110 + renderedByteLength (toString k) + renderedByteLength (toString (str.splitOn 0x0A).length) +
      renderedByteLength (toString (byteLength str - byteLength (firstLines str k))) := by
  have hfirst : renderedByteLength "\n[showing first " = 16 := by decide
  have hof : renderedByteLength " of " = 4 := by decide
  have hlines : renderedByteLength " logged lines; +" = 16 := by decide
  have hmore : renderedByteLength
      " more bytes — the values live in your variables, print a narrower slice]" = 74 := by decide
  unfold markerBehind
  generalize byteLength str - byteLength (firstLines str k) = remaining
  rw [byteLength_codeUnits (linesMarker _ _ _)]
  unfold linesMarker
  simp only [Read.renderedByteLength_append, hfirst, hof, hlines, hmore]
  omega

/-- Another line takes no less room, although the marker has fewer bytes left to name. -/
theorem pageBytes_succ {k : ℕ} (h : k < (str.splitOn 0x0A).length) : pageBytes str k ≤ pageBytes str (k + 1) := by
  have hgrow := byteLength_firstLines_succ str h
  have htotal := byteLength_firstLines_le str (k := k + 1) h
  have hcount := digits_mono (Nat.le_add_right k 1)
  have hrest := Read.digits_add_le (byteLength str - byteLength (firstLines str (k + 1)))
    (byteLength (firstLines str (k + 1)) - byteLength (firstLines str k))
  rw [show byteLength str - byteLength (firstLines str (k + 1)) +
      (byteLength (firstLines str (k + 1)) - byteLength (firstLines str k)) =
        byteLength str - byteLength (firstLines str k) by omega] at hrest
  unfold pageBytes
  rw [byteLength_markerBehind, byteLength_markerBehind]
  omega

theorem pageBytes_mono {j k : ℕ} (hjk : j ≤ k) (hk : k ≤ (str.splitOn 0x0A).length) :
    pageBytes str j ≤ pageBytes str k := by
  induction k, hjk using Nat.le_induction with
  | base => exact le_refl _
  | succ k hjk ih => exact (ih (Nat.le_of_succ_le hk)).trans (pageBytes_succ hk)

/-- The loop, begun behind `k` lines, stops behind the last line up to which each page fits. -/
theorem keepLines_spec (str : List ℕ) (maxBytes : ℕ) {k : ℕ} {rest : List (List ℕ)} (hrest : rest = (str.splitOn 0x0A).drop k)
    (hk : k ≤ (str.splitOn 0x0A).length) :
    ∃ j, k ≤ j ∧ j ≤ (str.splitOn 0x0A).length ∧
      keepLines (byteLength str) (str.splitOn 0x0A).length maxBytes rest (firstLines str k, k) =
        (firstLines str j, j) ∧
      (j = k ∨ pageBytes str j ≤ maxBytes) ∧
      (j = (str.splitOn 0x0A).length ∨ maxBytes < pageBytes str (j + 1)) := by
  induction rest generalizing k with
  | nil =>
      have hend : k = (str.splitOn 0x0A).length := Nat.le_antisymm hk (List.drop_eq_nil_iff.mp hrest.symm)
      exact ⟨k, le_refl k, hk, rfl, Or.inl rfl, Or.inl hend⟩
  | cons line rest ih =>
      have hlt : k < (str.splitOn 0x0A).length := by
        by_contra hge
        rw [List.drop_eq_nil_of_le (not_lt.mp hge)] at hrest
        cases hrest
      obtain ⟨hline, hrest'⟩ := List.cons.inj (hrest.trans (List.drop_eq_getElem_cons hlt))
      have hcandidate : (if k = 0 then line else firstLines str k ++ 0x0A :: line) = firstLines str (k + 1) := by
        rw [firstLines_succ hlt, hline]
      rw [keepLines]
      simp only [hcandidate]
      by_cases hover : maxBytes < pageBytes str (k + 1)
      · exact ⟨k, le_refl k, hk, if_pos hover, Or.inl rfl, Or.inr hover⟩
      · obtain ⟨j, hkj, hj, hkeep, hfits, hstop⟩ := ih hrest' hlt
        refine ⟨j, by omega, hj, ?_, ?_, hstop⟩
        · exact (if_neg hover).trans hkeep
        · rcases hfits with rfl | hfits
          · exact Or.inr (not_lt.mp hover)
          · exact Or.inr hfits

theorem linesMarker_head (shownLines totalLines remaining : ℕ) :
    ∃ rest, codeUnits (linesMarker shownLines totalLines remaining) = 0x0A :: rest := by
  have hopen : codeUnits "\n[showing first " = 0x0A :: codeUnits "[showing first " := rfl
  unfold linesMarker
  simp only [String.append_assoc]
  rw [codeUnits_append, hopen]
  exact ⟨_, rfl⟩

theorem byteLength_page (k : ℕ) : byteLength (firstLines str k ++ markerBehind str k) = pageBytes str k := by
  obtain ⟨rest, hrest⟩ := linesMarker_head k (str.splitOn 0x0A).length (byteLength str - byteLength (firstLines str k))
  rw [pageBytes, markerBehind, hrest, byteLength_append_cons (by omega)]

/-- A text of which the whole does not fit has no page of all its lines either. -/
theorem lt_pageBytes_all (h : maxBytes < byteLength str) : maxBytes < pageBytes str (str.splitOn 0x0A).length := by
  rw [pageBytes, firstLines_all]
  omega

/-- Behind the first line that does not fit, no page does. -/
theorem pageBytes_le_iff {j k : ℕ} (hk : k ≤ (str.splitOn 0x0A).length) (hfits : pageBytes str k ≤ maxBytes)
    (hover : maxBytes < pageBytes str (k + 1)) (hj : j ≤ (str.splitOn 0x0A).length) :
    pageBytes str j ≤ maxBytes ↔ j ≤ k := by
  constructor
  · intro hpage
    by_contra hjk
    have hlater : pageBytes str (k + 1) ≤ pageBytes str j := pageBytes_mono (not_le.mp hjk) hj
    omega
  · intro hjk
    exact (pageBytes_mono hjk hk).trans hfits

/-- A text that does not fit is cut behind the lines that the loop takes, if it takes any. -/
theorem capLines_eq_of_lt (h : maxBytes < byteLength str) :
    ∃ shown, shown < (str.splitOn 0x0A).length ∧ maxBytes < pageBytes str (shown + 1) ∧
      (shown = 0 ∨ pageBytes str shown ≤ maxBytes) ∧
      capLines str maxBytes = if shown = 0 then cap str maxBytes else firstLines str shown ++ markerBehind str shown := by
  obtain ⟨shown, -, hle, hkeep, hfits, hstop⟩ :=
    keepLines_spec str maxBytes (k := 0) (List.drop_zero).symm (Nat.zero_le _)
  have hpos : 0 < (str.splitOn 0x0A).length := List.length_pos_of_ne_nil (List.splitOn_ne_nil _ _)
  have hlt : shown < (str.splitOn 0x0A).length := by
    refine lt_of_le_of_ne hle ?_
    rintro rfl
    have hall := lt_pageBytes_all h
    rcases hfits with hzero | hfits
    · omega
    · omega
  have hnone : firstLines str 0 = [] := rfl
  refine ⟨shown, hlt, hstop.resolve_left hlt.ne, hfits, ?_⟩
  unfold capLines
  dsimp only
  rw [if_neg (not_le.mpr h), ← hnone, hkeep]
  rfl

end Lines

/-- A text that fits comes back as it is. Of another, the most whole lines that fit with their marker
are shown, and the marker says how many of how many they are and how many bytes are left; where the
first line alone exceeds the budget, the text is cut by bytes. -/
theorem capLines_spec (str : List ℕ) (maxBytes : ℕ) :
    (byteLength str ≤ maxBytes → capLines str maxBytes = str) ∧
    (maxBytes < byteLength (firstLines str 1) → capLines str maxBytes = cap str maxBytes) ∧
    (maxBytes < byteLength str → pageBytes str 1 ≤ maxBytes →
      ∃ shown left remaining, 0 < shown ∧ 0 < left ∧
        capLines str maxBytes = firstLines str shown ++ codeUnits (linesMarker shown (shown + left) remaining) ∧
        shown + left = (str.splitOn 0x0A).length ∧
        byteLength (firstLines str shown) + remaining = byteLength str ∧
        byteLength (capLines str maxBytes) ≤ maxBytes ∧
        ∀ j, j ≤ (str.splitOn 0x0A).length → (pageBytes str j ≤ maxBytes ↔ j ≤ shown)) := by
  refine ⟨fun h => if_pos h, fun hline => ?_, fun h hfirst => ?_⟩
  · have hpos : 0 < (str.splitOn 0x0A).length := List.length_pos_of_ne_nil (List.splitOn_ne_nil _ _)
    obtain ⟨shown, hlt, -, hfits, hcap⟩ := capLines_eq_of_lt (hline.trans_le (byteLength_firstLines_le str hpos))
    rcases hfits with rfl | hfits
    · exact hcap
    · have hzero : shown = 0 := by
        by_contra hshown
        have hone : pageBytes str 1 ≤ pageBytes str shown := pageBytes_mono (Nat.pos_of_ne_zero hshown) hlt.le
        unfold pageBytes at hone hfits
        omega
      rw [hcap, if_pos hzero]
  · obtain ⟨shown, hlt, hover, hfits, hcap⟩ := capLines_eq_of_lt h
    have hshown : shown ≠ 0 := by
      rintro rfl
      exact absurd hover (not_lt.mpr hfirst)
    have hpage : pageBytes str shown ≤ maxBytes := hfits.resolve_left hshown
    have hbytes := byteLength_firstLines_le str hlt.le
    rw [if_neg hshown] at hcap
    refine ⟨shown, (str.splitOn 0x0A).length - shown, byteLength str - byteLength (firstLines str shown),
      Nat.pos_of_ne_zero hshown, by omega, ?_, by omega, by omega, ?_, fun j hj => ?_⟩
    · rw [hcap, Nat.add_sub_cancel' hlt.le]
      rfl
    · rw [hcap, byteLength_page]
      exact hpage
    · exact pageBytes_le_iff hlt.le hpage hover hj

/-- The one line of thirty bytes is not shown whole: it is cut by bytes, and no count of lines stands
behind it. -/
theorem capLines_thirty :
    capLines (codeUnits "aaaaaaaaaaaaaaaaaaaaaaaaaaaaaa") 25 = codeUnits "aaaaaa …[+6 more bytes]" ∧
      ¬∃ shown left remaining, capLines (codeUnits "aaaaaaaaaaaaaaaaaaaaaaaaaaaaaa") 25 =
        firstLines (codeUnits "aaaaaaaaaaaaaaaaaaaaaaaaaaaaaa") shown ++
          codeUnits (linesMarker shown left remaining) := by
  have hcap : capLines (codeUnits "aaaaaaaaaaaaaaaaaaaaaaaaaaaaaa") 25 = codeUnits "aaaaaa …[+6 more bytes]" := by
    decide +kernel
  refine ⟨hcap, ?_⟩
  rintro ⟨shown, left, remaining, hpage⟩
  rw [hcap] at hpage
  cases shown with
  | zero =>
      obtain ⟨rest, hrest⟩ := linesMarker_head 0 left remaining
      rw [hrest] at hpage
      exact absurd (List.cons.inj hpage).1 (by decide)
  | succ shown =>
      have hline : firstLines (codeUnits "aaaaaaaaaaaaaaaaaaaaaaaaaaaaaa") (shown + 1) =
          codeUnits "aaaaaaaaaaaaaaaaaaaaaaaaaaaaaa" := by
        have hlines : (codeUnits "aaaaaaaaaaaaaaaaaaaaaaaaaaaaaa").splitOn 0x0A =
            [codeUnits "aaaaaaaaaaaaaaaaaaaaaaaaaaaaaa"] := by
          decide
        rw [firstLines, hlines, List.take_succ_cons, List.take_nil]
        exact List.intercalate_singleton
      have hlength := congrArg List.length hpage
      have hshort : (codeUnits "aaaaaa …[+6 more bytes]").length = 23 := by decide
      have hlong : (codeUnits "aaaaaaaaaaaaaaaaaaaaaaaaaaaaaa").length = 30 := by decide
      rw [List.length_append, hline, hshort, hlong] at hlength
      omega

end Elpis.Sandbox.Preview
