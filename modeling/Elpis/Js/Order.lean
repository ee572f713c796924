import Elpis.Js.Text
import Elpis.Lib.JsonPrint
import Mathlib.Data.List.Lex

/-!
# Texts in the order of their code units

The order in which `sort` puts texts is a linear one, since no two texts have the same code
units.
-/

namespace Elpis.Js

/-- The code units of a character. -/
def charUnits (c : Char) : List ℕ :=
  if c.toNat < 0x10000 then [c.toNat]
  else [0xD800 + (c.toNat - 0x10000) / 0x400, 0xDC00 + (c.toNat - 0x10000) % 0x400]

theorem codeUnits_eq (s : String) : codeUnits s = s.toList.flatMap charUnits := rfl

theorem codeUnits_append (s t : String) : codeUnits (s ++ t) = codeUnits s ++ codeUnits t := by
  rw [codeUnits_eq, codeUnits_eq, codeUnits_eq, String.toList_append, List.flatMap_append]

theorem mem_codeUnits_toString {n u : ℕ} (h : u ∈ codeUnits (toString n)) : 48 ≤ u ∧ u ≤ 57 := by
  rw [codeUnits_eq, Nat.toString_eq_ofList_toDigits, String.toList_ofList, List.mem_flatMap] at h
  obtain ⟨c, hc, hu⟩ := h
  have hdigit : c.isDigit = true := Nat.isDigit_of_mem_toDigits (by decide) (by decide) hc
  simp only [Char.isDigit, Bool.and_eq_true, decide_eq_true_eq] at hdigit
  have hlow : 48 ≤ c.toNat := hdigit.1
  have hhigh : c.toNat ≤ 57 := hdigit.2
  rw [charUnits, if_pos (by omega), List.mem_singleton] at hu
  omega

theorem toNat_lt_max (c : Char) : c.toNat < 0x110000 := by
  rcases c.valid with h | ⟨-, h⟩
  · exact lt_trans h (by decide)
  · exact h

/-- No character is half of a pair. -/
theorem not_surrogate (c : Char) : ¬(0xD800 ≤ c.toNat ∧ c.toNat < 0xE000) := by
  rintro ⟨hlow, hhigh⟩
  rcases c.valid with h | ⟨h, -⟩
  · exact absurd hlow (not_le.mpr h)
  · exact absurd hhigh (not_lt.mpr h)

theorem charUnits_cancel {c d : Char} {cs ds : List ℕ} (h : charUnits c ++ cs = charUnits d ++ ds) :
    c = d ∧ cs = ds := by
  have hc := toNat_lt_max c
  have hd := toNat_lt_max d
  have hc' := not_surrogate c
  have hd' := not_surrogate d
  unfold charUnits at h
  by_cases hsmall : c.toNat < 0x10000
  · by_cases hsmall' : d.toNat < 0x10000
    · rw [if_pos hsmall, if_pos hsmall'] at h
      obtain ⟨hhead, htail⟩ := List.cons.inj h
      exact ⟨Char.toNat_inj.mp hhead, htail⟩
    · rw [if_pos hsmall, if_neg hsmall'] at h
      have hhead := (List.cons.inj h).1
      omega
  · by_cases hsmall' : d.toNat < 0x10000
    · rw [if_neg hsmall, if_pos hsmall'] at h
      have hhead := (List.cons.inj h).1
      omega
    · rw [if_neg hsmall, if_neg hsmall'] at h
      obtain ⟨hhead, hrest⟩ := List.cons.inj h
      obtain ⟨hlow, htail⟩ := List.cons.inj hrest
      exact ⟨Char.toNat_inj.mp (by omega), htail⟩

theorem charUnits_ne_nil (c : Char) : charUnits c ≠ [] := by
  unfold charUnits
  split
  · simp
  · simp

theorem codeUnits_injective : Function.Injective codeUnits := by
  have hlist : ∀ cs ds : List Char, cs.flatMap charUnits = ds.flatMap charUnits → cs = ds := by
    intro cs
    induction cs with
    | nil =>
        intro ds h
        cases ds with
        | nil => rfl
        | cons d ds => exact absurd (List.append_eq_nil_iff.mp h.symm).1 (charUnits_ne_nil d)
    | cons c cs ih =>
        intro ds h
        cases ds with
        | nil => exact absurd (List.append_eq_nil_iff.mp h).1 (charUnits_ne_nil c)
        | cons d ds =>
            obtain ⟨rfl, hrest⟩ := charUnits_cancel h
            rw [ih ds hrest]
  intro s t h
  exact String.toList_inj.mp (hlist _ _ h)

/-! ## Sorting -/

theorem mem_sort {x : String} {xs : List String} : x ∈ sort xs ↔ x ∈ xs := List.mem_mergeSort

theorem sort_perm (xs : List String) : (sort xs).Perm xs := List.mergeSort_perm _ _

theorem pairwise_sort (xs : List String) :
    (sort xs).Pairwise (fun x y => codeUnits x ≤ codeUnits y) := by
  have hsorted : (sort xs).Pairwise (fun x y => decide (¬codeUnits y < codeUnits x) = true) := by
    refine List.pairwise_mergeSort ?_ ?_ xs
    · intro a b c hab hbc
      simp only [decide_eq_true_eq, not_lt] at hab hbc ⊢
      exact hab.trans hbc
    · intro a b
      simp only [Bool.or_eq_true, decide_eq_true_eq, not_lt]
      exact le_total _ _
  refine hsorted.imp ?_
  intro a b h
  simpa using h

/-- Texts that are all different stand in the strict order. -/
theorem pairwise_sort_of_nodup {xs : List String} (h : xs.Nodup) :
    (sort xs).Pairwise (fun x y => codeUnits x < codeUnits y) := by
  have hne : (sort xs).Pairwise (· ≠ ·) := (sort_perm xs).nodup_iff.mpr h
  refine ((pairwise_sort xs).and hne).imp ?_
  rintro a b ⟨hle, hab⟩
  exact lt_of_le_of_ne hle (fun heq => hab (codeUnits_injective heq))

/-! ## Literals -/

section Literals
open Elpis.Lib.JsonText (quote quoteUnit quoteUnits isPair)

theorem quoteUnits_cons {u : ℕ} (h : ¬(0xD800 ≤ u ∧ u < 0xE000)) (us : List ℕ) :
    quoteUnits (u :: us) = quoteUnit u ++ quoteUnits us := by
  cases us with
  | nil => exact (List.append_nil _).symm
  | cons d us =>
      rw [quoteUnits, if_neg]
      rw [isPair, decide_eq_true_eq]
      omega

theorem escapeChar_units {c : Char} (h : c.toNat < 0x10000) : (escapeChar c).flatMap charUnits = quoteUnit c.toNat := by
  have hlow : ∀ n < 32, n ∉ [8, 9, 10, 12, 13] →
      ['\\', 'u', '0', '0', hexDigit (n / 16), hexDigit (n % 16)].flatMap charUnits = quoteUnit n := by decide
  have hnot := not_surrogate c
  unfold escapeChar
  split_ifs with hquote hslash h8 h9 h10 h12 h13 h32
  · rw [hquote]
    decide
  · rw [hslash]
    decide
  · rw [h8]
    decide
  · rw [h9]
    decide
  · rw [h10]
    decide
  · rw [h12]
    decide
  · rw [h13]
    decide
  · exact hlow c.toNat h32 (by simp [h8, h9, h10, h12, h13])
  · have hquote' : c.toNat ≠ '"'.toNat := fun heq => hquote (Char.toNat_inj.mp heq)
    have hslash' : c.toNat ≠ '\\'.toNat := fun heq => hslash (Char.toNat_inj.mp heq)
    have hnone : Lib.JsonText.shortEscapes.lookup c.toNat = none := by
      rw [List.lookup_eq_none_iff]
      simpa [Lib.JsonText.shortEscapes] using ⟨hquote', hslash', h8, h9, h10, h12, h13⟩
    rw [quoteUnit, hnone]
    simp [charUnits, h, h32, Lib.JsonText.isHalf, hnot]

/-- `JSON.stringify`, unit by unit. -/
theorem codeUnits_stringify (s : String) : codeUnits (stringify s) = quote (codeUnits s) := by
  have hlist : ∀ cs : List Char, (cs.flatMap escapeChar).flatMap charUnits = quoteUnits (cs.flatMap charUnits) := by
    intro cs
    induction cs with
    | nil => rfl
    | cons c cs ih =>
        rw [List.flatMap_cons, List.flatMap_append, List.flatMap_cons, ih]
        by_cases hsmall : c.toNat < 0x10000
        · rw [escapeChar_units hsmall, charUnits, if_pos hsmall]
          exact (quoteUnits_cons (not_surrogate c) _).symm
        · have hplain : escapeChar c = [c] := by
            have hne : ∀ d : Char, d.toNat < 0x10000 → c ≠ d := by
              rintro d hd rfl
              exact hsmall hd
            rw [escapeChar, if_neg (hne _ (by decide)), if_neg (hne _ (by decide)), if_neg (by omega), if_neg (by omega),
              if_neg (by omega), if_neg (by omega), if_neg (by omega), if_neg (by omega)]
          have hmax := toNat_lt_max c
          have hpair : ∀ u v us, isPair u v = true → quoteUnits (u :: v :: us) = u :: v :: quoteUnits us :=
            fun u v us h => if_pos h
          rw [hplain, List.flatMap_singleton, charUnits, if_neg hsmall]
          refine (hpair _ _ _ ?_).symm
          rw [isPair, decide_eq_true_eq]
          omega
  rw [codeUnits_eq, stringify, String.toList_ofList, List.flatMap_append, List.flatMap_append, hlist]
  rfl

end Literals

end Elpis.Js
