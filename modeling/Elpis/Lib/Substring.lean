import Mathlib.Tactic

/-!
# Occurrences of a pattern

Where a pattern stands in a text, the scan for its occurrences from left to right, each behind the
one before, and the text in which each of these is replaced. The pattern is never empty.
-/

namespace Elpis.Lib.Substring

variable {α : Type}

/-- The pattern stands in the text at this place. -/
def Occurs (pat text : List α) (i : ℕ) : Prop := pat <+: text.drop i

/-! ## Searching -/

section Searching
variable [DecidableEq α]

/-- The first place of the pattern. -/
def indexOf (pat : List α) : List α → Option ℕ
  | [] => if pat = [] then some 0 else none
  | c :: cs => if pat.isPrefixOf (c :: cs) then some 0 else (indexOf pat cs).map (· + 1)

/-- The first place of the pattern that is not before `i`. -/
def indexFrom (pat text : List α) (i : ℕ) : Option ℕ := (indexOf pat (text.drop i)).map (i + ·)

/-- The places of the pattern from `i` on, each behind the one before. -/
def offsetsFrom (pat text : List α) : ℕ → ℕ → List ℕ
  | 0, _ => []
  | fuel + 1, i =>
      match indexFrom pat text i with
      | none => []
      | some j => j :: offsetsFrom pat text fuel (j + pat.length)

/-- What stands at `off` becomes `new`. -/
def splice (len : ℕ) (new out : List α) (off : ℕ) : List α := out.take off ++ new ++ out.drop (off + len)

/-- The pattern replaced from left to right, with `skip` units of an occurrence still to go. -/
def replaceFrom (pat new : List α) : ℕ → List α → List α
  | _, [] => []
  | skip + 1, _ :: cs => replaceFrom pat new skip cs
  | 0, c :: cs =>
      if pat.isPrefixOf (c :: cs) then new ++ replaceFrom pat new (pat.length - 1) cs
      else c :: replaceFrom pat new 0 cs

def replaceAll (pat new text : List α) : List α := replaceFrom pat new 0 text

end Searching

/-! ## The first occurrence -/

section First
variable {pat text : List α} {i j : ℕ}

theorem occurs_lt (hpat : pat ≠ []) (h : Occurs pat text i) : i < text.length := by
  by_contra hi
  rw [Occurs, List.drop_eq_nil_of_le (not_lt.mp hi)] at h
  exact hpat (List.prefix_nil.mp h)

theorem occurs_drop : Occurs pat (text.drop i) j ↔ Occurs pat text (i + j) := by
  rw [Occurs, Occurs, List.drop_drop]

variable [DecidableEq α]

theorem occurs_zero : Occurs pat text 0 ↔ pat.isPrefixOf text = true := by
  rw [Occurs, List.drop_zero, List.isPrefixOf_iff_prefix]

theorem indexOf_eq_some : indexOf pat text = some i →
    Occurs pat text i ∧ ∀ k < i, ¬Occurs pat text k := by
  induction text generalizing i with
  | nil =>
      intro h
      rw [indexOf] at h
      split_ifs at h with hpat
      obtain rfl := Option.some.inj h
      exact ⟨hpat ▸ List.nil_prefix, fun k hk => absurd hk (Nat.not_lt_zero k)⟩
  | cons c cs ih =>
      intro h
      rw [indexOf] at h
      split_ifs at h with hpre
      · obtain rfl := Option.some.inj h
        exact ⟨occurs_zero.mpr hpre, fun k hk => absurd hk (Nat.not_lt_zero k)⟩
      · obtain ⟨i, hi, rfl⟩ := Option.map_eq_some_iff.mp h
        obtain ⟨hoccurs, hfirst⟩ := ih hi
        refine ⟨hoccurs, fun k hk => ?_⟩
        cases k with
        | zero => exact fun hzero => hpre (occurs_zero.mp hzero)
        | succ k => exact hfirst k (Nat.lt_of_succ_lt_succ hk)

theorem indexOf_eq_none (hpat : pat ≠ []) (h : indexOf pat text = none) : ¬Occurs pat text i := by
  induction text generalizing i with
  | nil => exact fun hoccurs => absurd (occurs_lt hpat hoccurs) (Nat.not_lt_zero i)
  | cons c cs ih =>
      rw [indexOf] at h
      split_ifs at h with hpre
      cases i with
      | zero => exact fun hzero => hpre (occurs_zero.mp hzero)
      | succ i => exact ih (Option.map_eq_none_iff.mp h)

theorem indexFrom_eq_some (h : indexFrom pat text i = some j) :
    i ≤ j ∧ Occurs pat text j ∧ ∀ k, i ≤ k → k < j → ¬Occurs pat text k := by
  obtain ⟨d, hd, rfl⟩ := Option.map_eq_some_iff.mp h
  obtain ⟨hoccurs, hfirst⟩ := indexOf_eq_some hd
  refine ⟨Nat.le_add_right i d, occurs_drop.mp hoccurs, fun k hik hk => ?_⟩
  obtain ⟨e, rfl⟩ := Nat.exists_eq_add_of_le hik
  exact fun hk' => hfirst e (by omega) (occurs_drop.mpr hk')

theorem indexFrom_eq_none (hpat : pat ≠ []) (h : indexFrom pat text i = none) (hij : i ≤ j) :
    ¬Occurs pat text j := by
  obtain ⟨d, rfl⟩ := Nat.exists_eq_add_of_le hij
  exact fun hd => indexOf_eq_none hpat (Option.map_eq_none_iff.mp h) (occurs_drop.mpr hd)

end First

/-! ## The scan -/

/-- The places that a scan from `i` finds. -/
inductive Scan (pat text : List α) : ℕ → List ℕ → Prop
  | done {i : ℕ} (h : ∀ j, i ≤ j → ¬Occurs pat text j) : Scan pat text i []
  | found {i j : ℕ} {offs : List ℕ} (hij : i ≤ j) (h : Occurs pat text j)
      (hfirst : ∀ k, i ≤ k → k < j → ¬Occurs pat text k) (hrest : Scan pat text (j + pat.length) offs) :
      Scan pat text i (j :: offs)

section Scan
variable {pat text : List α} {i : ℕ} {offs : List ℕ}

theorem scan_offsetsFrom [DecidableEq α] (hpat : pat ≠ []) {fuel : ℕ} (hfuel : text.length < fuel + i) :
    Scan pat text i (offsetsFrom pat text fuel i) := by
  induction fuel generalizing i with
  | zero => exact Scan.done (fun j hj hoccurs => absurd (occurs_lt hpat hoccurs) (by omega))
  | succ fuel ih =>
      rw [offsetsFrom]
      cases hindex : indexFrom pat text i with
      | none => exact Scan.done (fun j hj => indexFrom_eq_none hpat hindex hj)
      | some j =>
          obtain ⟨hij, hoccurs, hfirst⟩ := indexFrom_eq_some hindex
          have hpos : 0 < pat.length := List.length_pos_of_ne_nil hpat
          exact Scan.found hij hoccurs hfirst (ih (by omega))

theorem Scan.occurs (h : Scan pat text i offs) {j : ℕ} (hj : j ∈ offs) : i ≤ j ∧ Occurs pat text j := by
  induction h with
  | done => cases hj
  | found hij hoccurs _ _ ih =>
      rcases List.mem_cons.mp hj with rfl | hj
      · exact ⟨hij, hoccurs⟩
      · obtain ⟨hlater, hj⟩ := ih hj
        exact ⟨by omega, hj⟩

theorem Scan.pairwise (hpat : pat ≠ []) (h : Scan pat text i offs) : offs.Pairwise (· < ·) := by
  have hpos : 0 < pat.length := List.length_pos_of_ne_nil hpat
  induction h with
  | done => exact List.Pairwise.nil
  | found _ _ _ hrest ih =>
      refine List.pairwise_cons.mpr ⟨fun j hj => ?_, ih⟩
      have hlater := (hrest.occurs hj).1
      omega

theorem Scan.eq_nil_iff (h : Scan pat text i offs) : offs = [] ↔ ∀ j, i ≤ j → ¬Occurs pat text j := by
  cases h with
  | done hnone => exact iff_of_true rfl hnone
  | found hij hoccurs _ _ => exact iff_of_false (List.cons_ne_nil _ _) (fun hnone => hnone _ hij hoccurs)

/-- Two occurrences that do not overlap are more than a scan finds one of. -/
theorem Scan.two_le (h : Scan pat text i offs) {j k : ℕ} (hj : Occurs pat text j) (hk : Occurs pat text k)
    (hij : i ≤ j) (hjk : j + pat.length ≤ k) : 2 ≤ offs.length := by
  cases h with
  | done hnone => exact absurd hj (hnone j hij)
  | @found _ first rest hle hoccurs hfirst hrest =>
      have hbefore : first ≤ j := by
        by_contra hlt
        exact hfirst j hij (not_le.mp hlt) hj
      cases hrest with
      | done hnone => exact absurd hk (hnone k (by omega))
      | found => exact Nat.le_add_left 2 _

/-- Of a pattern that stands in one place, the scan finds that place. -/
theorem Scan.eq_singleton (hpat : pat ≠ []) (h : Scan pat text i offs) {j : ℕ} (hij : i ≤ j)
    (honly : ∀ k, Occurs pat text k ↔ k = j) : offs = [j] := by
  cases h with
  | done hnone => exact absurd ((honly j).mpr rfl) (hnone j hij)
  | found _ hoccurs _ hrest =>
      obtain rfl := (honly _).mp hoccurs
      have hpos : 0 < pat.length := List.length_pos_of_ne_nil hpat
      rw [hrest.eq_nil_iff.mpr]
      intro k hk hoccurs'
      have := (honly k).mp hoccurs'
      omega

end Scan

/-! ## Replacing -/

section Replace
variable [DecidableEq α] {pat new text : List α} {i : ℕ} {offs : List ℕ}

theorem replaceFrom_skip (skip : ℕ) (text : List α) :
    replaceFrom pat new skip text = replaceAll pat new (text.drop skip) := by
  induction skip generalizing text with
  | zero => rfl
  | succ skip ih =>
      cases text with
      | nil => rfl
      | cons c cs => exact ih cs

theorem replaceAll_of_occurs (hpat : pat ≠ []) (h : Occurs pat text 0) :
    replaceAll pat new text = new ++ replaceAll pat new (text.drop pat.length) := by
  cases text with
  | nil => exact absurd (occurs_lt hpat h) (Nat.not_lt_zero 0)
  | cons c cs =>
      obtain ⟨p, ps, rfl⟩ := List.exists_cons_of_ne_nil hpat
      rw [replaceAll, replaceFrom, if_pos (occurs_zero.mp h), replaceFrom_skip]
      rfl

theorem replaceAll_of_not_occurs {c : α} {cs : List α} (h : ¬Occurs pat (c :: cs) 0) :
    replaceAll pat new (c :: cs) = c :: replaceAll pat new cs := by
  rw [replaceAll, replaceFrom, if_neg (fun hpre => h (occurs_zero.mpr hpre))]
  rfl

theorem replaceAll_of_none (h : ∀ j, ¬Occurs pat text j) : replaceAll pat new text = text := by
  induction text with
  | nil => rfl
  | cons c cs ih => rw [replaceAll_of_not_occurs (h 0), ih (fun j => h (j + 1))]

/-- Up to the first occurrence the text stays as it is. -/
theorem replaceAll_of_first (hpat : pat ≠ []) {j : ℕ} (h : Occurs pat text j)
    (hfirst : ∀ k < j, ¬Occurs pat text k) :
    replaceAll pat new text = text.take j ++ new ++ replaceAll pat new (text.drop (j + pat.length)) := by
  induction j generalizing text with
  | zero => rw [replaceAll_of_occurs hpat h, Nat.zero_add, List.take_zero, List.nil_append]
  | succ j ih =>
      cases text with
      | nil => exact absurd (occurs_lt hpat h) (Nat.not_lt_zero _)
      | cons c cs =>
          rw [replaceAll_of_not_occurs (hfirst 0 (Nat.succ_pos j)), ih h (fun k hk => hfirst (k + 1) (by omega)),
            Nat.add_right_comm]
          rfl

/-- What the scan finds, replaced from right to left, is the pattern replaced from left to right. -/
theorem Scan.foldl_splice (hpat : pat ≠ []) (h : Scan pat text i offs) :
    offs.reverse.foldl (splice pat.length new) text = text.take i ++ replaceAll pat new (text.drop i) := by
  induction h with
  | done hnone =>
      rw [replaceAll_of_none (fun j hj => hnone _ (Nat.le_add_right _ j) (occurs_drop.mp hj)), List.take_append_drop]
      rfl
  | @found i j offs hij hoccurs hfirst hrest ih =>
      obtain ⟨d, rfl⟩ := Nat.exists_eq_add_of_le hij
      have hlt : i + d < text.length := occurs_lt hpat hoccurs
      have hshort : (text.take (i + d)).length = i + d := List.length_take_of_le hlt.le
      -- behind this one all are replaced already, and it still stands where it was
      have hlater : offs.reverse.foldl (splice pat.length new) text =
          text.take (i + d) ++ (pat ++ replaceAll pat new (text.drop (i + d + pat.length))) := by
        rw [ih, List.take_add, ← List.prefix_iff_eq_take.mp hoccurs, List.append_assoc]
      have hfirst' : replaceAll pat new (text.drop i) =
          (text.drop i).take d ++ new ++ replaceAll pat new (text.drop (i + d + pat.length)) := by
        rw [replaceAll_of_first hpat (occurs_drop.mpr hoccurs)
          (fun k hk hoccurs' => hfirst (i + k) (Nat.le_add_right i k) (by omega) (occurs_drop.mp hoccurs')),
          List.drop_drop, Nat.add_assoc]
      rw [List.reverse_cons, List.foldl_append, hlater, hfirst', List.foldl_cons, List.foldl_nil, splice,
        List.take_left' hshort, List.drop_append, hshort, List.drop_eq_nil_of_le (by omega), List.nil_append,
        Nat.add_sub_cancel_left, List.drop_left, List.take_add]
      simp only [List.append_assoc]

end Replace

end Elpis.Lib.Substring
