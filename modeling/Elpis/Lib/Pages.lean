import Mathlib.Tactic

/-!
# Counting by pages

Rows are read a page at a time, and a condition is applied to each page behind the read. A count
that goes on where it has counted to, and stops at a page that the condition has left short, sees
every row that it shall count only if none of them stands behind a page with a gap.
-/

namespace Elpis.Lib

variable {α : Type*} (keep : α → Bool) (size : ℕ)

/-- What the condition leaves of the page at `offset`. -/
def page (rows : List α) (offset : ℕ) : List α := ((rows.drop offset).take size).filter keep

/-- The next page is read behind as many rows as were counted; a short page is the last. -/
def countPages (rows : List α) : ℕ → ℕ → Option ℕ
  | 0, _ => none
  | fuel + 1, counted =>
      let n := (page keep size rows counted).length
      if n < size then some (counted + n) else countPages rows fuel (counted + n)

/-- No row that is kept stands behind a page with a row that is not. -/
def FullPages (rows : List α) : Prop :=
  ∀ i x, rows[i]? = some x → keep x = true →
    ∀ j y, rows[j]? = some y → j < size * (i / size) → keep y = true

variable {keep size} {rows : List α}

/-- A page that is not short is there in full, and all of it is kept. -/
theorem page_full {offset : ℕ} (hsize : 0 < size) (h : ¬(page keep size rows offset).length < size) :
    (page keep size rows offset).length = size ∧ offset + size ≤ rows.length ∧
      ∀ x ∈ (rows.drop offset).take size, keep x = true := by
  have hfilter := List.length_filter_le keep ((rows.drop offset).take size)
  have htake := hfilter
  rw [List.length_take, List.length_drop] at htake
  unfold page at h ⊢
  refine ⟨by omega, by omega, ?_⟩
  refine List.length_filter_eq_length_iff.mp (le_antisymm hfilter ?_)
  rw [List.length_take, List.length_drop]
  omega

/-- As many pages as there are rows are enough. -/
theorem countPages_returns (hsize : 0 < size) {fuel counted : ℕ} (hcounted : counted ≤ rows.length)
    (hfuel : rows.length < counted + fuel) : ∃ n, countPages keep size rows fuel counted = some n := by
  induction fuel generalizing counted with
  | zero => omega
  | succ fuel ih =>
      rw [countPages]
      by_cases hshort : (page keep size rows counted).length < size
      · exact ⟨_, if_pos hshort⟩
      · obtain ⟨hlength, hthere, _⟩ := page_full hsize hshort
        simp only [if_neg hshort]
        rw [hlength]
        exact ih hthere (by omega)

/-- Behind a page that is all kept, gaps are those of the rest. -/
theorem fullPages_drop (hsize : 0 < size) (hkept : ∀ x ∈ rows.take size, keep x = true) :
    FullPages keep size (rows.drop size) ↔ FullPages keep size rows := by
  constructor
  · intro h i x hx hkeep j y hy hj
    by_cases hfirst : j < size
    · exact hkept y (List.mem_iff_getElem?.mpr ⟨j, by rwa [List.getElem?_take_of_lt hfirst]⟩)
    · have hi : size ≤ i := by
        by_contra hlt
        rw [Nat.div_eq_of_lt (not_le.mp hlt), Nat.mul_zero] at hj
        omega
      obtain ⟨i', rfl⟩ := Nat.exists_eq_add_of_le hi
      obtain ⟨j', rfl⟩ := Nat.exists_eq_add_of_le (not_lt.mp hfirst)
      rw [Nat.add_div_left _ hsize, Nat.mul_succ] at hj
      exact h i' x (by rwa [List.getElem?_drop]) hkeep j' y (by rwa [List.getElem?_drop]) (by omega)
  · intro h i x hx hkeep j y hy hj
    rw [List.getElem?_drop] at hx hy
    refine h (size + i) x hx hkeep (size + j) y hy ?_
    rw [Nat.add_div_left _ hsize, Nat.mul_succ]
    omega

/-- Where the first page has a gap, nothing behind it may be kept. -/
theorem fullPages_of_short (hsize : 0 < size) (hshort : (page keep size rows 0).length < size) :
    FullPages keep size rows ↔ ∀ x ∈ rows.drop size, keep x = false := by
  constructor
  · intro h x hx
    by_contra hkeep
    rw [Bool.not_eq_false] at hkeep
    obtain ⟨i, hi⟩ := List.mem_iff_getElem?.mp hx
    rw [List.getElem?_drop] at hi
    have hthere : size + i < rows.length := (List.getElem?_eq_some_iff.mp hi).1
    have hall : ∀ y ∈ rows.take size, keep y = true := by
      intro y hy
      obtain ⟨j, hj⟩ := List.mem_iff_getElem?.mp hy
      rw [List.getElem?_take] at hj
      split at hj
      · rename_i hlt
        refine h (size + i) x hi hkeep j y hj ?_
        rw [Nat.add_div_left _ hsize, Nat.mul_succ]
        omega
      · cases hj
    -- then the page was not short
    have hlength : (page keep size rows 0).length = size := by
      rw [page, List.drop_zero, List.filter_eq_self.mpr hall, List.length_take]
      omega
    omega
  · intro h i x hx hkeep j y hy hj
    have hi : i < size := by
      by_contra hge
      obtain ⟨i', rfl⟩ := Nat.exists_eq_add_of_le (not_lt.mp hge)
      have hmem : x ∈ rows.drop size := List.mem_iff_getElem?.mpr ⟨i', by rwa [List.getElem?_drop]⟩
      rw [h x hmem] at hkeep
      cases hkeep
    rw [Nat.div_eq_of_lt hi, Nat.mul_zero] at hj
    omega

/-- The count from some row on is the number kept from there on exactly if there is no gap before any of them. -/
theorem countPages_eq_iff (hsize : 0 < size) {fuel counted n : ℕ} (h : countPages keep size rows fuel counted = some n) :
    n = counted + (rows.drop counted).countP keep ↔ FullPages keep size (rows.drop counted) := by
  induction fuel generalizing counted with
  | zero => cases h
  | succ fuel ih =>
      have hpage : page keep size (rows.drop counted) 0 = page keep size rows counted := by
        rw [page, List.drop_zero]
        rfl
      have hsplit : (rows.drop counted).countP keep =
          (page keep size rows counted).length + (rows.drop (counted + size)).countP keep := by
        rw [page, ← List.countP_eq_length_filter, ← List.drop_drop, ← List.countP_append, List.take_append_drop]
      rw [countPages] at h
      by_cases hshort : (page keep size rows counted).length < size
      · simp only [if_pos hshort, Option.some.injEq] at h
        rw [fullPages_of_short hsize (hpage ▸ hshort), List.drop_drop, ← h, hsplit]
        constructor
        · intro heq
          have hzero : (rows.drop (counted + size)).countP keep = 0 := by omega
          exact fun x hx => Bool.eq_false_iff.mpr (List.countP_eq_zero.mp hzero x hx)
        · intro hnone
          have hzero : (rows.drop (counted + size)).countP keep = 0 :=
            List.countP_eq_zero.mpr (fun x hx => Bool.eq_false_iff.mp (hnone x hx))
          omega
      · obtain ⟨hlength, _, hkept⟩ := page_full hsize hshort
        simp only [if_neg hshort] at h
        rw [hlength] at h
        rw [← fullPages_drop hsize hkept, List.drop_drop, ← ih h, hsplit, hlength]
        omega

end Elpis.Lib
