import Elpis.Lib.Table
import Mathlib.Data.List.Sort
import Mathlib.Order.Interval.Set.Basic

/-!
# Rows in the order of their keys

Rows written into a table one after the other, the rows of a table in the order of their
keys, and sets of keys without a gap. A set is gapless from a floor to a limit when it goes
up to the limit from each of its members, as far as the keys are not below the floor. Parts
of a log are collected that way: whole windows at the upper end, single entries behind it,
and pages below.
-/

namespace Elpis.Lib

namespace Table

variable {κ ρ : Type*} {key : ρ → κ}

section Write
variable [DecidableEq κ]

/-- Rows written one after the other: the last row with a key stands, in the place of the
first one. -/
def ofRows (key : ρ → κ) (rows : List ρ) : Table key := rows.foldl put empty

theorem get?_foldl_put (rows : List ρ) (t : Table key) (k : κ) :
    (rows.foldl put t).get? k = (rows.reverse.find? (fun r => decide (key r = k))).or (t.get? k) := by
  induction rows generalizing t with
  | nil => rfl
  | cons r rest ih =>
      rw [List.foldl_cons, ih, List.reverse_cons, List.find?_append, get?_put]
      by_cases h : k = key r
      · simp [h]
      · simp [h, Ne.symm h]

/-- Where equal keys mean equal rows, writing the rows loses none and adds none. -/
theorem mem_ofRows {rows : List ρ} {x : ρ}
    (hagree : ∀ r ∈ rows, ∀ r' ∈ rows, key r = key r' → r = r') :
    x ∈ ofRows key rows ↔ x ∈ rows := by
  have hget := get?_foldl_put rows (empty : Table key) (key x)
  rw [get?_empty, Option.or_none] at hget
  constructor
  · intro hx
    have hfind := hget.symm.trans (get?_key (t := ofRows key rows) hx)
    exact List.mem_reverse.mp (List.mem_of_find?_eq_some hfind)
  · intro hx
    cases hfind : rows.reverse.find? (fun r => decide (key r = key x)) with
    | none => simpa using List.find?_eq_none.mp hfind x (List.mem_reverse.mpr hx)
    | some y =>
        have hy := List.mem_reverse.mp (List.mem_of_find?_eq_some hfind)
        have hk : key y = key x := by simpa using List.find?_some hfind
        rw [hfind, hagree y hy x hx hk] at hget
        exact mem_of_get? hget

end Write

section Order
variable [LinearOrder κ]

/-- The rows in the order of their keys. -/
def sorted (t : Table key) : List ρ := t.rows.insertionSort (fun r r' => key r ≤ key r')

theorem mem_sorted {t : Table key} {x : ρ} : x ∈ t.sorted ↔ x ∈ t :=
  List.mem_insertionSort _

theorem pairwise_sorted (t : Table key) : t.sorted.Pairwise (fun r r' => key r < key r') := by
  have : Std.Total (fun r r' : ρ => key r ≤ key r') := ⟨fun r r' => le_total (key r) (key r')⟩
  have : IsTrans ρ (fun r r' : ρ => key r ≤ key r') := ⟨fun _ _ _ => le_trans⟩
  have hle : t.sorted.Pairwise (fun r r' => key r ≤ key r') := List.pairwise_insertionSort _ _
  have hperm : (t.sorted.map key).Perm (t.rows.map key) := (List.perm_insertionSort _ _).map key
  have hne : t.sorted.Pairwise (fun r r' => key r ≠ key r') :=
    List.pairwise_map.mp (hperm.nodup_iff.mpr t.nodup)
  exact (hle.and hne).imp (fun h => lt_of_le_of_ne h.1 h.2)

end Order

end Table

/-- Lists in the strict order of their keys are equal when they have the same members. -/
theorem eq_of_pairwise_lt {κ ρ : Type*} [LinearOrder κ] (key : ρ → κ) {l l' : List ρ}
    (hl : l.Pairwise (fun r r' => key r < key r')) (hl' : l'.Pairwise (fun r r' => key r < key r'))
    (hmem : ∀ r, r ∈ l ↔ r ∈ l') : l = l' := by
  have hnodup : ∀ {l : List ρ}, l.Pairwise (fun r r' => key r < key r') → l.Nodup := by
    intro l h
    refine h.imp ?_
    rintro r r' hlt rfl
    exact lt_irrefl _ hlt
  have hperm : l.Perm l' := (List.perm_ext_iff_of_nodup (hnodup hl) (hnodup hl')).mpr hmem
  exact hperm.eq_of_pairwise (fun _ _ _ _ h h' => absurd h (lt_asymm h')) hl hl'

/-- Behind the first `n` rows of a descending list stand the rows that at least `n` others
exceed. -/
theorem mem_drop_iff {κ ρ : Type*} [LinearOrder κ] [DecidableLT κ] (key : ρ → κ) {l : List ρ} {x : ρ} (n : ℕ)
    (hl : l.Pairwise (fun r r' => key r' < key r)) (hx : x ∈ l) :
    x ∈ l.drop n ↔ n ≤ (l.filter (fun r => decide (key x < key r))).length := by
  induction l generalizing n with
  | nil => simp at hx
  | cons r l ih =>
      obtain ⟨hr, hl⟩ := List.pairwise_cons.mp hl
      cases n with
      | zero => simpa using hx
      | succ n =>
          rw [List.drop_succ_cons]
          rcases List.mem_cons.mp hx with rfl | hmem
          · have hnot : x ∉ l := fun hmem => lt_irrefl _ (hr x hmem)
            have hnone : (x :: l).filter (fun r => decide (key x < key r)) = [] := by
              refine List.filter_eq_nil_iff.mpr ?_
              intro r hr'
              rcases List.mem_cons.mp hr' with rfl | hr'
              · simp
              · simpa using (hr r hr').le
            rw [hnone]
            simpa using fun h => hnot (List.mem_of_mem_drop h)
          · rw [ih n hl hmem, List.filter_cons_of_pos (by simpa using hr x hmem), List.length_cons]
            omega

/-! ## Sets without a gap -/

section Gapless
variable {α : Type*} [LinearOrder α]

/-- From each of its members `S` goes up to the limit, down to the floor. -/
def Gapless (floor limit : α) (S : Set α) : Prop :=
  ∀ a ∈ S, ∀ n, a ≤ n → floor ≤ n → n < limit → n ∈ S

namespace Gapless

variable {floor floor' limit limit' : α} {S P : Set α}

theorem empty : Gapless floor limit (∅ : Set α) := fun _ ha => absurd ha (Set.notMem_empty _)

theorem mono (h : Gapless floor limit S) (hf : floor ≤ floor') (hl : limit' ≤ limit) :
    Gapless floor' limit' S :=
  fun a ha n han hn hlim => h a ha n han (hf.trans hn) (hlim.trans_le hl)

/-- Members from the limit on change nothing. -/
theorem union_above (h : Gapless floor limit S) (hP : ∀ p ∈ P, limit ≤ p) :
    Gapless floor limit (S ∪ P) := by
  rintro a (ha | ha) n han hn hlim
  · exact Or.inl (h a ha n han hn hlim)
  · exact absurd hlim (not_lt.mpr ((hP a ha).trans han))

/-- A window that begins no later than the limit, or than the floor, moves the limit to its
own end. -/
theorem union_window {s : α} (h : Gapless floor limit S) (hs : s ≤ max limit floor)
    (hfirst : ∀ p ∈ P, s ≤ p) (hP : ∀ n, s ≤ n → n < limit' → n ∈ P) :
    Gapless floor limit' (S ∪ P) := by
  intro a ha n han hn hlim
  by_cases hsn : s ≤ n
  · exact Or.inr (hP n hsn hlim)
  · rw [not_le] at hsn
    have hlow : n < limit := by
      rcases lt_max_iff.mp (hsn.trans_le hs) with hlt | hlt
      · exact hlt
      · exact absurd hn (not_le.mpr hlt)
    rcases ha with ha | ha
    · exact Or.inl (h a ha n han hn hlow)
    · exact absurd (hfirst a ha) (not_le.mpr (han.trans_lt hsn))

/-- A page that ends where a member stands, or below the floor, goes on into the set. -/
theorem union_page {u : α} (h : Gapless floor limit S) (hP : Gapless floor u P)
    (hS : ∃ a ∈ S, a ≤ max u floor) : Gapless floor limit (S ∪ P) := by
  obtain ⟨b, hb, hbu⟩ := hS
  rintro a (ha | ha) n han hn hlim
  · exact Or.inl (h a ha n han hn hlim)
  · by_cases hu : n < u
    · exact Or.inr (hP a ha n han hn hu)
    · have hbn : b ≤ n := hbu.trans (max_le (not_lt.mp hu) hn)
      exact Or.inl (h b hb n hbn hn hlim)

end Gapless

end Gapless

end Elpis.Lib
