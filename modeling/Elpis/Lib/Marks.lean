import Mathlib

/-!
# Counting marks in a text

A mark is a place where a test on the rest of the text succeeds. A test that begins with one
fixed element and never looks past certain others can be counted piece by piece, and a text
in which every mark is overwritten has none left.
-/

namespace Elpis.Lib

variable {α : Type}

/-- How many suffixes the test accepts. -/
def occurrences (p : List α → Bool) : List α → ℕ
  | [] => 0
  | x :: xs => (if p (x :: xs) then 1 else 0) + occurrences p xs

/-- Marks begin with `start`, and what is behind an element of `stop` does not matter to
them. -/
structure IsMark (start : α) (stop : α → Prop) (p : List α → Bool) : Prop where
  starts : ∀ {xs}, p xs = true → xs.head? = some start
  stops : ∀ {xs s ys}, xs ≠ [] → stop s → p (xs ++ s :: ys) = p xs

/-- Every mark is replaced at its first element by `r`. -/
def replaceMarks (p : List α → Bool) (r : List α) : List α → List α
  | [] => []
  | x :: xs => if p (x :: xs) then r ++ replaceMarks p r xs else x :: replaceMarks p r xs

section

variable {start : α} {stop : α → Prop} {p q : List α → Bool}

theorem occurrences_le (hpq : ∀ xs, p xs = true → q xs = true) (xs : List α) :
    occurrences p xs ≤ occurrences q xs := by
  induction xs with
  | nil => exact Nat.le_refl 0
  | cons x xs ih =>
      have hx : (if p (x :: xs) then 1 else 0) ≤ (if q (x :: xs) then 1 else 0) := by
        by_cases hp : p (x :: xs) = true
        · simp only [hp, hpq _ hp, if_true, Nat.le_refl]
        · rw [if_neg hp]
          exact Nat.zero_le _
      exact Nat.add_le_add hx ih

theorem occurrences_eq_zero_cons {x : α} {xs : List α} :
    occurrences p (x :: xs) = 0 ↔ p (x :: xs) = false ∧ occurrences p xs = 0 := by
  rw [occurrences]
  cases p (x :: xs) <;> simp

variable (h : IsMark start stop p)

include h

theorem occurrences_cons_of_ne {x : α} (hx : x ≠ start) (xs : List α) :
    occurrences p (x :: xs) = occurrences p xs := by
  have hp : p (x :: xs) = false := by
    cases hp : p (x :: xs)
    · rfl
    · exact absurd (Option.some.inj (h.starts hp)) hx
  rw [occurrences, hp]
  simp

/-- What has no `start` in it can be left out in front. -/
theorem occurrences_append_left {a : List α} (ha : start ∉ a) (b : List α) :
    occurrences p (a ++ b) = occurrences p b := by
  induction a with
  | nil => rfl
  | cons x xs ih =>
      rw [List.mem_cons, not_or] at ha
      rw [List.cons_append, occurrences_cons_of_ne h (Ne.symm ha.1), ih ha.2]

theorem occurrences_eq_zero {a : List α} (ha : start ∉ a) : occurrences p a = 0 := by
  have := occurrences_append_left h ha []
  rwa [List.append_nil] at this

/-- Pieces are counted one by one where the second begins with a stop. -/
theorem occurrences_append {a b : List α} (hb : ∀ s ∈ b.head?, stop s) :
    occurrences p (a ++ b) = occurrences p a + occurrences p b := by
  induction a with
  | nil => rw [List.nil_append, occurrences, Nat.zero_add]
  | cons x xs ih =>
      have hp : p (x :: xs ++ b) = p (x :: xs) := by
        cases b with
        | nil => rw [List.append_nil]
        | cons s ys => exact h.stops (List.cons_ne_nil x xs) (hb s rfl)
      rw [List.cons_append, occurrences, ih, ← List.cons_append, hp, occurrences, Nat.add_assoc]

theorem occurrences_sep {s : α} (hs : stop s) (hne : s ≠ start) (a b : List α) :
    occurrences p (a ++ s :: b) = occurrences p a + occurrences p b := by
  rw [occurrences_append h (by simpa using hs), occurrences_cons_of_ne h hne]

theorem occurrences_intercalate {s : α} (hs : stop s) (hne : s ≠ start) (parts : List (List α)) :
    occurrences p (List.intercalate [s] parts) = (parts.map (occurrences p)).sum := by
  induction parts with
  | nil => rfl
  | cons a rest ih =>
      cases rest with
      | nil => simp [List.intercalate]
      | cons b rest =>
          rw [List.intercalate_cons_cons, List.append_assoc, List.singleton_append,
            occurrences_sep h hs hne, ih]
          rfl

/-- A mark does not see whether those behind it are replaced. -/
theorem mark_append_replaceMarks {r : List α} (hq : IsMark start stop q) (hstart : stop start)
    (hr : ∃ s r', r = s :: r' ∧ stop s) (xs : List α) {a : List α} (ha : a ≠ []) :
    q (a ++ replaceMarks p r xs) = q (a ++ xs) := by
  obtain ⟨s, r', rfl, hs⟩ := hr
  induction xs generalizing a with
  | nil => rfl
  | cons x xs ih =>
      by_cases hp : p (x :: xs) = true
      · -- both texts go on with a stop
        obtain rfl := Option.some.inj (h.starts hp)
        rw [replaceMarks, if_pos hp, List.cons_append, hq.stops ha hs, hq.stops ha hstart]
      · rw [replaceMarks, if_neg hp, List.append_cons, ih (by simp), ← List.append_cons]

/-- Where every mark is replaced by something without a start, none is left, not of a
narrower kind either. -/
theorem occurrences_replaceMarks {r : List α} (hq : IsMark start stop q)
    (hqp : ∀ xs, q xs = true → p xs = true) (hstart : stop start)
    (hr : ∃ s r', r = s :: r' ∧ stop s) (hfree : start ∉ r) (xs : List α) :
    occurrences q (replaceMarks p r xs) = 0 := by
  induction xs with
  | nil => rfl
  | cons x xs ih =>
      by_cases hp : p (x :: xs) = true
      · rw [replaceMarks, if_pos hp, occurrences_append_left hq hfree, ih]
      · have hqx : q (x :: replaceMarks p r xs) = false := by
          have hsame := mark_append_replaceMarks h hq hstart hr xs (List.cons_ne_nil x [])
          rw [List.singleton_append, List.singleton_append] at hsame
          rw [hsame]
          exact Bool.eq_false_iff.mpr (fun hmark => hp (hqp _ hmark))
        rw [replaceMarks, if_neg hp, occurrences_eq_zero_cons]
        exact ⟨hqx, ih⟩

end

theorem IsMark.or {start : α} {stop : α → Prop} {p q : List α → Bool} (hp : IsMark start stop p)
    (hq : IsMark start stop q) : IsMark start stop (fun xs => p xs || q xs) where
  starts {xs} hxs := by
    rcases Bool.or_eq_true _ _ ▸ hxs with hxs | hxs
    · exact hp.starts hxs
    · exact hq.starts hxs
  stops hne hs := by rw [hp.stops hne hs, hq.stops hne hs]

/-- A fixed text is a mark if what stops it is only at its head. -/
theorem isMark_isPrefixOf [DecidableEq α] {start : α} {rest : List α} {stop : α → Prop}
    (hstop : ∀ s, stop s → s ∉ rest) : IsMark start stop (fun xs => (start :: rest).isPrefixOf xs) where
  starts {xs} hxs := by
    obtain ⟨ys, rfl⟩ := List.isPrefixOf_iff_prefix.mp hxs
    rfl
  stops {xs s ys} hne hs := by
    have hrest : ∀ (pat xs : List α), s ∉ pat → pat.isPrefixOf (xs ++ s :: ys) = pat.isPrefixOf xs := by
      intro pat
      induction pat with
      | nil => simp
      | cons x pat ih =>
          intro xs hmem
          rw [List.mem_cons, not_or] at hmem
          cases xs with
          | nil => simp [List.isPrefixOf, Ne.symm hmem.1]
          | cons y xs => simp [List.isPrefixOf, ih xs hmem.2]
    cases xs with
    | nil => exact absurd rfl hne
    | cons x xs => simp [List.isPrefixOf, hrest rest xs (hstop s hs)]

end Elpis.Lib
