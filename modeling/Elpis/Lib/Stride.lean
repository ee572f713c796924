import Mathlib.Data.List.Basic
import Mathlib.Data.Nat.Digits.Defs
import Mathlib.Tactic

/-!
# Loops that walk an array in strides

A loop `while (p + width <= len) { ...; p += width; }` over an index. Run with enough fuel it does
its body once for each whole stride that fits, in order, and stops behind the last one. What it
reads is the list of chunks of the array.
-/

namespace Elpis.Lib

variable {α σ τ : Type*}

/-- `while (p + width <= len) { s = body(p, s); p += width; }`, for at most `fuel` rounds. -/
def strideLoop (width len : ℕ) (body : ℕ → σ → σ) : ℕ → ℕ → σ → ℕ × σ
  | 0, p, s => (p, s)
  | fuel + 1, p, s =>
      if p + width ≤ len then strideLoop width len body fuel (p + width) (body p s) else (p, s)

/-- The bodies of `n` strides from `p` on. -/
def strides (width : ℕ) (body : ℕ → σ → σ) : ℕ → ℕ → σ → σ
  | 0, _, s => s
  | n + 1, p, s => strides width body n (p + width) (body p s)

/-- **The loop.** It takes as many strides as fit between `p` and `len`. -/
theorem strideLoop_eq {width : ℕ} (hwidth : 0 < width) (len : ℕ) (body : ℕ → σ → σ) :
    ∀ (fuel p : ℕ) (s : σ), (len - p) / width ≤ fuel →
      strideLoop width len body fuel p s =
        (p + width * ((len - p) / width), strides width body ((len - p) / width) p s) := by
  intro fuel
  induction fuel with
  | zero =>
      intro p s hfuel
      rw [Nat.le_zero.mp hfuel]
      rfl
  | succ fuel ih =>
      intro p s hfuel
      rw [strideLoop]
      by_cases hfits : p + width ≤ len
      · -- one stride is taken, and one fewer is left
        have hleft : (len - p) / width = (len - (p + width)) / width + 1 := by
          rw [← Nat.sub_sub, ← Nat.add_div_right _ hwidth, Nat.sub_add_cancel (by omega)]
        rw [if_pos hfits, ih (p + width) (body p s) (by omega), hleft, strides, Nat.mul_add]
        congr 1
        omega
      · rw [if_neg hfits, Nat.div_eq_of_lt (by omega)]
        rfl

/-! ## Chunks -/

/-- `n` chunks of this width, from the front. -/
def chunks (width : ℕ) : ℕ → List α → List (List α)
  | 0, _ => []
  | n + 1, xs => xs.take width :: chunks width n (xs.drop width)

/-- Whole chunks are taken off the front as long as there are any. -/
def consume (width : ℕ) (step : τ → List α → τ) (acc : τ) (xs : List α) : τ × List α :=
  ((chunks width (xs.length / width) xs).foldl step acc, xs.drop (width * (xs.length / width)))

section Chunks
variable {width : ℕ} {body : ℕ → σ → σ} {step : τ → List α → τ}

/-- A walk whose body only looks at its chunk is a fold over the chunks, up to the view `f` of the
state. -/
theorem strides_chunks (xs : List α) (f : τ → σ) (hbody : ∀ p t, body p (f t) = f (step t ((xs.drop p).take width)))
    (n p : ℕ) (t : τ) :
    strides width body n p (f t) = f ((chunks width n (xs.drop p)).foldl step t) := by
  induction n generalizing p t with
  | zero => rfl
  | succ n ih =>
      rw [strides, hbody, ih, chunks, List.foldl_cons, List.drop_drop]

/-- **A loop consumes chunks.** Behind the loop stands what is left of the array. -/
theorem strideLoop_consume (xs : List α) (hwidth : 0 < width) (f : τ → σ)
    (hbody : ∀ p t, body p (f t) = f (step t ((xs.drop p).take width))) (p : ℕ) (t : τ) :
    ∃ q, strideLoop width xs.length body xs.length p (f t) = (q, f (consume width step t (xs.drop p)).1) ∧
      (consume width step t (xs.drop p)).2 = xs.drop q := by
  have hfuel : (xs.length - p) / width ≤ xs.length := (Nat.div_le_self _ _).trans (Nat.sub_le _ _)
  refine ⟨p + width * ((xs.length - p) / width), ?_, ?_⟩
  · rw [strideLoop_eq hwidth _ _ _ _ _ hfuel, strides_chunks xs f hbody, consume, List.length_drop]
  · rw [consume, List.length_drop, List.drop_drop]

theorem length_consume (acc : τ) (xs : List α) :
    (consume width step acc xs).2.length = xs.length % width := by
  rw [consume, List.length_drop]
  exact Nat.sub_eq_of_eq_add (Nat.mod_add_div _ _).symm

end Chunks

end Elpis.Lib
