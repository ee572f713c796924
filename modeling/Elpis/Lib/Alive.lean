import Elpis.Lib.Crash
import Elpis.Lib.Tx

/-!
# Programs that do not die

Without a budget of writes no process dies, and a program that leaves its memory alone is a
program over its store. `Alive` says which one, rule by rule.
-/

namespace Elpis.Lib.Crash

variable {δ μ ε α α' β β' : Type}

theorem bind_of_done {x : Crash δ μ ε α} {k : α → Crash δ μ ε α'} {n left : Option ℕ} {d d' : δ} {m m' : μ} {a : α}
    (h : x n d m = (.done a m' left, d')) : (x >>= k) n d m = k a left d' m' := by
  simp only [Bind.bind, h]

theorem bind_of_thrown {x : Crash δ μ ε α} {k : α → Crash δ μ ε α'} {n left : Option ℕ} {d d' : δ} {m m' : μ} {e : ε}
    (h : x n d m = (.thrown e m' left, d')) : (x >>= k) n d m = (.thrown e m' left, d') := by
  simp only [Bind.bind, h]

/-- The end of a run over the store, beside the memory `m`. -/
def beside (g : β → α) (m : μ) : Except ε β × δ → Outcome μ ε α × δ
  | (.ok b, d) => (.done (g b) m none, d)
  | (.error e, d) => (.thrown e m none, d)

theorem attempt_of_beside {x : Crash δ μ ε α} {r : Except ε α} {d d' : δ} {m m' : μ}
    (h : x none d m = beside id m' (r, d')) : attempt x none d m = (.done r m' none, d') := by
  rw [attempt, h]
  cases r with
  | error e => rfl
  | ok a => rfl

/-- As long as the process lives, `x` is `y` with its result read through `g`. -/
def Alive (g : β → α) (x : Crash δ μ ε α) (y : Tx δ ε β) : Prop := ∀ d m, x none d m = beside g m (y d)

namespace Alive

variable {g : β → α}

theorem pure (b : β) : Alive g (pure (g b) : Crash δ μ ε α) (Pure.pure b : Tx δ ε β) := fun _ _ => rfl

theorem read (f : δ → α) : Alive id (read (fun d _ => f d) : Crash δ μ ε α) (Tx.read f) := fun _ _ => rfl

theorem write (f : δ → δ) : Alive id (write f : Crash δ μ ε Unit) (Tx.write f) := fun _ _ => rfl

theorem bind {x : Crash δ μ ε α} {y : Tx δ ε β} {g' : β' → α'} {k : α → Crash δ μ ε α'} {k' : β → Tx δ ε β'}
    (h : Alive g x y) (hk : ∀ b, Alive g' (k (g b)) (k' b)) : Alive g' (x >>= k) (y >>= k') := by
  intro d m
  have hx := h d m
  rcases hy : y d with ⟨e | b, d'⟩
  · rw [hy] at hx
    rw [Tx.bind_of_error hy, bind_of_thrown hx]
    rfl
  · rw [hy] at hx
    rw [Tx.bind_of_ok hy, bind_of_done hx]
    exact hk b d' m

end Alive

end Elpis.Lib.Crash
