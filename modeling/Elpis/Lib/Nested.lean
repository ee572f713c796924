import Elpis.Lib.Callout
import Mathlib.Logic.Relation

/-!
# Calls that come back

Code on one thread that calls out is not interrupted: what it asked may call in again, but
each of those calls ends before the answer does. So there is no stack to look at, only calls
that end, and inside each ask any number of further calls that end, to any depth.

`Within` are these runs. What holds of them is shown with `Meets`, which relies behind an
ask only on a relation `N` that every call keeps from its start to its end; `within_keeps`
is the induction over the depth.
-/

namespace Elpis.Lib.Routine

variable {ι : Interface} {σ α β C : Type}

/-! ## Runs -/

/-- The program runs to its end, and inside an ask the state goes as `V` says. -/
def Finishes (V : σ → σ → Prop) : Routine ι σ α → σ → α → σ → Prop
  | .ret a, s, b, t => a = b ∧ s = t
  | .read k, s, b, t => Finishes V (k s) s b t
  | .write f k, s, b, t => Finishes V k (f s) b t
  | .peek q k, s, b, t => ∃ a : ι.Seen q, Finishes V (k a) s b t
  | .ask q k, s, b, t => ∃ (a : ι.Reply q) (u : σ), V s u ∧ Finishes V (k a) u b t

/-- Calls one after another, with calls inside their asks to this depth. -/
def Within (program : C → Routine ι σ Unit) : ℕ → σ → σ → Prop
  | 0 => Eq
  | n + 1 => Relation.ReflTransGen
      (fun s t => ∃ c, Finishes (Within program n) (program c) s () t)

/-! ## What a program does -/

/-- From this state the program ends as `Q` says, if the calls inside an ask keep `N`. -/
def Meets (N : σ → σ → Prop) (Q : α → σ → Prop) : Routine ι σ α → σ → Prop
  | .ret a, s => Q a s
  | .read k, s => Meets N Q (k s) s
  | .write f k, s => Meets N Q k (f s)
  | .peek q k, s => ∀ a : ι.Seen q, Meets N Q (k a) s
  | .ask q k, s => ∀ (a : ι.Reply q) (u : σ), N s u → Meets N Q (k a) u

section Rules
variable {N : σ → σ → Prop} {s : σ}

@[simp] theorem meets_pure {Q : α → σ → Prop} {a : α} :
    Meets N Q (pure a : Routine ι σ α) s ↔ Q a s := Iff.rfl

@[simp] theorem meets_bind {Q : β → σ → Prop} {p : Routine ι σ α} {g : α → Routine ι σ β} :
    Meets N Q (p >>= g) s ↔ Meets N (fun a t => Meets N Q (g a) t) p s := by
  show Meets N Q (p.bind g) s ↔ _
  induction p generalizing s with
  | ret a => exact Iff.rfl
  | read k ih => exact ih s
  | write f k ih => exact ih
  | peek q k ih => exact forall_congr' (fun a => ih a)
  | ask q k ih => exact forall_congr' fun a => forall_congr' fun u => imp_congr_right fun _ => ih a

@[simp] theorem meets_get {Q : σ → σ → Prop} :
    Meets N Q (get : Routine ι σ σ) s ↔ Q s s := Iff.rfl

@[simp] theorem meets_modify {Q : Unit → σ → Prop} {f : σ → σ} :
    Meets N Q (modify f : Routine ι σ Unit) s ↔ Q () (f s) := Iff.rfl

@[simp] theorem meets_ite {Q : α → σ → Prop} {c : Prop} [Decidable c] {p p' : Routine ι σ α} :
    Meets N Q (if c then p else p') s ↔ (c → Meets N Q p s) ∧ (¬c → Meets N Q p' s) := by
  by_cases hc : c
  · simp [hc]
  · simp [hc]

theorem Meets.mono {Q Q' : α → σ → Prop} {p : Routine ι σ α} (hQ : ∀ a t, Q a t → Q' a t)
    (h : Meets N Q p s) : Meets N Q' p s := by
  induction p generalizing s with
  | ret a => exact hQ a s h
  | read k ih => exact ih s h
  | write f k ih => exact ih h
  | peek q k ih => exact fun a => ih a (h a)
  | ask q k ih => exact fun a u hu => ih a (h a u hu)

theorem meets_true (p : Routine ι σ α) (s : σ) : Meets N (fun _ _ => True) p s := by
  induction p generalizing s with
  | ret a => trivial
  | read k ih => exact ih s s
  | write f k ih => exact ih _
  | peek q k ih => exact fun a => ih a s
  | ask q k ih => exact fun a u _ => ih a u

end Rules

/-! ## Soundness -/

section Soundness
variable {V N : σ → σ → Prop}

theorem Meets.finishes (hV : ∀ s t, V s t → N s t) {Q : α → σ → Prop} {p : Routine ι σ α}
    {s t : σ} {b : α} (h : Meets N Q p s) (hrun : Finishes V p s b t) : Q b t := by
  induction p generalizing s with
  | ret a =>
      obtain ⟨rfl, rfl⟩ := hrun
      exact h
  | read k ih => exact ih s h hrun
  | write f k ih => exact ih h hrun
  | peek q k ih =>
      obtain ⟨a, hrun⟩ := hrun
      exact ih a (h a) hrun
  | ask q k ih =>
      obtain ⟨a, u, hu, hrun⟩ := hrun
      exact ih a (h a u (hV s u hu)) hrun

/-- **What every call keeps holds of every run.** The calls may rely on it inside their own
asks. -/
theorem within_keeps {program : C → Routine ι σ Unit} (hrefl : ∀ s, N s s)
    (htrans : ∀ s t u, N s t → N t u → N s u)
    (hcall : ∀ c s, Meets N (fun _ t => N s t) (program c) s) (n : ℕ) {s t : σ}
    (hrun : Within program n s t) : N s t := by
  induction n generalizing s t with
  | zero =>
      obtain rfl := hrun
      exact hrefl s
  | succ n ih =>
      induction hrun with
      | refl => exact hrefl s
      | tail _ hlast hN =>
          obtain ⟨c, hc⟩ := hlast
          exact htrans _ _ _ hN ((hcall c _).finishes (fun _ _ h => ih h) hc)

end Soundness

end Elpis.Lib.Routine
