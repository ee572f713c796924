import Mathlib.Tactic

/-!
# Programs that write a log and ask the outside

A `Prog` appends records to a durable log and puts questions to the outside, whose
answers it cannot foresee. Its `trace` under an oracle is the list of what it does,
and a crash leaves a prefix of the trace. A `Proc` is such a program with a memory
and with exceptions: what is thrown keeps the memory as it is, and a crash loses it.

A monitor is an automaton over events. `wp` runs a program symbolically against a
monitor, so that every prefix of every trace is accepted: what has to hold at every
crash point is stated once, as the moves of the monitor, and proved along the
program. What the accepted lists of events have in common follows by `accepts_inv`.
-/

namespace Elpis.Lib

/-- `R q` is the type of the answers to `q`. -/
inductive Prog (ρ Q : Type) (R : Q → Type) (α : Type) : Type where
  | pure (a : α)
  | write (r : ρ) (next : Prog ρ Q R α)
  | ask (q : Q) (next : R q → Prog ρ Q R α)

/-- What can be observed. `opened` begins a process. -/
inductive Event (ρ Q : Type) (R : Q → Type) : Type where
  | opened
  | wrote (r : ρ)
  | asked (q : Q)
  | replied (q : Q) (x : R q)

/-- The answer to the question with a given number, whichever it is. -/
abbrev Oracle {Q : Type} (R : Q → Type) := ℕ → ∀ q, R q

variable {ρ Q : Type} {R : Q → Type} {σ ε α β μ : Type}

/-! ## Monitors -/

/-- The monitor may go from `t` to `t'` over the events. -/
def Accepts (mon : μ → Event ρ Q R → μ → Prop) : μ → List (Event ρ Q R) → μ → Prop
  | t, [], t' => t = t'
  | t, e :: es, t' => ∃ u, mon t e u ∧ Accepts mon u es t'

section Accepts
variable {mon : μ → Event ρ Q R → μ → Prop}

theorem accepts_append {es fs : List (Event ρ Q R)} {t t' : μ} :
    Accepts mon t (es ++ fs) t' ↔ ∃ u, Accepts mon t es u ∧ Accepts mon u fs t' := by
  induction es generalizing t with
  | nil =>
      constructor
      · intro h
        exact ⟨t, rfl, h⟩
      · rintro ⟨u, rfl, h⟩
        exact h
  | cons e es ih =>
      constructor
      · rintro ⟨v, hv, h⟩
        obtain ⟨u, hu, h'⟩ := ih.mp h
        exact ⟨u, ⟨v, hv, hu⟩, h'⟩
      · rintro ⟨u, ⟨v, hv, hu⟩, h'⟩
        exact ⟨v, hv, ih.mpr ⟨u, hu, h'⟩⟩

/-- What every accepted event preserves holds at the end. `P` may look at the events
so far. -/
theorem accepts_inv {P : List (Event ρ Q R) → μ → Prop}
    (hstep : ∀ es e t t', P es t → mon t e t' → P (es ++ [e]) t') :
    ∀ {fs es : List (Event ρ Q R)} {t t' : μ}, P es t → Accepts mon t fs t' → P (es ++ fs) t' := by
  intro fs
  induction fs with
  | nil =>
      rintro es t t' hP rfl
      rw [List.append_nil]
      exact hP
  | cons e fs ih =>
      rintro es t t' hP ⟨u, hu, h⟩
      have hnext := ih (hstep es e t u hP hu) h
      rwa [List.append_assoc] at hnext

theorem accepts_keeps {P : μ → Prop} (hstep : ∀ e t t', P t → mon t e t' → P t')
    {es : List (Event ρ Q R)} {t t' : μ} (hP : P t) (h : Accepts mon t es t') : P t' := by
  induction es generalizing t with
  | nil =>
      cases h
      exact hP
  | cons e es ih =>
      obtain ⟨u, hu, hes⟩ := h
      exact ih (hstep e t u hP hu) hes

end Accepts

/-! ## Programs -/

namespace Prog

def bind : Prog ρ Q R α → (α → Prog ρ Q R β) → Prog ρ Q R β
  | pure a, f => f a
  | write r next, f => write r (next.bind f)
  | ask q next, f => ask q (fun x => (next x).bind f)

/-- What the program does when `n` questions have been answered before. -/
def trace (oracle : Oracle R) : ℕ → Prog ρ Q R α → List (Event ρ Q R)
  | _, pure _ => []
  | n, write r next => .wrote r :: trace oracle n next
  | n, ask q next => .asked q :: .replied q (oracle n q) :: trace oracle (n + 1) (next (oracle n q))

theorem opened_not_mem_trace (oracle : Oracle R) (p : Prog ρ Q R α) :
    ∀ n, .opened ∉ trace oracle n p := by
  induction p with
  | pure a => exact fun _ => List.not_mem_nil
  | write r next ih =>
      intro n hmem
      rcases List.mem_cons.mp hmem with hhead | hmem
      · cases hhead
      · exact ih n hmem
  | ask q next ih =>
      intro n hmem
      rcases List.mem_cons.mp hmem with hhead | hmem
      · cases hhead
      · rcases List.mem_cons.mp hmem with hhead | hmem
        · cases hhead
        · exact ih _ (n + 1) hmem

/-- Against a monitor in a state, the program ends as `P` says. -/
def wp (mon : μ → Event ρ Q R → μ → Prop) : Prog ρ Q R α → (α → μ → Prop) → μ → Prop
  | pure a, P, t => P a t
  | write r next, P, t => ∃ t', mon t (.wrote r) t' ∧ next.wp mon P t'
  | ask q next, P, t => ∃ t', mon t (.asked q) t' ∧
      ∀ x, ∃ t'', mon t' (.replied q x) t'' ∧ (next x).wp mon P t''

theorem wp_bind {mon : μ → Event ρ Q R → μ → Prop} {P : β → μ → Prop} {f : α → Prog ρ Q R β}
    (p : Prog ρ Q R α) :
    ∀ t, (p.bind f).wp mon P t ↔ p.wp mon (fun a t' => (f a).wp mon P t') t := by
  induction p with
  | pure a => exact fun _ => Iff.rfl
  | write r next ih =>
      intro t
      simp only [bind, wp, ih]
  | ask q next ih =>
      intro t
      simp only [bind, wp, ih]

theorem wp_mono {mon : μ → Event ρ Q R → μ → Prop} {P P' : α → μ → Prop}
    (hP : ∀ a t, P a t → P' a t) (p : Prog ρ Q R α) :
    ∀ t, p.wp mon P t → p.wp mon P' t := by
  induction p with
  | pure a => exact fun t h => hP a t h
  | write r next ih =>
      rintro t ⟨t', ht', h⟩
      exact ⟨t', ht', ih t' h⟩
  | ask q next ih =>
      rintro t ⟨t', ht', h⟩
      refine ⟨t', ht', ?_⟩
      intro x
      obtain ⟨t'', ht'', hx⟩ := h x
      exact ⟨t'', ht'', ih x t'' hx⟩

/-- **Every crash point.** The monitor accepts every prefix of every trace. -/
theorem wp_trace {mon : μ → Event ρ Q R → μ → Prop} {P : α → μ → Prop} (oracle : Oracle R)
    (p : Prog ρ Q R α) :
    ∀ (n k : ℕ) (t : μ), p.wp mon P t → ∃ t', Accepts mon t ((trace oracle n p).take k) t' := by
  induction p with
  | pure a =>
      intro n k t _
      refine ⟨t, ?_⟩
      rw [trace, List.take_nil]
      rfl
  | write r next ih =>
      rintro n k t ⟨t', ht', h⟩
      cases k with
      | zero => exact ⟨t, rfl⟩
      | succ k =>
          obtain ⟨u, hu⟩ := ih n k t' h
          exact ⟨u, t', ht', hu⟩
  | ask q next ih =>
      rintro n k t ⟨t', ht', h⟩
      cases k with
      | zero => exact ⟨t, rfl⟩
      | succ k =>
          cases k with
          | zero => exact ⟨t', t', ht', rfl⟩
          | succ k =>
              -- the answer has come before the process ends
              obtain ⟨t'', ht'', hx⟩ := h (oracle n q)
              obtain ⟨u, hu⟩ := ih (oracle n q) (n + 1) k t'' hx
              exact ⟨u, t', ht', t'', ht'', hu⟩

end Prog

/-! ## Memory and exceptions -/

def Proc (σ ρ Q : Type) (R : Q → Type) (ε α : Type) : Type := σ → Prog ρ Q R (Except ε α × σ)

namespace Proc

instance : Monad (Proc σ ρ Q R ε) where
  pure a := fun s => .pure (.ok a, s)
  bind m f := fun s => (m s).bind (fun
    | (.ok a, s') => f a s'
    | (.error e, s') => .pure (.error e, s'))

def throw (e : ε) : Proc σ ρ Q R ε α := fun s => .pure (.error e, s)

def read (f : σ → α) : Proc σ ρ Q R ε α := fun s => .pure (.ok (f s), s)

def modify (f : σ → σ) : Proc σ ρ Q R ε Unit := fun s => .pure (.ok (), f s)

def ofExcept (x : Except ε α) : Proc σ ρ Q R ε α := fun s => .pure (x, s)

/-- Append a record to the durable log. -/
def append (r : ρ) : Proc σ ρ Q R ε Unit := fun s => .write r (.pure (.ok (), s))

def ask (q : Q) : Proc σ ρ Q R ε (R q) := fun s => .ask q (fun x => .pure (.ok x, s))

/-- `try { m } catch (e) { … }`: the error becomes the result. -/
def attempt (m : Proc σ ρ Q R ε α) : Proc σ ρ Q R ε (Except ε α) :=
  fun s => (m s).bind (fun (x, s') => .pure (.ok x, s'))

/-- `if (c) m()`. -/
def when (c : Prop) [Decidable c] (m : Proc σ ρ Q R ε Unit) : Proc σ ρ Q R ε Unit :=
  if c then m else pure ()

/-- `for (const x of xs) body(x)`. -/
def forEach (body : β → Proc σ ρ Q R ε Unit) : List β → Proc σ ρ Q R ε Unit
  | [] => pure ()
  | x :: xs => do
      body x
      forEach body xs

/-- From memory `s` and monitor state `t` the program returns as `P` says or throws as
`E` says. -/
def wp (mon : μ → Event ρ Q R → μ → Prop) (m : Proc σ ρ Q R ε α) (P : α → σ → μ → Prop)
    (E : ε → σ → μ → Prop) (s : σ) (t : μ) : Prop :=
  (m s).wp mon (fun x t' =>
    match x with
    | (.ok a, s') => P a s' t'
    | (.error e, s') => E e s' t') t

variable {mon : μ → Event ρ Q R → μ → Prop} {P : α → σ → μ → Prop} {E : ε → σ → μ → Prop}
  {s : σ} {t : μ}

variable {m : Proc σ ρ Q R ε α}

@[simp] theorem wp_pure {a : α} : wp mon (pure a) P E s t ↔ P a s t := Iff.rfl

@[simp] theorem wp_throw {e : ε} : wp mon (throw e) P E s t ↔ E e s t := Iff.rfl

@[simp] theorem wp_read {f : σ → α} : wp mon (read f) P E s t ↔ P (f s) s t := Iff.rfl

@[simp] theorem wp_modify {P : Unit → σ → μ → Prop} {f : σ → σ} :
    wp mon (modify f) P E s t ↔ P () (f s) t := Iff.rfl

@[simp] theorem wp_append {P : Unit → σ → μ → Prop} {r : ρ} :
    wp mon (append r) P E s t ↔ ∃ t', mon t (.wrote r) t' ∧ P () s t' := Iff.rfl

@[simp] theorem wp_ask {q : Q} {P : R q → σ → μ → Prop} :
    wp mon (ask q) P E s t ↔ ∃ t', mon t (.asked q) t' ∧
      ∀ x, ∃ t'', mon t' (.replied q x) t'' ∧ P x s t'' := Iff.rfl

@[simp] theorem wp_ofExcept {x : Except ε α} :
    wp mon (ofExcept x) P E s t ↔ (∀ a, x = .ok a → P a s t) ∧ (∀ e, x = .error e → E e s t) := by
  cases x with
  | error e => simp [wp, ofExcept, Prog.wp]
  | ok a => simp [wp, ofExcept, Prog.wp]

@[simp] theorem wp_bind {f : α → Proc σ ρ Q R ε β}
    {P : β → σ → μ → Prop} :
    wp mon (m >>= f) P E s t ↔ wp mon m (fun a s' t' => wp mon (f a) P E s' t') E s t := by
  unfold wp
  show ((m s).bind _).wp mon _ t ↔ _
  rw [Prog.wp_bind]
  have hpost : (fun (x : Except ε α × σ) t' => (match x with
      | (.ok a, s') => f a s'
      | (.error e, s') => .pure (.error e, s') : Prog ρ Q R (Except ε β × σ)).wp mon
        (fun x t' => match x with
          | (.ok a, s') => P a s' t'
          | (.error e, s') => E e s' t') t') =
      fun x t' => match x with
        | (.ok a, s') => (f a s').wp mon (fun x t' => match x with
          | (.ok a, s') => P a s' t'
          | (.error e, s') => E e s' t') t'
        | (.error e, s') => E e s' t' := by
    funext x t'
    rcases x with ⟨e | a, s'⟩
    · rfl
    · rfl
  rw [← hpost]

@[simp] theorem wp_attempt {P : Except ε α → σ → μ → Prop} :
    wp mon (attempt m) P E s t ↔
      wp mon m (fun a s' t' => P (.ok a) s' t') (fun e s' t' => P (.error e) s' t') s t := by
  unfold wp attempt
  rw [Prog.wp_bind]
  have hpost : ∀ x : Except ε α × σ, ∀ t', (P x.1 x.2 t' ↔ match x with
      | (.ok a, s') => P (.ok a) s' t'
      | (.error e, s') => P (.error e) s' t') := by
    rintro ⟨e | a, s'⟩ t'
    · exact Iff.rfl
    · exact Iff.rfl
  constructor
  · exact Prog.wp_mono (fun x t' h => (hpost x t').mp h) (m s) t
  · exact Prog.wp_mono (fun x t' h => (hpost x t').mpr h) (m s) t

@[simp] theorem wp_ite {c : Prop} [Decidable c] {m m' : Proc σ ρ Q R ε α} :
    wp mon (if c then m else m') P E s t ↔ (c → wp mon m P E s t) ∧ (¬c → wp mon m' P E s t) := by
  by_cases hc : c
  · simp [hc]
  · simp [hc]

@[simp] theorem wp_when {P : Unit → σ → μ → Prop} {c : Prop} [Decidable c]
    {m : Proc σ ρ Q R ε Unit} :
    wp mon (when c m) P E s t ↔ (c → wp mon m P E s t) ∧ (¬c → P () s t) := by
  unfold when
  rw [wp_ite]
  exact Iff.rfl

theorem wp_mono {P' : α → σ → μ → Prop} {E' : ε → σ → μ → Prop}
    (hP : ∀ a s' t', P a s' t' → P' a s' t') (hE : ∀ e s' t', E e s' t' → E' e s' t')
    (h : wp mon m P E s t) : wp mon m P' E' s t := by
  refine Prog.wp_mono ?_ (m s) t h
  rintro ⟨e | a, s'⟩ t' hx
  · exact hE e s' t' hx
  · exact hP a s' t' hx

/-- A loop, by an invariant over what is left of the list. -/
theorem wp_forEach {body : β → Proc σ ρ Q R ε Unit} {I : List β → σ → μ → Prop}
    (hbody : ∀ x xs s t, I (x :: xs) s t → wp mon (body x) (fun _ s' t' => I xs s' t') E s t) :
    ∀ (xs : List β) {s : σ} {t : μ}, I xs s t →
      wp mon (forEach body xs) (fun _ s' t' => I [] s' t') E s t := by
  intro xs
  induction xs with
  | nil => exact fun h => h
  | cons x xs ih =>
      intro s t h
      simp only [forEach, wp_bind]
      refine wp_mono ?_ (fun _ _ _ he => he) (hbody x xs s t h)
      intro _ s' t' h'
      exact ih h'

/-- The monitor accepts what the program has done at every crash point. -/
theorem accepts_trace (h : wp mon m P E s t) (oracle : Oracle R) (k : ℕ) :
    ∃ t', Accepts mon t (((m s).trace oracle 0).take k) t' :=
  Prog.wp_trace oracle (m s) 0 k t h

-- a program is run by the rules above; unification shall not run it
attribute [irreducible] wp

end Proc

end Elpis.Lib
