import Mathlib.Tactic

/-!
# Programs that can die between two durable writes

A program reads and writes a durable store `δ` and a memory `μ`, and may throw. It runs
under a budget of durable writes: when the budget is used up the process dies at the
next write, the store stays as it is and the memory is gone. Without a budget nothing
dies. `wp` is about all budgets at once: it says what holds when the program returns,
when it throws, and of the store and the lost memory at every crash point.
-/

namespace Elpis.Lib

/-- `left` is what remains of the budget. -/
inductive Outcome (μ ε α : Type) : Type where
  | done (a : α) (m : μ) (left : Option ℕ)
  | thrown (e : ε) (m : μ) (left : Option ℕ)
  | crashed (m : μ)

def Crash (δ μ ε α : Type) : Type := Option ℕ → δ → μ → Outcome μ ε α × δ

namespace Crash

variable {δ μ ε α β : Type}

instance : Monad (Crash δ μ ε) where
  pure a := fun k d m => (.done a m k, d)
  bind x f := fun k d m =>
    match x k d m with
    | (.done a m' left, d') => f a left d' m'
    | (.thrown e m' left, d') => (.thrown e m' left, d')
    | (.crashed m', d') => (.crashed m', d')

def throw (e : ε) : Crash δ μ ε α := fun k d m => (.thrown e m k, d)

/-- The result of a function that may throw. -/
def ofExcept : Except ε α → Crash δ μ ε α
  | .ok a => pure a
  | .error e => throw e

def read (f : δ → μ → α) : Crash δ μ ε α := fun k d m => (.done (f d m) m k, d)

def modify (f : μ → μ) : Crash δ μ ε Unit := fun k d m => (.done () (f m) k, d)

/-- One durable write. -/
def write (f : δ → δ) : Crash δ μ ε Unit := fun k d m =>
  match k with
  | none => (.done () m none, f d)
  | some 0 => (.crashed m, d)
  | some (k + 1) => (.done () m (some k), f d)

/-- `try { m } catch (e) { … }`: the error becomes the result. -/
def attempt (x : Crash δ μ ε α) : Crash δ μ ε (Except ε α) := fun k d m =>
  match x k d m with
  | (.done a m' left, d') => (.done (.ok a) m' left, d')
  | (.thrown e m' left, d') => (.done (.error e) m' left, d')
  | (.crashed m', d') => (.crashed m', d')

/-- `if (c) m()`. -/
def when (c : Prop) [Decidable c] (x : Crash δ μ ε Unit) : Crash δ μ ε Unit :=
  if c then x else pure ()

/-- `if (o) body(o)`. -/
def onSome (o : Option β) (body : β → Crash δ μ ε Unit) : Crash δ μ ε Unit :=
  match o with
  | some b => body b
  | none => pure ()

/-- `for (const x of xs) body(x)`. -/
def forEach (body : β → Crash δ μ ε Unit) : List β → Crash δ μ ε Unit
  | [] => pure ()
  | x :: xs => do
      body x
      forEach body xs

/-! ## Reasoning -/

/-- How a program under the budget `k` may end: it returns as `P` says, throws as `E`
says, or dies where `C` holds of the store and of the memory that is lost. -/
def Ends (k : Option ℕ) (P : α → δ → μ → Prop) (E : ε → δ → μ → Prop) (C : δ → μ → Prop) :
    Outcome μ ε α × δ → Prop
  | (.done a m left, d) => (k = none → left = none) ∧ P a d m
  | (.thrown e m left, d) => (k = none → left = none) ∧ E e d m
  | (.crashed m, d) => k ≠ none ∧ C d m

/-- The program ends so under every budget. -/
def wp (x : Crash δ μ ε α) (P : α → δ → μ → Prop) (E : ε → δ → μ → Prop) (C : δ → μ → Prop)
    (d : δ) (m : μ) : Prop :=
  ∀ k, Ends k P E C (x k d m)

variable {P : α → δ → μ → Prop} {E : ε → δ → μ → Prop} {C : δ → μ → Prop} {d : δ} {m : μ}

theorem wp_pure {a : α} (h : P a d m) : wp (pure a) P E C d m :=
  fun _ => ⟨fun hk => hk, h⟩

theorem wp_throw {e : ε} (h : E e d m) : wp (throw e) P E C d m :=
  fun _ => ⟨fun hk => hk, h⟩

theorem wp_ofExcept {x : Except ε α} (hok : ∀ a, x = .ok a → P a d m)
    (herror : ∀ e, x = .error e → E e d m) : wp (ofExcept x) P E C d m := by
  cases x with
  | ok a => exact wp_pure (hok a rfl)
  | error e => exact wp_throw (herror e rfl)

theorem wp_read {f : δ → μ → α} (h : P (f d m) d m) : wp (read f) P E C d m :=
  fun _ => ⟨fun hk => hk, h⟩

theorem wp_modify {P : Unit → δ → μ → Prop} {f : μ → μ} (h : P () d (f m)) :
    wp (modify f) P E C d m :=
  fun _ => ⟨fun hk => hk, h⟩

theorem wp_write {P : Unit → δ → μ → Prop} {f : δ → δ} (hcrash : C d m) (h : P () (f d) m) :
    wp (write f) P E C d m := by
  intro k
  match k with
  | none => exact ⟨fun _ => rfl, h⟩
  | some 0 => exact ⟨nofun, hcrash⟩
  | some (k + 1) => exact ⟨nofun, h⟩

/-- A program that goes on with what is left of the budget. -/
theorem Ends.of_left {k left : Option ℕ} {o : Outcome μ ε α × δ} (hleft : k = none → left = none)
    (h : Ends left P E C o) : Ends k P E C o := by
  rcases o with ⟨_ | _ | _, d'⟩
  · exact ⟨fun hk => h.1 (hleft hk), h.2⟩
  · exact ⟨fun hk => h.1 (hleft hk), h.2⟩
  · exact ⟨fun hk => h.1 (hleft hk), h.2⟩

variable {x : Crash δ μ ε α}

theorem wp_bind {f : α → Crash δ μ ε β} {P : β → δ → μ → Prop}
    (h : wp x (fun a d' m' => wp (f a) P E C d' m') E C d m) : wp (x >>= f) P E C d m := by
  intro k
  have hx := h k
  show Ends k P E C (match x k d m with
    | (.done a m' left, d') => f a left d' m'
    | (.thrown e m' left, d') => (.thrown e m' left, d')
    | (.crashed m', d') => (.crashed m', d'))
  rcases hres : x k d m with ⟨_ | _ | _, d'⟩ <;> rw [hres] at hx
  case done a m' left => exact Ends.of_left hx.1 (hx.2 left)
  case thrown => exact hx
  case crashed => exact hx

theorem wp_attempt {P : Except ε α → δ → μ → Prop}
    (h : wp x (fun a d' m' => P (.ok a) d' m') (fun e d' m' => P (.error e) d' m') C d m) :
    wp (attempt x) P E C d m := by
  intro k
  have hx := h k
  unfold attempt
  rcases hres : x k d m with ⟨_ | _ | _, d'⟩ <;> rw [hres] at hx
  · exact hx
  · exact hx
  · exact hx

theorem wp_ite {c : Prop} [Decidable c] {x y : Crash δ μ ε α} (hx : c → wp x P E C d m)
    (hy : ¬ c → wp y P E C d m) : wp (if c then x else y) P E C d m := by
  split
  · exact hx ‹_›
  · exact hy ‹_›

theorem wp_when {P : Unit → δ → μ → Prop} {c : Prop} [Decidable c] {x : Crash δ μ ε Unit}
    (hx : c → wp x P E C d m) (hy : ¬ c → P () d m) : wp (when c x) P E C d m :=
  wp_ite hx (fun hc => wp_pure (hy hc))

theorem wp_onSome {P : Unit → δ → μ → Prop} {o : Option β} {body : β → Crash δ μ ε Unit}
    (hsome : ∀ b, o = some b → wp (body b) P E C d m) (hnone : o = none → P () d m) :
    wp (onSome o body) P E C d m := by
  cases o with
  | none => exact wp_pure (hnone rfl)
  | some b => exact hsome b rfl

theorem wp_mono {P' : α → δ → μ → Prop} {E' : ε → δ → μ → Prop}
    {C' : δ → μ → Prop} (h : wp x P E C d m) (hP : ∀ a d' m', P a d' m' → P' a d' m')
    (hE : ∀ e d' m', E e d' m' → E' e d' m') (hC : ∀ d' m', C d' m' → C' d' m') :
    wp x P' E' C' d m := by
  intro k
  have hx := h k
  rcases hres : x k d m with ⟨_ | _ | _, d'⟩ <;> rw [hres] at hx
  · exact ⟨hx.1, hP _ _ _ hx.2⟩
  · exact ⟨hx.1, hE _ _ _ hx.2⟩
  · exact ⟨hx.1, hC _ _ hx.2⟩

/-- A loop, by an invariant over what is left of the list. -/
theorem wp_forEach {body : β → Crash δ μ ε Unit} {I : List β → δ → μ → Prop}
    (hbody : ∀ x xs d m, I (x :: xs) d m → wp (body x) (fun _ d' m' => I xs d' m') E C d m) :
    ∀ (xs : List β) {d : δ} {m : μ}, I xs d m →
      wp (forEach body xs) (fun _ d' m' => I [] d' m') E C d m := by
  intro xs
  induction xs with
  | nil => exact fun h => wp_pure h
  | cons x xs ih =>
      intro d m h
      apply wp_bind
      apply wp_mono (hbody x xs d m h)
      · exact fun _ _ _ h' => ih h'
      · exact fun _ _ _ he => he
      · exact fun _ _ hc => hc

/-! ## Running to the end, and dying -/

/-- The program runs to its end: the store and the memory after it. -/
def completed (x : Crash δ μ ε α) (d : δ) (m : μ) : δ × Option μ :=
  match x none d m with
  | (.done _ m' _, d') => (d', some m')
  | (.thrown _ m' _, d') => (d', some m')
  | (.crashed _, d') => (d', none)

/-- The process dies in the program after at most `writes` durable writes, and with its
last step at the latest. -/
def diesAfter (x : Crash δ μ ε α) (writes : ℕ) (d : δ) (m : μ) : δ := (x (some writes) d m).2

theorem completed_of_wp {x : Crash δ μ Empty α} {E : Empty → δ → μ → Prop}
    (h : wp x P E C d m) : ∃ a d' m', completed x d m = (d', some m') ∧ P a d' m' := by
  have hx := h none
  unfold completed
  rcases hres : x none d m with ⟨_ | _ | _, d'⟩ <;> rw [hres] at hx
  case done a m' left => exact ⟨a, d', m', rfl, hx.2⟩
  case thrown e m' left => exact e.elim
  case crashed m' => exact absurd rfl hx.1

/-- What the store keeps, however the program ends. -/
theorem diesAfter_of_wp {x : Crash δ μ Empty α} {E : Empty → δ → μ → Prop} {J : δ → Prop}
    (h : wp x P E C d m) (hP : ∀ a d' m', P a d' m' → J d') (hC : ∀ d' m', C d' m' → J d')
    (writes : ℕ) : J (diesAfter x writes d m) := by
  have hx := h (some writes)
  unfold diesAfter
  rcases hres : x (some writes) d m with ⟨_ | _ | _, d'⟩ <;> rw [hres] at hx
  case done a m' left => exact hP a d' m' hx.2
  case thrown e m' left => exact e.elim
  case crashed m' => exact hC d' m' hx.2

/-- What holds of the store at every end of the program. -/
theorem store_of_wp {J : δ → Prop}
    (h : wp x (fun _ d' _ => J d') (fun _ d' _ => J d') (fun d' _ => J d') d m) (k : Option ℕ) :
    J (x k d m).2 := by
  have hx := h k
  rcases hres : x k d m with ⟨_ | _ | _, d'⟩ <;> rw [hres] at hx
  · exact hx.2
  · exact hx.2
  · exact hx.2

/-- What is known of a program that has returned. -/
theorem done_of_wp {k left : Option ℕ} {a : α} {d' : δ} {m' : μ} (h : wp x P E C d m)
    (hdone : x k d m = (.done a m' left, d')) : P a d' m' := by
  have hx := h k
  rw [hdone] at hx
  exact hx.2

/-! ## Processes -/

/-- What is left of a process: the store, the memory while it lives, and the memory a
crash has just destroyed. -/
structure Process (δ μ : Type) where
  store : δ
  memory : Option μ
  lost : Option μ

/-- Run a program of a living process, under a budget. A dead process does nothing. -/
def Process.exec (x : Crash δ μ ε α) (budget : Option ℕ) (p : Process δ μ) : Process δ μ :=
  match p.memory with
  | none => { p with lost := none }
  | some m =>
      match x budget p.store m with
      | (.done _ m' _, d') => ⟨d', some m', none⟩
      | (.thrown _ m' _, d') => ⟨d', some m', none⟩
      | (.crashed m', d') => ⟨d', none, some m'⟩

/-- The three ways a program ends, and what is known of each. -/
theorem Process.exec_cases {p : Process δ μ} {m : μ}
    (hm : p.memory = some m) (h : wp x P E C p.store m) (budget : Option ℕ) :
    (∃ a d' m', p.exec x budget = ⟨d', some m', none⟩ ∧ P a d' m') ∨
    (∃ e d' m', p.exec x budget = ⟨d', some m', none⟩ ∧ E e d' m') ∨
    (∃ d' m', p.exec x budget = ⟨d', none, some m'⟩ ∧ budget ≠ none ∧ C d' m') := by
  have hx := h budget
  unfold Process.exec
  rw [hm]
  dsimp only
  rcases hres : x budget p.store m with ⟨_ | _ | _, d'⟩ <;> rw [hres] at hx
  case done a m' left => exact Or.inl ⟨a, d', m', rfl, hx.2⟩
  case thrown e m' left => exact Or.inr (Or.inl ⟨e, d', m', rfl, hx.2⟩)
  case crashed m' => exact Or.inr (Or.inr ⟨d', m', rfl, hx.1, hx.2⟩)

-- a program is run by the rules above; unification shall not run it
attribute [irreducible] wp

end Crash

end Elpis.Lib
