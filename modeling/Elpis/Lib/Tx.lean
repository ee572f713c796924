import Mathlib.Tactic

/-!
# Programs over a transactional store

`Tx σ ε α` is a program over a store `σ`: it ends with a result or with an
error, and in both cases leaves a store behind. An error does not undo the
statements before it. Only `transaction` does that: it puts back the store it
started from when its body throws, which is what `BEGIN … ROLLBACK` means.

Three judgements carry the proofs. A successful run is taken apart by the
`*_ok` lemmas, which turn `m s = (.ok a, s')` into the conditions the program
checked and the writes it made. A failed run is covered by `Atomic`: the
program leaves the store as it found it. Where both ways to end matter, `wp`
runs the program symbolically: its lemmas push a postcondition for results and
one for errors through the program, statement by statement.
-/

namespace Elpis.Lib

def Tx (σ ε α : Type) : Type := σ → Except ε α × σ

namespace Tx

variable {σ ε α β : Type}

instance : Monad (Tx σ ε) where
  pure a := fun s => (.ok a, s)
  bind m f := fun s =>
    match m s with
    | (.ok a, s') => f a s'
    | (.error e, s') => (.error e, s')

/-! ## Statements -/

def throw (e : ε) : Tx σ ε α := fun s => (.error e, s)

/-- Go on only if `c` holds. -/
def ensure (c : Prop) [Decidable c] (e : ε) : Tx σ ε Unit :=
  if c then pure () else throw e

def read (f : σ → α) : Tx σ ε α := fun s => (.ok (f s), s)

def write (f : σ → σ) : Tx σ ε Unit := fun s => (.ok (), f s)

/-- A check that looks at no store. -/
def ofExcept (x : Except ε α) : Tx σ ε α := fun s => (x, s)

/-- The value a query found, or an error. -/
def require (x : Option α) (e : ε) : Tx σ ε α :=
  match x with
  | some a => pure a
  | none => throw e

/-- `for (const x of xs) body(x)`. -/
def forEach (body : β → Tx σ ε Unit) : List β → Tx σ ε Unit
  | [] => pure ()
  | x :: xs => do
      body x
      forEach body xs

/-- `if (c) m()`. -/
def when (c : Prop) [Decidable c] (m : Tx σ ε Unit) : Tx σ ε Unit :=
  if c then m else pure ()

/-- `if (x !== undefined) f(x)`, with what `f` made of it. -/
def onSome (x : Option α) (f : α → Tx σ ε β) : Tx σ ε (Option β) :=
  match x with
  | none => pure none
  | some a => do
      let b ← f a
      pure (some b)

/-- `BEGIN`, the body, then `COMMIT`, or `ROLLBACK` when the body throws. -/
def transaction (m : Tx σ ε α) : Tx σ ε α := fun s =>
  match m s with
  | (.ok a, s') => (.ok a, s')
  | (.error e, _) => (.error e, s)

/-- `try { m } catch (e) { … }`: the error becomes the result. -/
def attempt (m : Tx σ ε α) : Tx σ ε (Except ε α) := fun s => (.ok (m s).1, (m s).2)

/-- `try { … } catch (e) { throw f(e) }`. -/
def mapError {ε' : Type} (f : ε → ε') (m : Tx σ ε α) : Tx σ ε' α := fun s => ((m s).1.mapError f, (m s).2)

/-- A program over a part `τ` of the store. -/
def within {τ : Type} (get : σ → τ) (set : σ → τ → σ) (m : Tx τ ε α) : Tx σ ε α := fun s =>
  ((m (get s)).1, set s (m (get s)).2)

/-! ## Taking a successful run apart -/

variable {s s' : σ} {a : α} {b : β} {e : ε}

variable {m : Tx σ ε α} {f : α → Tx σ ε β}

theorem bind_of_ok (h : m s = (.ok a, s')) :
    (m >>= f) s = f a s' := by
  show (match m s with
    | (.ok a, s') => f a s'
    | (.error e, s') => (.error e, s')) = _
  rw [h]

theorem bind_of_error
    (h : m s = (.error e, s')) : (m >>= f) s = (.error e, s') := by
  show (match m s with
    | (.ok a, s') => f a s'
    | (.error e, s') => (.error e, s')) = _
  rw [h]

variable {x : Option α}

@[simp] theorem bind_ok :
    (m >>= f) s = (.ok b, s') ↔
      ∃ a s₁, m s = (.ok a, s₁) ∧ f a s₁ = (.ok b, s') := by
  constructor
  · intro h
    rcases hm : m s with ⟨_ | a, s₁⟩
    · rw [bind_of_error hm] at h
      cases h
    · rw [bind_of_ok hm] at h
      exact ⟨a, s₁, rfl, h⟩
  · rintro ⟨a, s₁, hm, hf⟩
    rw [bind_of_ok hm]
    exact hf

@[simp] theorem pure_ok {x : α} :
    (pure x : Tx σ ε α) s = (.ok a, s') ↔ x = a ∧ s = s' := by
  show ((.ok x : Except ε α), s) = (.ok a, s') ↔ _
  rw [Prod.mk.injEq, Except.ok.injEq]

@[simp] theorem throw_ok : (throw e : Tx σ ε α) s = (.ok a, s') ↔ False := by
  simp [throw]

@[simp] theorem ensure_ok {c : Prop} [Decidable c] {u : Unit} :
    (ensure c e : Tx σ ε Unit) s = (.ok u, s') ↔ c ∧ s = s' := by
  unfold ensure
  by_cases hc : c
  · simp [hc]
  · simp [hc]

@[simp] theorem read_ok {f : σ → α} :
    (read f : Tx σ ε α) s = (.ok a, s') ↔ f s = a ∧ s = s' := by
  simp [read]

@[simp] theorem write_ok {f : σ → σ} {u : Unit} :
    (write f : Tx σ ε Unit) s = (.ok u, s') ↔ f s = s' := by
  simp [write]

@[simp] theorem ofExcept_ok {x : Except ε α} :
    (ofExcept x : Tx σ ε α) s = (.ok a, s') ↔ x = .ok a ∧ s = s' := by
  simp [ofExcept]

@[simp] theorem require_ok :
    (require x e : Tx σ ε α) s = (.ok a, s') ↔ x = some a ∧ s = s' := by
  cases x <;> simp [require]

theorem mapError_ok {ε' : Type} {f : ε → ε'} :
    mapError f m s = (.ok a, s') ↔ m s = (.ok a, s') := by
  unfold mapError
  rcases m s with ⟨e | b, s₁⟩
  · simp [Except.mapError]
  · simp [Except.mapError]

/-! Behind a read or a check that holds, a run goes on from the same store. -/

theorem bind_read_ok {f : σ → α} {g : α → Tx σ ε β} :
    (read f >>= g) s = (.ok b, s') ↔ g (f s) s = (.ok b, s') := by
  simp

theorem bind_ensure_ok {c : Prop} [Decidable c] {g : Unit → Tx σ ε β} :
    (ensure c e >>= g) s = (.ok b, s') ↔ c ∧ g () s = (.ok b, s') := by
  simp only [bind_ok, ensure_ok, and_assoc]
  constructor
  · rintro ⟨_, _, hc, rfl, hg⟩
    exact ⟨hc, hg⟩
  · rintro ⟨hc, hg⟩
    exact ⟨(), s, hc, rfl, hg⟩

theorem bind_require_ok {g : α → Tx σ ε β} :
    (require x e >>= g) s = (.ok b, s') ↔ ∃ a, x = some a ∧ g a s = (.ok b, s') := by
  simp [and_assoc]

theorem bind_ofExcept_ok {x : Except ε α} {g : α → Tx σ ε β} :
    (ofExcept x >>= g) s = (.ok b, s') ↔ ∃ a, x = .ok a ∧ g a s = (.ok b, s') := by
  simp [and_assoc]

theorem when_ok {c : Prop} [Decidable c] {m : Tx σ ε Unit} {u : Unit} :
    when c m s = (.ok u, s') ↔ (c ∧ m s = (.ok u, s')) ∨ (¬c ∧ s = s') := by
  unfold when
  by_cases hc : c
  · simp [hc]
  · simp [hc]

theorem onSome_ok {y : Option β} :
    onSome x f s = (.ok y, s') ↔
      (x = none ∧ y = none ∧ s = s') ∨
        ∃ a b, x = some a ∧ y = some b ∧ f a s = (.ok b, s') := by
  cases x with
  | none =>
      simp only [onSome, pure_ok]
      simp [eq_comm]
  | some a =>
      simp only [onSome, bind_ok, pure_ok]
      constructor
      · rintro ⟨b, s₁, hf, rfl, rfl⟩
        exact Or.inr ⟨a, b, rfl, rfl, hf⟩
      · rintro (⟨h, _⟩ | ⟨a', b, ha, rfl, hf⟩)
        · cases h
        · cases ha
          exact ⟨b, s', hf, rfl, rfl⟩

variable {body : β → Tx σ ε Unit}

@[simp] theorem transaction_ok :
    transaction m s = (.ok a, s') ↔ m s = (.ok a, s') := by
  unfold transaction
  rcases m s with ⟨_ | _, _⟩ <;> simp

theorem forEach_nil : forEach body [] = pure () := rfl

theorem forEach_cons {x : β} {xs : List β} :
    forEach body (x :: xs) = (do body x; forEach body xs) := rfl

/-- What every iteration preserves, the loop preserves. -/
theorem forEach_inv {I : σ → Prop} :
    ∀ {xs : List β} {s s' : σ} {u : Unit},
      (∀ x ∈ xs, ∀ s s' u, I s → body x s = (.ok u, s') → I s') →
      I s → forEach body xs s = (.ok u, s') → I s'
  | [], _, _, _, _, hi, h => by
      rw [forEach_nil, pure_ok] at h
      exact h.2 ▸ hi
  | x :: xs, _, _, _, hbody, hi, h => by
      rw [forEach_cons, bind_ok] at h
      obtain ⟨v, s₁, hx, hxs⟩ := h
      exact forEach_inv (fun y hy => hbody y (List.mem_cons_of_mem _ hy))
        (hbody x List.mem_cons_self _ _ v hi hx) hxs

/-! ## Failed runs -/

/-- A failed run leaves the store as it was. -/
def Atomic (m : Tx σ ε α) : Prop :=
  ∀ s e s', m s = (.error e, s') → s' = s

/-- No run changes the store. -/
def ReadOnly (m : Tx σ ε α) : Prop := ∀ s, (m s).2 = s

/-- No run fails. -/
def Total (m : Tx σ ε α) : Prop := ∀ s, ∃ a s', m s = (.ok a, s')

theorem Total.atomic (h : Total m) : Atomic m := by
  intro s e s' hm
  obtain ⟨a, s₁, ha⟩ := h s
  rw [ha] at hm
  cases hm

theorem readOnly_pure (x : α) : ReadOnly (pure x : Tx σ ε α) := fun _ => rfl

theorem readOnly_throw (e : ε) : ReadOnly (throw e : Tx σ ε α) := fun _ => rfl

theorem readOnly_read (f : σ → α) : ReadOnly (read f : Tx σ ε α) := fun _ => rfl

theorem readOnly_ofExcept (x : Except ε α) : ReadOnly (ofExcept x : Tx σ ε α) :=
  fun _ => rfl

theorem readOnly_ensure (c : Prop) [Decidable c] (e : ε) :
    ReadOnly (ensure c e : Tx σ ε Unit) := by
  intro s
  unfold ensure
  split
  · rfl
  · rfl

theorem readOnly_require (x : Option α) (e : ε) :
    ReadOnly (require x e : Tx σ ε α) := by
  intro s
  cases x with
  | none => rfl
  | some a => rfl

theorem readOnly_onSome
    (hf : ∀ a, ReadOnly (f a)) : ReadOnly (onSome x f) := by
  cases x with
  | none => exact fun _ => rfl
  | some a =>
      intro s
      show ((f a >>= fun b => pure (some b)) s).2 = s
      rcases h : f a s with ⟨e | b, s₁⟩
      · rw [bind_of_error h, ← hf a s, h]
      · rw [bind_of_ok h, ← hf a s, h]
        rfl

theorem ReadOnly.bind (hm : ReadOnly m)
    (hf : ∀ a, ReadOnly (f a)) : ReadOnly (m >>= f) := by
  intro s
  have hs := hm s
  rcases hms : m s with ⟨_ | a, s₁⟩
  · rw [hms] at hs
    rw [bind_of_error hms]
    exact hs
  · rw [hms] at hs
    rw [bind_of_ok hms]
    exact (hf a s₁).trans hs

/-- A read before an atomic program keeps it atomic. -/
theorem ReadOnly.bind_atomic (hm : ReadOnly m)
    (hf : ∀ a, Atomic (f a)) : Atomic (m >>= f) := by
  intro s e s' h
  have hs := hm s
  rcases hms : m s with ⟨e' | a, s₁⟩
  · rw [hms] at hs
    rw [bind_of_error hms] at h
    cases h
    exact hs
  · rw [hms] at hs
    rw [bind_of_ok hms] at h
    exact (hf a s₁ e s' h).trans hs

/-- An atomic program is atomic together with what cannot fail behind it. -/
theorem Atomic.bind_of_ok (hm : Atomic m)
    (hf : ∀ s a s', m s = (.ok a, s') → ∃ b s'', f a s' = (.ok b, s'')) : Atomic (m >>= f) := by
  intro s e s' h
  rcases hms : m s with ⟨e' | a, s₁⟩
  · rw [bind_of_error hms] at h
    cases h
    exact hm _ _ _ hms
  · obtain ⟨b, s₂, hb⟩ := hf s a s₁ hms
    rw [Tx.bind_of_ok hms, hb] at h
    cases h

theorem Atomic.bind_total (hm : Atomic m)
    (hf : ∀ a, Total (f a)) : Atomic (m >>= f) :=
  hm.bind_of_ok (fun _ a s' _ => hf a s')

theorem Total.bind (hm : Total m)
    (hf : ∀ a, Total (f a)) : Total (m >>= f) := by
  intro s
  obtain ⟨a, s₁, ha⟩ := hm s
  obtain ⟨b, s₂, hb⟩ := hf a s₁
  exact ⟨b, s₂, bind_ok.mpr ⟨a, s₁, ha, hb⟩⟩

theorem total_pure (x : α) : Total (pure x : Tx σ ε α) := fun s => ⟨x, s, rfl⟩

theorem total_read (f : σ → α) : Total (read f : Tx σ ε α) :=
  fun s => ⟨f s, s, rfl⟩

theorem total_write (f : σ → σ) : Total (write f : Tx σ ε Unit) :=
  fun s => ⟨(), f s, rfl⟩

theorem atomic_transaction (m : Tx σ ε α) : Atomic (transaction m) := by
  intro s e s' h
  unfold transaction at h
  rcases hms : m s with ⟨e' | a, s₁⟩
  · rw [hms] at h
    cases h
    rfl
  · rw [hms] at h
    cases h

/-! ## Weakest preconditions -/

/-- Run from `s`, the program returns as `Q` says or throws as `E` says. -/
def wp (m : Tx σ ε α) (Q : α → σ → Prop) (E : ε → σ → Prop) (s : σ) : Prop :=
  match m s with
  | (.ok a, s') => Q a s'
  | (.error e, s') => E e s'

variable {Q : α → σ → Prop} {E : ε → σ → Prop}

theorem wp_iff :
    wp m Q E s ↔ (∀ a s', m s = (.ok a, s') → Q a s') ∧
      ∀ e s', m s = (.error e, s') → E e s' := by
  unfold wp
  rcases m s with ⟨e | a, s₁⟩
  · simp
  · simp

theorem wp_mono {Q' : α → σ → Prop} {E' : ε → σ → Prop}
    (hQ : ∀ a s', Q a s' → Q' a s') (hE : ∀ e s', E e s' → E' e s') (h : wp m Q E s) :
    wp m Q' E' s := by
  rw [wp_iff] at h ⊢
  exact ⟨fun a s' hm => hQ a s' (h.1 a s' hm), fun e s' hm => hE e s' (h.2 e s' hm)⟩

@[simp] theorem wp_pure {x : α} : wp (pure x : Tx σ ε α) Q E s ↔ Q x s := Iff.rfl

@[simp] theorem wp_throw {e : ε} : wp (throw e : Tx σ ε α) Q E s ↔ E e s := Iff.rfl

@[simp] theorem wp_read {f : σ → α} : wp (read f : Tx σ ε α) Q E s ↔ Q (f s) s := Iff.rfl

@[simp] theorem wp_write {Q : Unit → σ → Prop} {f : σ → σ} :
    wp (write f : Tx σ ε Unit) Q E s ↔ Q () (f s) := Iff.rfl

@[simp] theorem wp_bind {Q : β → σ → Prop} :
    wp (m >>= f) Q E s ↔ wp m (fun a s' => wp (f a) Q E s') E s := by
  unfold wp
  rcases hm : m s with ⟨e | a, s₁⟩
  · rw [bind_of_error hm]
  · rw [bind_of_ok hm]

@[simp] theorem wp_ensure {Q : Unit → σ → Prop} {c : Prop} [Decidable c] {e : ε} :
    wp (ensure c e : Tx σ ε Unit) Q E s ↔ (c → Q () s) ∧ (¬c → E e s) := by
  unfold ensure
  by_cases hc : c
  · simp [hc]
  · simp [hc]

@[simp] theorem wp_require {e : ε} :
    wp (require x e : Tx σ ε α) Q E s ↔ (∀ a, x = some a → Q a s) ∧ (x = none → E e s) := by
  cases x with
  | none => simp [require]
  | some a => simp [require]

@[simp] theorem wp_ofExcept {x : Except ε α} :
    wp (ofExcept x : Tx σ ε α) Q E s ↔
      (∀ a, x = .ok a → Q a s) ∧ (∀ e, x = .error e → E e s) := by
  cases x with
  | error e => simp [wp, ofExcept]
  | ok a => simp [wp, ofExcept]

@[simp] theorem wp_when {Q : Unit → σ → Prop} {c : Prop} [Decidable c] {m : Tx σ ε Unit} :
    wp (when c m) Q E s ↔ (c → wp m Q E s) ∧ (¬c → Q () s) := by
  unfold when
  by_cases hc : c
  · simp [hc]
  · simp [hc]

@[simp] theorem wp_ite {c : Prop} [Decidable c] {m m' : Tx σ ε α} :
    wp (if c then m else m') Q E s ↔ (c → wp m Q E s) ∧ (¬c → wp m' Q E s) := by
  by_cases hc : c
  · simp [hc]
  · simp [hc]

@[simp] theorem wp_attempt {Q : Except ε α → σ → Prop} :
    wp (attempt m) Q E s ↔ wp m (fun a s' => Q (.ok a) s') (fun e s' => Q (.error e) s') s := by
  unfold wp attempt
  rcases m s with ⟨e | a, s₁⟩
  · exact Iff.rfl
  · exact Iff.rfl

@[simp] theorem wp_mapError {ε' : Type} {f : ε → ε'} {E : ε' → σ → Prop} :
    wp (mapError f m) Q E s ↔ wp m Q (fun e s' => E (f e) s') s := by
  unfold wp mapError
  rcases m s with ⟨e | a, s₁⟩
  · exact Iff.rfl
  · exact Iff.rfl

@[simp] theorem wp_transaction :
    wp (transaction m) Q E s ↔ wp m Q (fun e _ => E e s) s := by
  unfold wp transaction
  rcases m s with ⟨e | a, s₁⟩
  · exact Iff.rfl
  · exact Iff.rfl

@[simp] theorem wp_within {τ : Type} {get : σ → τ} {set : σ → τ → σ} {m : Tx τ ε α} :
    wp (within get set m) Q E s ↔
      wp m (fun a t => Q a (set s t)) (fun e t => E e (set s t)) (get s) := by
  unfold wp within
  rcases m (get s) with ⟨e | a, t⟩
  · exact Iff.rfl
  · exact Iff.rfl

theorem wp_forEach {I : σ → Prop} {xs : List β}
    (hbody : ∀ x ∈ xs, ∀ s, I s → wp (body x) (fun _ s' => I s') E s) (hs : I s) :
    wp (forEach body xs) (fun _ s' => I s') E s := by
  induction xs generalizing s with
  | nil => exact wp_pure.mpr hs
  | cons x xs ih =>
      rw [forEach_cons, wp_bind]
      refine wp_mono ?_ (fun _ _ h => h) (hbody x List.mem_cons_self s hs)
      intro _ s' hs'
      exact ih (fun y hy => hbody y (List.mem_cons_of_mem x hy)) hs'

theorem wp_and {Q' : α → σ → Prop} {E' : ε → σ → Prop} (h : wp m Q E s)
    (h' : wp m Q' E' s) : wp m (fun a s' => Q a s' ∧ Q' a s') (fun e s' => E e s' ∧ E' e s') s := by
  rw [wp_iff] at h h' ⊢
  exact ⟨fun a s' hm => ⟨h.1 a s' hm, h'.1 a s' hm⟩, fun e s' hm => ⟨h.2 e s' hm, h'.2 e s' hm⟩⟩

/-- A program that leaves the store alone ends where it began. -/
theorem wp_readOnly (hm : ReadOnly m) (hQ : ∀ a, m s = (.ok a, s) → Q a s)
    (hE : ∀ e, E e s) : wp m Q E s := by
  have hs := hm s
  rw [wp_iff]
  constructor
  · intro a s' h
    rw [h] at hs
    obtain rfl : s' = s := hs
    exact hQ a h
  · intro e s' h
    rw [h] at hs
    obtain rfl : s' = s := hs
    exact hE e

/-- Where a run ends, whichever way it does. -/
theorem wp_final {P : σ → Prop} (h : wp m (fun _ s' => P s') (fun _ s' => P s') s) :
    P (m s).2 := by
  rw [wp_iff] at h
  rcases hm : m s with ⟨e | a, s'⟩
  · exact h.2 e s' hm
  · exact h.1 a s' hm

-- a program is run by the rules above; unification shall not run it
attribute [irreducible] wp

/-! ## What a program can do to the store -/

/-- However it ends, the program moves the store along `R`. -/
def Along (R : σ → σ → Prop) (m : Tx σ ε α) : Prop :=
  ∀ s, wp m (fun _ s' => R s s') (fun _ s' => R s s') s

namespace Along

variable {R : σ → σ → Prop}

theorem write {f : σ → σ} (h : ∀ s, R s (f s)) : Along R (write f : Tx σ ε Unit) := by
  intro s
  exact wp_write.mpr (h s)

theorem ite {c : Prop} [Decidable c] {m m' : Tx σ ε α} (hm : Along R m) (hm' : Along R m') :
    Along R (if c then m else m') := by
  split
  · exact hm
  · exact hm'

theorem attempt (hm : Along R m) : Along R (attempt m : Tx σ ε (Except ε α)) := by
  intro s
  exact wp_attempt.mpr (hm s)

variable [IsPreorder σ R]

theorem of_readOnly (h : ReadOnly m) : Along R m := by
  intro s
  have hs : ∀ x s', m s = (x, s') → R s s' := by
    intro x s' hm
    have heq := h s
    rw [hm] at heq
    simp only at heq
    rw [heq]
    exact refl_of R s
  rw [wp_iff]
  exact ⟨fun a s' hm => hs _ s' hm, fun e s' hm => hs _ s' hm⟩

theorem pure (x : α) : Along R (pure x : Tx σ ε α) := of_readOnly (readOnly_pure x)

theorem throw (e : ε) : Along R (throw e : Tx σ ε α) := of_readOnly (readOnly_throw e)

theorem read (f : σ → α) : Along R (read f : Tx σ ε α) := of_readOnly (readOnly_read f)

theorem ensure (c : Prop) [Decidable c] (e : ε) : Along R (ensure c e : Tx σ ε Unit) :=
  of_readOnly (readOnly_ensure c e)

theorem ofExcept (x : Except ε α) : Along R (ofExcept x : Tx σ ε α) :=
  of_readOnly (readOnly_ofExcept x)

theorem require (x : Option α) (e : ε) : Along R (require x e : Tx σ ε α) :=
  of_readOnly (readOnly_require x e)

theorem bind (hm : Along R m) (hf : ∀ a, Along R (f a)) :
    Along R (m >>= f) := by
  intro s
  rw [wp_bind]
  refine wp_mono ?_ (fun _ _ h => h) (hm s)
  intro a s' h
  exact wp_mono (fun _ _ h' => trans_of R h h') (fun _ _ h' => trans_of R h h') (hf a s')

theorem when {c : Prop} [Decidable c] {m : Tx σ ε Unit} (hm : Along R m) : Along R (when c m) :=
  ite hm (pure ())

theorem onSome (hf : ∀ a, Along R (f a)) :
    Along R (onSome x f) := by
  cases x with
  | none => exact pure none
  | some a => exact (hf a).bind (fun b => pure (some b))

theorem forEach {body : β → Tx σ ε Unit} (hbody : ∀ x, Along R (body x)) :
    ∀ xs : List β, Along R (forEach body xs)
  | [] => pure ()
  | x :: xs => (hbody x).bind (fun _ => forEach hbody xs)

theorem transaction (hm : Along R m) : Along R (transaction m) := by
  intro s
  rw [wp_transaction]
  exact wp_mono (fun _ _ h => h) (fun _ _ _ => refl_of R s) (hm s)

end Along

end Tx

end Elpis.Lib
