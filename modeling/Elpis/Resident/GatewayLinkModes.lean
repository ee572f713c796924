import Elpis.Resident.GatewayLink

/-!
# What a link may be left at

Between two events the controller is calm: it has stopped trying and says so, or it has an
attempt that is watched, or a timer for the next one. Inside a call it may owe: an attempt
is over and nothing has been decided yet (`Lost`), or an attempt has been made and is not
watched yet (`Owes`). `Keeps` is what any call does from its start to its end, whatever the
controller was at when the call came.
-/

namespace Elpis.GatewayLink

open Elpis.Lib Elpis.Lib.Routine

/-! ## Modes -/

/-- A state that is left by no timer and no event. -/
def isTerminal : LinkState → Bool
  | .stopped | .faulted | .notConfigured | .configurationError => true
  | _ => false

/-- What holds of the timers and the attempt at every call, less the handshake. -/
structure Timed (s : Controller) : Prop where
  fresh : ∀ h, s.handles ≤ h → s.timers h = none
  own : ∀ a, s.live = some a → (s.attempts a).generation = s.generation
  single : s.live ≠ none → s.timer = none
  stopped : s.stopped = true → s.live = none ∧ s.timer = none
  unstarted : s.started = false → s.live = none ∧ s.timer = none
  past : ∀ h g, s.timers h = some (.controller g) → g ≤ s.generation ∧
    (g = s.generation → s.stopped = true ∨ s.timer = some h)
  armed : ∀ h, s.timer = some h → s.timers h = some (.controller s.generation)
  running : s.live ≠ none ∨ s.timer ≠ none → isTerminal s.current.state = false

/-- What holds at every call. -/
structure Base (s : Controller) : Prop extends Timed s where
  handshake : ∀ a h, s.live = some a → (s.attempts a).timer = some h →
    s.timers h = some (.handshake a)

/-- The controller gave up, and says so. -/
structure Ended (s : Controller) : Prop where
  terminal : isTerminal s.current.state = true
  live : s.live = none
  timer : s.timer = none

/-- There is an attempt, and it is ready or watched. -/
def Attempting (s : Controller) : Prop :=
  ∃ a, s.live = some a ∧ ((s.attempts a).ready = true ∨ (s.attempts a).timer ≠ none)

/-- Nothing is owed. -/
def Calm (s : Controller) : Prop :=
  Ended s ∨ Attempting s ∨ s.timer ≠ none ∨ s.started = false

/-- There is neither an attempt nor a timer. -/
structure Lost (s : Controller) : Prop where
  started : s.started = true
  going : s.stopped = false
  live : s.live = none
  timer : s.timer = none

/-- The attempt is not watched yet. -/
structure Owes (a : ℕ) (s : Controller) : Prop where
  started : s.started = true
  going : s.stopped = false
  live : s.live = some a
  ready : (s.attempts a).ready = false
  timer : (s.attempts a).timer = none

/-- What a call does, from its start to its end. -/
structure Kept (s t : Controller) : Prop where
  base : Base t
  stopped : s.stopped = true → t.stopped = true
  started : s.started = true → t.started = true
  calm : Calm s → Calm t
  lost : Lost s → (t.stopped = true ∧ Calm t) ∨ (Lost t ∧ t.current = s.current)
  owes : ∀ a, Owes a s → Calm t ∨ Owes a t

def Keeps (s t : Controller) : Prop := Base s → Kept s t

/-- What a call does that decides how to go on. -/
structure Ends (s t : Controller) : Prop where
  base : Base t
  calm : Calm t
  stopped : s.stopped = true → t.stopped = true
  started : s.started = true → t.started = true

theorem Keeps.refl (s : Controller) : Keeps s s := fun hb =>
  { base := hb
    stopped := fun h => h
    started := fun h => h
    calm := fun h => h
    lost := fun h => Or.inr ⟨h, rfl⟩
    owes := fun _ h => Or.inr h }

theorem Keeps.trans {s t u : Controller} (hst : Keeps s t) (htu : Keeps t u) : Keeps s u := by
  intro hb
  have h := hst hb
  have h' := htu h.base
  refine {
    base := h'.base
    stopped := fun hs => h'.stopped (h.stopped hs)
    started := fun hs => h'.started (h.started hs)
    calm := fun hs => h'.calm (h.calm hs)
    lost := fun hs => ?_
    owes := fun a hs => ?_ }
  · rcases h.lost hs with ⟨hstop, hcalm⟩ | ⟨hlost, hcur⟩
    · exact Or.inl ⟨h'.stopped hstop, h'.calm hcalm⟩
    · rcases h'.lost hlost with hdone | ⟨hlost', hcur'⟩
      · exact Or.inl hdone
      · exact Or.inr ⟨hlost', hcur'.trans hcur⟩
  · rcases h.owes a hs with hcalm | howes
    · exact Or.inl (h'.calm hcalm)
    · exact h'.owes a howes

/-- A call that decided keeps everything, unless it came when all was lost. -/
theorem Ends.keeps {s t : Controller} (h : Ends s t) (hlost : ¬Lost s) : Keeps s t := fun _ =>
  { base := h.base
    stopped := h.stopped
    started := h.started
    calm := fun _ => h.calm
    lost := fun hl => absurd hl hlost
    owes := fun _ _ => Or.inl h.calm }

theorem Ends.trans_left {s t u : Controller} (hstop : s.stopped = true → t.stopped = true)
    (hstart : s.started = true → t.started = true) (h : Ends t u) : Ends s u :=
  { base := h.base
    calm := h.calm
    stopped := fun hs => h.stopped (hstop hs)
    started := fun hs => h.started (hstart hs) }

/-! ## Changes that do not matter -/

/-- Only the queue of an attempt, its listeners or the count of failures changed. -/
structure Touched (s t : Controller) : Prop where
  current : t.current = s.current
  started : t.started = s.started
  stopped : t.stopped = s.stopped
  generation : t.generation = s.generation
  timer : t.timer = s.timer
  live : t.live = s.live
  timers : t.timers = s.timers
  handles : t.handles = s.handles
  attempt : ∀ a, (t.attempts a).generation = (s.attempts a).generation ∧
    (t.attempts a).ready = (s.attempts a).ready ∧ (t.attempts a).timer = (s.attempts a).timer

section Touched
variable {s t : Controller}

theorem Touched.base (h : Touched s t) (hb : Base s) : Base t where
  fresh := by
    rw [h.handles, h.timers]
    exact hb.fresh
  own a ha := by
    rw [(h.attempt a).1, h.generation]
    exact hb.own a (h.live ▸ ha)
  single := by
    rw [h.live, h.timer]
    exact hb.single
  stopped := by
    rw [h.stopped, h.live, h.timer]
    exact hb.stopped
  unstarted := by
    rw [h.started, h.live, h.timer]
    exact hb.unstarted
  past := by
    rw [h.timers, h.generation, h.stopped, h.timer]
    exact hb.past
  armed := by
    rw [h.timer, h.timers, h.generation]
    exact hb.armed
  running := by
    rw [h.live, h.timer, h.current]
    exact hb.running
  handshake a hd ha hh := by
    rw [h.timers]
    exact hb.handshake a hd (h.live ▸ ha) ((h.attempt a).2.2 ▸ hh)

theorem Touched.calm (h : Touched s t) (hc : Calm s) : Calm t := by
  rcases hc with ⟨hterm, hlive, htimer⟩ | ⟨a, ha, hwatch⟩ | htimer | hstart
  · exact Or.inl ⟨h.current ▸ hterm, h.live.trans hlive, h.timer.trans htimer⟩
  · refine Or.inr (Or.inl ⟨a, h.live.trans ha, ?_⟩)
    rw [(h.attempt a).2.1, (h.attempt a).2.2]
    exact hwatch
  · exact Or.inr (Or.inr (Or.inl (h.timer ▸ htimer)))
  · exact Or.inr (Or.inr (Or.inr (h.started.trans hstart)))

theorem Touched.keeps (h : Touched s t) : Keeps s t := fun hb =>
  { base := h.base hb
    stopped := fun hs => h.stopped.trans hs
    started := fun hs => h.started.trans hs
    calm := h.calm
    lost := fun hl => Or.inr ⟨⟨h.started.trans hl.started, h.stopped.trans hl.going,
      h.live.trans hl.live, h.timer.trans hl.timer⟩, h.current⟩
    owes := fun a ho => Or.inr ⟨h.started.trans ho.started, h.stopped.trans ho.going,
      h.live.trans ho.live, (h.attempt a).2.1.trans ho.ready, (h.attempt a).2.2.trans ho.timer⟩ }

end Touched

/-- An assignment that leaves the generation, the timer and the readiness of the attempt. -/
def Harmless (f : Attempt → Attempt) : Prop :=
  ∀ a, (f a).generation = a.generation ∧ (f a).ready = a.ready ∧ (f a).timer = a.timer

theorem touched_setAttempt {f : Attempt → Attempt} (hf : Harmless f) (s : Controller) (live : ℕ) :
    Touched s { s with attempts := Function.update s.attempts live (f (s.attempts live)) } := by
  refine ⟨rfl, rfl, rfl, rfl, rfl, rfl, rfl, rfl, fun a => ?_⟩
  by_cases ha : a = live
  · subst ha
    simpa using hf (s.attempts a)
  · simp [Function.update_of_ne ha]

/-! ## Programs that keep everything -/

/-- A program that may be run at any moment of any call. -/
def Safe {α : Type} (p : Method α) : Prop := ∀ s, Meets Keeps (fun _ t => Keeps s t) p s

section Safe
variable {α β : Type}

theorem safe_pure (a : α) : Safe (pure a : Method α) := fun s => Keeps.refl s

theorem safe_invoke (q : Out) : Safe (invoke q) := fun _ _ _ h => h

theorem safe_see (q : Look) : Safe (see q) := fun s _ => Keeps.refl s

theorem Safe.bind {p : Method α} {g : α → Method β} (hp : Safe p) (hg : ∀ a, Safe (g a)) :
    Safe (p >>= g) := by
  intro s
  rw [meets_bind]
  refine (hp s).mono (fun a t hst => ?_)
  exact (hg a t).mono (fun _ u htu => hst.trans htu)

theorem safe_get_bind {g : Controller → Method β}
    (hg : ∀ s, Meets Keeps (fun _ t => Keeps s t) (g s) s) : Safe (Routine.get >>= g) := by
  intro s
  rw [meets_bind]
  exact hg s

theorem Safe.ite {c : Prop} [Decidable c] {p p' : Method α} (hp : Safe p) (hp' : Safe p') :
    Safe (if c then p else p') := by
  split
  · exact hp
  · exact hp'

theorem safe_setAttempt {f : Attempt → Attempt} (hf : Harmless f) (live : ℕ) :
    Safe (setAttempt live f) := fun s => (touched_setAttempt hf s live).keeps

theorem safe_doIf {c : Bool} {p : Method Unit} (hp : Safe p) : Safe (doIf c p) :=
  Safe.ite hp (safe_pure ())

theorem safe_isCurrent (live : ℕ) : Safe (isCurrent live) := fun s => Keeps.refl s

end Safe

end Elpis.GatewayLink
