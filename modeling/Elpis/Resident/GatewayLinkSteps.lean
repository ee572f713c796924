import Elpis.Resident.GatewayLinkModes

/-!
# How an attempt is left behind

What is done once an attempt is over, method by method: the socket is disposed of, the
status is told, and a timer is armed. Each of them calls out, and whatever happens inside
those calls the controller is calm again at the end.
-/

namespace Elpis.GatewayLink

open Elpis.Lib Elpis.Lib.Routine

/-! ## Timers -/

section Clear
variable {N : Controller → Controller → Prop} {Q : Unit → Controller → Prop} {s : Controller}

theorem meets_setAttempt (live : ℕ) (f : Attempt → Attempt) :
    Meets N Q (setAttempt live f) s ↔
      Q () { s with attempts := Function.update s.attempts live (f (s.attempts live)) } := Iff.rfl

theorem meets_invoke {q : Out} {Q : Reply q → Controller → Prop} :
    Meets N Q (invoke q) s ↔ ∀ a u, N s u → Q a u := Iff.rfl

theorem meets_see {q : Look} {Q : Seen q → Controller → Prop} :
    Meets N Q (see q) s ↔ ∀ a, Q a s := Iff.rfl

theorem meets_clearTimeout (handle : ℕ) (hkept : Q () s)
    (hcleared : Q () { s with timers := Function.update s.timers handle none }) :
    Meets N Q (clearTimeout handle) s := by
  unfold clearTimeout
  simp only [meets_bind]
  rintro (_ | _)
  · exact hcleared
  · exact hkept

theorem meets_clearControllerTimer (htimer : s.timer = none) (h : Q () s) :
    Meets N Q clearControllerTimer s := by
  have hsame : { s with timer := none } = s := by rw [← htimer]
  unfold clearControllerTimer
  simp only [meets_bind, meets_get, meets_modify, htimer, hsame]
  exact h

end Clear

section Unset
variable {s : Controller} {handle : ℕ}

theorem of_unset {h : ℕ} {t : Timer} (ht : Function.update s.timers handle none h = some t) :
    h ≠ handle ∧ s.timers h = some t := by
  by_cases heq : h = handle
  · simp [heq] at ht
  · exact ⟨heq, by rwa [Function.update_of_ne heq] at ht⟩

theorem Timed.fresh_unset (hb : Timed s) (handle h : ℕ) (hh : s.handles ≤ h) :
    Function.update s.timers handle none h = none :=
  Option.eq_none_iff_forall_ne_some.mpr
    (fun _ ht => Option.some_ne_none _ ((of_unset ht).2.symm.trans (hb.fresh h hh)))

theorem Timed.unset (hb : Timed s) (htimer : s.timer ≠ some handle) :
    Timed { s with timers := Function.update s.timers handle none } :=
  { hb with
    fresh := hb.fresh_unset handle
    past := fun h g hg => hb.past h g (of_unset hg).2
    armed := fun h hh => by
      have hne : h ≠ handle := fun heq => htimer (heq ▸ hh)
      simpa [Function.update_of_ne hne] using hb.armed h hh }

theorem Base.unset (hb : Base s) (htimer : s.timer ≠ some handle)
    (hwatch : ∀ a, s.live = some a → (s.attempts a).timer ≠ some handle) :
    Base { s with timers := Function.update s.timers handle none } where
  toTimed := hb.toTimed.unset htimer
  handshake a h ha hh := by
    have hne : h ≠ handle := fun heq => hwatch a ha (heq ▸ hh)
    simpa [Function.update_of_ne hne] using hb.handshake a h ha hh

/-- What a clock forgets does not matter while there is nothing to wait for. -/
theorem Base.forget (hb : Base s) (hlive : s.live = none) (htimer : s.timer = none) (handle : ℕ) :
    Base { s with timers := Function.update s.timers handle none } :=
  hb.unset (by simp [htimer]) (fun a ha => by simp [hlive] at ha)

end Unset

theorem Base.withAttempts {s : Controller} (hb : Base s) (hlive : s.live = none)
    (attempts : ℕ → Attempt) : Base { s with attempts } :=
  { hb with
    own := fun a ha => by simp [hlive] at ha
    handshake := fun a h ha => by simp [hlive] at ha }

theorem Base.withCurrent {s : Controller} (hb : Base s) (hlive : s.live = none)
    (htimer : s.timer = none) (current : LinkStatus) : Base { s with current } :=
  { hb with running := fun h => by simp [hlive, htimer] at h }

/-! ## After an attempt -/

/-- Nothing is live and nothing is armed, and this lasts through calls and through changes to
the clock and to old attempts. -/
structure Lasting (P : Controller → Prop) : Prop where
  idle : ∀ s, P s → Base s ∧ s.live = none ∧ s.timer = none
  keeps : ∀ s t, P s → Keeps s t → P t
  same : ∀ s t, P s → Base t → t.current = s.current → t.started = s.started →
    t.stopped = s.stopped → t.live = s.live → t.timer = s.timer → P t

/-- Nothing has been decided since an attempt was over, unless the controller was stopped. -/
structure Left (status : LinkStatus) (s : Controller) : Prop where
  base : Base s
  started : s.started = true
  rest : (s.stopped = true ∧ Calm s) ∨ (Lost s ∧ s.current = status)

/-- The controller is being stopped. -/
structure Stopping (s : Controller) : Prop where
  base : Base s
  stopped : s.stopped = true

theorem lasting_left (status : LinkStatus) : Lasting (Left status) where
  idle _ h := by
    rcases h.rest with ⟨hstop, -⟩ | ⟨hlost, -⟩
    · exact ⟨h.base, h.base.stopped hstop⟩
    · exact ⟨h.base, hlost.live, hlost.timer⟩
  keeps _ _ h hst := by
    have hk := hst h.base
    refine ⟨hk.base, hk.started h.started, ?_⟩
    rcases h.rest with ⟨hstop, hcalm⟩ | ⟨hlost, hcur⟩
    · exact Or.inl ⟨hk.stopped hstop, hk.calm hcalm⟩
    · rcases hk.lost hlost with hdone | ⟨hlost', hcur'⟩
      · exact Or.inl hdone
      · exact Or.inr ⟨hlost', hcur'.trans hcur⟩
  same _ _ h hbase hcurrent hstarted hstopped hlive htimer := by
    refine ⟨hbase, hstarted.trans h.started, ?_⟩
    rcases h.rest with ⟨hstop, hcalm⟩ | ⟨hlost, hcur⟩
    · refine Or.inl ⟨hstopped.trans hstop, ?_⟩
      obtain ⟨hl, ht⟩ := h.base.stopped hstop
      rcases hcalm with hended | ⟨a, ha, -⟩ | hne | hstart
      · exact Or.inl ⟨hcurrent ▸ hended.terminal, hlive.trans hl, htimer.trans ht⟩
      · simp [hl] at ha
      · exact absurd ht hne
      · exact Or.inr (Or.inr (Or.inr (hstarted.trans hstart)))
    · exact Or.inr ⟨⟨hstarted.trans hlost.started, hstopped.trans hlost.going,
        hlive.trans hlost.live, htimer.trans hlost.timer⟩, hcurrent.trans hcur⟩

theorem lasting_stopping : Lasting Stopping where
  idle _ h := ⟨h.base, h.base.stopped h.stopped⟩
  keeps _ _ h hst := ⟨(hst h.base).base, (hst h.base).stopped h.stopped⟩
  same _ _ h hbase _ _ hstopped _ _ := ⟨hbase, hstopped.trans h.stopped⟩

theorem meets_doIf {N : Controller → Controller → Prop} {Q : Unit → Controller → Prop}
    {s : Controller} {c : Bool} {p : Method Unit} (hthen : c = true → Meets N Q p s)
    (helse : c = false → Q () s) : Meets N Q (doIf c p) s := by
  cases c with
  | false => exact helse rfl
  | true => exact hthen rfl

/-- `#dispose` calls out, and changes nothing that still counts. -/
theorem meets_dispose {P : Controller → Prop} (hP : Lasting P) {s : Controller} (h : P s) (live : ℕ)
    (code : ℕ) (reason : String) : Meets Keeps (fun _ t => P t) (dispose live code reason) s := by
  have hset : ∀ (s : Controller) (f : Attempt → Attempt), P s →
      P { s with attempts := Function.update s.attempts live (f (s.attempts live)) } := by
    intro s f hs
    obtain ⟨hb, hlive, -⟩ := hP.idle s hs
    exact hP.same s _ hs (hb.withAttempts hlive _) rfl rfl rfl rfl rfl
  have hclose : ∀ s, P s → Meets Keeps (fun _ t => P t)
      (do
        let threw ← invoke (.close live code reason)
        doIf threw (invoke (.terminate live))) s := by
    intro s hs
    rw [meets_bind]
    intro threw t hst
    have ht := hP.keeps s t hs hst
    exact meets_doIf (fun _ _ u htu => hP.keeps t u ht htu) (fun _ => ht)
  have hdetach : ∀ s, P s → Meets Keeps (fun _ t => P t)
      (do
        let s ← Routine.get
        doIf (s.attempts live).detach (invoke (.detach live))
        setAttempt live (fun a => { a with detach := false })
        let threw ← invoke (.close live code reason)
        doIf threw (invoke (.terminate live))) s := by
    intro s hs
    rw [meets_bind, meets_get, meets_bind]
    refine meets_doIf (fun _ => meets_invoke.mpr (fun _ t hst => ?_)) (fun _ => ?_)
    · rw [meets_bind, meets_setAttempt]
      exact hclose _ (hset t (fun a => { a with detach := false }) (hP.keeps s t hs hst))
    · rw [meets_bind, meets_setAttempt]
      exact hclose _ (hset s (fun a => { a with detach := false }) hs)
  unfold dispose clearLiveTimer
  rw [meets_bind, meets_bind, meets_get, meets_bind, meets_setAttempt]
  have hs := hset s (fun a => { a with timer := none }) h
  cases (s.attempts live).timer with
  | none => exact hdetach _ hs
  | some handle =>
      refine meets_clearTimeout handle (hdetach _ hs) (hdetach _ ?_)
      obtain ⟨hb, hlive, htimer⟩ := hP.idle _ hs
      exact hP.same _ _ hs (hb.forget hlive htimer handle) rfl rfl rfl rfl rfl

/-! ## Where it goes on -/

variable {status : LinkStatus}

section Transition
variable {s : Controller}

theorem Lost.ends {t : Controller} (h : Lost s) (hb : Base t) (hc : Calm t)
    (hstarted : t.started = true) : Ends s t where
  base := hb
  calm := hc
  stopped hs := by simp [h.going] at hs
  started _ := hstarted

theorem meets_transition_terminal (hb : Base s) (hl : Lost s) {state : LinkState}
    (hstate : isTerminal state = true) :
    Meets Keeps (fun _ t => Ends s t) (transition state) s := by
  unfold transition
  rw [meets_bind, meets_get, meets_ite]
  refine ⟨fun h => by simp [hl.going] at h, fun _ => ?_⟩
  rw [meets_ite]
  constructor
  · intro hsame
    have hended : Ended s := ⟨by rw [hsame]; exact hstate, hl.live, hl.timer⟩
    exact hl.ends hb (Or.inl hended) hl.started
  · intro _
    rw [meets_bind, meets_modify]
    intro _ t hst
    have hbase := hb.withCurrent hl.live hl.timer ⟨state, s.failures⟩
    have hk := hst hbase
    exact hl.ends hk.base (hk.calm (Or.inl ⟨hstate, hl.live, hl.timer⟩)) (hk.started hl.started)

theorem meets_transition_going (hb : Base s) (hl : Lost s) (state : LinkState) :
    Meets Keeps (fun _ t => Left ⟨state, s.failures⟩ t) (transition state) s := by
  unfold transition
  rw [meets_bind, meets_get, meets_ite]
  refine ⟨fun h => by simp [hl.going] at h, fun _ => ?_⟩
  rw [meets_ite]
  constructor
  · intro hsame
    exact ⟨hb, hl.started, Or.inr ⟨hl, hsame⟩⟩
  · intro _
    rw [meets_bind, meets_modify]
    intro _ t hst
    have hbase := hb.withCurrent hl.live hl.timer ⟨state, s.failures⟩
    refine (lasting_left _).keeps _ t ⟨hbase, hl.started, Or.inr ⟨?_, rfl⟩⟩ hst
    exact ⟨hl.started, hl.going, hl.live, hl.timer⟩

theorem meets_fault_none (hb : Base s) (hl : Lost s) :
    Meets Keeps (fun _ t => Ends s t) (fault none) s := by
  unfold fault
  rw [meets_bind, meets_get, meets_ite]
  refine ⟨fun h => by simp [hl.going] at h, fun _ => ?_⟩
  rw [meets_bind]
  exact meets_clearControllerTimer hl.timer (meets_transition_terminal hb hl rfl)

theorem meets_setTimeout {N : Controller → Controller → Prop}
    {Q : Option (ℕ × Bool) → Controller → Prop} {timer : Timer} {delay : ℕ} (hthrew : Q none s)
    (hset : ∀ fired, Q (some (s.handles, fired)) { s with
      handles := s.handles + 1
      timers := if fired then s.timers else Function.update s.timers s.handles (some timer) }) :
    Meets N Q (setTimeout timer delay) s := by
  unfold setTimeout
  rw [meets_bind]
  rintro (_ | fired)
  · exact hthrew
  · exact hset fired

/-- A clock that called back at once has nothing armed. -/
theorem Base.fired (hb : Base s) : Base { s with handles := s.handles + 1 } :=
  { hb with fresh := fun h hh => hb.fresh h (Nat.le_of_succ_le hh) }

theorem Timed.fresh_arm (hb : Timed s) (timer : Timer) (h : ℕ) (hh : s.handles + 1 ≤ h) :
    Function.update s.timers s.handles (some timer) h = none := by
  rw [Function.update_of_ne (Nat.ne_of_gt hh)]
  exact hb.fresh h (Nat.le_of_succ_le hh)

/-- The timer of the controller is armed where there was nothing. -/
theorem Base.arm (hb : Base s) (hl : Lost s) (hgoing : isTerminal s.current.state = false) :
    Base { s with
      handles := s.handles + 1
      timers := Function.update s.timers s.handles (some (.controller s.generation))
      timer := some s.handles } where
  fresh := hb.fresh_arm _
  own := hb.own
  single h := absurd hl.live h
  stopped h := by simp [hl.going] at h
  unstarted h := by simp [hl.started] at h
  past h g hg := by
    by_cases heq : h = s.handles
    · subst heq
      simp only [Function.update_self, Option.some.injEq, Timer.controller.injEq] at hg
      exact ⟨hg.ge, fun _ => Or.inr rfl⟩
    · simp only [Function.update_of_ne heq] at hg
      obtain ⟨hle, hlast⟩ := hb.past h g hg
      refine ⟨hle, fun hgen => ?_⟩
      -- a timer of this generation would have been the controller's
      rcases hlast hgen with hstop | htimer
      · exact Or.inl hstop
      · simp [hl.timer] at htimer
  armed h hh := by
    obtain rfl := Option.some.inj hh
    simp
  running _ := hgoing
  handshake a h ha := by simp [hl.live] at ha

theorem meets_armControllerTimer (hleft : Left status s)
    (hgoing : isTerminal status.state = false) (delay : ℕ) :
    Meets Keeps (fun _ t => Ends s t) (armControllerTimer delay) s := by
  unfold armControllerTimer
  rw [meets_bind, meets_get, meets_ite]
  rcases hleft.rest with ⟨hstop, hcalm⟩ | ⟨hl, hcur⟩
  · exact ⟨fun _ => ⟨hleft.base, hcalm, fun h => h, fun h => h⟩,
      fun h => absurd (Or.inl hstop) h⟩
  · refine ⟨fun h => ?_, fun _ => ?_⟩
    · rcases h with h | h
      · simp [hl.going] at h
      · exact absurd hl.timer h
    · have hlost : Lost { s with handles := s.handles + 1 } :=
        ⟨hl.started, hl.going, hl.live, hl.timer⟩
      rw [meets_bind]
      refine meets_setTimeout ?_ (fun fired => ?_)
      · rw [meets_bind, meets_get, meets_ite]
        exact ⟨fun _ => meets_transition_terminal hleft.base hl rfl,
          fun h => absurd ⟨hl.going, rfl⟩ h⟩
      · rw [meets_bind, meets_get, meets_ite]
        cases fired with
        | false =>
            refine ⟨fun h => by simp [hl.going] at h, fun _ => ?_⟩
            refine hl.ends (hleft.base.arm hl (hcur ▸ hgoing)) ?_ hl.started
            exact Or.inr (Or.inr (Or.inl (by simp)))
        | true =>
            refine ⟨fun _ => ?_, fun h => absurd (Or.inr (Or.inr rfl)) h⟩
            have hfault : ∀ u, Base u → Lost u → u.generation = s.generation →
                Meets Keeps (fun _ t => Ends s t)
                  (do
                    let now ← Routine.get
                    if now.stopped = false ∧ now.generation = s.generation then transition .faulted
                    else pure ()) u := by
              intro u hbu hlu hgen
              rw [meets_bind, meets_get, meets_ite]
              refine ⟨fun _ => ?_, fun h => absurd ⟨hlu.going, hgen⟩ h⟩
              refine (meets_transition_terminal hbu hlu rfl).mono (fun _ t h => ?_)
              exact hl.ends h.base h.calm (h.started hlu.started)
            rw [meets_bind]
            refine meets_clearTimeout s.handles (hfault _ hleft.base.fired hlost rfl)
              (hfault _ (hleft.base.fired.forget hl.live hl.timer s.handles) ?_ rfl)
            exact ⟨hl.started, hl.going, hl.live, hl.timer⟩

/-- What is decided from a state is decided from an earlier one. -/
theorem Left.ends {s₀ t : Controller} (h : Left status s)
    (hstop : s₀.stopped = true → s.stopped = true) (hends : Ends s t) : Ends s₀ t :=
  hends.trans_left hstop (fun _ => h.started)

/-- Saying something and waiting for a timer. -/
theorem meets_wait (hb : Base s) (hl : Lost s) {state : LinkState} (hstate : isTerminal state = false)
    (delay : ℕ) : Meets Keeps (fun _ t => Ends s t) (do
      transition state
      armControllerTimer delay) s := by
  rw [meets_bind]
  refine (meets_transition_going hb hl state).mono (fun _ t ht => ?_)
  refine (meets_armControllerTimer ht hstate delay).mono (fun _ u hu => ?_)
  exact ht.ends (fun h => by simp [hl.going] at h) hu

theorem meets_scheduleAfterFailure (cfg : Config) (hleft : Left status s) :
    Meets Keeps (fun _ t => Ends s t) (scheduleAfterFailure cfg) s := by
  unfold scheduleAfterFailure
  rw [meets_bind, meets_get, meets_ite]
  rcases hleft.rest with ⟨hstop, hcalm⟩ | ⟨hl, -⟩
  · exact ⟨fun _ => ⟨hleft.base, hcalm, fun h => h, fun h => h⟩, fun h => absurd hstop h⟩
  · refine ⟨fun h => by simp [hl.going] at h, fun _ => ?_⟩
    rw [meets_bind]
    refine meets_see.mpr (fun read => ?_)
    cases read with
    | none => exact meets_fault_none hleft.base hl
    | some snapshot =>
        rw [meets_ite]
        refine ⟨fun _ => ?_, fun _ => meets_wait hleft.base hl rfl _⟩
        rw [meets_bind]
        exact meets_see.mpr (fun random => meets_wait hleft.base hl rfl _)

end Transition

/-! ## Attempts -/

section Attempt
variable {s : Controller} {live : ℕ}

theorem current_iff : current s live = true ↔
    s.stopped = false ∧ s.live = some live ∧ (s.attempts live).generation = s.generation := by
  simp [current, and_assoc]

theorem Base.current (hb : Base s) (hlive : s.live = some live) : current s live = true := by
  refine current_iff.mpr ⟨?_, hlive, hb.own live hlive⟩
  by_contra hstop
  have hnone := (hb.stopped (by simpa using hstop)).1
  simp [hlive] at hnone

/-- The attempt that is over is left behind by the generation. -/
theorem Timed.left (ht : Timed s) (hcur : GatewayLink.current s live = true) :
    Left s.current { s with generation := s.generation + 1, live := none } := by
  obtain ⟨hgoing, hlive, -⟩ := current_iff.mp hcur
  have hne : s.live ≠ none := by simp [hlive]
  have htimer := ht.single hne
  have hstarted : s.started = true := by
    by_contra h
    exact hne (ht.unstarted (by simpa using h)).1
  refine ⟨?_, hstarted, Or.inr ⟨⟨hstarted, hgoing, rfl, htimer⟩, rfl⟩⟩
  exact {
    fresh := ht.fresh
    own := fun a ha => by cases ha
    single := fun h => absurd rfl h
    stopped := fun h => by simp [hgoing] at h
    unstarted := fun h => by simp [hstarted] at h
    past := fun h g hg => by
      have hle := (ht.past h g hg).1
      exact ⟨Nat.le_succ_of_le hle, fun he => by
        have he' : g = s.generation + 1 := he
        omega⟩
    armed := fun h hh => by simp [htimer] at hh
    running := fun h => by simp [htimer] at h
    handshake := fun a h ha => by cases ha }

theorem meets_transition_left (hleft : Left status s) :
    Meets Keeps (fun _ t => Ends s t) (transition .faulted) s := by
  rcases hleft.rest with ⟨hstop, hcalm⟩ | ⟨hl, -⟩
  · unfold transition
    rw [meets_bind, meets_get, meets_ite]
    exact ⟨fun _ => ⟨hleft.base, hcalm, fun h => h, fun h => h⟩,
      fun h => absurd ⟨hstop, by decide⟩ h⟩
  · exact meets_transition_terminal hleft.base hl rfl

theorem meets_attemptFailed (cfg : Config) (ht : Timed s)
    (hcur : GatewayLink.current s live = true) (code : ℕ) (reason : String) :
    Meets Keeps (fun _ t => Ends s t) (attemptFailed cfg live code reason) s := by
  have hgoing := (current_iff.mp hcur).1
  have hstop : s.stopped = true → ∀ u : Controller, u.stopped = true := by simp [hgoing]
  unfold attemptFailed
  rw [meets_bind, meets_get, meets_ite]
  refine ⟨fun h => by simp [hgoing] at h, fun _ => ?_⟩
  rw [meets_ite]
  refine ⟨fun h => by simp [hcur] at h, fun _ => ?_⟩
  rw [meets_bind, meets_modify, meets_bind]
  refine (meets_dispose (lasting_left s.current) (ht.left hcur) live code reason).mono
    (fun _ t hleft => ?_)
  rw [meets_bind, meets_modify]
  have hcounted : Left s.current { t with failures := min MAX_FAILURES (t.failures + 1) } := by
    have htouch : Touched t { t with failures := min MAX_FAILURES (t.failures + 1) } :=
      ⟨rfl, rfl, rfl, rfl, rfl, rfl, rfl, rfl, fun _ => ⟨rfl, rfl, rfl⟩⟩
    exact (lasting_left _).keeps _ _ hleft htouch.keeps
  refine (meets_scheduleAfterFailure cfg hcounted).mono (fun _ u hu => ?_)
  exact hcounted.ends (fun h => hstop h _) hu

theorem meets_fault (ht : Timed s) (hcur : GatewayLink.current s live = true) :
    Meets Keeps (fun _ t => Ends s t) (fault (some live)) s := by
  obtain ⟨hgoing, hlive, -⟩ := current_iff.mp hcur
  have htimer := ht.single (by simp [hlive])
  have hstop : s.stopped = true → ∀ u : Controller, u.stopped = true := by simp [hgoing]
  unfold fault
  rw [meets_bind, meets_get, meets_ite]
  refine ⟨fun h => by simp [hgoing] at h, fun _ => ?_⟩
  rw [meets_ite]
  refine ⟨fun h => by simp [hcur] at h, fun _ => ?_⟩
  rw [meets_bind]
  refine meets_clearControllerTimer htimer ?_
  rw [meets_bind, meets_modify, meets_bind]
  refine (meets_dispose (lasting_left s.current) (ht.left hcur) live _ _).mono
    (fun _ t hleft => ?_)
  refine (meets_transition_left hleft).mono (fun _ u hu => ?_)
  exact hleft.ends (fun h => hstop h _) hu

/-- An event of an attempt that is over changes nothing. -/
theorem attemptFailed_of_not_current (cfg : Config) {N : Controller → Controller → Prop}
    {Q : Unit → Controller → Prop} (hcur : GatewayLink.current s live = false) (code : ℕ)
    (reason : String) (h : Q () s) : Meets N Q (attemptFailed cfg live code reason) s := by
  unfold attemptFailed
  rw [meets_bind, meets_get, meets_ite]
  refine ⟨fun _ => h, fun _ => ?_⟩
  rw [meets_ite]
  exact ⟨fun _ => h, fun hne => absurd hcur hne⟩

theorem fault_of_not_current {N : Controller → Controller → Prop}
    {Q : Unit → Controller → Prop} (hcur : GatewayLink.current s live = false) (h : Q () s) :
    Meets N Q (fault (some live)) s := by
  unfold fault
  rw [meets_bind, meets_get, meets_ite]
  refine ⟨fun _ => h, fun _ => ?_⟩
  rw [meets_ite]
  exact ⟨fun _ => h, fun hne => absurd hcur hne⟩

theorem not_lost (hcur : GatewayLink.current s live = true) : ¬Lost s := fun hl => by
  have hlive := (current_iff.mp hcur).2.1
  simp [hl.live] at hlive

/-- A program that only has to be looked at where the invariant holds. -/
theorem meets_of_base {α : Type} {p : Method α}
    (h : Base s → Meets Keeps (fun _ t => Keeps s t) p s) :
    Meets Keeps (fun _ t => Keeps s t) p s := by
  by_cases hb : Base s
  · exact h hb
  · exact (meets_true p s).mono (fun _ t _ hb' => absurd hb' hb)

theorem safe_attemptFailed (cfg : Config) (code : ℕ) (reason : String) :
    Safe (attemptFailed cfg live code reason) := by
  intro s
  refine meets_of_base (fun hb => ?_)
  cases hcur : GatewayLink.current s live with
  | true =>
      refine (meets_attemptFailed cfg hb.toTimed hcur code reason).mono (fun _ t h => ?_)
      exact h.keeps (not_lost hcur)
  | false => exact attemptFailed_of_not_current cfg hcur code reason (Keeps.refl s)

end Attempt

end Elpis.GatewayLink
