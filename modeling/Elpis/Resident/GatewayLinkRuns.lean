import Elpis.Resident.GatewayLinkSteps

/-!
# Runs of the link

Every call of the controller keeps what it may be left at, whatever calls come back from
inside it. So between two events one of three things holds: the controller gave up and says
so, an attempt is live and watched, or a timer waits for the next attempt.
-/

namespace Elpis.GatewayLink

open Elpis.Lib Elpis.Lib.Routine

/-! ## A new attempt -/

section Drive
variable {s : Controller}

/-- A call that leaves a watched attempt as it is, or one that is not watched yet. -/
structure Listening (a : ℕ) (s : Controller) : Prop where
  base : Base s
  started : s.started = true
  rest : Calm s ∨ Owes a s

theorem Listening.keeps {a : ℕ} {t : Controller} (h : Listening a s) (hst : Keeps s t) : Listening a t := by
  have hk := hst h.base
  refine ⟨hk.base, hk.started h.started, ?_⟩
  rcases h.rest with hcalm | howes
  · exact Or.inl (hk.calm hcalm)
  · exact hk.owes a howes

/-- What is owed is owed to the attempt that is current. -/
theorem Listening.calm {a : ℕ} (h : Listening a s) (hcur : current s a = false) : Calm s := by
  rcases h.rest with hcalm | howes
  · exact hcalm
  · have hlive := h.base.current howes.live
    simp [hcur] at hlive

theorem Base.watch {a : ℕ} (hb : Base s) (hlive : s.live = some a) : Base { s with
      handles := s.handles + 1
      timers := Function.update s.timers s.handles (some (.handshake a))
      attempts := Function.update s.attempts a { s.attempts a with timer := some s.handles } } where
  fresh := hb.fresh_arm _
  own b hlive' := by
    have heq : b = a := Option.some.inj (hlive'.symm.trans hlive)
    subst heq
    simpa using hb.own b hlive
  single := hb.single
  stopped := hb.stopped
  unstarted := hb.unstarted
  past h g hg := by
    by_cases heq : h = s.handles
    · simp [heq] at hg
    · simp only [Function.update_of_ne heq] at hg
      exact hb.past h g hg
  armed h hh := by
    have hnone := hb.single (by simp [hlive])
    simp [hnone] at hh
  running := hb.running
  handshake b h hlive' hh := by
    have heq : b = a := Option.some.inj (hlive'.symm.trans hlive)
    subst heq
    simp only [Function.update_self, Option.some.injEq] at hh
    simp [← hh]

theorem meets_armLiveTimer (cfg : Config) {a : ℕ} (h : Listening a s) :
    Meets Keeps (fun _ t => Base t ∧ Calm t ∧ t.started = true) (armLiveTimer cfg a) s := by
  have hfault : ∀ u : Controller, Base u → GatewayLink.current u a = true → u.started = true →
      Meets Keeps (fun _ t => Base t ∧ Calm t ∧ t.started = true) (fault (some a)) u := by
    intro u hbu hcur hstart
    exact (meets_fault hbu.toTimed hcur).mono (fun _ t ht => ⟨ht.base, ht.calm, ht.started hstart⟩)
  unfold armLiveTimer
  rw [meets_bind, meets_get, meets_ite]
  refine ⟨fun hskip => ⟨h.base, ?_, h.started⟩, fun hgo => ?_⟩
  · rcases h.rest with hcalm | howes
    · exact hcalm
    · rcases hskip with hcur | hready | htimer
      · exact h.calm hcur
      · simp [howes.ready] at hready
      · exact absurd howes.timer htimer
  · simp only [not_or, Bool.not_eq_false, Bool.not_eq_true] at hgo
    obtain ⟨hcur, hready, -⟩ := hgo
    have hlive := (current_iff.mp hcur).2.1
    rw [meets_bind]
    refine meets_setTimeout (hfault s h.base hcur h.started) (fun fired => ?_)
    rw [meets_ite]
    cases fired with
    | true =>
        refine ⟨fun _ => ?_, fun hne => absurd rfl hne⟩
        have hsame : Function.update s.timers s.handles none = s.timers := by
          rw [← h.base.fresh s.handles le_rfl, Function.update_eq_self]
        rw [meets_bind]
        refine meets_clearTimeout _ (hfault _ h.base.fired hcur h.started) ?_
        simp only [if_true, hsame]
        exact hfault _ h.base.fired hcur h.started
    | false =>
        refine ⟨fun hne => absurd hne (by decide), fun _ => ?_⟩
        rw [meets_bind, meets_get, meets_ite]
        refine ⟨fun _ => ?_, fun hne => absurd ⟨hcur, hready⟩ hne⟩
        rw [meets_setAttempt]
        exact ⟨h.base.watch hlive, Or.inr (Or.inl ⟨a, hlive, Or.inr (by simp)⟩), h.started⟩

theorem safe_keepDetach (a : ℕ) : Safe (keepDetach a) := by
  refine (safe_isCurrent a).bind (fun _ => Safe.ite (safe_setAttempt ?_ a) (safe_invoke (.detach a)))
  exact fun _ => ⟨rfl, rfl, rfl⟩

theorem meets_listen (cfg : Config) {a : ℕ} (h : Listening a s) :
    Meets Keeps (fun _ t => Base t ∧ Calm t ∧ t.started = true) (listen cfg a) s := by
  unfold listen isCurrent
  rw [meets_bind, meets_bind, meets_get, meets_pure, meets_ite]
  refine ⟨fun hcur => ⟨h.base, h.calm hcur, h.started⟩, fun _ => ?_⟩
  rw [meets_bind]
  refine meets_invoke.mpr (fun returned t hst => ?_)
  have ht := h.keeps hst
  cases returned with
  | none =>
      cases hcur : GatewayLink.current t a with
      | true =>
          exact (meets_fault ht.base.toTimed hcur).mono (fun _ u hu => ⟨hu.base, hu.calm, hu.started ht.started⟩)
      | false => exact fault_of_not_current hcur ⟨ht.base, ht.calm hcur, ht.started⟩
  | some returned =>
      rw [meets_bind]
      refine (safe_doIf (safe_keepDetach a) t).mono (fun _ u hu => ?_)
      have hu := ht.keeps hu
      rw [meets_bind, meets_bind, meets_get, meets_pure, meets_ite]
      exact ⟨fun hcur => ⟨hu.base, hu.calm hcur, hu.started⟩, fun _ => meets_armLiveTimer cfg hu⟩

/-- The controller with an attempt it has just made, and says so. -/
theorem Base.connect (hb : Base s) (hl : Lost s) (hello : String) (state : LinkState)
    (hstate : isTerminal state = false) (failures : ℕ) : Listening s.count { s with
      generation := s.generation + 1
      attempts := Function.update s.attempts s.count { generation := s.generation + 1, hello }
      count := s.count + 1
      live := some s.count
      current := ⟨state, failures⟩ } where
  base := {
    fresh := hb.fresh
    own := fun a ha => by
      obtain rfl := Option.some.inj ha
      simp
    single := fun _ => hl.timer
    stopped := fun h => by simp [hl.going] at h
    unstarted := fun h => by simp [hl.started] at h
    past := fun h g hg => by
      have hle := (hb.past h g hg).1
      exact ⟨Nat.le_succ_of_le hle, fun he => by
        have he' : g = s.generation + 1 := he
        omega⟩
    armed := fun h hh => by simp [hl.timer] at hh
    running := fun _ => hstate
    handshake := fun a h ha hh => by
      obtain rfl := Option.some.inj ha
      simp at hh }
  started := hl.started
  rest := Or.inr ⟨hl.started, hl.going, rfl, by simp, by simp⟩

theorem meets_connect (cfg : Config) (hb : Base s) (hl : Lost s) (hello : String) :
    Meets Keeps (fun _ t => Ends s t) (connect cfg hello) s := by
  have hlisten : ∀ u, Listening s.count u → Meets Keeps (fun _ t => Ends s t) (listen cfg s.count) u :=
    fun u hu => (meets_listen cfg hu).mono (fun _ t ht => hl.ends ht.1 ht.2.1 ht.2.2)
  unfold connect transition
  rw [meets_bind, meets_get, meets_bind, meets_modify, meets_bind, meets_bind, meets_get, meets_ite]
  refine ⟨fun h => absurd (hl.going ▸ h.1) (by decide), fun _ => ?_⟩
  rw [meets_ite]
  constructor
  · intro hsame
    have hconnecting := hb.connect hl hello .connecting rfl s.failures
    rw [← hsame] at hconnecting
    exact hlisten _ hconnecting
  · intro _
    rw [meets_bind, meets_modify]
    intro _ t hst
    exact hlisten t ((hb.connect hl hello .connecting rfl s.failures).keeps hst)

theorem meets_drive (cfg : Config) (hb : Base s) (hl : Lost s) :
    Meets Keeps (fun _ t => Ends s t) (drive cfg) s := by
  have hskip : ¬(s.started = false ∨ s.stopped = true ∨ s.live ≠ none) := by
    simp [hl.started, hl.going, hl.live]
  unfold drive
  rw [meets_bind, meets_get, meets_ite]
  refine ⟨fun h => absurd h hskip, fun _ => ?_⟩
  rw [meets_bind]
  refine meets_clearControllerTimer hl.timer ?_
  rw [meets_ite]
  refine ⟨fun _ => meets_transition_terminal hb hl rfl, fun _ => ?_⟩
  cases cfg.origin with
  | none => exact meets_transition_terminal hb hl rfl
  | some origin =>
      rw [meets_bind]
      refine meets_see.mpr (fun first => ?_)
      cases first with
      | none => exact meets_fault_none hb hl
      | some first =>
          rw [meets_ite]
          refine ⟨fun _ => meets_wait hb hl rfl _, fun _ => ?_⟩
          rw [meets_ite]
          refine ⟨fun _ => meets_transition_terminal hb hl rfl, fun _ => ?_⟩
          rw [meets_bind]
          refine meets_see.mpr (fun authorization => ?_)
          cases authorization with
          | none => exact meets_fault_none hb hl
          | some authorization =>
              rw [meets_bind]
              refine meets_see.mpr (fun second => ?_)
              cases second with
              | none => exact meets_fault_none hb hl
              | some second =>
                  rw [meets_ite]
                  refine ⟨fun _ => meets_wait hb hl rfl _, fun _ => ?_⟩
                  rw [meets_bind]
                  refine meets_see.mpr (fun hello => ?_)
                  cases hello with
                  | none => exact meets_fault_none hb hl
                  | some hello => exact meets_connect cfg hb hl hello

end Drive

/-! ## Events -/

section Events
variable {s : Controller}

/-- A status that gives up nothing may be told while there is an attempt. -/
theorem keeps_withCurrent (hlive : s.live ≠ none) {status : LinkStatus} (hstate : isTerminal status.state = false) :
    Keeps s { s with current := status } := fun hb =>
  { base := { hb with running := fun _ => hstate }
    stopped := fun h => h
    started := fun h => h
    calm := fun hcalm => by
      rcases hcalm with hended | hrest
      · exact absurd hended.live hlive
      · exact Or.inr hrest
    lost := fun hl => absurd hl.live hlive
    owes := fun _ ho => Or.inr ⟨ho.started, ho.going, ho.live, ho.ready, ho.timer⟩ }

theorem meets_transition_live (hcur : ∃ a, GatewayLink.current s a = true) {state : LinkState}
    (hstate : isTerminal state = false) : Meets Keeps (fun _ t => Keeps s t) (transition state) s := by
  obtain ⟨a, ha⟩ := hcur
  obtain ⟨hgoing, hlive, -⟩ := current_iff.mp ha
  have hne : s.live ≠ none := by simp [hlive]
  unfold transition
  rw [meets_bind, meets_get, meets_ite]
  refine ⟨fun h => absurd (hgoing ▸ h.1) (by decide), fun _ => ?_⟩
  rw [meets_ite]
  refine ⟨fun _ => Keeps.refl s, fun _ => ?_⟩
  rw [meets_bind, meets_modify]
  exact fun _ t hst => (keeps_withCurrent hne hstate).trans hst

theorem safe_hasCapacity (cfg : Config) (live : ℕ) (encoded : String) : Safe (hasCapacity cfg live encoded) := by
  refine (safe_invoke _).bind (fun buffered => ?_)
  match buffered with
  | .threw => exact safe_pure _
  | .undefined => exact safe_pure _
  | .value .nonFinite => exact safe_pure _
  | .value (.finite _) => exact safe_pure _

theorem safe_dispatch {live : ℕ} {p : Method Unit}
    (h : ∀ s, GatewayLink.current s live = true → Meets Keeps (fun _ t => Keeps s t) p s) : Safe (dispatch live p) := by
  intro s
  unfold dispatch isCurrent
  rw [meets_bind, meets_bind, meets_get, meets_pure, meets_ite]
  exact ⟨h s, fun _ => Keeps.refl s⟩

theorem meets_opened (cfg : Config) {live : ℕ} (hcur : GatewayLink.current s live = true) :
    Meets Keeps (fun _ t => Keeps s t) (opened cfg live) s := by
  have hrest : Safe (do
      if (← isCurrent live) = false then pure ()
      else if (← hasCapacity cfg live (s.attempts live).hello) = false then
        attemptFailed cfg live closeUnavailable "backpressure"
      else do
        let threw ← invoke (.sendText live (s.attempts live).hello)
        if threw = true then attemptFailed cfg live closeUnavailable "transport_error"
        else pure ()) :=
    (safe_isCurrent live).bind (fun _ => Safe.ite (safe_pure ()) ((safe_hasCapacity cfg live _).bind
      (fun _ => Safe.ite (safe_attemptFailed cfg _ _) ((safe_invoke (.sendText live _)).bind
        (fun _ => Safe.ite (safe_attemptFailed cfg _ _) (safe_pure ()))))))
  unfold opened
  rw [meets_bind, meets_get, meets_ite]
  refine ⟨fun _ => safe_attemptFailed cfg _ _ s, fun _ => ?_⟩
  have htouched := touched_setAttempt (f := fun a => { a with opened := true }) (fun _ => ⟨rfl, rfl, rfl⟩) s live
  rw [meets_bind, meets_setAttempt, meets_bind]
  refine (meets_transition_live ⟨live, ?_⟩ rfl).mono (fun _ t ht => ?_)
  · obtain ⟨hgoing, hlive, hgen⟩ := current_iff.mp hcur
    exact current_iff.mpr ⟨hgoing, hlive, (htouched.attempt live).1.trans hgen⟩
  · exact (hrest t).mono (fun _ u htu => (htouched.keeps.trans ht).trans htu)

/-- What is acknowledged is ready, and its timer is off. -/
theorem keeps_ready {live : ℕ} (hlive : s.live = some live) (timers : ℕ → Option Timer)
    (htimers : ∀ h, timers h = s.timers h ∨ (s.attempts live).timer = some h ∧ timers h = none) :
    Keeps s { s with
      attempts := Function.update s.attempts live { s.attempts live with ready := true, timer := none }
      timers
      failures := 0
      current := ⟨.ready, 0⟩ } := by
  intro hb
  have hother : ∀ h t, timers h = some t → s.timers h = some t := by
    intro h t ht
    rcases htimers h with hsame | ⟨-, hnone⟩
    · rw [← hsame, ht]
    · rw [hnone] at ht
      cases ht
  exact {
    base := {
      fresh := fun h hh => by
        rcases htimers h with hsame | ⟨-, hnone⟩
        · exact hsame.trans (hb.fresh h hh)
        · exact hnone
      own := fun a ha => by
        have heq : a = live := Option.some.inj (ha.symm.trans hlive)
        subst heq
        simpa using hb.own a hlive
      single := hb.single
      stopped := hb.stopped
      unstarted := hb.unstarted
      past := fun h g hg => hb.past h g (hother h _ hg)
      armed := fun h hh => by
        have hnone := hb.single (by simp [hlive])
        exact absurd hh (by simp [hnone])
      running := fun _ => rfl
      handshake := fun a h ha hh => by
        have heq : a = live := Option.some.inj (ha.symm.trans hlive)
        subst heq
        simp at hh }
    stopped := fun h => h
    started := fun h => h
    calm := fun _ => Or.inr (Or.inl ⟨live, hlive, Or.inl (by simp)⟩)
    lost := fun hl => by simp [hl.live] at hlive
    owes := fun _ _ => Or.inl (Or.inr (Or.inl ⟨live, hlive, Or.inl (by simp)⟩)) }

theorem meets_acknowledged {live : ℕ} (hcur : GatewayLink.current s live = true) :
    Meets Keeps (fun _ t => Keeps s t) (do
      setAttempt live (fun a => { a with ready := true })
      clearLiveTimer live
      modify (fun s => { s with failures := 0 })
      transition .ready) s := by
  obtain ⟨hgoing, hlive, -⟩ := current_iff.mp hcur
  have hlast : ∀ timers : ℕ → Option Timer,
      (∀ h, timers h = s.timers h ∨ (s.attempts live).timer = some h ∧ timers h = none) →
      Meets Keeps (fun _ t => Keeps s t) (do
        modify (fun s => { s with failures := 0 })
        transition .ready) { s with
          attempts := Function.update s.attempts live { s.attempts live with ready := true, timer := none }
          timers } := by
    intro timers htimers
    have hkeeps := keeps_ready hlive timers htimers
    unfold transition
    rw [meets_bind, meets_modify, meets_bind, meets_get, meets_ite]
    refine ⟨fun h => absurd (hgoing ▸ h.1) (by decide), fun _ => ?_⟩
    rw [meets_ite]
    constructor
    · intro hsame
      rw [← hsame] at hkeeps
      exact hkeeps
    · intro _
      rw [meets_bind, meets_modify]
      exact fun _ t hst => hkeeps.trans hst
  unfold clearLiveTimer
  rw [meets_bind, meets_setAttempt, meets_bind, meets_bind, meets_get, meets_bind, meets_setAttempt]
  simp only [Function.update_self, Function.update_idem]
  cases htimer : (s.attempts live).timer with
  | none => exact hlast s.timers (fun h => Or.inl rfl)
  | some handle =>
      refine meets_clearTimeout handle (hlast s.timers (fun h => Or.inl rfl)) (hlast _ (fun h => ?_))
      by_cases heq : h = handle
      · subst heq
        exact Or.inr ⟨htimer, by simp⟩
      · exact Or.inl (by simp [Function.update_of_ne heq])

theorem meets_message (cfg : Config) {live : ℕ} (hcur : GatewayLink.current s live = true) (text : Option String)
    (binary : Bool) : Meets Keeps (fun _ t => Keeps s t) (message cfg live text binary) s := by
  unfold message
  rw [meets_ite]
  refine ⟨fun _ => safe_attemptFailed cfg _ _ s, fun _ => ?_⟩
  cases text with
  | none => exact safe_attemptFailed cfg _ _ s
  | some text =>
      rw [meets_bind]
      refine meets_see.mpr (fun frame => ?_)
      cases frame with
      | none => exact safe_attemptFailed cfg _ _ s
      | some frame =>
          rw [meets_bind, meets_get, meets_ite]
          constructor
          · intro _
            rw [meets_ite]
            exact ⟨fun _ => safe_attemptFailed cfg _ _ s, fun _ => meets_acknowledged hcur⟩
          · intro _
            rw [meets_ite]
            exact ⟨fun _ => safe_attemptFailed cfg _ _ s, fun _ => safe_invoke (.onFrame live frame) s⟩

theorem safe_queue (live : ℕ) (f : List String → List String) :
    Safe (setAttempt live (fun a => { a with effectQueue := f a.effectQueue })) := by
  refine safe_setAttempt ?_ live
  exact fun _ => ⟨rfl, rfl, rfl⟩

theorem safe_writing (live : ℕ) (writing : Bool) :
    Safe (setAttempt live (fun a => { a with writingEffect := writing })) := by
  refine safe_setAttempt ?_ live
  exact fun _ => ⟨rfl, rfl, rfl⟩

theorem safe_drain (cfg : Config) (live rounds : ℕ) : Safe (drain cfg live rounds) := by
  induction rounds with
  | zero => exact fun s e => nomatch e
  | succ rounds ih =>
      refine safe_get_bind (fun s => ?_)
      rw [meets_ite]
      refine ⟨fun _ => Keeps.refl s, fun _ => ?_⟩
      cases (s.attempts live).effectQueue with
      | nil => exact Keeps.refl s
      | cons encoded rest =>
          exact (safe_queue live (fun _ => rest)).bind
            (fun _ => (safe_hasCapacity cfg live encoded).bind (fun _ => Safe.ite (safe_attemptFailed cfg _ _)
              ((safe_invoke (.sendText live encoded)).bind
                (fun _ => Safe.ite (safe_attemptFailed cfg _ _) ih)))) s

theorem safe_writeEffect (cfg : Config) (live rounds : ℕ) : Safe (writeEffect cfg live rounds) := by
  have hlast : Safe (do
      let now ← Routine.get
      if current now live = false then setAttempt live (fun a => { a with effectQueue := [] })
      else pure ()) := by
    refine safe_get_bind (fun s => ?_)
    rw [meets_ite]
    exact ⟨fun _ => safe_queue live (fun _ => []) s, fun _ => Keeps.refl s⟩
  refine safe_get_bind (fun s => ?_)
  rw [meets_ite]
  refine ⟨fun _ => Keeps.refl s, fun _ => ?_⟩
  rw [meets_ite]
  refine ⟨fun _ => safe_attemptFailed cfg _ _ s, fun _ => ?_⟩
  refine (safe_see (.create live)).bind (fun created => ?_) s
  cases created with
  | none => exact safe_pure ()
  | some encoded =>
      refine (safe_queue live (fun queue => queue ++ [encoded])).bind (fun _ => Safe.ite (safe_pure ()) ?_)
      exact (safe_writing live true).bind (fun _ => (safe_drain cfg live rounds).bind
        (fun _ => (safe_writing live false).bind (fun _ => hlast)))

end Events

/-! ## The controller -/

section Calls
variable {s : Controller}

theorem safe_start (cfg : Config) : Safe (start cfg) := by
  intro s
  refine meets_of_base (fun hb => ?_)
  unfold start
  rw [meets_bind, meets_get, meets_ite]
  refine ⟨fun _ => Keeps.refl s, fun hgo => ?_⟩
  simp only [not_or, Bool.not_eq_true] at hgo
  obtain ⟨hgoing, hunstarted⟩ := hgo
  obtain ⟨hlive, htimer⟩ := hb.unstarted hunstarted
  have hbase : Base { s with started := true } := { hb with unstarted := fun h => by cases h }
  rw [meets_bind, meets_modify]
  refine (meets_drive cfg hbase ⟨rfl, hgoing, hlive, htimer⟩).mono (fun _ t h => ?_)
  have hends : Ends s t := ⟨h.base, h.calm, fun hs => by simp [hgoing] at hs, fun _ => h.started rfl⟩
  exact hends.keeps (fun hl => by simp [hl.started] at hunstarted)

/-- The controller is being stopped, and was started before. -/
theorem lasting_stopping_started (p : Prop) : Lasting (fun t => Stopping t ∧ (p → t.started = true)) where
  idle _ h := lasting_stopping.idle _ h.1
  keeps s t h hst := ⟨lasting_stopping.keeps s t h.1 hst, fun hp => (hst h.1.base).started (h.2 hp)⟩
  same s t h hbase hcurrent hstarted hstopped hlive htimer :=
    ⟨lasting_stopping.same s t h.1 hbase hcurrent hstarted hstopped hlive htimer, fun hp => hstarted.trans (h.2 hp)⟩

theorem Base.stop (hb : Base s) (timers : ℕ → Option Timer) (htimers : ∀ h, timers h = s.timers h ∨ timers h = none) :
    Base { s with stopped := true, generation := s.generation + 1, timer := none, timers, live := none } where
  fresh h hh := by
    rcases htimers h with hsame | hnone
    · exact hsame.trans (hb.fresh h hh)
    · exact hnone
  own a ha := by cases ha
  single h := absurd rfl h
  stopped _ := ⟨rfl, rfl⟩
  unstarted _ := ⟨rfl, rfl⟩
  past h g hg := by
    rcases htimers h with hsame | hnone
    · exact ⟨Nat.le_succ_of_le (hb.past h g (hsame.symm.trans hg)).1, fun _ => Or.inl rfl⟩
    · exact absurd (hnone.symm.trans hg) (by simp)
  armed h hh := by cases hh
  running h := by simp at h
  handshake a h ha := by cases ha

theorem safe_stop : Safe stop := by
  intro s
  refine meets_of_base (fun hb => ?_)
  unfold stop
  rw [meets_bind, meets_get, meets_ite]
  refine ⟨fun _ => Keeps.refl s, fun _ => ?_⟩
  have htell : ∀ u, Stopping u ∧ (s.started = true → u.started = true) →
      Meets Keeps (fun _ t => Keeps s t) (transition .stopped) u := by
    rintro u ⟨hu, hstart⟩
    obtain ⟨hlive, htimer⟩ := hu.base.stopped hu.stopped
    -- the end of a call that stopped
    have hend : ∀ t, Base t → Calm t → t.stopped = true → (s.started = true → t.started = true) → Keeps s t :=
      fun t hbt hct hstop hst _ => ⟨hbt, fun _ => hstop, hst, fun _ => hct, fun _ => Or.inl ⟨hstop, hct⟩,
        fun _ _ => Or.inl hct⟩
    unfold transition
    rw [meets_bind, meets_get, meets_ite]
    refine ⟨fun h => absurd rfl h.2, fun _ => ?_⟩
    rw [meets_ite]
    constructor
    · intro hsame
      exact hend u hu.base (Or.inl ⟨by rw [hsame]; rfl, hlive, htimer⟩) hu.stopped hstart
    · intro _
      rw [meets_bind, meets_modify]
      intro _ t hst
      have hk := hst (hu.base.withCurrent hlive htimer ⟨.stopped, u.failures⟩)
      exact hend t hk.base (hk.calm (Or.inl ⟨rfl, hlive, htimer⟩)) (hk.stopped hu.stopped)
        (fun hs => hk.started (hstart hs))
  have hdispose : ∀ timers : ℕ → Option Timer, (∀ h, timers h = s.timers h ∨ timers h = none) →
      Meets Keeps (fun _ t => Keeps s t) (do
        disposeIf s.live
        transition .stopped)
        { s with stopped := true, generation := s.generation + 1, timer := none, timers, live := none } := by
    intro timers htimers
    have hstopping : Stopping { s with
        stopped := true, generation := s.generation + 1, timer := none, timers, live := none } :=
      ⟨hb.stop timers htimers, rfl⟩
    rw [meets_bind]
    cases s.live with
    | none => exact htell _ ⟨hstopping, fun h => h⟩
    | some live =>
        exact (meets_dispose (lasting_stopping_started (s.started = true)) ⟨hstopping, fun h => h⟩ live _ _).mono
          (fun _ u hu => htell u hu)
  unfold clearControllerTimer
  rw [meets_bind, meets_modify, meets_bind, meets_bind, meets_get, meets_bind, meets_modify]
  cases s.timer with
  | none =>
      rw [meets_pure, meets_bind, meets_modify]
      exact hdispose s.timers (fun h => Or.inl rfl)
  | some handle =>
      refine meets_clearTimeout handle ?_ ?_
      · rw [meets_bind, meets_modify]
        exact hdispose s.timers (fun h => Or.inl rfl)
      · rw [meets_bind, meets_modify]
        refine hdispose _ (fun h => ?_)
        by_cases heq : h = handle
        · exact Or.inr (by simp [heq])
        · exact Or.inl (by simp [Function.update_of_ne heq])

end Calls

/-! ## Timers that fire -/

section Fire
variable {s : Controller} {handle : ℕ}

theorem keeps_unset (h : Base s → s.timer ≠ some handle ∧
    ∀ a, s.live = some a → (s.attempts a).timer ≠ some handle) :
    Keeps s { s with timers := Function.update s.timers handle none } := fun hb =>
  { base := hb.unset (h hb).1 (h hb).2
    stopped := fun hs => hs
    started := fun hs => hs
    calm := fun hc => by
      rcases hc with hended | ⟨a, ha, hwatch⟩ | htimer | hstart
      · exact Or.inl ⟨hended.terminal, hended.live, hended.timer⟩
      · exact Or.inr (Or.inl ⟨a, ha, hwatch⟩)
      · exact Or.inr (Or.inr (Or.inl htimer))
      · exact Or.inr (Or.inr (Or.inr hstart))
    lost := fun hl => Or.inr ⟨⟨hl.started, hl.going, hl.live, hl.timer⟩, rfl⟩
    owes := fun _ ho => Or.inr ⟨ho.started, ho.going, ho.live, ho.ready, ho.timer⟩ }

/-- The timer of the controller has fired, and is gone. -/
theorem Base.fire {generation : ℕ} (hb : Base s) (hset : s.timers handle = some (.controller generation))
    (hgoing : s.stopped = false) (hgen : generation = s.generation) :
    s.timer = some handle ∧
      Base { s with timers := Function.update s.timers handle none, timer := none } ∧
      Lost { s with timers := Function.update s.timers handle none, timer := none } := by
  have htimer : s.timer = some handle := by
    rcases (hb.past handle generation hset).2 hgen with hstop | htimer
    · simp [hgoing] at hstop
    · exact htimer
  have hlive : s.live = none := by
    by_contra hne
    simp [hb.single hne] at htimer
  have hstarted : s.started = true := by
    by_contra h
    simp [(hb.unstarted (by simpa using h)).2] at htimer
  refine ⟨htimer, ?_, ⟨hstarted, hgoing, hlive, rfl⟩⟩
  exact {
    fresh := hb.fresh_unset handle
    own := fun a ha => by simp [hlive] at ha
    single := fun _ => rfl
    stopped := fun h => by simp [hgoing] at h
    unstarted := fun h => by simp [hstarted] at h
    past := fun h g hg => by
      obtain ⟨hne, hset'⟩ := of_unset hg
      obtain ⟨hle, hlast⟩ := hb.past h g hset'
      refine ⟨hle, fun hg' => Or.inl ((hlast hg').resolve_right (fun hother => ?_))⟩
      exact hne (Option.some.inj (hother.symm.trans htimer))
    armed := fun h hh => by cases hh
    running := fun h => by simp [hlive] at h
    handshake := fun a h ha => by simp [hlive] at ha }

theorem safe_fire (cfg : Config) (handle : ℕ) : Safe (fire cfg handle) := by
  intro s
  refine meets_of_base (fun hb => ?_)
  unfold fire
  rw [meets_bind, meets_get]
  cases hset : s.timers handle with
  | none => exact Keeps.refl s
  | some timer =>
      rw [meets_bind, meets_modify]
      cases timer with
      | controller generation =>
          rw [meets_ite]
          constructor
          · intro hpast
            refine keeps_unset (fun _ => ⟨fun htimer => ?_, fun a ha hwatch => ?_⟩)
            · have hown := hset.symm.trans (hb.armed handle htimer)
              rcases hpast with hstop | hne
              · simp [(hb.stopped hstop).2] at htimer
              · exact hne (by simpa using hown)
            · exact absurd (hset.symm.trans (hb.handshake a handle ha hwatch)) (by simp)
          · intro hgo
            simp only [not_or, Bool.not_eq_true, not_not] at hgo
            obtain ⟨htimer, hbase, hlost⟩ := hb.fire hset hgo.1 hgo.2
            rw [meets_bind, meets_modify]
            refine (meets_drive cfg hbase hlost).mono (fun _ t h => ?_)
            have hends : Ends s t := ⟨h.base, h.calm, fun hs => h.stopped hs, fun hs => h.started hs⟩
            exact hends.keeps (fun hl => by simp [hl.timer] at htimer)
      | handshake live =>
          unfold dispatch isCurrent
          rw [meets_bind, meets_bind, meets_get, meets_pure, meets_ite]
          constructor
          · intro hcur
            obtain ⟨hgoing, hlive, -⟩ := current_iff.mp hcur
            have hsingle : s.timer = none := hb.single (show s.live ≠ none by simp [show s.live = _ from hlive])
            have htimed : Timed { s with timers := Function.update s.timers handle none } :=
              hb.toTimed.unset (by simp [hsingle])
            refine (meets_attemptFailed cfg htimed hcur _ _).mono (fun _ t h => ?_)
            have hends : Ends s t := ⟨h.base, h.calm, fun hs => h.stopped hs, fun hs => h.started hs⟩
            exact hends.keeps (fun hl => by simp [hl.live] at hlive)
          · intro hcur
            refine keeps_unset (fun _ => ⟨fun htimer => ?_, fun a ha hwatch => ?_⟩)
            · exact absurd (hset.symm.trans (hb.armed handle htimer)) (by simp)
            · have heq : live = a := by simpa using hset.symm.trans (hb.handshake a handle ha hwatch)
              subst heq
              exact hcur (hb.current ha)

end Fire

/-! ## Runs -/

theorem safe_program (cfg : Config) (c : Event) : Safe (program cfg c) := by
  cases c with
  | start => exact safe_start cfg
  | stop => exact safe_stop
  | «open» live => exact safe_dispatch (fun _ h => meets_opened cfg h)
  | message live text binary => exact safe_dispatch (fun _ h => meets_message cfg h text binary)
  | error live => exact safe_dispatch (fun s _ => safe_attemptFailed cfg _ _ s)
  | close live => exact safe_dispatch (fun s _ => safe_attemptFailed cfg _ _ s)
  | fire handle => exact safe_fire cfg handle
  | writeEffect live rounds => exact safe_writeEffect cfg live rounds

theorem base_init : Base Controller.init :=
  { fresh := fun _ _ => rfl
    own := fun _ h => by cases h
    single := fun _ => rfl
    stopped := fun _ => ⟨rfl, rfl⟩
    unstarted := fun _ => ⟨rfl, rfl⟩
    past := fun _ _ h => by cases h
    armed := fun _ h => by cases h
    running := fun h => by rcases h with h | h <;> exact absurd rfl h
    handshake := fun _ _ h => by cases h }

/-- An attempt is live, and is ready or has the time of its handshake running. -/
structure Watched (s : Controller) : Prop where
  live : ∃ a, s.live = some a ∧ current s a = true ∧ ((s.attempts a).ready = true ∨
    ∃ h, (s.attempts a).timer = some h ∧ s.timers h = some (.handshake a))
  timer : s.timer = none
  going : isTerminal s.current.state = false

/-- A timer is running for the next attempt. -/
structure Waiting (s : Controller) : Prop where
  live : s.live = none
  timer : ∃ h, s.timer = some h ∧ s.timers h = some (.controller s.generation)
  going : isTerminal s.current.state = false

theorem Base.modes {s : Controller} (hb : Base s) (hcalm : Calm s) (hstarted : s.started = true) :
    Ended s ∨ Watched s ∨ Waiting s := by
  rcases hcalm with hended | ⟨a, ha, hwatch⟩ | htimer | hstart
  · exact Or.inl hended
  · have hne : s.live ≠ none := by simp [ha]
    refine Or.inr (Or.inl ⟨⟨a, ha, hb.current ha, hwatch.imp_right (fun h => ?_)⟩, hb.single hne,
      hb.running (Or.inl hne)⟩)
    obtain ⟨handle, hh⟩ := Option.ne_none_iff_exists'.mp h
    exact ⟨handle, hh, hb.handshake a handle ha hh⟩
  · obtain ⟨handle, hh⟩ := Option.ne_none_iff_exists'.mp htimer
    have hlive : s.live = none := by
      by_contra hne
      exact htimer (hb.single hne)
    exact Or.inr (Or.inr ⟨hlive, ⟨handle, hh, hb.armed handle hh⟩, hb.running (Or.inr htimer)⟩)
  · simp [hstarted] at hstart

/-- The attempt whose socket the event comes from. -/
def Event.attempt : Event → Option ℕ
  | .open live => some live
  | .message live _ _ => some live
  | .error live => some live
  | .close live => some live
  | _ => none

/-- Nothing is done for an attempt that is over. -/
theorem finishes_superseded {cfg : Config} {V : Controller → Controller → Prop} {c : Event} {a : ℕ} {s t : Controller}
    (hc : c.attempt = some a) (hover : current s a = false) (hrun : Finishes V (program cfg c) s () t) : t = s := by
  have hdispatch : ∀ p : Method Unit, Meets V (fun _ t => t = s) (dispatch a p) s := by
    intro p
    unfold dispatch isCurrent
    rw [meets_bind, meets_bind, meets_get, meets_pure, meets_ite]
    exact ⟨fun hcur => by simp [hover] at hcur, fun _ => rfl⟩
  cases c with
  | «open» live | message live text binary | error live | close live =>
      obtain rfl := Option.some.inj hc
      exact (hdispatch _).finishes (fun _ _ h => h) hrun
  | _ => cases hc

/-- **A failed attempt is retried or reported.** Between two events of a controller that was
started, exactly one thing holds: it gave up and says so, an attempt is live and watched, or
a timer waits for the next attempt. Events of an attempt that is over change nothing. -/
theorem reachable_modes {cfg : Config} {s : Controller} (h : Reachable cfg s) (hstarted : s.started = true) :
    ((Ended s ∧ ¬Watched s ∧ ¬Waiting s) ∨ (Watched s ∧ ¬Ended s ∧ ¬Waiting s) ∨
      (Waiting s ∧ ¬Ended s ∧ ¬Watched s)) ∧
    ∀ (c : Event) (a depth : ℕ) (t : Controller), c.attempt = some a → current s a = false →
      Finishes (Within (program cfg) depth) (program cfg c) s () t → t = s := by
  obtain ⟨depth, hrun⟩ := h
  have hk := within_keeps Keeps.refl (fun _ _ _ => Keeps.trans) (fun c s => safe_program cfg c s) depth hrun base_init
  have hcalm := hk.calm (Or.inr (Or.inr (Or.inr rfl)))
  refine ⟨?_, fun c a _ t hc hover hfin => finishes_superseded hc hover hfin⟩
  -- a live attempt, a timer and a status that gives up exclude each other
  have hew : Ended s → ¬Watched s := fun he hw => by simpa [he.terminal] using hw.going
  have heg : Ended s → ¬Waiting s := fun he hw => by simpa [he.terminal] using hw.going
  have hwg : Watched s → ¬Waiting s := fun hw hg => by
    obtain ⟨a, ha, -⟩ := hw.live
    simp [hg.live] at ha
  rcases hk.base.modes hcalm hstarted with he | hw | hg
  · exact Or.inl ⟨he, hew he, heg he⟩
  · exact Or.inr (Or.inl ⟨hw, fun he => hew he hw, hwg hw⟩)
  · exact Or.inr (Or.inr ⟨hg, fun he => heg he hg, fun hw => hwg hw hg⟩)

/-! ### A first start -/

def firstConfig : Config where
  configurationInvalid := false
  origin := some "https://gateway.example"
  maxBufferedAmount := 1048576
  handshakeTimeoutMs := 10000
  enrollmentPollMs := 5000
  retryBaseMs := 1000
  retryMaxMs := 60000

/-- The controller behind a start that found nothing enrolled. -/
def firstWait : Controller := { Controller.init with
  current := ⟨.waitingForEnrollment, 0⟩
  started := true
  timer := some 0
  timers := Function.update (fun _ => none) 0 (some (.controller 0))
  handles := 1 }

theorem reachable_firstWait : Reachable firstConfig firstWait :=
  ⟨1, .single ⟨.start, some ⟨"i", .idle, none, none⟩, (), _, rfl, some false, rfl, rfl⟩⟩

theorem firstWait_modes :
    (Ended firstWait ∧ ¬Watched firstWait ∧ ¬Waiting firstWait) ∨
      (Watched firstWait ∧ ¬Ended firstWait ∧ ¬Waiting firstWait) ∨
      (Waiting firstWait ∧ ¬Ended firstWait ∧ ¬Watched firstWait) :=
  (reachable_modes reachable_firstWait rfl).1

end Elpis.GatewayLink
