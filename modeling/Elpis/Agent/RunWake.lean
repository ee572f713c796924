import Elpis.Agent.WakePrograms

/-!
# Armed wakes over whole runs

Any order of starts, arms, messages, polls, drains and crashes, where a crash may cut any
program between two durable writes. A crash that finds a fired wake in the queue breaks
the agreement of the records for good: recovery only looks for armed payloads. Without
such a crash every wake whose time has come is preempted or reaches the history once.
-/

namespace Elpis.Agent

open Elpis.Lib

/-! ## Runs -/

/-- What can happen to the process. `budget` is how many durable writes the program gets
done, when it does not get to its end. A task scheduled by other means has a payload of
its own; the clock does not go back within a poll. -/
inductive WakeEvent where
  | boot (now : ℤ) (budget : Option ℕ)
  | arm (request : WakeRequest) (suffix : String) (now : ℤ) (budget : Option ℕ)
  | enqueue (ambient : Bool) (channelName : String) (now : ℤ) (budget : Option ℕ)
  | schedule (opts : CreateTaskOpts) (text : String) (budget : Option ℕ)
  | poll (now : ℤ) (lag : ℕ) (failing : List ℕ) (budget : Option ℕ)
  | drain (budget : Option ℕ)
  | crash
deriving DecidableEq, Repr

abbrev AgentProcess := Crash.Process Store Memory

def wakeStep (s : AgentProcess) : WakeEvent → AgentProcess
  | .boot now budget =>
      match s.memory with
      | some _ => { s with lost := none }
      | none => Crash.Process.exec (recoverRunWake now) budget
          { s with memory := some Memory.fresh }
  | .arm request suffix now budget => s.exec (armRunWake request suffix now) budget
  | .enqueue ambient channelName now budget => s.exec (enqueue (.other ambient channelName) now) budget
  | .schedule opts text budget => s.exec (create { opts with payload := .text text }) budget
  | .poll now lag failing budget => s.exec (poll now (now + lag) failing) budget
  | .drain budget => s.exec drain budget
  | .crash => ⟨s.store, none, s.memory⟩

/-- The process after the events `es`, from an empty store. -/
def wakeRun (es : List WakeEvent) : AgentProcess := run wakeStep ⟨Store.empty, none, none⟩ es

def queueOf (s : AgentProcess) : List Message :=
  match s.memory with
  | some m => m.inbound
  | none => []

/-- An event loses no wake: at the crash it may end in, none is queued. -/
def LosesNoWake (s : AgentProcess) (e : WakeEvent) : Prop :=
  ∀ m, (wakeStep s e).lost = some m → ∀ id, wakeCount m.inbound id = 0

/-! ## The invariant -/

/-- Dead or alive, the records agree. -/
structure Agrees (s : AgentProcess) : Prop where
  ok : StoreOk s.store
  linked : ∀ m, s.memory = some m → Linked s.store m
  counted : Counted s.store (queueOf s)

variable {s : AgentProcess}

theorem Agrees.live (h : Agrees s) {m : Memory} (hm : s.memory = some m) :
    Live s.store m := by
  have hcounted := h.counted
  unfold queueOf at hcounted
  rw [hm] at hcounted
  exact ⟨h.ok, h.linked m hm, hcounted⟩

theorem Live.agrees {d : Store} {m : Memory} (h : Live d m) : Agrees ⟨d, some m, none⟩ where
  ok := h.ok
  linked := by
    intro m' hm
    obtain rfl := Option.some.inj hm
    exact h.linked
  counted := h.counted

/-- A crash that loses no wake leaves every fired one in the history. -/
theorem Dying.agrees {d : Store} {m : Memory} (h : Dying d m)
    (hlost : ∀ id, wakeCount m.inbound id = 0) : Agrees ⟨d, none, some m⟩ where
  ok := h.ok
  linked := nofun
  counted := by
    intro id
    have hcount := h.counted id
    rw [wakeCount_append, hlost id, Nat.add_zero] at hcount
    show wakeCount (d.history ++ []) id = _
    rw [List.append_nil]
    exact hcount

/-- What an event does: the process agrees, or dies with the memory it loses. -/
def StepOf (s t : AgentProcess) : Prop :=
  Keeps s.store t.store ∧
    ((Agrees t ∧ t.lost = none) ∨ ∃ m, t = ⟨t.store, none, some m⟩ ∧ Dying t.store m)

theorem exec_stepOf {α : Type} {m : Memory} {x : AgentM α}
    (hm : s.memory = some m)
    (hx : Crash.wp x (fun _ d' m' => Live d' m' ∧ Keeps s.store d')
      (fun _ d' m' => Live d' m' ∧ Keeps s.store d')
      (fun d' m' => Dying d' m' ∧ Keeps s.store d') s.store m) (budget : Option ℕ) :
    StepOf s (s.exec x budget) := by
  rcases Crash.Process.exec_cases hm hx budget with
    ⟨_, d', m', heq, hlive, hkeeps⟩ | ⟨_, d', m', heq, hlive, hkeeps⟩ |
    ⟨d', m', heq, -, hdying, hkeeps⟩
  · rw [heq]
    exact ⟨hkeeps, Or.inl ⟨hlive.agrees, rfl⟩⟩
  · rw [heq]
    exact ⟨hkeeps, Or.inl ⟨hlive.agrees, rfl⟩⟩
  · rw [heq]
    exact ⟨hkeeps, Or.inr ⟨m', rfl, hdying⟩⟩

theorem stepOf_idle (h : Agrees s) : StepOf s { s with lost := none } :=
  ⟨Keeps.refl s.store, Or.inl ⟨⟨h.ok, h.linked, h.counted⟩, rfl⟩⟩

theorem exec_of_dead {α : Type} (x : AgentM α) (budget : Option ℕ)
    (hm : s.memory = none) : s.exec x budget = { s with lost := none } := by
  unfold Crash.Process.exec
  rw [hm]

theorem exec_stepOf' {α : Type} {x : AgentM α} (h : Agrees s)
    (hx : ∀ m, Live s.store m → Crash.wp x (fun _ d' m' => Live d' m' ∧ Keeps s.store d')
      (fun _ d' m' => Live d' m' ∧ Keeps s.store d')
      (fun d' m' => Dying d' m' ∧ Keeps s.store d') s.store m) (budget : Option ℕ) :
    StepOf s (s.exec x budget) := by
  cases hm : s.memory with
  | none =>
      rw [exec_of_dead x budget hm]
      exact stepOf_idle h
  | some m => exact exec_stepOf hm (hx m (h.live hm)) budget

theorem wakeStep_stepOf (h : Agrees s) (e : WakeEvent) :
    StepOf s (wakeStep s e) := by
  cases e with
  | boot now budget =>
      simp only [wakeStep]
      split
      · exact stepOf_idle h
      · rename_i hm
        have hcounted : Counted s.store [] := by
          have hqueue := h.counted
          unfold queueOf at hqueue
          rw [hm] at hqueue
          exact hqueue
        have hstep : StepOf { s with memory := some Memory.fresh }
            (Crash.Process.exec (recoverRunWake now) budget
              { s with memory := some Memory.fresh }) := by
          apply exec_stepOf rfl
          apply Crash.wp_mono (wp_recoverRunWake h.ok hcounted)
          · exact fun _ _ _ h' => ⟨h'.1, h'.2.1⟩
          · exact fun _ _ _ he => he
          · exact fun _ _ hc => ⟨hc.1, hc.2.1⟩
        exact hstep
  | arm request suffix now budget =>
      exact exec_stepOf' h (fun m hlive => wp_armRunWake hlive) budget
  | enqueue ambient channelName now budget =>
      refine exec_stepOf' h (fun m hlive => ?_) budget
      apply Crash.wp_mono (wp_enqueue_other hlive)
      · exact fun _ _ _ h' => ⟨h'.1, h'.2.1⟩
      · exact fun _ _ _ he => he
      · exact fun _ _ hc => ⟨hc.1, hc.2.1⟩
  | schedule opts text budget =>
      refine exec_stepOf' h (fun m hlive => ?_) budget
      apply Crash.wp_mono (wp_schedule rfl hlive
        (P := fun _ d' m' => Live d' m' ∧ Fades s.store d') (fun _ _ hl hf => ⟨hl, hf⟩))
      · exact fun _ _ _ h' => ⟨h'.1, h'.2.1⟩
      · exact fun _ _ _ h' => ⟨h'.1, h'.2.1⟩
      · exact fun _ _ hc => ⟨hc.1, hc.2.1⟩
  | poll now lag failing budget =>
      refine exec_stepOf' h (fun m hlive => ?_) budget
      apply Crash.wp_mono (wp_poll failing hlive (by omega))
      · exact fun _ _ _ h' => ⟨h'.1, h'.2.1.1⟩
      · exact fun _ _ _ he => he
      · exact fun _ _ hc => ⟨hc.1, hc.2.1⟩
  | drain budget =>
      refine exec_stepOf' h (fun m hlive => ?_) budget
      apply Crash.wp_mono (wp_drain hlive)
      · exact fun _ _ _ h' => ⟨h'.1, h'.2.1⟩
      · exact fun _ _ _ he => he
      · exact fun _ _ hc => ⟨hc.1, hc.2.1⟩
  | crash =>
      refine ⟨Keeps.refl s.store, ?_⟩
      cases hm : s.memory with
      | none =>
          refine Or.inl ⟨⟨h.ok, nofun, ?_⟩, hm⟩
          have hcounted := h.counted
          unfold queueOf at hcounted
          rw [hm] at hcounted
          exact hcounted
      | some m =>
          refine Or.inr ⟨m, ?_, (h.live hm).dying⟩
          simp [wakeStep, hm]

theorem StepOf.agrees {s t : AgentProcess} (h : StepOf s t)
    (hlost : ∀ m, t.lost = some m → ∀ id, wakeCount m.inbound id = 0) : Agrees t := by
  rcases h.2 with ⟨hagrees, -⟩ | ⟨m, heq, hdying⟩
  · exact hagrees
  · rw [heq]
    apply hdying.agrees
    apply hlost m
    rw [heq]

/-! ## What a run owes -/

/-- The wake of the row is still to come. -/
def ScheduledTask.Armed (t : ScheduledTask) : Prop :=
  (∃ p, t.wake = some p ∧ p.state = .armed) ∧ t.doneAt = none

/-- In one state: one armed wake at most, no message of a wake that did not fire, one
message of a wake that did. -/
structure WakesKept (s : AgentProcess) : Prop where
  one : ∀ t ∈ s.store.tasks, ∀ u ∈ s.store.tasks, t.Armed → u.Armed → t = u
  unfired : ∀ id p, s.store.wakeOf id = some p → p.state ≠ .fired →
    wakeCount (s.store.history ++ queueOf s) id = 0
  fired : ∀ id p, s.store.wakeOf id = some p → p.state = .fired →
    wakeCount (s.store.history ++ queueOf s) id = 1

/-- The loop drains what is queued. -/
def afterDrain (s : AgentProcess) : AgentProcess :=
  run wakeStep s (List.replicate (queueOf s).length (.drain none))

/-- Over a run: every state keeps the wakes, a wake that fired or was preempted stays so,
and a wake whose time has come at a poll is preempted there or reaches the history as one
message with the next drain. -/
structure WakesDelivered (es : List WakeEvent) : Prop where
  kept : ∀ before after, es = before ++ after → WakesKept (wakeRun before)
  final : ∀ before after, es = before ++ after →
    Keeps (wakeRun before).store (wakeRun es).store
  due : ∀ before now lag failing after, es = before ++ .poll now lag failing none :: after →
    (wakeRun before).memory.isSome → ∀ id p, (wakeRun before).store.wakeOf id = some p →
    p.state = .armed → p.targetAt ≤ now →
    let s := wakeRun (before ++ [.poll now lag failing none])
    ∃ p', s.store.wakeOf id = some p' ∧
      (p'.state = .preempted ∨ wakeCount (afterDrain s).store.history id = 1)

theorem Agrees.kept (h : Agrees s) : WakesKept s where
  one := by
    rintro t ht u hu ⟨⟨p, hp, hps⟩, -⟩ ⟨⟨q, hq, hqs⟩, -⟩
    have ht' : s.store.getById t.id = some t := Table.get?_key ht
    have hu' : s.store.getById u.id = some u := Table.get?_key hu
    have hid := h.ok.one t.id u.id p q (wakeOf_eq_some.mpr ⟨t, ht', hp⟩) hps
      (wakeOf_eq_some.mpr ⟨u, hu', hq⟩) hqs
    rw [hid, hu'] at ht'
    exact (Option.some.inj ht').symm
  unfired := by
    intro id p hp hs
    rw [h.counted id]
    simp [firedCount, hp, hs]
  fired := by
    intro id p hp hs
    rw [h.counted id]
    simp [firedCount, hp, hs]

theorem wakeRun_snoc (es : List WakeEvent) (e : WakeEvent) :
    wakeRun (es ++ [e]) = wakeStep (wakeRun es) e := run_append _ es [e]

theorem empty_getById (id : ℕ) : Store.empty.getById id = none := rfl

theorem empty_wakeOf (id : ℕ) : Store.empty.wakeOf id = none := rfl

theorem agrees_init : Agrees ⟨Store.empty, none, none⟩ where
  ok := by
    constructor
    · intro id t p ht
      rw [empty_getById] at ht
      cases ht
    · intro i j p q hp
      rw [empty_wakeOf] at hp
      cases hp
  linked := nofun
  counted := by
    intro id
    unfold firedCount
    rw [empty_wakeOf]
    rfl

/-- No crash of the run loses a wake. -/
def NoWakeLost (es : List WakeEvent) : Prop :=
  ∀ before e after, es = before ++ e :: after → LosesNoWake (wakeRun before) e

theorem NoWakeLost.of_append {es fs : List WakeEvent} (h : NoWakeLost (es ++ fs)) :
    NoWakeLost es := by
  rintro before e after rfl
  apply h before e (after ++ fs)
  rw [List.append_assoc, List.cons_append]

theorem NoWakeLost.agrees {es : List WakeEvent} (h : NoWakeLost es) : Agrees (wakeRun es) := by
  induction es using List.reverseRecOn with
  | nil => exact agrees_init
  | append_singleton es e ih =>
      have hstep := wakeStep_stepOf (ih h.of_append) e
      rw [wakeRun_snoc]
      exact hstep.agrees (h es e [] rfl)

theorem NoWakeLost.keeps {es fs : List WakeEvent} (h : NoWakeLost (es ++ fs)) :
    Keeps (wakeRun es).store (wakeRun (es ++ fs)).store := by
  induction fs using List.reverseRecOn with
  | nil =>
      rw [List.append_nil]
      exact Keeps.refl _
  | append_singleton fs e ih =>
      rw [← List.append_assoc] at h ⊢
      have hbefore := h.of_append
      rw [wakeRun_snoc]
      exact (ih hbefore).trans (wakeStep_stepOf hbefore.agrees e).1

/-- Draining without a crash moves the queue to the end of the history. -/
theorem afterDrain_history (d : Store) (pending : Option PendingRunWake) (lost : Option Memory) :
    ∀ queue : List Message,
      (afterDrain ⟨d, some ⟨pending, queue⟩, lost⟩).store.history = d.history ++ queue := by
  intro queue
  induction queue generalizing d lost with
  | nil => exact (List.append_nil d.history).symm
  | cons message rest ih =>
      have hstep : wakeStep ⟨d, some ⟨pending, message :: rest⟩, lost⟩ (.drain none) =
          ⟨{ d with history := d.history ++ [message] }, some ⟨pending, rest⟩, none⟩ := rfl
      have hnext := ih { d with history := d.history ++ [message] } none
      show (run wakeStep _ (List.replicate (rest.length + 1) (.drain none))).store.history = _
      rw [List.replicate_succ, run_cons, hstep]
      exact hnext.trans (List.append_assoc d.history [message] rest)

theorem poll_spec (h : Agrees s) (hm : s.memory.isSome) (now : ℤ) (lag : ℕ)
    (failing : List ℕ) :
    ∃ d' m', wakeStep s (.poll now lag failing none) = ⟨d', some m', none⟩ ∧ Live d' m' ∧
      Fades s.store d' ∧ ∀ id p, d'.wakeOf id = some p → p.state = .armed → now < p.targetAt := by
  obtain ⟨m, hm⟩ := Option.isSome_iff_exists.mp hm
  have hle : now ≤ now + (lag : ℤ) := by omega
  have hwp := wp_poll failing (E := fun _ _ _ => False) (h.live hm) hle
  rcases Crash.Process.exec_cases hm hwp none with
    ⟨_, d', m', heq, hlive, hfades, hdue⟩ | ⟨_, _, _, _, hfalse⟩ | ⟨_, _, _, hne, _⟩
  · exact ⟨d', m', heq, hlive, hfades, hdue⟩
  · cases hfalse
  · exact absurd rfl hne

theorem poll_delivers (h : Agrees s) (hm : s.memory.isSome) {now : ℤ} {lag : ℕ}
    {failing : List ℕ} {id : ℕ} {p : DurableRunWakePayload} (hp : s.store.wakeOf id = some p)
    (hdue : p.targetAt ≤ now) :
    ∃ p', (wakeStep s (.poll now lag failing none)).store.wakeOf id = some p' ∧
      (p'.state = .preempted ∨
        wakeCount (afterDrain (wakeStep s (.poll now lag failing none))).store.history id = 1) := by
  obtain ⟨d', m', heq, hlive, hfades, hnone⟩ := poll_spec h hm now lag failing
  rw [heq]
  obtain ⟨p', hp', htarget, -⟩ := hfades.1 id p hp
  refine ⟨p', hp', ?_⟩
  cases hstate : p'.state with
  | preempted => exact Or.inl rfl
  | armed =>
      have hlate := hnone id p' hp' hstate
      rw [htarget] at hlate
      exact absurd hdue (not_le.mpr hlate)
  | fired =>
      right
      rw [afterDrain_history d' m'.pendingRunWake none m'.inbound]
      exact hlive.agrees.kept.fired id p' hp' hstate

theorem firedCount_eq_one {d : Store} {id : ℕ} (h : firedCount d id ≠ 0) :
    firedCount d id = 1 ∧ ∃ p, d.wakeOf id = some p ∧ p.state = .fired := by
  unfold firedCount at h ⊢
  cases hp : d.wakeOf id with
  | none =>
      rw [hp] at h
      exact absurd rfl h
  | some p =>
      rw [hp] at h
      dsimp only at h ⊢
      split
      · rename_i hfired
        exact ⟨rfl, p, rfl, hfired⟩
      · rename_i hfired
        rw [if_neg hfired] at h
        exact absurd rfl h

/-- A crash after which the wakes are kept has lost none. -/
theorem Dying.lost_none {d : Store} {m : Memory} (h : Dying d m)
    (hkept : WakesKept ⟨d, none, some m⟩) (id : ℕ) : wakeCount m.inbound id = 0 := by
  have hcount := h.counted id
  rw [wakeCount_append] at hcount
  by_contra hne
  have hfired : firedCount d id ≠ 0 := by omega
  obtain ⟨hone, p, hp, hstate⟩ := firedCount_eq_one hfired
  have hhistory : wakeCount (d.history ++ []) id = 1 := hkept.fired id p hp hstate
  rw [List.append_nil] at hhistory
  omega

/-- A run delivers its wakes exactly when no crash finds one that fired still queued. -/
theorem wake_runs (es : List WakeEvent) : WakesDelivered es ↔ NoWakeLost es := by
  constructor
  · intro h
    -- a crash that loses a wake leaves a fired wake without a message
    have hprefix : ∀ before after, es = before ++ after → NoWakeLost before := by
      intro before
      induction before using List.reverseRecOn with
      | nil =>
          intro _ _ pre e post hnil
          have hlen := congrArg List.length hnil
          simp at hlen
      | append_singleton before e ih =>
          intro after hes
          have hbefore := ih (e :: after) (by rw [hes, List.append_assoc]; rfl)
          have hagrees := hbefore.agrees
          intro pre f post hsplit
          rcases List.eq_nil_or_concat post with rfl | ⟨post', g, rfl⟩
          · obtain ⟨rfl, hlast⟩ := List.append_inj' hsplit rfl
            obtain rfl := (List.cons.inj hlast).1
            intro m hlost id
            rcases (wakeStep_stepOf hagrees e).2 with ⟨-, hnot⟩ | ⟨m', heq, hdying⟩
            · rw [hnot] at hlost
              cases hlost
            · rw [heq] at hlost
              obtain rfl := Option.some.inj hlost
              have hkept := h.kept (before ++ [e]) after hes
              rw [wakeRun_snoc, heq] at hkept
              exact hdying.lost_none hkept id
          · refine hbefore pre f post' ?_
            rw [List.concat_eq_append, ← List.cons_append, ← List.append_assoc] at hsplit
            exact (List.append_inj' hsplit rfl).1
    exact hprefix es [] (List.append_nil es).symm
  · intro h
    refine ⟨?_, ?_, ?_⟩
    · rintro before after rfl
      exact h.of_append.agrees.kept
    · rintro before after rfl
      exact h.keeps
    · rintro before now lag failing after rfl hm id p hp _ hdue
      rw [wakeRun_snoc]
      exact poll_delivers h.of_append.agrees hm hp hdue

/-- A wake in ten seconds. -/
def soon : WakeRequest := ⟨.after, 0, 10000, none⟩

/-- The wake fires, the process dies before the loop drains the queue: after the restart
the wake counts as fired, and its message is nowhere. -/
theorem fired_wake_lost :
    ¬ WakesDelivered [.boot 0 none, .arm soon "x" 0 none, .poll 10000 0 [] none, .crash,
      .boot 20000 none, .poll 20000 0 [] none] := by
  intro h
  have hkept := h.kept _ [] (List.append_nil _).symm
  have hfired := hkept.fired 1 { soon.payload with state := .fired } (by decide +kernel) rfl
  exact absurd hfired (by decide +kernel)

end Elpis.Agent
