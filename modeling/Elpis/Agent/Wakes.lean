import Elpis.Agent.Scheduler

/-!
# The records of a wake

A wake is armed, and then fires once or is preempted. Four records have to agree about
it: the payload in the store, the pending record of the agent, the queue and the history.
While the process lives, the armed payload is the pending one, and a fired payload stands
for exactly one message in the queue or in the history. The lemmas say what the writes of
the scheduler do to that agreement: most leave the wakes alone, and two end the armed one.
-/

namespace Elpis.Agent

open Elpis.Lib

/-! ## Rows after a write -/

theorem getById_set (d : Store) (id j : ℕ) (f : ScheduledTask → ScheduledTask)
    (hf : ∀ t, (f t).id = t.id) :
    (d.set id f hf).getById j = if j = id then (d.getById id).map f else d.getById j := by
  show (d.tasks.toTable.update _ f hf).get? j = _
  rw [Table.get?_update]
  show (d.getById j).map _ = _
  cases hj : d.getById j with
  | none =>
      split
      · rename_i heq
        rw [← heq, hj]
        rfl
      · rfl
  | some t =>
      have hid : t.id = j := Table.key_of_get? hj
      by_cases heq : j = id
      · rw [if_pos heq, ← heq, hj]
        simp [hid, heq]
      · rw [if_neg heq]
        simp [hid, heq]

theorem getById_insert (d : Store) (opts : CreateTaskOpts) (j : ℕ) :
    (d.insert opts).getById j =
      if j = d.tasks.next then some (opts.row d.tasks.next) else d.getById j := by
  show (d.tasks.push opts.row opts.row_id).get? j = _
  rw [AutoTable.get?_push]
  rfl

theorem getById_next (d : Store) : d.getById d.tasks.next = none := d.tasks.get?_next

@[simp] theorem setPayload_history (d : Store) (id : ℕ) (payload : TaskPayload) :
    (d.setPayload id payload).history = d.history := rfl

/-! ## Wakes of a store -/

def ScheduledTask.wake (t : ScheduledTask) : Option DurableRunWakePayload :=
  match t.payload with
  | .wake p => some p
  | .text _ => none

/-- The wake a task of the store stands for. -/
def Store.wakeOf (d : Store) (id : ℕ) : Option DurableRunWakePayload :=
  (d.getById id).bind ScheduledTask.wake

variable {p : DurableRunWakePayload} {d : Store}

variable {id : ℕ}

theorem wakeOf_eq_some :
    d.wakeOf id = some p ↔ ∃ t, d.getById id = some t ∧ t.wake = some p :=
  Option.bind_eq_some_iff

/-- A row of a wake that is still to fire: reserved, open, due at its target. -/
structure ArmedRow (t : ScheduledTask) (p : DurableRunWakePayload) : Prop where
  named : isRunWakeTaskName t.name = true
  unfinished : t.doneAt = none
  awake : t.snoozeUntil = none
  target : t.nextRunAt = p.targetAt

theorem ArmedRow.isDue {t : ScheduledTask} (h : ArmedRow t p)
    (now : ℤ) : t.isDue now = decide (p.targetAt ≤ now) := by
  simp [ScheduledTask.isDue, h.unfinished, h.awake, h.target]

/-- At most one wake is armed, and its row is as it was created. -/
structure StoreOk (d : Store) : Prop where
  rows : ∀ id t p, d.getById id = some t → t.wake = some p → p.state = .armed → ArmedRow t p
  one : ∀ i j p q, d.wakeOf i = some p → p.state = .armed → d.wakeOf j = some q →
    q.state = .armed → i = j

/-- The pending record is the armed wake. -/
structure Linked (d : Store) (m : Memory) : Prop where
  armed : ∀ id p, d.wakeOf id = some p → p.state = .armed → m.pendingRunWake = some ⟨id, p⟩
  pending : ∀ q, m.pendingRunWake = some q → d.wakeOf q.taskId = some q.payload ∧
    q.payload.state = .armed

def Message.isWakeOf (id : ℕ) : Message → Bool
  | .wake i _ => i == id
  | .other _ _ => false

/-- The messages of a wake among the given ones. -/
def wakeCount (ms : List Message) (id : ℕ) : ℕ := ms.countP (Message.isWakeOf id)

/-- How many messages a wake shall have: one when it has fired. -/
def firedCount (d : Store) (id : ℕ) : ℕ :=
  match d.wakeOf id with
  | some p => if p.state = .fired then 1 else 0
  | none => 0

/-- A wake that fired has exactly one message, in the history or in the queue. -/
def Counted (d : Store) (queue : List Message) : Prop :=
  ∀ id, wakeCount (d.history ++ queue) id = firedCount d id

/-- While the process lives. -/
structure Live (d : Store) (m : Memory) : Prop where
  ok : StoreOk d
  linked : Linked d m
  counted : Counted d m.inbound

/-- At a crash point, where `m` is lost. -/
structure Dying (d : Store) (m : Memory) : Prop where
  ok : StoreOk d
  counted : Counted d m.inbound

theorem Live.dying {m : Memory} (h : Live d m) : Dying d m := ⟨h.ok, h.counted⟩

/-! ## What a step may do to the wakes -/

/-- No wake vanishes, and one that fired or was preempted stays as it is. -/
def Keeps (d d' : Store) : Prop :=
  ∀ id p, d.wakeOf id = some p → ∃ p', d'.wakeOf id = some p' ∧ p'.targetAt = p.targetAt ∧
    (p.state ≠ .armed → p' = p)

/-- Besides, no wake is armed that was not. -/
def Fades (d d' : Store) : Prop :=
  Keeps d d' ∧ ∀ id p, d'.wakeOf id = some p → p.state = .armed → d.wakeOf id = some p

theorem Keeps.refl (d : Store) : Keeps d d := fun _ p hp => ⟨p, hp, rfl, fun _ => rfl⟩

theorem Keeps.trans {d e f : Store} (h : Keeps d e) (h' : Keeps e f) : Keeps d f := by
  intro id p hp
  obtain ⟨q, hq, hqt, hqs⟩ := h id p hp
  obtain ⟨r, hr, hrt, hrs⟩ := h' id q hq
  refine ⟨r, hr, hrt.trans hqt, ?_⟩
  intro hstate
  obtain rfl := hqs hstate
  exact hrs hstate

theorem Fades.refl (d : Store) : Fades d d := ⟨Keeps.refl d, fun _ _ hp _ => hp⟩

theorem Fades.trans {d e f : Store} (h : Fades d e) (h' : Fades e f) : Fades d f :=
  ⟨h.1.trans h'.1, fun id p hp hs => h.2 id p (h'.2 id p hp hs) hs⟩

theorem Fades.of_wakeOf {d d' : Store} (h : ∀ id, d'.wakeOf id = d.wakeOf id) : Fades d d' := by
  constructor
  · intro id p hp
    exact ⟨p, (h id).trans hp, rfl, fun _ => rfl⟩
  · intro id p hp _
    exact (h id).symm.trans hp

/-! ## Writes that leave the wakes alone -/

/-- Same wakes and same history; an armed row keeps what it needs. -/
structure SameWakes (d d' : Store) : Prop where
  wakeOf : ∀ id, d'.wakeOf id = d.wakeOf id
  history : d'.history = d.history
  rows : StoreOk d → ∀ id t p, d'.getById id = some t → t.wake = some p → p.state = .armed →
    ArmedRow t p

theorem SameWakes.refl (d : Store) : SameWakes d d := ⟨fun _ => rfl, rfl, StoreOk.rows⟩

theorem SameWakes.firedCount {d d' : Store} (h : SameWakes d d') (id : ℕ) :
    firedCount d' id = firedCount d id := by
  unfold Agent.firedCount
  rw [h.wakeOf]

theorem SameWakes.storeOk {d d' : Store} (h : SameWakes d d') (hd : StoreOk d) : StoreOk d' where
  rows := h.rows hd
  one i j p q hp hps hq hqs := by
    rw [h.wakeOf] at hp hq
    exact hd.one i j p q hp hps hq hqs

theorem SameWakes.counted {d d' : Store} {queue : List Message} (h : SameWakes d d')
    (hd : Counted d queue) : Counted d' queue := by
  intro id
  rw [h.history, h.firedCount]
  exact hd id

theorem SameWakes.linked {d d' : Store} {m : Memory} (h : SameWakes d d') (hd : Linked d m) :
    Linked d' m where
  armed id p hp hs := hd.armed id p ((h.wakeOf id).symm.trans hp) hs
  pending q hq := by
    rw [h.wakeOf]
    exact hd.pending q hq

theorem SameWakes.live {d d' : Store} {m : Memory} (h : SameWakes d d') (hd : Live d m) :
    Live d' m :=
  ⟨h.storeOk hd.ok, h.linked hd.linked, h.counted hd.counted⟩

theorem SameWakes.fades {d d' : Store} (h : SameWakes d d') : Fades d d' := Fades.of_wakeOf h.wakeOf

theorem SameWakes.trans {d e f : Store} (h : SameWakes d e) (h' : SameWakes e f) :
    SameWakes d f where
  wakeOf id := (h'.wakeOf id).trans (h.wakeOf id)
  history := h'.history.trans h.history
  rows hd := h'.rows (h.storeOk hd)

/-- An update that keeps the payload, of a row that is not armed or stays as it has to be. -/
theorem sameWakes_set {f : ScheduledTask → ScheduledTask}
    {hf : ∀ t, (f t).id = t.id} (hpayload : ∀ t, (f t).payload = t.payload)
    (hrow : ∀ t p, d.getById id = some t → t.wake = some p → p.state = .armed →
      ArmedRow t p → ArmedRow (f t) p) :
    SameWakes d (d.set id f hf) := by
  have hwake : ∀ t, (f t).wake = t.wake := by
    intro t
    unfold ScheduledTask.wake
    rw [hpayload]
  refine ⟨?_, rfl, ?_⟩
  · intro j
    unfold Store.wakeOf
    rw [getById_set]
    split
    · rename_i heq
      rw [heq]
      cases d.getById id with
      | none => rfl
      | some t => exact hwake t
    · rfl
  · intro hd j t p ht hw hs
    rw [getById_set] at ht
    split at ht
    · obtain ⟨u, hu, rfl⟩ := Option.map_eq_some_iff.mp ht
      rw [hwake] at hw
      exact hrow u p hu hw hs (hd.rows id u p hu hw hs)
    · exact hd.rows j t p ht hw hs

theorem not_armed_row
    (h : ∀ p, d.wakeOf id = some p → p.state ≠ .armed) {t : ScheduledTask} (ht : d.getById id = some t) (hw : t.wake = some p) :
    p.state ≠ .armed :=
  h p (wakeOf_eq_some.mpr ⟨t, ht, hw⟩)

theorem sameWakes_insert {opts : CreateTaskOpts} {text : String}
    (htext : opts.payload = .text text) : SameWakes d (d.insert opts) := by
  have hrow : ∀ id, (opts.row id).wake = none := by
    intro id
    simp [ScheduledTask.wake, CreateTaskOpts.row, htext]
  refine ⟨?_, rfl, ?_⟩
  · intro j
    unfold Store.wakeOf
    rw [getById_insert]
    split
    · rename_i heq
      rw [heq, getById_next]
      exact hrow d.tasks.next
    · rfl
  · intro hd j t p ht hw hs
    rw [getById_insert] at ht
    split at ht
    · obtain rfl := Option.some.inj ht
      rw [hrow] at hw
      cases hw
    · exact hd.rows j t p ht hw hs

/-! ## Writes that end an armed wake -/

theorem wakeOf_setPayload (d : Store) (id j : ℕ) (p : DurableRunWakePayload) :
    (d.setPayload id (.wake p)).wakeOf j =
      if j = id ∧ (d.getById id).isSome then some p else d.wakeOf j := by
  unfold Store.wakeOf Store.setPayload
  rw [getById_set]
  by_cases heq : j = id
  · cases hid : d.getById id with
    | none => simp [heq, hid]
    | some t => simp [heq, ScheduledTask.wake]
  · simp [heq]

theorem wakeOf_end (hp : d.wakeOf id = some p)
    (state : RunWakeState) (j : ℕ) :
    (d.setPayload id (.wake { p with state })).wakeOf j =
      if j = id then some { p with state } else d.wakeOf j := by
  obtain ⟨t, ht, -⟩ := wakeOf_eq_some.mp hp
  rw [wakeOf_setPayload, ht]
  simp

theorem storeOk_end (hd : StoreOk d)
    (hp : d.wakeOf id = some p) {state : RunWakeState} (hstate : state ≠ .armed) :
    StoreOk (d.setPayload id (.wake { p with state })) where
  rows j t q ht hw hs := by
    unfold Store.setPayload at ht
    rw [getById_set] at ht
    split at ht
    · obtain ⟨u, hu, rfl⟩ := Option.map_eq_some_iff.mp ht
      obtain rfl := Option.some.inj hw
      exact absurd hs hstate
    · exact hd.rows j t q ht hw hs
  one i j q r hq hqs hr hrs := by
    rw [wakeOf_end hp] at hq hr
    split at hq
    · obtain rfl := Option.some.inj hq
      exact absurd hqs hstate
    · split at hr
      · obtain rfl := Option.some.inj hr
        exact absurd hrs hstate
      · exact hd.one i j q r hq hqs hr hrs

theorem fades_end (hp : d.wakeOf id = some p)
    (harmed : p.state = .armed) {state : RunWakeState} (hstate : state ≠ .armed) :
    Fades d (d.setPayload id (.wake { p with state })) := by
  constructor
  · intro j q hq
    rw [wakeOf_end hp]
    by_cases heq : j = id
    · subst heq
      rw [hp] at hq
      obtain rfl := Option.some.inj hq
      rw [if_pos rfl]
      exact ⟨_, rfl, rfl, fun hne => absurd harmed hne⟩
    · rw [if_neg heq]
      exact ⟨q, hq, rfl, fun _ => rfl⟩
  · intro j q hq hs
    rw [wakeOf_end hp] at hq
    split at hq
    · obtain rfl := Option.some.inj hq
      exact absurd hs hstate
    · exact hq

theorem none_armed_end (hd : StoreOk d)
    (hp : d.wakeOf id = some p) (harmed : p.state = .armed) {state : RunWakeState}
    (hstate : state ≠ .armed) (j : ℕ) (q : DurableRunWakePayload)
    (hq : (d.setPayload id (.wake { p with state })).wakeOf j = some q) : q.state ≠ .armed := by
  intro hs
  rw [wakeOf_end hp] at hq
  split at hq
  · obtain rfl := Option.some.inj hq
    exact hstate hs
  · rename_i hne
    exact hne (hd.one j id q p hq hs hp harmed)

theorem firedCount_end
    (hp : d.wakeOf id = some p) (harmed : p.state = .armed) (state : RunWakeState) (j : ℕ) :
    firedCount (d.setPayload id (.wake { p with state })) j =
      firedCount d j + if j = id ∧ state = .fired then 1 else 0 := by
  unfold firedCount
  rw [wakeOf_end hp]
  by_cases heq : j = id
  · rw [if_pos heq, heq, hp]
    simp [harmed]
  · simp [heq]

end Elpis.Agent
