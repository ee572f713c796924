import Elpis.Sandbox.Registry

/-!
# The lifecycle of a sandbox

A registration seen by its runs is a small machine: a lifecycle, the run that owns the
sandbox, a generation and the number of the next run. `ControlStep` lists what a call
of the registry can do to it. `perform_moves` proves every method of the registry
against that list, once; the invariants of whole runs only look at the list.
-/

namespace Elpis.Sandbox

open Elpis.Lib Elpis.Mind

/-! ## Calls and their runs -/

/-- The calls of a registry, and the writes of the Mind store between them. -/
inductive RegistryCall where
  | ensureExecutorIdentity (uuid : String)
  | ensureForMind (executorId : String) (mindId : MindId) (now : Time)
  | beginRun (ref : String) (now : Time)
  | detachRun (ref runId : String) (now : Time)
  | finishRun (ref runId : String) (now : Time)
  | markInterruptedRunsDetached (now : Time)
  | failRunAndReset (ref runId : String) (now : Time)
  | coldResetAll (now : Time)
  | consumeColdNotice (ref : String)
  | reset (ref : String) (now : Time)
  | latchReminder (ref : String) (now : Time)
  | clearReminder (ref : String) (now : Time)
  | clearReminderByMind (mindId : MindId) (now : Time)
  | retireByMind (mindId : MindId) (now : Time)
  | cancelRetirement (mindId : MindId) (now : Time)
  | finalizeRetirement (ref : String) (expired : Bool) (now : Time)
  | retireClosedMinds (now : Time)
  | mindWrites (minds : Table MindRow.id)

/-- A method whose result is not a new run. -/
def noRun {α : Type} (m : RegistryM α) : RegistryM (Option SandboxRun) := do
  let _ ← m
  pure none

/-- One call, with the run it began. -/
def perform : RegistryCall → RegistryM (Option SandboxRun)
  | .ensureExecutorIdentity uuid => noRun (ensureExecutorIdentity uuid)
  | .ensureForMind executorId mindId now => noRun (ensureForMind executorId mindId now)
  | .beginRun ref now => do
      let run ← beginRun ref now
      pure (some run)
  | .detachRun ref runId now => noRun (detachRun ref runId now)
  | .finishRun ref runId now => noRun (finishRun ref runId now)
  | .markInterruptedRunsDetached now => noRun (markInterruptedRunsDetached now)
  | .failRunAndReset ref runId now => noRun (failRunAndReset ref runId now)
  | .coldResetAll now => noRun (coldResetAll now)
  | .consumeColdNotice ref => noRun (consumeColdNotice ref)
  | .reset ref now => noRun (reset ref now)
  | .latchReminder ref now => noRun (latchReminder ref now)
  | .clearReminder ref now => noRun (clearReminder ref now)
  | .clearReminderByMind mindId now => noRun (clearReminderByMind mindId now)
  | .retireByMind mindId now => noRun (retireByMind mindId now)
  | .cancelRetirement mindId now => noRun (cancelRetirement mindId now)
  | .finalizeRetirement ref expired now => noRun (finalizeRetirement ref expired now)
  | .retireClosedMinds now => noRun (retireClosedMinds now)
  | .mindWrites minds => noRun (Tx.write (fun db => { db with minds := minds }))

/-- The database and the runs begun so far, in order. -/
structure Registry where
  db : SandboxDb
  begun : List SandboxRun
deriving DecidableEq

def Registry.empty : Registry := ⟨SandboxDb.empty, []⟩

/-- A call, whether it returns or throws. -/
def call (s : Registry) (c : RegistryCall) : Registry :=
  match perform c s.db with
  | (.ok run, db) => ⟨db, s.begun ++ run.toList⟩
  | (.error _, db) => ⟨db, s.begun⟩

/-! ## The machine of one sandbox -/

structure Control where
  lifecycle : SandboxLifecycle
  activeRunId : Option String
  generation : ℕ
  nextRunSeq : ℕ
deriving DecidableEq

def SandboxRegistration.control (r : SandboxRegistration) : Control :=
  ⟨r.lifecycle, r.activeRunId, r.generation, r.nextRunSeq⟩

/-- A run owns the sandbox. -/
def SandboxLifecycle.Owned (l : SandboxLifecycle) : Prop := l = .busy ∨ l = .detached

/-- What the call `c` can do to the sandbox `id`. -/
inductive ControlStep (c : RegistryCall) (id : MindId) (k : Control) : Control → Prop where
  | keep : ControlStep c id k k
  | begin {now : Time} (hc : c = .beginRun id now) (hl : k.lifecycle = .ready) :
      ControlStep c id k
        { k with lifecycle := .busy, nextRunSeq := k.nextRunSeq + 1,
                 activeRunId := some (runIdOf id k.generation k.nextRunSeq) }
  | detach {x : String} {now : Time} (hc : c = .detachRun id x now)
      (hl : k.lifecycle = .busy) (ha : k.activeRunId = some x) :
      ControlStep c id k { k with lifecycle := .detached }
  | finish {x : String} {now : Time} (hc : c = .finishRun id x now)
      (hl : k.lifecycle.Owned) (ha : k.activeRunId = some x) :
      ControlStep c id k { k with lifecycle := .ready, activeRunId := none }
  | fail {x : String} {now : Time} (hc : c = .failRunAndReset id x now)
      (hl : k.lifecycle.Owned) (ha : k.activeRunId = some x) :
      ControlStep c id k ⟨.ready, none, k.generation + 1, 1⟩
  | interrupted {now : Time} (hc : c = .markInterruptedRunsDetached now)
      (hl : k.lifecycle = .busy) :
      ControlStep c id k { k with lifecycle := .detached }
  | cold {now : Time} (hc : c = .coldResetAll now) (hl : k.lifecycle ≠ .retired) :
      ControlStep c id k ⟨.ready, none, k.generation + 1, 1⟩
  | reset {now : Time} (hc : c = .reset id now) (hl : k.lifecycle = .ready) :
      ControlStep c id k { k with generation := k.generation + 1, nextRunSeq := 1 }
  | retire {expired : Bool} {now : Time} (hc : c = .finalizeRetirement id expired now)
      (hl : k.lifecycle = .ready) :
      ControlStep c id k { k with lifecycle := .retired }

/-- Row by row, `db'` is `db` after steps of `c`, and its other rows are new. -/
structure Moves (c : RegistryCall) (db db' : SandboxDb) : Prop where
  old : ∀ r ∈ db.sandboxes, ∃ r' ∈ db'.sandboxes,
    r'.id = r.id ∧ ControlStep c r.id r.control r'.control
  new : ∀ r' ∈ db'.sandboxes,
    (∃ r ∈ db.sandboxes, r'.id = r.id ∧ ControlStep c r.id r.control r'.control) ∨
      ((∀ r ∈ db.sandboxes, r.id ≠ r'.id) ∧ r'.control = ⟨.ready, none, 1, 1⟩)

variable {c : RegistryCall} {db db' db'' : SandboxDb}

theorem Moves.of_eq (h : db'.sandboxes = db.sandboxes) : Moves c db db' where
  old r hr := ⟨r, h ▸ hr, rfl, .keep⟩
  new r' hr' := Or.inl ⟨r', h ▸ hr', rfl, .keep⟩

theorem Moves.refl (c : RegistryCall) (db : SandboxDb) : Moves c db db := Moves.of_eq rfl

variable {f : SandboxRegistration → SandboxRegistration} {hf : ∀ r, (f r).id = r.id}

variable {p : SandboxRegistration → Bool}

/-- An update moves the rows it selects as its function does. -/
theorem Moves.update
    (h : ∀ r ∈ db.sandboxes, p r = true → ControlStep c r.id r.control (f r).control) :
    Moves c db (db.update p f hf) := by
  have hrow : ∀ r ∈ db.sandboxes, (if p r then f r else r).id = r.id ∧
      ControlStep c r.id r.control (if p r then f r else r).control := by
    intro r hr
    by_cases hp : p r = true
    · rw [if_pos hp]
      exact ⟨hf r, h r hr hp⟩
    · rw [if_neg hp]
      exact ⟨rfl, .keep⟩
  constructor
  · intro r hr
    exact ⟨_, (SandboxDb.mem_update hf).mpr ⟨r, hr, rfl⟩, hrow r hr⟩
  · intro r' hr'
    obtain ⟨r, hr, rfl⟩ := (SandboxDb.mem_update hf).mp hr'
    exact Or.inl ⟨r, hr, hrow r hr⟩

/-- The machines of `db'` are those of `db`. -/
def Framed (db db' : SandboxDb) : Prop :=
  (∀ r ∈ db.sandboxes, ∃ r' ∈ db'.sandboxes, r'.id = r.id ∧ r'.control = r.control) ∧
    ∀ r' ∈ db'.sandboxes, ∃ r ∈ db.sandboxes, r'.id = r.id ∧ r'.control = r.control

theorem Framed.refl (db : SandboxDb) : Framed db db :=
  ⟨fun r hr => ⟨r, hr, rfl, rfl⟩, fun r hr => ⟨r, hr, rfl, rfl⟩⟩

theorem Framed.update
    (h : ∀ r, (f r).control = r.control) : Framed db (db.update p f hf) := by
  have hrow : ∀ r, (if p r then f r else r).id = r.id ∧
      (if p r then f r else r).control = r.control := by
    intro r
    split
    · exact ⟨hf r, h r⟩
    · exact ⟨rfl, rfl⟩
  constructor
  · intro r hr
    exact ⟨_, (SandboxDb.mem_update hf).mpr ⟨r, hr, rfl⟩, hrow r⟩
  · intro r' hr'
    obtain ⟨r, hr, rfl⟩ := (SandboxDb.mem_update hf).mp hr'
    exact ⟨r, hr, hrow r⟩

theorem Framed.trans (h : Framed db db') (h' : Framed db' db'') : Framed db db'' := by
  constructor
  · intro r hr
    obtain ⟨r', hr', hid, hk⟩ := h.1 r hr
    obtain ⟨r'', hr'', hid', hk'⟩ := h'.1 r' hr'
    exact ⟨r'', hr'', hid'.trans hid, hk'.trans hk⟩
  · intro r'' hr''
    obtain ⟨r', hr', hid', hk'⟩ := h'.2 r'' hr''
    obtain ⟨r, hr, hid, hk⟩ := h.2 r' hr'
    exact ⟨r, hr, hid'.trans hid, hk'.trans hk⟩

/-- What happens after a frame happens to the rows before it. -/
theorem Framed.moves (h : Framed db db') (hm : Moves c db' db'') : Moves c db db'' := by
  constructor
  · intro r hr
    obtain ⟨r', hr', hid, hk⟩ := h.1 r hr
    obtain ⟨r'', hr'', hid', hstep⟩ := hm.old r' hr'
    rw [hid, hk] at hstep
    exact ⟨r'', hr'', hid'.trans hid, hstep⟩
  · intro r'' hr''
    rcases hm.new r'' hr'' with ⟨r', hr', hid', hstep⟩ | ⟨hfresh, hk⟩
    · obtain ⟨r, hr, hid, hk⟩ := h.2 r' hr'
      rw [hid, hk] at hstep
      exact Or.inl ⟨r, hr, hid'.trans hid, hstep⟩
    · refine Or.inr ⟨?_, hk⟩
      intro r hr heq
      obtain ⟨r', hr', hid, -⟩ := h.1 r hr
      exact hfresh r' hr' (hid.trans heq)

theorem Framed.step (h : Framed db db') : Moves c db db' := h.moves (Moves.refl c db')

/-! ## Every method against the machine -/

section Statements
variable {id ref : String} {r : SandboxRegistration}

@[simp] theorem byId_ok : byId id db = (.ok r, db') ↔
    (r ∈ db.sandboxes ∧ r.id = id) ∧ db = db' := by
  simp only [byId, Tx.bind_ok, Tx.read_ok, Tx.require_ok]
  constructor
  · rintro ⟨_, _, ⟨rfl, rfl⟩, hr, rfl⟩
    exact ⟨Table.get?_eq_some.mp hr, rfl⟩
  · rintro ⟨hr, rfl⟩
    exact ⟨_, _, ⟨rfl, rfl⟩, Table.get?_eq_some.mpr hr, rfl⟩

@[simp] theorem mindOf_ok {mind : MindRow} : mindOf id db = (.ok mind, db') ↔
    db.minds.get? id = some mind ∧ db = db' := by
  simp only [mindOf, Tx.bind_ok, Tx.read_ok, Tx.require_ok]
  constructor
  · rintro ⟨_, _, ⟨rfl, rfl⟩, hm, rfl⟩
    exact ⟨hm, rfl⟩
  · rintro ⟨hm, rfl⟩
    exact ⟨_, _, ⟨rfl, rfl⟩, hm, rfl⟩

@[simp] theorem updateRow_ok {u : Unit} :
    updateRow id f hf db = (.ok u, db') ↔
      db.update (fun r => decide (r.id = id)) f hf = db' := by
  simp only [updateRow, Tx.write_ok]

/-- An update of the row `id`, where `r` is that row. -/
theorem Moves.updateRow (hr : r ∈ db.sandboxes) (hid : r.id = id)
    (h : ControlStep c id r.control (f r).control) :
    Moves c db (db.update (fun r => decide (r.id = id)) f hf) := by
  refine Moves.update ?_
  intro x hx hp
  have hxr : x = r := Table.eq_of_key hx hr ((of_decide_eq_true hp).trans hid.symm)
  rw [hxr, hid]
  exact h

end Statements

/-- However it ends, the program moves the sandboxes by steps of `c`. -/
def Steps {α : Type} (c : RegistryCall) (m : RegistryM α) : Prop :=
  ∀ db, Tx.wp m (fun _ db' => Moves c db db') (fun _ db' => Moves c db db') db

/-- However it ends, the program leaves the machines alone. -/
def Frames {α : Type} (m : RegistryM α) : Prop :=
  ∀ db, Tx.wp m (fun _ db' => Framed db db') (fun _ db' => Framed db db') db

section Rules
variable {α β : Type} {m : RegistryM α} {ref : String}

theorem Frames.steps (h : Frames m) : Steps c m := by
  intro db
  exact Tx.wp_mono (fun _ _ h => h.step) (fun _ _ h => h.step) (h db)

theorem Steps.noRun (h : Steps c m) : Steps c (noRun m) := by
  intro db
  simp only [Sandbox.noRun, Tx.wp_bind, Tx.wp_pure]
  exact h db

/-- A transaction that fails does nothing. -/
theorem Steps.transaction (h : ∀ db a db', m db = (.ok a, db') → Moves c db db') :
    Steps c (Tx.transaction m) := by
  intro db
  rw [Tx.wp_transaction, Tx.wp_iff]
  exact ⟨h db, fun _ _ _ => Moves.refl c db⟩

theorem Steps.resolved {f : MindId → RegistryM α} (h : Steps c (f ref)) :
    Steps c (resolveId ref >>= f) := by
  intro db
  simp only [resolveId, Tx.wp_bind, Tx.wp_ensure, Tx.wp_pure]
  exact ⟨fun _ => h db, fun _ => Moves.refl c db⟩

end Rules

theorem detachRun_steps (ref runId : String) (now : Time) :
    Steps (.detachRun ref runId now) (detachRun ref runId now) := by
  refine Steps.resolved (Steps.transaction ?_)
  intro db a db' h
  simp only [Tx.bind_ok, byId_ok, Tx.ensure_ok, updateRow_ok] at h
  obtain ⟨r, _, ⟨⟨hr, hid⟩, rfl⟩, _, _, ⟨⟨hl, ha⟩, rfl⟩, _, _, rfl, -, rfl⟩ := h
  exact Moves.updateRow hr hid (.detach rfl hl ha)

theorem finishRun_steps (ref runId : String) (now : Time) :
    Steps (.finishRun ref runId now) (finishRun ref runId now) := by
  refine Steps.resolved (Steps.transaction ?_)
  intro db a db' h
  simp only [Tx.bind_ok, byId_ok, Tx.ensure_ok, mindOf_ok, updateRow_ok] at h
  obtain ⟨r, _, ⟨⟨hr, hid⟩, rfl⟩, _, _, ⟨⟨hl, ha⟩, rfl⟩, mind, _, ⟨-, rfl⟩, _, _, rfl, -, rfl⟩ := h
  exact Moves.updateRow hr hid (.finish rfl hl ha)

theorem failRunAndReset_steps (ref runId : String) (now : Time) :
    Steps (.failRunAndReset ref runId now) (failRunAndReset ref runId now) := by
  refine Steps.resolved (Steps.transaction ?_)
  intro db a db' h
  simp only [Tx.bind_ok, byId_ok, Tx.ensure_ok, updateRow_ok] at h
  obtain ⟨r, _, ⟨⟨hr, hid⟩, rfl⟩, _, _, ⟨⟨hl, ha⟩, rfl⟩, _, _, rfl, -, rfl⟩ := h
  exact Moves.updateRow hr hid (.fail rfl hl ha)

theorem reset_steps (ref : String) (now : Time) : Steps (.reset ref now) (reset ref now) := by
  refine Steps.resolved (Steps.transaction ?_)
  intro db a db' h
  simp only [Tx.bind_ok, byId_ok, Tx.ensure_ok, updateRow_ok] at h
  obtain ⟨r, _, ⟨⟨hr, hid⟩, rfl⟩, _, _, ⟨hl, rfl⟩, _, _, rfl, -, rfl⟩ := h
  exact Moves.updateRow hr hid (.reset rfl hl)

theorem markInterruptedRunsDetached_steps (now : Time) :
    Steps (.markInterruptedRunsDetached now) (markInterruptedRunsDetached now) := by
  intro db
  simp only [markInterruptedRunsDetached, changes, Tx.wp_bind, Tx.wp_read, Tx.wp_write,
    Tx.wp_pure]
  refine Moves.update ?_
  intro r _ hp
  exact .interrupted rfl (of_decide_eq_true hp)

theorem coldResetAll_steps (now : Time) : Steps (.coldResetAll now) (coldResetAll now) := by
  intro db
  simp only [coldResetAll, changes, Tx.wp_bind, Tx.wp_read, Tx.wp_write, Tx.wp_pure]
  refine Moves.update ?_
  intro r _ hp
  exact .cold rfl (of_decide_eq_true hp)

/-! ### Methods that leave the machines alone -/

section Rules
variable {α β : Type} {m : RegistryM α}

theorem Frames.of_readOnly (h : Tx.ReadOnly m) : Frames m := by
  intro db
  rw [Tx.wp_iff]
  have hdb : ∀ x db', m db = (x, db') → Framed db db' := by
    intro x db' hm
    have hs := h db
    rw [hm] at hs
    simp only at hs
    rw [hs]
    exact Framed.refl db
  exact ⟨fun a db' hm => hdb _ db' hm, fun e db' hm => hdb _ db' hm⟩

theorem Frames.bind {f : α → RegistryM β} (hm : Frames m) (hf : ∀ a, Frames (f a)) :
    Frames (m >>= f) := by
  intro db
  rw [Tx.wp_bind]
  refine Tx.wp_mono ?_ (fun _ _ h => h) (hm db)
  intro a db' h
  exact Tx.wp_mono (fun _ _ h' => h.trans h') (fun _ _ h' => h.trans h') (hf a db')

theorem Frames.transaction (h : Frames m) : Frames (Tx.transaction m) := by
  intro db
  rw [Tx.wp_transaction]
  exact Tx.wp_mono (fun _ _ h => h) (fun _ _ _ => Framed.refl db) (h db)

theorem Frames.onSome {x : Option α} {f : α → RegistryM β} (hf : ∀ a, Frames (f a)) :
    Frames (Tx.onSome x f) := by
  cases x with
  | none => exact Frames.of_readOnly (Tx.readOnly_pure _)
  | some a => exact (hf a).bind (fun b => Frames.of_readOnly (Tx.readOnly_pure _))

theorem Frames.forEach {body : β → RegistryM Unit} (h : ∀ x, Frames (body x)) :
    ∀ xs : List β, Frames (Tx.forEach body xs)
  | [] => Frames.of_readOnly (Tx.readOnly_pure _)
  | x :: xs => (h x).bind (fun _ => Frames.forEach h xs)

theorem Frames.update
    (h : ∀ r, (f r).control = r.control) :
    Frames (Tx.write (fun db : SandboxDb => db.update p f hf)) := by
  intro db
  rw [Tx.wp_write]
  exact Framed.update h

theorem Frames.updateRow {id : MindId} (h : ∀ r, (f r).control = r.control) :
    Frames (updateRow id f hf) := Frames.update h

end Rules

theorem readOnly_byId (id : MindId) : Tx.ReadOnly (byId id) :=
  (Tx.readOnly_read _).bind (fun _ => Tx.readOnly_require _ _)

theorem readOnly_resolveId (ref : String) : Tx.ReadOnly (resolveId ref) :=
  (Tx.readOnly_ensure _ _).bind (fun _ => Tx.readOnly_pure _)

theorem readOnly_getByMind (mindId : MindId) : Tx.ReadOnly (getByMind mindId) :=
  (Tx.readOnly_ensure _ _).bind (fun _ => Tx.readOnly_read _)

theorem byId_frames (id : MindId) : Frames (byId id) := .of_readOnly (readOnly_byId id)

theorem requestRetirementInside_frames (current : SandboxRegistration) (now : Time) :
    Frames (requestRetirementInside current now) := by
  unfold requestRetirementInside
  split
  · exact .of_readOnly (Tx.readOnly_pure _)
  · refine Frames.bind (Frames.updateRow ?_) (fun _ => byId_frames _)
    exact fun _ => rfl

theorem retireByMind_frames (mindId : MindId) (now : Time) : Frames (retireByMind mindId now) := by
  refine (Frames.of_readOnly (readOnly_getByMind mindId)).bind (fun _ => .onSome ?_)
  intro current
  exact .transaction ((byId_frames _).bind (fun row => requestRetirementInside_frames row now))

theorem retireClosedMinds_frames (now : Time) : Frames (retireClosedMinds now) := by
  refine (Frames.of_readOnly (Tx.readOnly_read _)).bind ?_
  intro rows
  refine (Frames.forEach ?_ rows).bind (fun _ => .of_readOnly (Tx.readOnly_pure _))
  intro row
  exact (retireByMind_frames row.id now).bind (fun _ => .of_readOnly (Tx.readOnly_pure _))

theorem cancelRetirement_frames (mindId : MindId) (now : Time) :
    Frames (cancelRetirement mindId now) := by
  refine (Frames.of_readOnly (readOnly_getByMind mindId)).bind ?_
  intro current
  cases current with
  | none => exact .of_readOnly (Tx.readOnly_pure _)
  | some row =>
      dsimp only
      split
      · exact .of_readOnly (Tx.readOnly_pure _)
      · refine Frames.bind (Frames.updateRow ?_) ?_
        · exact fun _ => rfl
        · exact fun _ => (byId_frames _).bind (fun _ => .of_readOnly (Tx.readOnly_pure _))

theorem clearReminder_frames (ref : String) (now : Time) : Frames (clearReminder ref now) := by
  refine (Frames.of_readOnly (readOnly_resolveId ref)).bind (fun id => ?_)
  refine Frames.bind (Frames.updateRow ?_) (fun _ => byId_frames id)
  exact fun _ => rfl

theorem clearReminderByMind_frames (mindId : MindId) (now : Time) :
    Frames (clearReminderByMind mindId now) := by
  refine (Frames.of_readOnly (readOnly_getByMind mindId)).bind (fun _ => .onSome ?_)
  intro row
  exact clearReminder_frames row.id now

theorem consumeColdNotice_frames (ref : String) : Frames (consumeColdNotice ref) := by
  refine (Frames.of_readOnly (readOnly_resolveId ref)).bind (fun id => ?_)
  refine (Frames.of_readOnly (Tx.readOnly_read _)).bind (fun n => ?_)
  refine Frames.bind (Frames.update ?_) (fun _ => .of_readOnly (Tx.readOnly_pure _))
  exact fun _ => rfl

theorem latchReminder_frames (ref : String) (now : Time) : Frames (latchReminder ref now) := by
  refine (Frames.of_readOnly (readOnly_resolveId ref)).bind (fun id => ?_)
  refine (Frames.of_readOnly (Tx.readOnly_read _)).bind (fun n => ?_)
  refine Frames.bind (Frames.update ?_) (fun _ => .of_readOnly (Tx.readOnly_pure _))
  exact fun _ => rfl

theorem ensureExecutorIdentity_frames (uuid : String) : Frames (ensureExecutorIdentity uuid) := by
  refine .transaction ((Frames.of_readOnly (Tx.readOnly_read _)).bind ?_)
  intro existing
  cases existing with
  | some executorId => exact .of_readOnly (Tx.readOnly_pure _)
  | none =>
      refine Frames.bind ?_ (fun _ => .of_readOnly (Tx.readOnly_pure _))
      intro db
      rw [Tx.wp_write]
      exact Framed.refl db

/-! ### The other methods -/

theorem Moves.insert {row : SandboxRegistration}
    {fresh : ∀ x ∈ db.sandboxes, x.id ≠ row.id} (hk : row.control = ⟨.ready, none, 1, 1⟩) :
    Moves c db { db with sandboxes := db.sandboxes.insert row fresh } := by
  have hmem : ∀ x, x ∈ db.sandboxes.insert row fresh ↔ x ∈ db.sandboxes ∨ x = row :=
    fun x => Table.mem_insert
  constructor
  · intro r hr
    exact ⟨r, (hmem r).mpr (Or.inl hr), rfl, .keep⟩
  · intro r' hr'
    rcases (hmem r').mp hr' with hr | rfl
    · exact Or.inl ⟨r', hr, rfl, .keep⟩
    · exact Or.inr ⟨fresh, hk⟩

theorem insertRegistration_ok {row : SandboxRegistration} {u : Unit}
    (h : insertRegistration row db = (.ok u, db')) :
    ∃ fresh, db' = { db with sandboxes := db.sandboxes.insert row fresh } := by
  simp only [insertRegistration, Tx.bind_ok, Tx.read_ok] at h
  obtain ⟨table, _, ⟨htable, rfl⟩, h⟩ := h
  cases table with
  | none =>
      rw [Tx.throw_ok] at h
      exact h.elim
  | some sandboxes =>
      rw [Tx.write_ok] at h
      obtain ⟨fresh, rfl⟩ := Table.insert?_eq_some.mp htable
      exact ⟨fresh, h.symm⟩

theorem ensureForMind_steps (executorId : String) (mindId : MindId) (now : Time) :
    Steps c (ensureForMind executorId mindId now) := by
  intro db
  simp only [ensureForMind, assertMindId, Tx.wp_bind, Tx.wp_ensure]
  refine ⟨fun _ => ?_, fun _ => Moves.refl c db⟩
  refine Steps.transaction ?_ db
  intro db a db' h
  simp only [Tx.bind_ok, Tx.read_ok, Tx.require_ok, Tx.ensure_ok] at h
  obtain ⟨_, _, ⟨-, rfl⟩, mind, _, ⟨-, rfl⟩, _, _, ⟨-, rfl⟩, existing, _, ⟨-, rfl⟩, h⟩ := h
  cases existing with
  | some row =>
      rw [Tx.pure_ok] at h
      rw [← h.2]
      exact Moves.refl c db
  | none =>
      simp only [Tx.bind_ok, Tx.ensure_ok, byId_ok] at h
      obtain ⟨_, _, ⟨-, rfl⟩, _, _, hins, -, rfl⟩ := h
      obtain ⟨fresh, rfl⟩ := insertRegistration_ok hins
      exact Moves.insert rfl

theorem retirementRevoked_ok {id : MindId} {expired revoked : Bool} {db db' : SandboxDb}
    (h : retirementRevoked id expired db = (.ok revoked, db')) : db' = db := by
  unfold retirementRevoked at h
  split at h
  · exact (Tx.pure_ok.mp h).2.symm
  · simp only [Tx.bind_ok, mindOf_ok, Tx.pure_ok] at h
    obtain ⟨_, _, ⟨-, rfl⟩, -, rfl⟩ := h
    rfl

theorem finalizeRetirement_steps (ref : String) (expired : Bool) (now : Time) :
    Steps (.finalizeRetirement ref expired now) (finalizeRetirement ref expired now) := by
  refine Steps.resolved (Steps.transaction ?_)
  intro db a db' h
  rw [Tx.bind_ok] at h
  obtain ⟨r, _, hread, h⟩ := h
  obtain ⟨⟨hr, hid⟩, rfl⟩ := byId_ok.mp hread
  split at h
  · rw [Tx.pure_ok] at h
    rw [← h.2]
    exact Moves.refl _ db
  · simp only [Tx.bind_ok, Tx.ensure_ok] at h
    obtain ⟨_, _, ⟨⟨hl, -⟩, rfl⟩, revoked, _, hrevoked, h⟩ := h
    obtain rfl := retirementRevoked_ok hrevoked
    split at h
    · simp only [Tx.bind_ok, byId_ok, updateRow_ok] at h
      obtain ⟨_, _, rfl, -, rfl⟩ := h
      exact Framed.step (Framed.update (fun _ => rfl))
    · simp only [Tx.bind_ok, byId_ok, updateRow_ok] at h
      obtain ⟨_, _, rfl, -, rfl⟩ := h
      exact Moves.updateRow hr hid (.retire rfl hl)

/-- What `beginRun` hands out: the counters the run found, in a run id. -/
structure Begun (ref : MindId) (db : SandboxDb) (run : SandboxRun) : Prop where
  id : run.sandbox.id = ref
  runId : run.runId = runIdOf ref run.sandbox.generation (run.sandbox.nextRunSeq - 1)
  found : ∃ r ∈ db.sandboxes, r.id = ref ∧ r.lifecycle = .ready ∧
    run.sandbox.generation = r.generation ∧ run.sandbox.nextRunSeq = r.nextRunSeq + 1

theorem retireBeforeRun_ok {first current : SandboxRegistration} {mind : MindRow} {now : Time}
    (hfirst : first ∈ db.sandboxes)
    (h : retireBeforeRun first mind now db = (.ok current, db')) :
    Framed db db' ∧ current ∈ db'.sandboxes ∧ current.id = first.id ∧
      current.control = first.control := by
  unfold retireBeforeRun at h
  split at h
  · simp only [Tx.bind_ok, byId_ok] at h
    obtain ⟨_, _, hreq, ⟨hcur, hid⟩, rfl⟩ := h
    have hframe : Framed db _ :=
      (Tx.wp_iff.mp (requestRetirementInside_frames first now db)).1 _ _ hreq
    obtain ⟨r, hr, hrid, hk⟩ := hframe.2 current hcur
    have hrf : r = first := Table.eq_of_key hr hfirst (hrid.symm.trans hid)
    rw [hrf] at hk
    exact ⟨hframe, hcur, hid, hk⟩
  · rw [Tx.pure_ok] at h
    obtain ⟨rfl, rfl⟩ := h
    exact ⟨Framed.refl db, hfirst, rfl, rfl⟩

theorem beginRun_ok {ref : String} {now : Time} {run : SandboxRun}
    (h : beginRun ref now db = (.ok run, db')) :
    Moves (.beginRun ref now) db db' ∧ Begun ref db run ∧ run.sandbox ∈ db'.sandboxes := by
  simp only [beginRun, resolveId, Tx.bind_ok, Tx.ensure_ok, Tx.pure_ok, Tx.transaction_ok,
    byId_ok, mindOf_ok, updateRow_ok] at h
  obtain ⟨_, _, ⟨_, _, ⟨-, rfl⟩, rfl, rfl⟩, first, _, ⟨⟨hfirst, rfl⟩, rfl⟩, _, _, ⟨hl, rfl⟩,
    mind, _, ⟨-, rfl⟩, _, _, ⟨-, rfl⟩, current, db₁, hcurrent, _, _, rfl, sandbox, _,
    ⟨⟨hsandbox, hsid⟩, rfl⟩, rfl, rfl⟩ := h
  obtain ⟨hframe, hcur, hcid, hk⟩ := retireBeforeRun_ok hfirst hcurrent
  have hready : current.control.lifecycle = .ready := by rw [hk]; exact hl
  have hgen : current.generation = first.generation := congrArg Control.generation hk
  have hseq : current.nextRunSeq = first.nextRunSeq := congrArg Control.nextRunSeq hk
  refine ⟨hframe.moves (Moves.updateRow hcur hcid ?_), ?_, hsandbox⟩
  · have hstep := ControlStep.begin (c := .beginRun first.id now) rfl hready
    rw [hcid]
    exact hstep
  · -- the row read back is the updated one
    obtain ⟨x, hx, hxs⟩ := (SandboxDb.mem_update _).mp hsandbox
    have hxid : x.id = first.id := by
      rw [← hsid, ← hxs]
      split
      · rfl
      · rfl
    have hxc : x = current := Table.eq_of_key hx hcur (hxid.trans hcid.symm)
    rw [if_pos (by simpa using hxid), hxc] at hxs
    rw [← hxs]
    refine ⟨hcid, ?_, first, hfirst, rfl, hl, hgen, ?_⟩
    · show runIdOf current.id current.generation current.nextRunSeq = _
      rw [hcid]
      rfl
    · show current.nextRunSeq + 1 = _
      rw [hseq]

theorem beginRun_atomic (ref : String) (now : Time) : Tx.Atomic (beginRun ref now) :=
  (readOnly_resolveId ref).bind_atomic (fun _ => Tx.atomic_transaction _)

theorem beginRun_steps (ref : String) (now : Time) :
    Steps (.beginRun ref now) (beginRun ref now) := by
  intro db
  rw [Tx.wp_iff]
  constructor
  · intro run db' h
    exact (beginRun_ok h).1
  · intro e db' h
    rw [beginRun_atomic ref now db e db' h]
    exact Moves.refl _ db

theorem perform_steps (c : RegistryCall) : Steps c (perform c) := by
  cases c with
  | ensureExecutorIdentity uuid => exact (ensureExecutorIdentity_frames uuid).steps.noRun
  | ensureForMind executorId mindId now => exact (ensureForMind_steps executorId mindId now).noRun
  | beginRun ref now =>
      intro db
      simp only [perform, Tx.wp_bind, Tx.wp_pure]
      exact beginRun_steps ref now db
  | detachRun ref runId now => exact (detachRun_steps ref runId now).noRun
  | finishRun ref runId now => exact (finishRun_steps ref runId now).noRun
  | markInterruptedRunsDetached now => exact (markInterruptedRunsDetached_steps now).noRun
  | failRunAndReset ref runId now => exact (failRunAndReset_steps ref runId now).noRun
  | coldResetAll now => exact (coldResetAll_steps now).noRun
  | consumeColdNotice ref => exact (consumeColdNotice_frames ref).steps.noRun
  | reset ref now => exact (reset_steps ref now).noRun
  | latchReminder ref now => exact (latchReminder_frames ref now).steps.noRun
  | clearReminder ref now => exact (clearReminder_frames ref now).steps.noRun
  | clearReminderByMind mindId now => exact (clearReminderByMind_frames mindId now).steps.noRun
  | retireByMind mindId now => exact (retireByMind_frames mindId now).steps.noRun
  | cancelRetirement mindId now => exact (cancelRetirement_frames mindId now).steps.noRun
  | finalizeRetirement ref expired now => exact (finalizeRetirement_steps ref expired now).noRun
  | retireClosedMinds now => exact (retireClosedMinds_frames now).steps.noRun
  | mindWrites minds =>
      refine Steps.noRun ?_
      intro db
      rw [Tx.wp_write]
      exact Moves.of_eq rfl

end Elpis.Sandbox
