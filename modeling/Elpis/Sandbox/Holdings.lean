import Elpis.Sandbox.Manager

/-!
# Which run holds a sandbox

The manager cares about two things of the registry: which run a busy or detached
sandbox belongs to (`Holds`), and that every sandbox has its Mind item (`Backed`), since
`finishRun` reads it. Every method it calls is described by what it does to these.
-/

namespace Elpis.Sandbox

open Elpis.Lib Elpis.Mind

/-- The run `o` holds its sandbox, which is in the state `l`. -/
def Holds (db : SandboxDb) (l : SandboxLifecycle) (o : Owner) : Prop :=
  ∃ r ∈ db.sandboxes, r.id = o.sandbox ∧ r.lifecycle = l ∧ r.activeRunId = some o.runId

instance (db : SandboxDb) (l : SandboxLifecycle) (o : Owner) : Decidable (Holds db l o) :=
  inferInstanceAs (Decidable (∃ r ∈ db.sandboxes.rows, _))

/-- Every sandbox has its Mind item. -/
def Backed (db : SandboxDb) : Prop :=
  ∀ r ∈ db.sandboxes, ∃ mind, db.minds.get? r.id = some mind

variable {db db' db'' : SandboxDb} {l l' : SandboxLifecycle} {o o' : Owner}

theorem Holds.unique (h : Holds db l o) (h' : Holds db l' o') (hs : o.sandbox = o'.sandbox) :
    l = l' ∧ o = o' := by
  obtain ⟨r, hr, hid, hl, ha⟩ := h
  obtain ⟨r', hr', hid', hl', ha'⟩ := h'
  have hrr : r = r' := Table.eq_of_key hr hr' ((hid.trans hs).trans hid'.symm)
  rw [hrr] at hl ha
  refine ⟨hl.symm.trans hl', ?_⟩
  cases o
  cases o'
  simp only at hs ha ha'
  rw [hs, Option.some.inj (ha.symm.trans ha')]

/-- The runs that hold a sandbox in `db'` are those of `db`. -/
def Keeps (db db' : SandboxDb) : Prop :=
  (∀ l : SandboxLifecycle, l.Owned → ∀ o, Holds db' l o ↔ Holds db l o) ∧
    (Backed db → Backed db')

instance : IsPreorder SandboxDb Keeps where
  refl _ := ⟨fun _ _ _ => Iff.rfl, id⟩
  trans _ _ _ h h' :=
    ⟨fun l hl o => (h'.1 l hl o).trans (h.1 l hl o), fun hb => h'.2 (h.2 hb)⟩

/-- The sandbox `x` is given up, the others are held as before. -/
def Frees (x : MindId) (db db' : SandboxDb) : Prop :=
  (∀ l : SandboxLifecycle, l.Owned → ∀ o, Holds db' l o ↔ Holds db l o ∧ o.sandbox ≠ x) ∧
    (Backed db → Backed db')

theorem Frees.keeps {x : MindId} (h : Frees x db db') (h' : Keeps db' db'') :
    Frees x db db'' :=
  ⟨fun l hl o => (h'.1 l hl o).trans (h.1 l hl o), fun hb => h'.2 (h.2 hb)⟩

/-! ## Statements -/

variable {f : SandboxRegistration → SandboxRegistration} {hf : ∀ r, (f r).id = r.id}

theorem Backed.update {p : SandboxRegistration → Bool}
    (h : Backed db) : Backed (db.update p f hf) := by
  intro r hr
  obtain ⟨x, hx, rfl⟩ := (SandboxDb.mem_update hf).mp hr
  have hid : (if p x then f x else x).id = x.id := by
    split
    · exact hf x
    · rfl
  rw [hid]
  exact h x hx

/-- An update of one row decides what that sandbox is held by. -/
theorem holds_updateRow {x : MindId} :
    Holds (db.update (fun r => decide (r.id = x)) f hf) l o ↔
      if o.sandbox = x then
        ∃ r ∈ db.sandboxes, r.id = x ∧ (f r).lifecycle = l ∧ (f r).activeRunId = some o.runId
      else Holds db l o := by
  unfold Holds
  constructor
  · rintro ⟨r, hr, hid, hl, ha⟩
    obtain ⟨y, hy, rfl⟩ := (SandboxDb.mem_update hf).mp hr
    by_cases hyx : y.id = x
    · simp only [hyx, decide_true, if_true] at hid hl ha
      rw [if_pos (hid.symm.trans ((hf y).trans hyx))]
      exact ⟨y, hy, hyx, hl, ha⟩
    · simp only [hyx, decide_false, Bool.false_eq_true, if_false] at hid hl ha
      rw [if_neg (fun h => hyx (hid.trans h))]
      exact ⟨y, hy, hid, hl, ha⟩
  · intro h
    split at h
    · rename_i hox
      obtain ⟨y, hy, hyx, hl, ha⟩ := h
      refine ⟨f y, (SandboxDb.mem_update hf).mpr ⟨y, hy, ?_⟩, ?_, hl, ha⟩
      · rw [if_pos (decide_eq_true hyx)]
      · rw [hf, hyx, hox]
    · rename_i hox
      obtain ⟨y, hy, hid, hl, ha⟩ := h
      refine ⟨y, (SandboxDb.mem_update hf).mpr ⟨y, hy, ?_⟩, hid, hl, ha⟩
      rw [if_neg]
      intro hyx
      exact hox (hid.symm.trans (of_decide_eq_true hyx))

/-- An update that leaves its row without a run gives the sandbox up. -/
theorem Frees.updateRow {x : MindId} (h : ∀ r, (f r).activeRunId = none) :
    Frees x db (db.update (fun r => decide (r.id = x)) f hf) := by
  refine ⟨fun l _ o => ?_, Backed.update⟩
  rw [holds_updateRow]
  split
  · rename_i hox
    constructor
    · rintro ⟨r, -, -, -, ha⟩
      rw [h r] at ha
      cases ha
    · rintro ⟨-, hne⟩
      exact absurd hox hne
  · rename_i hox
    exact ⟨fun ho => ⟨ho, hox⟩, fun ho => ho.1⟩

/-! ## Methods that keep every holding -/

/-- The calls that neither begin nor end nor detach a run. -/
def RegistryCall.quiet : RegistryCall → Bool
  | .beginRun .. | .detachRun .. | .finishRun .. | .failRunAndReset ..
  | .markInterruptedRunsDetached .. | .coldResetAll .. => false
  | _ => true

theorem ControlStep.quiet {c : RegistryCall} {id : MindId} {k k' : Control}
    (h : ControlStep c id k k') (hc : c.quiet = true) :
    k' = k ∨ ¬k.lifecycle.Owned ∧ ¬k'.lifecycle.Owned := by
  have hfree : ∀ l : SandboxLifecycle, l = .ready ∨ l = .retired → ¬l.Owned := by
    rintro l (rfl | rfl) (h | h) <;> cases h
  cases h with
  | keep => exact Or.inl rfl
  | begin hc' => rw [hc'] at hc; cases hc
  | detach hc' => rw [hc'] at hc; cases hc
  | finish hc' => rw [hc'] at hc; cases hc
  | fail hc' => rw [hc'] at hc; cases hc
  | interrupted hc' => rw [hc'] at hc; cases hc
  | cold hc' => rw [hc'] at hc; cases hc
  | reset _ hl => exact Or.inr ⟨hfree _ (Or.inl hl), hfree _ (Or.inl hl)⟩
  | retire _ hl => exact Or.inr ⟨hfree _ (Or.inl hl), hfree _ (Or.inr rfl)⟩

theorem Moves.holds {c : RegistryCall} (h : Moves c db db') (hc : c.quiet = true) :
    ∀ l : SandboxLifecycle, l.Owned → ∀ o, Holds db' l o ↔ Holds db l o := by
  intro l hl o
  constructor
  · rintro ⟨r', hr', hid, rfl, ha⟩
    rcases h.new r' hr' with ⟨r, hr, hrid, hstep⟩ | ⟨-, hk⟩
    · rcases hstep.quiet hc with hk | ⟨-, hno⟩
      · refine ⟨r, hr, hrid.symm.trans hid, ?_, ?_⟩
        · exact (congrArg Control.lifecycle hk).symm
        · exact (congrArg Control.activeRunId hk).symm.trans ha
      · exact absurd hl hno
    · have hnone : r'.activeRunId = none := congrArg Control.activeRunId hk
      rw [hnone] at ha
      cases ha
  · rintro ⟨r, hr, hid, rfl, ha⟩
    obtain ⟨r', hr', hrid, hstep⟩ := h.old r hr
    rcases hstep.quiet hc with hk | ⟨hno, -⟩
    · refine ⟨r', hr', hrid.trans hid, ?_, ?_⟩
      · exact congrArg Control.lifecycle hk
      · exact (congrArg Control.activeRunId hk).trans ha
    · exact absurd hl hno

section Backs
variable {α β : Type} {m : RegistryM α}

/-- However it ends, the program leaves every sandbox its Mind item. -/
def Backs (m : RegistryM α) : Prop := Tx.Along (fun db db' => Backed db → Backed db') m

instance : IsPreorder SandboxDb (fun db db' => Backed db → Backed db') where
  refl _ := id
  trans _ _ _ h h' hb := h' (h hb)

theorem Backs.update {p : SandboxRegistration → Bool} :
    Backs (Tx.write (fun db : SandboxDb => db.update p f hf)) :=
  Tx.Along.write (fun _ => Backed.update)

theorem Backs.updateRow {x : MindId} : Backs (updateRow x f hf) := Backs.update

theorem Backs.byId (x : MindId) : Backs (byId x) := Tx.Along.of_readOnly (readOnly_byId x)

theorem Backs.getByMind (x : MindId) : Backs (getByMind x) :=
  Tx.Along.of_readOnly (readOnly_getByMind x)

theorem Backs.mindOf (x : MindId) : Backs (mindOf x) :=
  (Tx.Along.read _).bind (fun _ => Tx.Along.of_readOnly (Tx.readOnly_require _ _))

theorem Backs.resolved {ref : String} {f : MindId → RegistryM α} (h : Backs (f ref)) :
    Backs (resolveId ref >>= f) := by
  intro db
  simp only [resolveId, Tx.wp_bind, Tx.wp_ensure, Tx.wp_pure]
  exact ⟨fun _ => h db, fun _ => id⟩

/-- A quiet call keeps every holding. -/
theorem keeps_of_steps {c : RegistryCall} (hc : c.quiet = true) (hs : Steps c m)
    (hb : Backs m) : Tx.Along Keeps m := by
  intro db
  refine Tx.wp_mono ?_ ?_ (Tx.wp_and (hs db) (hb db))
  · rintro _ db' ⟨hm, hb⟩
    exact ⟨hm.holds hc, hb⟩
  · rintro _ db' ⟨hm, hb⟩
    exact ⟨hm.holds hc, hb⟩

theorem keeps_of_frames (hf : Frames m) (hb : Backs m) : Tx.Along Keeps m :=
  keeps_of_steps (c := .ensureExecutorIdentity "") rfl hf.steps hb

end Backs

theorem getByMind_keeps (x : MindId) : Tx.Along Keeps (getByMind x) :=
  Tx.Along.of_readOnly (readOnly_getByMind x)

theorem requestRetirementInside_backs (r : SandboxRegistration) (now : Time) :
    Backs (requestRetirementInside r now) :=
  Tx.Along.ite (Tx.Along.pure r) (Backs.updateRow.bind (fun _ => Backs.byId _))

theorem retireByMind_keeps (x : MindId) (now : Time) : Tx.Along Keeps (retireByMind x now) := by
  refine keeps_of_frames (retireByMind_frames x now) ?_
  refine (Backs.getByMind x).bind (fun _ => Tx.Along.onSome (fun current => ?_))
  exact ((Backs.byId current.id).bind
    (fun row => requestRetirementInside_backs row now)).transaction

theorem cancelRetirement_keeps (x : MindId) (now : Time) :
    Tx.Along Keeps (cancelRetirement x now) := by
  refine keeps_of_frames (cancelRetirement_frames x now) ?_
  refine (Backs.getByMind x).bind ?_
  intro current
  cases current with
  | none => exact Tx.Along.pure none
  | some row =>
      refine Tx.Along.ite (Tx.Along.pure _) (Backs.updateRow.bind (fun _ => ?_))
      exact (Backs.byId row.id).bind (fun _ => Tx.Along.pure _)

theorem clearReminderByMind_keeps (x : MindId) (now : Time) :
    Tx.Along Keeps (clearReminderByMind x now) := by
  refine keeps_of_frames (clearReminderByMind_frames x now) ?_
  refine (Backs.getByMind x).bind (fun _ => Tx.Along.onSome (fun row => ?_))
  exact Backs.resolved (Backs.updateRow.bind (fun _ => Backs.byId row.id))

theorem consumeColdNotice_keeps (ref : String) : Tx.Along Keeps (consumeColdNotice ref) := by
  refine keeps_of_frames (consumeColdNotice_frames ref) ?_
  exact Backs.resolved ((Tx.Along.read _).bind (fun _ =>
    Backs.update.bind (fun _ => Tx.Along.pure _)))

theorem latchReminder_keeps (ref : String) (now : Time) :
    Tx.Along Keeps (latchReminder ref now) := by
  refine keeps_of_frames (latchReminder_frames ref now) ?_
  exact Backs.resolved ((Tx.Along.read _).bind (fun _ =>
    Backs.update.bind (fun _ => Tx.Along.pure _)))

theorem finalizeRetirement_keeps (ref : String) (expired : Bool) (now : Time) :
    Tx.Along Keeps (finalizeRetirement ref expired now) := by
  refine keeps_of_steps (c := .finalizeRetirement ref expired now) rfl
    (finalizeRetirement_steps ref expired now) ?_
  refine Backs.resolved (Tx.Along.transaction ((Backs.byId ref).bind (fun current => ?_)))
  refine Tx.Along.ite (Tx.Along.pure _) ((Tx.Along.ensure _ _).bind (fun _ => ?_))
  have hrevoked : Backs (retirementRevoked current.id expired) :=
    Tx.Along.ite (Tx.Along.pure _) ((Backs.mindOf current.id).bind (fun _ => Tx.Along.pure _))
  refine hrevoked.bind (fun _ => ?_)
  exact Tx.Along.ite (Backs.updateRow.bind (fun _ => Backs.byId ref))
    (Backs.updateRow.bind (fun _ => Backs.byId ref))

/-- A new registration is of a Mind item that exists. -/
theorem ensureForMind_keeps (executorId : String) (x : MindId) (now : Time) :
    Tx.Along Keeps (ensureForMind executorId x now) := by
  refine keeps_of_steps (c := .ensureForMind executorId x now) rfl
    (ensureForMind_steps executorId x now) ?_
  refine (Tx.Along.ensure _ _).bind (fun _ => ?_)
  intro db
  rw [Tx.wp_transaction, Tx.wp_iff]
  refine ⟨?_, fun _ _ _ => id⟩
  intro a db' h hb
  simp only [Tx.bind_ok, Tx.read_ok, Tx.require_ok, Tx.ensure_ok] at h
  obtain ⟨found, _, ⟨rfl, rfl⟩, mind, _, ⟨hmind, rfl⟩, _, _, ⟨-, rfl⟩, existing, _, ⟨-, rfl⟩, h⟩ := h
  cases existing with
  | some row =>
      rw [Tx.pure_ok] at h
      rw [← h.2]
      exact hb
  | none =>
      simp only [Tx.bind_ok, Tx.ensure_ok, byId_ok] at h
      obtain ⟨_, _, ⟨-, rfl⟩, _, _, hins, -, rfl⟩ := h
      obtain ⟨fresh, rfl⟩ := insertRegistration_ok hins
      intro r hr
      have hmem : r ∈ db.sandboxes.insert (newRegistration executorId x now) fresh := hr
      rcases Table.mem_insert.mp hmem with hold | rfl
      · exact hb r hold
      · exact ⟨mind, hmind⟩

/-! ## Methods that begin, detach and end a run -/

theorem retireBeforeRun_backs (r : SandboxRegistration) (mind : MindRow) (now : Time) :
    Backs (retireBeforeRun r mind now) :=
  Tx.Along.ite ((requestRetirementInside_backs r now).bind (fun _ => Backs.byId r.id))
    (Tx.Along.pure r)

/-- What a successful `beginRun` did: the sandbox was free, and is held by the run. -/
structure Begins (o : Owner) (db db' : SandboxDb) : Prop where
  named : isMindId o.sandbox = true
  free : ∀ l : SandboxLifecycle, l.Owned → ∀ p, Holds db l p → p.sandbox ≠ o.sandbox
  holds : ∀ l : SandboxLifecycle, l.Owned → ∀ p,
    Holds db' l p ↔ Holds db l p ∨ l = .busy ∧ p = o
  backed : Backed db → Backed db'

theorem beginRun_begins {ref : String} {now : Time} {run : SandboxRun}
    (h : beginRun ref now db = (.ok run, db')) : Begins ⟨ref, run.runId⟩ db db' := by
  simp only [beginRun, resolveId, Tx.bind_ok, Tx.ensure_ok, Tx.pure_ok, Tx.transaction_ok,
    byId_ok, mindOf_ok, updateRow_ok] at h
  obtain ⟨_, _, ⟨_, _, ⟨hname, rfl⟩, rfl, rfl⟩, first, _, ⟨⟨hfirst, rfl⟩, rfl⟩, _, _, ⟨hl, rfl⟩,
    mind, _, ⟨-, rfl⟩, _, _, ⟨-, rfl⟩, current, db₁, hcurrent, _, _, rfl, sandbox, _,
    ⟨-, rfl⟩, rfl, rfl⟩ := h
  obtain ⟨hframe, hcur, hcid, -⟩ := retireBeforeRun_ok hfirst hcurrent
  have hold : ∀ l : SandboxLifecycle, l.Owned → ∀ p, Holds db₁ l p ↔ Holds db l p :=
    (hframe.step (c := .ensureExecutorIdentity "")).holds rfl
  have hfree : ∀ l : SandboxLifecycle, l.Owned → ∀ p, Holds db l p → p.sandbox ≠ first.id := by
    rintro l howned p ⟨r, hr, hid, rfl, -⟩ hp
    rw [Table.eq_of_key hr hfirst (hid.trans hp), hl] at howned
    rcases howned with h | h <;> cases h
  refine ⟨hname, hfree, fun l howned p => ?_, fun hb => ?_⟩
  · rw [holds_updateRow]
    split
    · rename_i hp
      constructor
      · rintro ⟨r, -, -, rfl, ha⟩
        refine Or.inr ⟨rfl, ?_⟩
        cases p
        simp only at hp ha
        rw [hp, Option.some.inj ha]
      · rintro (hp' | ⟨rfl, rfl⟩)
        · exact absurd hp (hfree l howned p hp')
        · exact ⟨current, hcur, hcid, rfl, rfl⟩
    · rename_i hp
      rw [hold l howned p]
      constructor
      · exact Or.inl
      · rintro (hp' | ⟨-, rfl⟩)
        · exact hp'
        · exact absurd rfl hp
  · have hb₁ := (Tx.wp_iff.mp (retireBeforeRun_backs first mind now db)).1 _ _ hcurrent hb
    exact hb₁.update

theorem Holds.row (h : Holds db l o) : ∃ r, db.sandboxes.get? o.sandbox = some r ∧
    r.id = o.sandbox ∧ r.lifecycle = l ∧ r.activeRunId = some o.runId := by
  obtain ⟨r, hr, hid, hl, ha⟩ := h
  exact ⟨r, Table.get?_eq_some.mpr ⟨hr, hid⟩, hid, hl, ha⟩

section Success
variable {α : Type} {x : MindId} {r : SandboxRegistration} {now : Time}
  {Q : SandboxRegistration → SandboxDb → Prop} {E : String → SandboxDb → Prop}

theorem wp_byId (h : db.sandboxes.get? x = some r) (hQ : Q r db) : Tx.wp (byId x) Q E db := by
  simp only [byId, Tx.wp_bind, Tx.wp_read, Tx.wp_require, h]
  refine ⟨?_, by rintro ⟨⟩⟩
  rintro _ ⟨⟩
  exact hQ

theorem wp_resolveId {f : MindId → RegistryM α} {Q : α → SandboxDb → Prop}
    (h : isMindId x = true) (hf : Tx.wp (f x) Q E db) : Tx.wp (resolveId x >>= f) Q E db := by
  simp only [resolveId, Tx.wp_bind, Tx.wp_ensure, Tx.wp_pure]
  exact ⟨fun _ => hf, fun hn => absurd h hn⟩

/-- An update of a row that is there, and the read of it after. -/
theorem wp_updateRow (h : db.sandboxes.get? x = some r)
    (hQ : ∀ r', Q r' (db.update (fun r => decide (r.id = x)) f hf)) :
    Tx.wp (updateRow x f hf >>= fun _ => byId x) Q E db := by
  rw [Tx.wp_bind, updateRow, Tx.wp_write]
  refine wp_byId (r := if decide (r.id = x) then f r else r) ?_ (hQ _)
  show (db.sandboxes.update _ f hf).get? x = _
  rw [Table.get?_update, h, Option.map_some]

end Success

/-- The run `o` goes from busy to detached. -/
structure Detaches (o : Owner) (db db' : SandboxDb) : Prop where
  holds : ∀ l : SandboxLifecycle, l.Owned → ∀ p,
    Holds db' l p ↔ if p.sandbox = o.sandbox then l = .detached ∧ p = o else Holds db l p
  backed : Backed db → Backed db'

/-- The run that holds a busy sandbox can detach it. -/
theorem detachRun_detaches (now : Time) (hname : isMindId o.sandbox = true)
    (h : Holds db .busy o) :
    Tx.wp (detachRun o.sandbox o.runId now) (fun _ db' => Detaches o db db') (fun _ _ => False)
      db := by
  obtain ⟨r, hget, hid, hl, ha⟩ := h.row
  refine wp_resolveId hname ?_
  rw [Tx.wp_transaction, Tx.wp_bind]
  refine wp_byId hget ?_
  rw [Tx.wp_bind, Tx.wp_ensure]
  refine ⟨fun _ => wp_updateRow hget (fun _ => ⟨?_, Backed.update⟩), fun hn => hn ⟨hl, ha⟩⟩
  intro l _ p
  rw [holds_updateRow]
  split
  · rename_i hp
    constructor
    · rintro ⟨r', hr', hid', rfl, ha'⟩
      refine ⟨rfl, ?_⟩
      have hrr : r' = r := Table.eq_of_key hr' (Table.mem_of_get? hget) (hid'.trans hid.symm)
      rw [hrr] at ha'
      cases o
      cases p
      simp only at hp ha ha'
      rw [hp, Option.some.inj (ha'.symm.trans ha)]
    · rintro ⟨rfl, rfl⟩
      exact ⟨r, Table.mem_of_get? hget, hid, rfl, ha⟩
  · exact Iff.rfl

/-- The run that holds a sandbox can end, and gives it up. -/
theorem finishRun_frees (now : Time) (hname : isMindId o.sandbox = true) (howned : l.Owned)
    (h : Holds db l o) (hb : Backed db) :
    Tx.wp (finishRun o.sandbox o.runId now) (fun _ db' => Frees o.sandbox db db')
      (fun _ _ => False) db := by
  obtain ⟨r, hget, hid, hl, ha⟩ := h.row
  obtain ⟨mind, hmind⟩ := hb r (Table.mem_of_get? hget)
  refine wp_resolveId hname ?_
  rw [Tx.wp_transaction, Tx.wp_bind]
  refine wp_byId hget ?_
  rw [Tx.wp_bind, Tx.wp_ensure]
  refine ⟨fun _ => ?_, fun hn => hn ⟨hl ▸ howned, ha⟩⟩
  simp only [mindOf, Tx.wp_bind, Tx.wp_read, Tx.wp_require, hmind]
  refine ⟨fun mind' _ => ?_, nofun⟩
  rw [← Tx.wp_bind]
  exact wp_updateRow hget (fun _ => Frees.updateRow (fun _ => rfl))

/-- The run that holds a sandbox can fail, and gives it up. -/
theorem failRunAndReset_frees (now : Time) (hname : isMindId o.sandbox = true) (howned : l.Owned)
    (h : Holds db l o) :
    Tx.wp (failRunAndReset o.sandbox o.runId now) (fun _ db' => Frees o.sandbox db db')
      (fun _ _ => False) db := by
  obtain ⟨r, hget, hid, hl, ha⟩ := h.row
  refine wp_resolveId hname ?_
  rw [Tx.wp_transaction, Tx.wp_bind]
  refine wp_byId hget ?_
  rw [Tx.wp_bind, Tx.wp_ensure]
  refine ⟨fun _ => ?_, fun hn => hn ⟨hl ▸ howned, ha⟩⟩
  exact wp_updateRow hget (fun _ => Frees.updateRow (fun _ => rfl))

/-- After a cold reset no run holds a sandbox. -/
theorem coldResetAll_frees (now : Time) (db : SandboxDb) :
    Tx.wp (coldResetAll now)
      (fun _ db' => (∀ l : SandboxLifecycle, l.Owned → ∀ o, ¬Holds db' l o) ∧
        (Backed db → Backed db')) (fun _ _ => False) db := by
  simp only [coldResetAll, changes, Tx.wp_bind, Tx.wp_read, Tx.wp_write, Tx.wp_pure]
  refine ⟨?_, Backed.update⟩
  rintro l howned o ⟨r, hr, -, rfl, -⟩
  obtain ⟨x, -, rfl⟩ := (SandboxDb.mem_update _).mp hr
  by_cases hx : x.lifecycle = .retired
  · simp only [hx, ne_eq, not_true_eq_false, decide_false, Bool.false_eq_true, if_false] at howned
    rcases howned with h | h <;> cases h
  · simp only [hx, ne_eq, not_false_eq_true, decide_true, if_true] at howned
    rcases howned with h | h <;> cases h

end Elpis.Sandbox
