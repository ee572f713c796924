import Elpis.Worker.System

/-!
# Workers: what the rows keep true

`WorkerDb.Valid` is the agreement between the tables that every statement of the
mailbox and of the broker keeps: the finish messages against the statuses, the
seats of active sessions, the cleanup mark. `Ledger cap may db db'` says what one
or more statements may do to valid rows: they stay valid, a session that ended
stays ended, the mailbox of a finished session is frozen, and a cleanup mark is
new only on the sessions `may` names. It is transitive, so a program is proved
statement by statement.
-/

namespace Elpis.Worker

open Elpis.Lib Elpis.Mind

/-! ## Validity -/

/-- The cleanup mark. -/
def SessionRow.completed (r : SessionRow) : Bool := r.runtimeCleanupCompletedAt.isSome

/-- What holds of the sessions alone. -/
structure Seats (cap : ℕ) (sessions : Table SessionRow.id) : Prop where
  oneWorker : ∀ r ∈ sessions, ∀ r' ∈ sessions, r.status.active = true →
    r'.status.active = true → r.mindId = r'.mindId → r = r'
  capacity : (sessions.select (·.status.active)).length ≤ cap
  completed : ∀ r ∈ sessions, r.completed = true → r.status.terminal = true

/-- The finish messages and the status `finished` tell the same story. -/
structure Agrees (db : WorkerDb) : Prop where
  finished : ∀ id, (∃ m ∈ db.messages, m.isFinishOf id = true) ↔
    ∃ r ∈ db.sessions, r.id = id ∧ r.status = .finished
  once : ∀ id, ∀ m ∈ db.messages, ∀ m' ∈ db.messages,
    m.isFinishOf id = true → m'.isFinishOf id = true → m = m'

structure WorkerDb.Valid (cap : ℕ) (db : WorkerDb) : Prop where
  seats : Seats cap db.sessions
  agrees : Agrees db

theorem valid_empty (cap : ℕ) : WorkerDb.empty.Valid cap where
  seats := by
    refine ⟨?_, Nat.zero_le _, ?_⟩
    · intro r hr
      exact absurd hr Table.not_mem_empty
    · intro r hr
      exact absurd hr Table.not_mem_empty
  agrees := by
    refine ⟨?_, ?_⟩
    · intro id
      constructor
      · rintro ⟨m, hm, _⟩
        exact absurd hm Table.not_mem_empty
      · rintro ⟨r, hr, _⟩
        exact absurd hr Table.not_mem_empty
    · intro id m hm
      exact absurd hm Table.not_mem_empty

/-! ## Reading the queries -/

namespace WorkerDb

variable {db : WorkerDb} {id key : String} {direction : Direction}

theorem finishOf_isSome :
    (db.finishOf id).isSome = true ↔ ∃ m ∈ db.messages, m.isFinishOf id = true := by
  unfold finishOf
  rw [List.find?_isSome]
  exact Iff.rfl

theorem finishOf_eq_none :
    db.finishOf id = none ↔ ∀ m ∈ db.messages, m.isFinishOf id = false := by
  unfold finishOf
  rw [List.find?_eq_none]
  simp only [Bool.not_eq_true]
  exact Iff.rfl

theorem existing_spec {m : MessageRow} (h : db.existing id direction key = some m) :
    m ∈ db.messages ∧ m.sessionId = id ∧ m.direction = direction ∧ m.messageKey = key := by
  have hp := List.find?_some h
  simp only [Bool.and_eq_true, decide_eq_true_eq] at hp
  exact ⟨List.mem_of_find?_eq_some h, hp.1.1, hp.1.2, hp.2⟩

/-- The messages of a session, whether acknowledged or not. -/
def mailbox (db : WorkerDb) (id : String) : List MessageRow :=
  (db.messages.rows.filter (fun m => decide (m.sessionId = id))).map
    (fun m => { m with acknowledgedAt := none })

theorem finish_mem_mailbox :
    (∃ m ∈ db.messages, m.isFinishOf id = true) ↔ ∃ m ∈ db.mailbox id, m.isFinishOf id = true := by
  constructor
  · rintro ⟨m, hm, hf⟩
    have hid : m.sessionId = id := by
      simp only [MessageRow.isFinishOf, Bool.and_eq_true, decide_eq_true_eq] at hf
      exact hf.1.1
    refine ⟨{ m with acknowledgedAt := none }, ?_, hf⟩
    exact List.mem_map_of_mem (List.mem_filter.mpr ⟨hm, decide_eq_true hid⟩)
  · rintro ⟨m', hm', hf⟩
    obtain ⟨m, hm, rfl⟩ := List.mem_map.mp hm'
    exact ⟨m, (List.mem_filter.mp hm).1, hf⟩

end WorkerDb

/-! ## One session goes on -/

/-- What a statement may do to a session row. -/
structure SessionRow.Advance (r r' : SessionRow) : Prop where
  mindId : r'.mindId = r.mindId
  active : r'.status.active = true → r.status.active = true
  finished : r.status = .finished → r'.status = .finished
  completed : r'.completed = true → r'.status.terminal = true

theorem SessionStatus.terminal_iff {s : SessionStatus} : s.terminal = true ↔ s.active = false := by
  cases s <;> decide

theorem SessionRow.Advance.terminal {r r' : SessionRow} (h : r.Advance r')
    (ht : r.status.terminal = true) : r'.status.terminal = true := by
  rw [SessionStatus.terminal_iff] at ht ⊢
  cases ha : r'.status.active with
  | false => rfl
  | true =>
      rw [h.active ha] at ht
      cases ht

variable {f : SessionRow → SessionRow} {hf : ∀ r, (f r).id = r.id}

/-- An update that lets each row advance keeps the seats. -/
theorem Seats.update {cap : ℕ} {sessions : Table SessionRow.id} {p : SessionRow → Bool} (h : Seats cap sessions)
    (hadv : ∀ r ∈ sessions, p r = true → r.Advance (f r)) :
    Seats cap (sessions.update p f hf) := by
  -- every new row comes from an old one with the same Mind item
  have hold : ∀ r ∈ sessions, ∀ x, (if p r then f r else r) = x →
      x.id = r.id ∧ x.mindId = r.mindId ∧ (x.status.active = true → r.status.active = true) ∧
        (x.completed = true → x.status.terminal = true) := by
    rintro r hr x rfl
    by_cases hp : p r = true
    · rw [if_pos hp]
      have ha := hadv r hr hp
      exact ⟨hf r, ha.mindId, ha.active, ha.completed⟩
    · rw [if_neg hp]
      exact ⟨rfl, rfl, fun ha => ha, h.completed r hr⟩
  refine ⟨?_, ?_, ?_⟩
  · intro x hx x' hx' hxa hxa' hm
    obtain ⟨r, hr, hrx⟩ := Table.mem_update.mp hx
    obtain ⟨r', hr', hrx'⟩ := Table.mem_update.mp hx'
    obtain ⟨hi, hmr, hra, _⟩ := hold r hr x hrx
    obtain ⟨hi', hmr', hra', _⟩ := hold r' hr' x' hrx'
    have hrr : r = r' := h.oneWorker r hr r' hr' (hra hxa) (hra' hxa') (by rw [← hmr, hm, hmr'])
    subst hrr
    exact hrx.symm.trans hrx'
  · have hle : ((sessions.update p f hf).select (·.status.active)).length ≤
        (sessions.select (·.status.active)).length := by
      show ((sessions.rows.map _).filter _).length ≤ (sessions.rows.filter _).length
      rw [← List.countP_eq_length_filter, ← List.countP_eq_length_filter, List.countP_map]
      apply List.countP_mono_left
      intro r hr hra
      exact (hold r hr _ rfl).2.2.1 hra
    exact hle.trans h.capacity
  · intro x hx
    obtain ⟨r, hr, hrx⟩ := Table.mem_update.mp hx
    exact (hold r hr x hrx).2.2.2

theorem Seats.insert {cap : ℕ} {sessions : Table SessionRow.id} {row : SessionRow}
    {fresh : ∀ x ∈ sessions, x.id ≠ row.id} (h : Seats cap sessions)
    (hcap : (sessions.select (·.status.active)).length < cap)
    (hmind : ∀ r ∈ sessions, r.status.active = true → r.mindId ≠ row.mindId)
    (hc : row.completed = false) : Seats cap (sessions.insert row fresh) := by
  refine ⟨?_, ?_, ?_⟩
  · intro r hr r' hr' ha ha' hm
    rcases Table.mem_insert.mp hr with hold | hnew
    · rcases Table.mem_insert.mp hr' with hold' | hnew'
      · exact h.oneWorker r hold r' hold' ha ha' hm
      · exact absurd (hm.trans (congrArg _ hnew')) (hmind r hold ha)
    · rcases Table.mem_insert.mp hr' with hold' | hnew'
      · exact absurd (hm.symm.trans (congrArg _ hnew)) (hmind r' hold' ha')
      · exact hnew.trans hnew'.symm
  · have hle : ((sessions.insert row fresh).select (·.status.active)).length ≤
        (sessions.select (·.status.active)).length + 1 := by
      show ((sessions.rows ++ [row]).filter _).length ≤ _
      rw [List.filter_append, List.length_append]
      exact Nat.add_le_add_left (List.length_filter_le _ _) _
    omega
  · intro r hr hrc
    rcases Table.mem_insert.mp hr with hr | rfl
    · exact h.completed r hr hrc
    · rw [hc] at hrc
      cases hrc

/-! ## The ledger -/

/-- What statements may do to valid rows. -/
structure Ledger (cap : ℕ) (may : String → Prop) (db db' : WorkerDb) : Prop where
  valid : db'.Valid cap
  session : ∀ r ∈ db.sessions, ∃ r' ∈ db'.sessions, r'.id = r.id ∧
    (r.status.terminal = true → r'.status.terminal = true) ∧
    (r.status = .finished → r'.status = .finished)
  frozen : ∀ id, (∃ m ∈ db.messages, m.isFinishOf id = true) → db'.mailbox id = db.mailbox id
  marks : ∀ r' ∈ db'.sessions, r'.completed = true →
    (∃ r ∈ db.sessions, r.id = r'.id ∧ r.completed = true) ∨ may r'.id

variable {cap : ℕ} {may : String → Prop} {db db' db'' : WorkerDb}

theorem Ledger.refl (h : db.Valid cap) : Ledger cap may db db where
  valid := h
  session r hr := ⟨r, hr, rfl, fun ht => ht, fun hf => hf⟩
  frozen _ _ := rfl
  marks r hr hc := Or.inl ⟨r, hr, rfl, hc⟩

theorem Ledger.trans (h : Ledger cap may db db') (h' : Ledger cap may db' db'') :
    Ledger cap may db db'' where
  valid := h'.valid
  session := by
    intro r hr
    obtain ⟨r₁, hr₁, hid₁, ht₁, hf₁⟩ := h.session r hr
    obtain ⟨r₂, hr₂, hid₂, ht₂, hf₂⟩ := h'.session r₁ hr₁
    exact ⟨r₂, hr₂, hid₂.trans hid₁, fun ht => ht₂ (ht₁ ht), fun hf => hf₂ (hf₁ hf)⟩
  frozen := by
    intro id hfin
    have hmid : db'.mailbox id = db.mailbox id := h.frozen id hfin
    have hfin' : ∃ m ∈ db'.messages, m.isFinishOf id = true := by
      rw [WorkerDb.finish_mem_mailbox, hmid, ← WorkerDb.finish_mem_mailbox]
      exact hfin
    rw [h'.frozen id hfin', hmid]
  marks := by
    intro r₂ hr₂ hc₂
    rcases h'.marks r₂ hr₂ hc₂ with ⟨r₁, hr₁, hid₁, hc₁⟩ | hmay
    · rcases h.marks r₁ hr₁ hc₁ with ⟨r, hr, hid, hc⟩ | hmay
      · exact Or.inl ⟨r, hr, hid.trans hid₁, hc⟩
      · exact Or.inr (hid₁ ▸ hmay)
    · exact Or.inr hmay

theorem Ledger.mono {may' : String → Prop} (hmay : ∀ id, may id → may' id)
    (h : Ledger cap may db db') : Ledger cap may' db db' where
  valid := h.valid
  session := h.session
  frozen := h.frozen
  marks r' hr' hc := (h.marks r' hr' hc).imp_right (hmay r'.id)

/-! ## One lemma for each kind of statement -/

/-- The rows a condition selects advance, none of them to or from `finished`. -/
theorem Ledger.update {p : SessionRow → Bool} (h : db.Valid cap)
    (hadv : ∀ r ∈ db.sessions, p r = true → r.Advance (f r))
    (hfin : ∀ r ∈ db.sessions, p r = true → (f r).status = .finished → r.status = .finished)
    (hmark : ∀ r ∈ db.sessions, p r = true → (f r).completed = true →
      r.completed = true ∨ may r.id) :
    Ledger cap may db { db with sessions := db.sessions.update p f hf } where
  valid := by
    have hseats : Seats cap (db.sessions.update p f hf) := h.seats.update hadv
    refine ⟨hseats, ?_, h.agrees.once⟩
    intro id
    refine (h.agrees.finished id).trans ?_
    constructor
    · rintro ⟨r, hr, hid, hs⟩
      have hmem : (if p r then f r else r) ∈ db.sessions.update p f hf :=
        Table.mem_update.mpr ⟨r, hr, rfl⟩
      refine ⟨_, hmem, ?_⟩
      by_cases hp : p r = true
      · rw [if_pos hp]
        exact ⟨(hf r).trans hid, (hadv r hr hp).finished hs⟩
      · rw [if_neg hp]
        exact ⟨hid, hs⟩
    · rintro ⟨x, hx, hid, hs⟩
      obtain ⟨r, hr, hrx⟩ := List.mem_map.mp hx
      subst hrx
      by_cases hp : p r = true
      · rw [if_pos hp] at hid hs
        exact ⟨r, hr, (hf r).symm.trans hid, hfin r hr hp hs⟩
      · rw [if_neg hp] at hid hs
        exact ⟨r, hr, hid, hs⟩
  session := by
    intro r hr
    have hmem : (if p r then f r else r) ∈ db.sessions.update p f hf :=
      Table.mem_update.mpr ⟨r, hr, rfl⟩
    refine ⟨_, hmem, ?_⟩
    by_cases hp : p r = true
    · rw [if_pos hp]
      exact ⟨hf r, (hadv r hr hp).terminal, (hadv r hr hp).finished⟩
    · rw [if_neg hp]
      exact ⟨rfl, fun ht => ht, fun hs => hs⟩
  frozen _ _ := rfl
  marks := by
    intro x hx hc
    obtain ⟨r, hr, hrx⟩ := List.mem_map.mp hx
    subst hrx
    by_cases hp : p r = true
    · rw [if_pos hp] at hc ⊢
      rcases hmark r hr hp hc with hrc | hmay
      · exact Or.inl ⟨r, hr, (hf r).symm, hrc⟩
      · exact Or.inr ((hf r).symm ▸ hmay)
    · rw [if_neg hp] at hc ⊢
      exact Or.inl ⟨r, hr, rfl, hc⟩

/-- A new session that spawns. -/
theorem Ledger.admission {row : SessionRow} {fresh : ∀ x ∈ db.sessions, x.id ≠ row.id}
    (h : db.Valid cap) (hcap : db.activeSessions.length < cap)
    (hmind : ∀ r ∈ db.activeSessions, r.mindId ≠ row.mindId) (hs : row.status = .spawning)
    (hc : row.completed = false) :
    Ledger cap may db { db with sessions := db.sessions.insert row fresh } := by
  have hmem : ∀ x, x ∈ db.sessions.insert row fresh ↔ x ∈ db.sessions ∨ x = row :=
    fun x => Table.mem_insert
  have hseats : Seats cap (db.sessions.insert row fresh) := by
    refine h.seats.insert hcap ?_ hc
    intro r hr ha
    exact hmind r (Table.mem_select.mpr ⟨hr, ha⟩)
  refine ⟨⟨hseats, ?_, h.agrees.once⟩, ?_, fun _ _ => rfl, ?_⟩
  · intro id
    refine (h.agrees.finished id).trans ?_
    constructor
    · rintro ⟨r, hr, hid⟩
      exact ⟨r, (hmem r).mpr (Or.inl hr), hid⟩
    · rintro ⟨r, hr, hid, hfin⟩
      rcases (hmem r).mp hr with hr | rfl
      · exact ⟨r, hr, hid, hfin⟩
      · rw [hs] at hfin
        cases hfin
  · intro r hr
    exact ⟨r, (hmem r).mpr (Or.inl hr), rfl, fun ht => ht, fun hf => hf⟩
  · intro r hr hrc
    rcases (hmem r).mp hr with hr | rfl
    · exact Or.inl ⟨r, hr, rfl, hrc⟩
    · rw [hc] at hrc
      cases hrc

section Messages
variable {sessionId key sender body : String} {direction : Direction} {kind : MailboxKind}
  {at' : Time}

theorem mem_addMessage {m : MessageRow} :
    m ∈ (db.addMessage sessionId direction kind key sender body at').messages ↔
      m ∈ db.messages ∨
        m = ⟨db.messages.next, sessionId, direction, kind, key, sender, body, at', none⟩ :=
  AutoTable.mem_push

theorem mailbox_addMessage {id : String} (hne : sessionId ≠ id) :
    (db.addMessage sessionId direction kind key sender body at').mailbox id = db.mailbox id := by
  show ((db.messages.rows ++ [_]).filter _).map _ = _
  rw [List.filter_append]
  simp [WorkerDb.mailbox, hne]

/-- A plain message for a session that has not finished. -/
theorem Ledger.post (h : db.Valid cap) (hnone : db.finishOf sessionId = none) :
    Ledger cap may db (db.addMessage sessionId direction .message key sender body at') where
  valid := by
    -- the new message is no finish, so the finish messages are the old ones
    have hsame : ∀ id m, m ∈ (db.addMessage sessionId direction .message key sender body
        at').messages ∧ m.isFinishOf id = true ↔ m ∈ db.messages ∧ m.isFinishOf id = true := by
      intro id m
      rw [mem_addMessage]
      constructor
      · rintro ⟨hm | rfl, hf⟩
        · exact ⟨hm, hf⟩
        · simp [MessageRow.isFinishOf] at hf
      · rintro ⟨hm, hf⟩
        exact ⟨Or.inl hm, hf⟩
    refine ⟨h.seats, ?_, ?_⟩
    · intro id
      simp only [hsame]
      exact h.agrees.finished id
    · intro id m hm m' hm' hf hf'
      exact h.agrees.once id m ((hsame id m).mp ⟨hm, hf⟩).1 m' ((hsame id m').mp ⟨hm', hf'⟩).1
        hf hf'
  session r hr := ⟨r, hr, rfl, fun ht => ht, fun hf => hf⟩
  frozen := by
    rintro id ⟨m, hm, hf⟩
    refine mailbox_addMessage ?_
    rintro rfl
    rw [WorkerDb.finishOf_eq_none.mp hnone m hm] at hf
    cases hf
  marks r hr hc := Or.inl ⟨r, hr, rfl, hc⟩

/-- The finish message and the status `finished`, for an active session. -/
theorem Ledger.finish {row : SessionRow}
    (h : db.Valid cap) (hnone : db.finishOf sessionId = none)
    (hrow : db.sessions.get? sessionId = some row) (hact : row.status.active = true)
    (hfin : ∀ r, (f r).status = .finished) (hmind : ∀ r, (f r).mindId = r.mindId)
    (hmark : ∀ r, (f r).completed = false) :
    Ledger cap may db ((db.addMessage sessionId .workerToDispatcher .finish key sender body
      at').setSession sessionId (·.status.active) f hf) := by
  obtain ⟨hrmem, hrid⟩ := Table.get?_eq_some.mp hrow
  have hupd : ∀ x, x ∈ ((db.addMessage sessionId .workerToDispatcher .finish key sender body
      at').setSession sessionId (·.status.active) f hf).sessions ↔
      ∃ r ∈ db.sessions,
        (if decide (r.id = sessionId) && r.status.active then f r else r) = x :=
    fun x => List.mem_map
  -- no finish message means that no row of this session was finished before
  have hold : ∀ r ∈ db.sessions, r.id = sessionId → r = row :=
    fun r hr hid => Table.eq_of_key hr hrmem (hid.trans hrid.symm)
  have hadv : ∀ r ∈ db.sessions, (decide (r.id = sessionId) && r.status.active) = true →
      r.Advance (f r) := by
    intro r hr hp
    rw [Bool.and_eq_true] at hp
    refine ⟨hmind r, fun _ => hp.2, fun _ => hfin r, ?_⟩
    intro hc
    rw [hmark r] at hc
    cases hc
  have hmsg : ∀ id, (∃ m ∈ (db.addMessage sessionId .workerToDispatcher .finish key sender body
      at').messages, m.isFinishOf id = true) ↔
      (∃ m ∈ db.messages, m.isFinishOf id = true) ∨ id = sessionId := by
    intro id
    simp only [mem_addMessage]
    constructor
    · rintro ⟨m, hm | rfl, hmf⟩
      · exact Or.inl ⟨m, hm, hmf⟩
      · simp only [MessageRow.isFinishOf, Bool.and_eq_true, decide_eq_true_eq] at hmf
        exact Or.inr hmf.1.1.symm
    · rintro (⟨m, hm, hmf⟩ | rfl)
      · exact ⟨m, Or.inl hm, hmf⟩
      · exact ⟨_, Or.inr rfl, by simp [MessageRow.isFinishOf]⟩
  have hseats : Seats cap (db.sessions.update
      (fun r => decide (r.id = sessionId) && r.status.active) f hf) := h.seats.update hadv
  refine ⟨⟨hseats, ?_, ?_⟩, ?_, ?_, ?_⟩
  · intro id
    refine (hmsg id).trans ?_
    rw [h.agrees.finished id]
    simp only [hupd]
    constructor
    · rintro (⟨r, hr, hid, hs⟩ | rfl)
      · refine ⟨r, ⟨r, hr, if_neg ?_⟩, hid, hs⟩
        rw [hs]
        simp [SessionStatus.active]
      · refine ⟨f row, ⟨row, hrmem, if_pos ?_⟩, (hf row).trans hrid, hfin row⟩
        simp [hrid, hact]
    · rintro ⟨x, ⟨r, hr, rfl⟩, hid, hs⟩
      by_cases hsid : id = sessionId
      · exact Or.inr hsid
      · have hne : r.id ≠ sessionId := by
          intro hrs
          apply hsid
          rw [← hid]
          split
          · rw [hf, hrs]
          · exact hrs
        rw [if_neg (by simp [hne])] at hid hs
        exact Or.inl ⟨r, hr, hid, hs⟩
  · intro id m hm m' hm' hmf hmf'
    rcases mem_addMessage.mp hm with hm | rfl
    · rcases mem_addMessage.mp hm' with hm' | rfl
      · exact h.agrees.once id m hm m' hm' hmf hmf'
      · simp only [MessageRow.isFinishOf, Bool.and_eq_true, decide_eq_true_eq] at hmf'
        rw [← hmf'.1.1, WorkerDb.finishOf_eq_none.mp hnone m hm] at hmf
        cases hmf
    · rcases mem_addMessage.mp hm' with hm' | rfl
      · simp only [MessageRow.isFinishOf, Bool.and_eq_true, decide_eq_true_eq] at hmf
        rw [← hmf.1.1, WorkerDb.finishOf_eq_none.mp hnone m' hm'] at hmf'
        cases hmf'
      · rfl
  · intro r hr
    refine ⟨_, (hupd _).mpr ⟨r, hr, rfl⟩, ?_⟩
    split
    · next hp => exact ⟨hf r, (hadv r hr hp).terminal, (hadv r hr hp).finished⟩
    · exact ⟨rfl, fun ht => ht, fun hs => hs⟩
  · rintro id ⟨m, hm, hmf⟩
    refine mailbox_addMessage ?_
    rintro rfl
    rw [WorkerDb.finishOf_eq_none.mp hnone m hm] at hmf
    cases hmf
  · intro x hx hc
    obtain ⟨r, hr, rfl⟩ := (hupd x).mp hx
    by_cases hp : (decide (r.id = sessionId) && r.status.active) = true
    · rw [if_pos hp, hmark r] at hc
      cases hc
    · rw [if_neg hp] at hc ⊢
      exact Or.inl ⟨r, hr, rfl, hc⟩

/-- Acknowledging changes nothing else about a message. -/
theorem Ledger.acknowledge {p : MessageRow → Bool} (h : db.Valid cap) :
    Ledger cap may db (db.setAcknowledged p at') := by
  have hmem : ∀ x, x ∈ (db.setAcknowledged p at').messages ↔ ∃ m ∈ db.messages,
      (if p m then { m with acknowledgedAt := some (m.acknowledgedAt.getD at') } else m) = x :=
    fun x => List.mem_map
  have hfin : ∀ (m : MessageRow) id,
      (if p m then { m with acknowledgedAt := some (m.acknowledgedAt.getD at') }
        else m).isFinishOf id = m.isFinishOf id := by
    intro m id
    split
    · rfl
    · rfl
  refine ⟨⟨h.seats, ?_, ?_⟩, ?_, ?_, ?_⟩
  · intro id
    refine Iff.trans ?_ (h.agrees.finished id)
    simp only [hmem]
    constructor
    · rintro ⟨_, ⟨m, hm, rfl⟩, hf⟩
      exact ⟨m, hm, (hfin m id).symm.trans hf⟩
    · rintro ⟨m, hm, hf⟩
      exact ⟨_, ⟨m, hm, rfl⟩, (hfin m id).trans hf⟩
  · intro id x hx x' hx' hf hf'
    obtain ⟨m, hm, rfl⟩ := (hmem x).mp hx
    obtain ⟨m', hm', rfl⟩ := (hmem x').mp hx'
    rw [hfin] at hf hf'
    rw [h.agrees.once id m hm m' hm' hf hf']
  · intro r hr
    exact ⟨r, hr, rfl, fun ht => ht, fun hf => hf⟩
  · intro id _
    show ((db.messages.rows.map _).filter _).map _ = (db.messages.rows.filter _).map _
    rw [List.filter_map, List.map_map]
    have hsel : ((fun m : MessageRow => decide (m.sessionId = id)) ∘ fun m : MessageRow =>
        if p m then { m with acknowledgedAt := some (m.acknowledgedAt.getD at') } else m) =
        fun m => decide (m.sessionId = id) := by
      funext m
      rw [Function.comp_apply]
      split
      · rfl
      · rfl
    rw [hsel]
    apply List.map_congr_left
    intro m _
    rw [Function.comp_apply]
    split
    · rfl
    · rfl
  · intro r hr hc
    exact Or.inl ⟨r, hr, rfl, hc⟩

end Messages

/-- Artifacts say nothing about sessions and messages. -/
theorem Ledger.artifact {artifacts : Table ArtifactRow.key} (h : db.Valid cap) :
    Ledger cap may db { db with artifacts := artifacts } where
  valid := ⟨h.seats, h.agrees.finished, h.agrees.once⟩
  session r hr := ⟨r, hr, rfl, fun ht => ht, fun hf => hf⟩
  frozen _ _ := rfl
  marks r hr hc := Or.inl ⟨r, hr, rfl, hc⟩

/-! ## The mailbox -/

/-- A method of the mailbox keeps the ledger and, when it throws, the rows. -/
structure Posts {α : Type} (m : MailboxM α) : Prop where
  wp : ∀ (cap : ℕ) (may : String → Prop) (db : WorkerDb), db.Valid cap →
    Tx.wp m (fun _ db' => Ledger cap may db db') (fun _ db' => db' = db) db

section Methods
variable {α β : Type}

theorem Posts.ok {m : MailboxM α} {a : α} {db' : WorkerDb} (hm : Posts m) (h : db.Valid cap)
    (hrun : m db = (.ok a, db')) : Ledger cap may db db' :=
  (Tx.wp_iff.mp (hm.wp cap may db h)).1 a db' hrun

theorem Posts.error {m : MailboxM α} {e : MailboxError} {db' : WorkerDb} (hm : Posts m)
    (h : db.Valid cap) (hrun : m db = (.error e, db')) : db' = db :=
  (Tx.wp_iff.mp (hm.wp cap (fun _ => False) db h)).2 e db' hrun

theorem posts_bind {m : MailboxM α} {f : α → MailboxM β} (hm : Tx.ReadOnly m)
    (hf : ∀ a, Posts (f a)) : Posts (m >>= f) := by
  constructor
  intro cap may db h
  rw [Tx.wp_bind, Tx.wp_iff]
  have hdb := hm db
  refine ⟨?_, ?_⟩
  · intro a db' hrun
    rw [hrun] at hdb
    subst hdb
    exact (hf a).wp cap may _ h
  · intro e db' hrun
    rw [hrun] at hdb
    exact hdb

theorem posts_readOnly {m : MailboxM α} (hm : Tx.ReadOnly m) : Posts m := by
  constructor
  intro cap may db h
  rw [Tx.wp_iff]
  have hdb := hm db
  refine ⟨?_, ?_⟩
  · intro a db' hrun
    rw [hrun] at hdb
    subst hdb
    exact Ledger.refl h
  · intro e db' hrun
    rw [hrun] at hdb
    exact hdb

theorem readOnly_boundedText (value label : String) (max : ℕ) :
    Tx.ReadOnly (boundedText value label max) := by
  unfold boundedText
  exact Tx.ReadOnly.bind (Tx.readOnly_ensure _ _) (fun _ => Tx.readOnly_ensure _ _)

theorem readOnly_messageKey (value : String) : Tx.ReadOnly (messageKey value) := by
  unfold messageKey
  exact Tx.ReadOnly.bind (readOnly_boundedText _ _ _) (fun _ => Tx.readOnly_ensure _ _)

theorem readOnly_boundedIds (value : List ℤ) : Tx.ReadOnly (boundedIds value) := by
  unfold boundedIds
  refine Tx.ReadOnly.bind (Tx.readOnly_ensure _ _) (fun _ => ?_)
  exact Tx.ReadOnly.bind (Tx.readOnly_ensure _ _) (fun _ => Tx.readOnly_pure _)

theorem readOnly_dispatcherSession (id : String) (activeOnly : Bool) :
    Tx.ReadOnly (dispatcherSession id activeOnly) := by
  unfold dispatcherSession
  exact Tx.ReadOnly.bind (Tx.readOnly_read _) (fun _ => Tx.readOnly_require _ _)

theorem readOnly_workerSession (sha : Sha256) (token : String) :
    Tx.ReadOnly (workerSession sha token) := by
  unfold workerSession
  exact Tx.ReadOnly.bind (Tx.readOnly_read _) (fun _ => Tx.readOnly_require _ _)

end Methods

section Insert
variable {sessionId key sender body : String} {direction : Direction} {kind : MailboxKind}
  {now : Time}

@[simp] theorem wp_insertMessage {Q : MessageRow → WorkerDb → Prop}
    {E : MailboxError → WorkerDb → Prop} :
    Tx.wp (insertMessage sessionId direction kind key sender body now) Q E db ↔
      (db.acceptsMessage sessionId direction kind key sender body = true →
        Q ⟨db.messages.next, sessionId, direction, kind, key, sender, body, now, none⟩
          (db.addMessage sessionId direction kind key sender body now)) ∧
      (¬db.acceptsMessage sessionId direction kind key sender body = true →
        E (.constraint "worker_mailbox_messages constraint failed") db) := by
  simp only [insertMessage, Tx.wp_bind, Tx.wp_read, Tx.wp_ensure, Tx.wp_write, Tx.wp_pure]

theorem posts_insert : Posts (insert sessionId direction .message key sender body now) := by
  constructor
  intro cap may db h
  simp only [insert, Tx.wp_bind, Tx.wp_read]
  cases db.existing sessionId direction key with
  | some prior =>
      simp only [Tx.wp_bind, Tx.wp_ensure, Tx.wp_pure]
      exact ⟨fun _ => Ledger.refl h, fun _ => trivial⟩
  | none =>
      simp only [Tx.wp_bind, Tx.wp_read, Tx.wp_ensure, Tx.wp_attempt, wp_insertMessage]
      refine ⟨?_, fun _ => trivial⟩
      intro hnone
      refine ⟨?_, fun _ => trivial⟩
      intro _
      refine ⟨fun _ => ?_, fun _ => ?_⟩
      · exact Tx.wp_pure.mpr (Ledger.post h hnone)
      · simp only [reduceCtorEq, if_false, Tx.wp_throw]

/-- The finish of a session: its message and its status in one transaction. -/
theorem posts_insertFinish (session : SessionRow) :
    Posts (insertFinish session key body now) := by
  constructor
  intro cap may db h
  simp only [insertFinish, insertFinishBody, Tx.wp_transaction, Tx.wp_bind, Tx.wp_read]
  cases hprior : db.existing session.id .workerToDispatcher key with
  | some prior =>
      simp only [Tx.wp_bind, Tx.wp_ensure, Tx.wp_write, Tx.wp_pure]
      refine ⟨?_, fun _ => trivial⟩
      intro hsame
      -- the stored message is the finish, so the row is finished already
      obtain ⟨hmem, hid, hdir, _⟩ := WorkerDb.existing_spec hprior
      simp only [MessageRow.same, Bool.and_eq_true, decide_eq_true_eq] at hsame
      have hfin : prior.isFinishOf session.id = true := by
        simp [MessageRow.isFinishOf, hid, hdir, hsame.1.1]
      obtain ⟨row, hrow, hrid, hrs⟩ := (h.agrees.finished session.id).mp ⟨prior, hmem, hfin⟩
      have hone : ∀ r ∈ db.sessions, r.id = session.id → r.status = .finished := by
        intro r hr hrid'
        rw [Table.eq_of_key hr hrow (hrid'.trans hrid.symm)]
        exact hrs
      refine Ledger.update h ?_ ?_ ?_
      · intro r hr hp
        have hs : r.status = .finished := hone r hr (by
          simp only [Bool.and_eq_true, decide_eq_true_eq] at hp
          exact hp.1)
        refine ⟨rfl, ?_, fun _ => rfl, fun _ => rfl⟩
        intro hact
        cases hact
      · intro r hr hp _
        simp only [Bool.and_eq_true, decide_eq_true_eq] at hp
        exact hone r hr hp.1
      · intro r hr _ hc
        exact Or.inl hc
  | none =>
      simp only [Tx.wp_bind, Tx.wp_read, Tx.wp_ensure, Tx.wp_require, wp_insertMessage,
        Tx.wp_write, Tx.wp_pure]
      refine ⟨?_, fun _ => trivial⟩
      intro hnone
      refine ⟨?_, fun _ => trivial⟩
      intro row hrow
      rw [Option.filter_eq_some_iff] at hrow
      refine ⟨?_, fun _ => trivial⟩
      intro _
      refine ⟨?_, fun _ => trivial⟩
      intro _
      refine ⟨?_, fun _ => trivial⟩
      intro _
      exact Ledger.finish h hnone hrow.1 hrow.2 (fun _ => rfl) (fun _ => rfl) (fun _ => rfl)

/-- A retry that finds nothing to repeat writes nothing. -/
theorem wp_terminalFinishRetry (sha : Sha256) (token : String) (may : String → Prop)
    (h : db.Valid cap) :
    Tx.wp (terminalFinishRetry sha token key body now)
      (fun retry db' => Ledger cap may db db' ∧ (retry = none → db' = db))
      (fun _ db' => db' = db) db := by
  simp only [terminalFinishRetry, Tx.wp_bind, Tx.wp_read]
  cases (db.sessionOfToken sha token).filter
      (fun r => decide (r.status = .finished) || decide (r.status = .failed)) with
  | none => exact Tx.wp_pure.mpr ⟨Ledger.refl h, fun _ => rfl⟩
  | some session =>
      simp only [Tx.wp_bind, Tx.wp_read, Tx.wp_ite, Tx.wp_pure]
      refine ⟨fun _ => ?_, fun _ => ⟨Ledger.refl h, fun _ => trivial⟩⟩
      refine Tx.wp_mono ?_ (fun _ _ he => he) ((posts_insertFinish session).wp cap may db h)
      intro message db' hl
      exact ⟨hl, fun hnone => by cases hnone⟩

theorem posts_acknowledge {ids : List ℤ} : Posts (acknowledge sessionId direction ids now) := by
  refine posts_bind (readOnly_boundedIds ids) ?_
  intro ids
  constructor
  intro cap may db h
  simp only [Tx.wp_transaction, Tx.wp_bind, Tx.wp_read, Tx.wp_ensure, Tx.wp_write, Tx.wp_pure]
  exact ⟨fun _ => Ledger.acknowledge h, fun _ => trivial⟩

theorem posts_sendToWorker : Posts (sendToWorker sessionId key body sender now) := by
  refine posts_bind (readOnly_dispatcherSession _ _) (fun session => ?_)
  refine posts_bind (readOnly_messageKey _) (fun _ => ?_)
  refine posts_bind (readOnly_boundedText _ _ _) (fun _ => ?_)
  exact posts_bind (readOnly_boundedText _ _ _) (fun _ => posts_insert)

theorem posts_postFromWorker (sha : Sha256) (token : String) :
    Posts (postFromWorker sha token key kind body now) := by
  refine posts_bind (Tx.readOnly_read _) (fun active => ?_)
  refine posts_bind (readOnly_messageKey _) (fun _ => ?_)
  refine posts_bind (readOnly_boundedText _ _ _) (fun _ => ?_)
  cases active with
  | some session =>
      cases kind with
      | message => exact posts_insert
      | finish => exact posts_insertFinish session
  | none =>
      cases kind with
      | message => exact posts_readOnly (Tx.readOnly_throw _)
      | finish =>
          constructor
          intro cap may db h
          simp only [Tx.wp_bind, Tx.wp_require]
          refine Tx.wp_mono ?_ (fun _ _ he => he) (wp_terminalFinishRetry sha token may h)
          intro retry db' hl
          exact ⟨fun _ _ => hl.1, hl.2⟩

theorem posts_acknowledgeForWorker (sha : Sha256) (token : String) (ids : List ℤ) :
    Posts (acknowledgeForWorker sha token ids now) :=
  posts_bind (readOnly_workerSession sha token) (fun _ => posts_acknowledge)

theorem posts_acknowledgeFromWorker (ids : List ℤ) :
    Posts (acknowledgeFromWorker sessionId ids now) :=
  posts_bind (readOnly_dispatcherSession _ _) (fun _ => posts_acknowledge)

end Insert

/-! ## The other stores -/

theorem Ledger.storeArtifact (h : db.Valid cap) (row : ArtifactRow) :
    Ledger cap may db (db.storeArtifact row) := by
  unfold WorkerDb.storeArtifact
  split
  · exact Ledger.artifact h
  · exact Ledger.refl h

theorem Ledger.deliver (h : db.Valid cap) (id : String) (now : Time) :
    Ledger cap may db (db.deliver id now) := by
  refine Ledger.update h ?_ (fun _ _ _ hs => hs) (fun _ _ _ hc => Or.inl hc)
  intro r hr _
  exact ⟨rfl, fun ha => ha, fun hs => hs, h.seats.completed r hr⟩

end Elpis.Worker
