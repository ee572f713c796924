import Elpis.Secretary.Conversation

/-!
# Every run of the secretary's conversations

Each call that returns moves turns ahead or appends one; each call that throws leaves the turns
alone. With the numbers of a session's turns in the order of the table, that gives the claims over
runs.
-/

namespace Elpis.Secretary

open Elpis.Js Elpis.Lib

/-! ## What a call may do to the turns -/

/-- What happens to one turn: nothing, or, while it is open, a step ahead. -/
inductive Advance (t : Turn) : Turn → Prop
  | same : Advance t t
  | moved (t' : Turn) (isOpen : t.status.active = true) (isAhead : t'.status ≠ .queued) (id : t'.id = t.id)
      (sessionId : t'.sessionId = t.sessionId) (sequence : t'.sequence = t.sequence)
      (request : t'.request = t.request) (lifecycle : t'.lifecycle = true)
      (response : t'.response = t.response ∨ ∃ r, t'.response = some r ∧ r.role = .assistant) : Advance t t'

namespace Advance

variable {t t' t'' : Turn}

theorem id_eq (h : Advance t t') : t'.id = t.id := by
  cases h with
  | same => rfl
  | moved _ isOpen isAhead id => exact id

theorem sessionId_eq (h : Advance t t') : t'.sessionId = t.sessionId := by
  cases h with
  | same => rfl
  | moved _ isOpen isAhead id sessionId => exact sessionId

theorem sequence_eq (h : Advance t t') : t'.sequence = t.sequence := by
  cases h with
  | same => rfl
  | moved _ isOpen isAhead id sessionId sequence => exact sequence

theorem active (h : Advance t t') (ht' : t'.status.active = true) : t.status.active = true := by
  cases h with
  | same => exact ht'
  | moved _ isOpen => exact isOpen

theorem queued (h : Advance t t') (ht' : t'.status = .queued) : t' = t := by
  cases h with
  | same => rfl
  | moved _ isOpen isAhead => exact absurd ht' isAhead

theorem of_closed (h : Advance t t') (ht : t.status.active = false) : t' = t := by
  cases h with
  | same => rfl
  | moved _ isOpen => rw [ht] at isOpen; cases isOpen

theorem trans (h : Advance t t') (h' : Advance t' t'') : Advance t t'' := by
  cases h' with
  | same => exact h
  | moved _ isOpen isAhead id sessionId sequence request lifecycle response =>
      cases h with
      | same => exact .moved t'' isOpen isAhead id sessionId sequence request lifecycle response
      | moved _ isOpen₁ isAhead₁ id₁ sessionId₁ sequence₁ request₁ lifecycle₁ response₁ =>
          refine .moved t'' isOpen₁ isAhead (id.trans id₁) (sessionId.trans sessionId₁) (sequence.trans sequence₁)
            (request.trans request₁) lifecycle ?_
          rcases response with h | h
          · rw [h]
            exact response₁
          · exact Or.inr h

end Advance

/-- Every turn has advanced, in its place. -/
def Moved (s s' : Store) : Prop :=
  ∃ g : Turn → Turn, (∀ t ∈ s.turns, Advance t (g t)) ∧ s'.turns.rows = s.turns.rows.map g

namespace Moved

variable {s s' s'' : Store} {t t' : Turn}

theorem of_turns (h : s'.turns = s.turns) : Moved s s' := by
  refine ⟨id, fun t _ => .same, ?_⟩
  rw [h, List.map_id]

theorem trans (h : Moved s s') (h' : Moved s' s'') : Moved s s'' := by
  obtain ⟨g, hg, hrows⟩ := h
  obtain ⟨g', hg', hrows'⟩ := h'
  refine ⟨g' ∘ g, ?_, ?_⟩
  · intro t ht
    refine (hg t ht).trans (hg' (g t) ?_)
    show g t ∈ s'.turns.rows
    rw [hrows]
    exact List.mem_map_of_mem ht
  · rw [hrows', hrows, List.map_map]

theorem mem (h : Moved s s') (ht' : t' ∈ s'.turns) : ∃ t ∈ s.turns, Advance t t' := by
  obtain ⟨g, hg, hrows⟩ := h
  have ht' : t' ∈ s'.turns.rows := ht'
  rw [hrows] at ht'
  obtain ⟨t, ht, rfl⟩ := List.mem_map.mp ht'
  exact ⟨t, ht, hg t ht⟩

theorem mem_of (h : Moved s s') (ht : t ∈ s.turns) : ∃ t' ∈ s'.turns, Advance t t' := by
  obtain ⟨g, hg, hrows⟩ := h
  refine ⟨g t, ?_, hg t ht⟩
  show g t ∈ s'.turns.rows
  rw [hrows]
  exact List.mem_map_of_mem ht

/-- The numbers of the turns of a session are as they were. -/
theorem sequences (h : Moved s s') (sessionId : String) :
    (s'.turnsOf sessionId).map Turn.sequence = (s.turnsOf sessionId).map Turn.sequence := by
  obtain ⟨g, hg, hrows⟩ := h
  unfold Store.turnsOf Table.select
  rw [hrows]
  have hg : ∀ t ∈ s.turns.rows, Advance t (g t) := hg
  generalize s.turns.rows = rows at hg
  induction rows with
  | nil => rfl
  | cons t rows ih =>
      have ht := hg t List.mem_cons_self
      have ih := ih (fun x hx => hg x (List.mem_cons_of_mem t hx))
      rw [List.map_cons, List.filter_cons, List.filter_cons, ht.sessionId_eq]
      split
      · rw [List.map_cons, List.map_cons, ih, ht.sequence_eq]
      · exact ih

end Moved

/-- A call that returns has moved the turns, or has put a new one behind them. -/
inductive Change (s s' : Store) : Prop
  | moved (moved : Moved s s')
  | enqueued (t : Turn) (pristine : t.pristine = true) (role : t.request.role = .user)
      (idle : ∀ x ∈ s.turns, x.sessionId = t.sessionId → x.status.active = false)
      (sequence : t.sequence = maxSequence (s.turnsOf t.sessionId) + 1)
      (rows : s'.turns.rows = s.turns.rows ++ [t])

/-! ## The invariant -/

structure Lawful (s : Store) : Prop where
  oneActive : ∀ t ∈ s.turns, ∀ t' ∈ s.turns, t.sessionId = t'.sessionId → t.status.active = true →
    t'.status.active = true → t = t'
  numbered : ∀ sessionId, (s.turnsOf sessionId).map Turn.sequence = List.range' 1 (s.turnsOf sessionId).length
  lifecycle : ∀ t ∈ s.turns, t.lifecycle = true
  request : ∀ t ∈ s.turns, t.request.role = .user
  response : ∀ t ∈ s.turns, ∀ r ∈ t.response, r.role = .assistant

theorem lawful_empty : Lawful Store.empty := by
  constructor
  case numbered => exact fun _ => rfl
  all_goals exact fun t ht => absurd ht Table.not_mem_empty

theorem Lawful.moved {s s' : Store} (h : Lawful s) (hmoved : Moved s s') : Lawful s' := by
  constructor
  case oneActive =>
    intro t ht t' ht' hsession hactive hactive'
    obtain ⟨x, hx, hadvance⟩ := hmoved.mem ht
    obtain ⟨x', hx', hadvance'⟩ := hmoved.mem ht'
    have hsame : x = x' := by
      refine h.oneActive x hx x' hx' ?_ (hadvance.active hactive) (hadvance'.active hactive')
      rw [← hadvance.sessionId_eq, ← hadvance'.sessionId_eq, hsession]
    subst hsame
    exact Table.eq_of_key ht ht' (hadvance.id_eq.trans hadvance'.id_eq.symm)
  case numbered =>
    intro sessionId
    have hlength := congrArg List.length (hmoved.sequences sessionId)
    rw [List.length_map, List.length_map] at hlength
    rw [hmoved.sequences, hlength]
    exact h.numbered sessionId
  case lifecycle =>
    intro t ht
    obtain ⟨x, hx, hadvance⟩ := hmoved.mem ht
    cases hadvance with
    | same => exact h.lifecycle t hx
    | moved _ isOpen isAhead id sessionId sequence request lifecycle => exact lifecycle
  case request =>
    intro t ht
    obtain ⟨x, hx, hadvance⟩ := hmoved.mem ht
    cases hadvance with
    | same => exact h.request t hx
    | moved _ isOpen isAhead id sessionId sequence request => exact request ▸ h.request x hx
  case response =>
    intro t ht r hr
    obtain ⟨x, hx, hadvance⟩ := hmoved.mem ht
    cases hadvance with
    | same => exact h.response t hx r hr
    | moved _ isOpen isAhead id sessionId sequence request lifecycle response =>
        rcases response with hsame | ⟨r', hr', hrole⟩
        · exact h.response x hx r (hsame ▸ hr)
        · rw [hr'] at hr
          cases hr
          exact hrole

/-- The highest of the numbers from one on is how many there are. -/
theorem maxSequence_of_numbered {turns : List Turn} :
    turns.map Turn.sequence = List.range' 1 turns.length → maxSequence turns = turns.length := by
  induction turns using List.reverseRecOn with
  | nil => exact fun _ => rfl
  | append_singleton turns t ih =>
      intro h
      rw [List.map_append, List.length_append, List.length_singleton, List.range'_concat,
        List.map_singleton] at h
      obtain ⟨hinit, hlast⟩ := List.append_inj h (by simp)
      have ih := ih hinit
      have hfold : ∀ (xs : List Turn), maxSequence (xs ++ [t]) = max (maxSequence xs) t.sequence := by
        intro xs
        induction xs with
        | nil => simp [maxSequence]
        | cons x xs ih => simpa [maxSequence, max_assoc] using congrArg (max x.sequence) ih
      rw [hfold, ih, List.length_append, List.length_singleton]
      simp at hlast
      omega

theorem Lawful.change {s s' : Store} (h : Lawful s) (hchange : Change s s') : Lawful s' := by
  cases hchange with
  | moved moved => exact h.moved moved
  | enqueued t pristine role idle sequence rows =>
      have hpristine : t.status = .queued ∧ t.response = none ∧ t.claimedAt = none ∧ t.completedAt = none ∧
          t.lastError = none := of_decide_eq_true pristine
      obtain ⟨hstatus, hresponse, hclaimed, hcompleted, herror⟩ := hpristine
      have hmem : ∀ x, x ∈ s'.turns ↔ x ∈ s.turns ∨ x = t := by
        intro x
        show x ∈ s'.turns.rows ↔ _
        rw [rows, List.mem_append, List.mem_singleton]
        exact Iff.rfl
      constructor
      case oneActive =>
        intro x hx x' hx' hsession hactive hactive'
        rcases (hmem x).mp hx with hx | rfl
        · rcases (hmem x').mp hx' with hx' | rfl
          · exact h.oneActive x hx x' hx' hsession hactive hactive'
          · rw [idle x hx hsession] at hactive
            cases hactive
        · rcases (hmem x').mp hx' with hx' | rfl
          · rw [idle x' hx' hsession.symm] at hactive'
            cases hactive'
          · rfl
      case numbered =>
        intro sessionId
        have hof : s'.turnsOf sessionId = s.turnsOf sessionId ++ if t.sessionId = sessionId then [t] else [] := by
          unfold Store.turnsOf Table.select
          rw [rows, List.filter_append]
          congr 1
          by_cases hsession : t.sessionId = sessionId <;> simp [hsession]
        rw [hof]
        by_cases hsession : t.sessionId = sessionId
        · subst hsession
          rw [if_pos rfl, List.map_append, List.length_append, List.length_singleton, List.range'_concat,
            h.numbered, List.map_singleton, sequence, maxSequence_of_numbered (h.numbered _)]
          simp [Nat.add_comm]
        · rw [if_neg hsession, List.append_nil]
          exact h.numbered sessionId
      case lifecycle =>
        intro x hx
        rcases (hmem x).mp hx with hx | rfl
        · exact h.lifecycle x hx
        · simp [Turn.lifecycle, hstatus, hresponse, hclaimed, hcompleted, herror]
      case request =>
        intro x hx
        rcases (hmem x).mp hx with hx | rfl
        · exact h.request x hx
        · exact role
      case response =>
        intro x hx r hr
        rcases (hmem x).mp hx with hx | rfl
        · exact h.response x hx r hr
        · rw [hresponse] at hr
          cases hr

/-! ## Statements -/

variable {E : Failure → Store → Prop}

section Statements

variable {α : Type} {s : Store} {p : Turn → Bool} {f : Turn → Turn} {hf : ∀ t, (f t).id = t.id}

theorem wp_transaction {m : Method α} {Q : α → Store → Prop} :
    Tx.wp (transaction m) Q E s ↔ Tx.wp m Q (fun e _ => E (caught e) s) s := by
  unfold transaction
  rw [Tx.wp_transaction, Tx.wp_mapError]

/-- An update of open turns that keeps what names them. -/
structure Steady (p : Turn → Bool) (f : Turn → Turn) : Prop where
  isOpen : ∀ t, p t = true → t.status.active = true
  isAhead : ∀ t, (f t).status ≠ .queued
  sessionId : ∀ t, (f t).sessionId = t.sessionId
  sequence : ∀ t, (f t).sequence = t.sequence
  request : ∀ t, (f t).request = t.request
  response : ∀ t, (f t).response = t.response ∨ ∃ r, (f t).response = some r ∧ r.role = .assistant

theorem wp_updateTurns {Q : ℕ → Store → Prop} (hsteady : Steady p f)
    (hQ : ∀ n, Moved s { s with turns := s.turns.update p f hf } →
      Q n { s with turns := s.turns.update p f hf }) (hE : ∀ e, E e s) :
    Tx.wp (updateTurns p f hf) Q E s := by
  unfold updateTurns
  simp only [Tx.wp_bind, Tx.wp_read, Tx.wp_ensure, Tx.wp_write, Tx.wp_pure]
  refine ⟨fun _ => ⟨fun hlifecycle => ⟨fun _ => ?_, fun _ => hE _⟩, fun _ => hE _⟩, fun _ => hE _⟩
  refine hQ _ ⟨fun t => if p t then f t else t, ?_, rfl⟩
  intro t ht
  show Advance t (if p t then f t else t)
  split
  · rename_i hp
    exact .moved _ (hsteady.isOpen t hp) (hsteady.isAhead t) (hf t) (hsteady.sessionId t) (hsteady.sequence t)
      (hsteady.request t) (hlifecycle t (Table.mem_select.mpr ⟨ht, hp⟩)) (hsteady.response t)
  · exact .same

theorem steady_settled {status : TurnStatus} {updatedAt : Turn → ℤ} {reason : String} (hstatus : status ≠ .queued)
    (hp : ∀ t, p t = true → t.status.active = true) : Steady p (Turn.settled status updatedAt reason) where
  isOpen := hp
  isAhead _ := hstatus
  sessionId _ := rfl
  sequence _ := rfl
  request _ := rfl
  response _ := Or.inl rfl

theorem steady_complete {now : ℤ} {response : Message} {turnId sessionId : String}
    (hrole : response.role = .assistant) :
    Steady (fun t => decide (t.id = turnId ∧ t.sessionId = sessionId ∧ t.status = .claimed))
      (Turn.complete now response) where
  isOpen t ht := by
    rw [(of_decide_eq_true ht).2.2]
    rfl
  isAhead _ h := by cases h
  sessionId _ := rfl
  sequence _ := rfl
  request _ := rfl
  response _ := Or.inr ⟨response, rfl, hrole⟩

theorem steady_claim {now : ℤ} {turnId sessionId : String} :
    Steady (fun t => decide (t.id = turnId ∧ t.sessionId = sessionId ∧ t.status = .queued)) (Turn.claim now) where
  isOpen t ht := by
    rw [(of_decide_eq_true ht).2.2]
    rfl
  isAhead _ h := by cases h
  sessionId _ := rfl
  sequence _ := rfl
  request _ := rfl
  response _ := Or.inl rfl

theorem active_of_eq {c : Prop} [Decidable c] {t : Turn} {status : TurnStatus} (hstatus : status.active = true)
    (h : decide (c ∧ t.status = status) = true) : t.status.active = true := by
  rw [(of_decide_eq_true h).2]
  exact hstatus

theorem readOnly_validateSessionId (sessionId : String) : Tx.ReadOnly (validateSessionId sessionId) :=
  Tx.readOnly_ensure _ _

theorem readOnly_time (now : Js.Num) : Tx.ReadOnly (time now) :=
  (Tx.readOnly_require _ _).bind (fun _ => (Tx.readOnly_ensure _ _).bind (fun _ => Tx.readOnly_pure _))

theorem readOnly_requireReadySession (sessionId : String) : Tx.ReadOnly (requireReadySession sessionId) :=
  (Tx.readOnly_read _).bind (fun _ => (Tx.readOnly_require _ _).bind (fun _ => Tx.readOnly_ensure _ _))

end Statements

/-! ## Checks -/

theorem Role.name_inj {r r' : Role} (h : r.name = r'.name) : r = r' := by
  cases r <;> cases r' <;> first | rfl | exact absurd h (by decide)

/-- What passes the check of a message passes it again. -/
theorem message_ok {value : ChatMessage} {role : Role} {m : Message} (h : message value role = .ok m) :
    m.role = role ∧ message (.of m) role = .ok m := by
  unfold message at h
  cases hcontent : value.content with
  | none =>
      rw [hcontent] at h
      cases h
  | some content =>
      rw [hcontent] at h
      simp only at h
      split at h
      · cases h
      · rename_i hshape
        split at h
        · cases h
        · rename_i hsize
          cases h
          refine ⟨rfl, ?_⟩
          push Not at hshape
          simp [message, ChatMessage.of, hshape.2.2, hsize]

/-- A message that is read back is the one in the table. -/
theorem message_of {m m' : Message} {role : Role} (h : message (.of m) role = .ok m') : m' = m := by
  unfold message ChatMessage.of at h
  simp only at h
  split at h
  · cases h
  · rename_i hshape
    split at h
    · cases h
    · cases h
      push Not at hshape
      have hrole : m.role = role := Role.name_inj hshape.2.1
      subst hrole
      rfl

theorem rowTurn_ok {t t' : Turn} (h : rowTurn t = .ok t') : t' = t := by
  unfold rowTurn at h
  split at h
  · cases h
  · split at h
    · cases h
    · split at h
      · cases h
      · rcases hrequest : message (.of t.request) .user with e | request
        · rw [hrequest] at h
          cases h
        · rw [hrequest] at h
          have hsame := message_of hrequest
          rcases hresponse : t.response with _ | response
          · simp only [hresponse] at h
            cases h
            rw [hsame, ← hresponse]
          · simp only [hresponse] at h
            rcases hanswer : message (.of response) .assistant with e | answer
            · rw [hanswer] at h
              cases h
            · rw [hanswer] at h
              cases h
              rw [hsame, message_of hanswer, ← hresponse]

theorem freshTurnId_ok {s : Store} {id : String} : ∀ {n : ℕ} {candidates : List String},
    freshTurnId s n candidates = .ok id → isSecretaryTurnId id = true ∧ s.turns.get? id = none
  | 0, _, h => by cases h
  | n + 1, [], h => by cases h
  | n + 1, candidate :: candidates, h => by
      unfold freshTurnId at h
      split at h
      · cases h
      · rename_i hcanonical
        split at h
        · rename_i hfree
          cases h
          exact ⟨by simpa using hcanonical, hfree⟩
        · exact freshTurnId_ok h

theorem time_ok {now : Js.Num} {s s' : Store} {value : ℤ} (h : time now s = (.ok value, s')) :
    isSafe value = true := by
  simp only [time, Tx.bind_ok, Tx.require_ok, Tx.ensure_ok, Tx.pure_ok] at h
  obtain ⟨v, _, ⟨-, rfl⟩, _, _, ⟨hsafe, rfl⟩, rfl, -⟩ := h
  exact hsafe

/-! ## Calls -/

section Calls

variable {s : Store}

theorem rowTurn_pristine {t : Turn} (hid : isSecretaryTurnId t.id = true)
    (hsession : isSecretarySessionId t.sessionId = true) (hsequence : 1 ≤ t.sequence ∧ isSafe t.sequence = true)
    (hcreated : isSafe t.createdAt = true) (hupdated : isSafe t.updatedAt = true) (hpristine : t.pristine = true)
    (hrequest : message (.of t.request) .user = .ok t.request) : rowTurn t = .ok t := by
  obtain ⟨-, hresponse, hclaimed, hcompleted, -⟩ : t.status = .queued ∧ t.response = none ∧ t.claimedAt = none ∧
    t.completedAt = none ∧ t.lastError = none := of_decide_eq_true hpristine
  unfold rowTurn
  rw [if_neg (by simp [hid]), if_neg (by simp [hsession]), if_neg]
  · rw [hrequest]
    simp only [hresponse]
    show Except.ok { t with response := none } = _
    rw [← hresponse]
  · rw [hclaimed, hcompleted]
    simp [hsequence.2, hcreated, hupdated]
    omega

theorem wp_enqueue (h : Lawful s) (now : Js.Num) (candidates : List String) (sessionId : String)
    (request : ChatMessage) :
    Tx.wp (enqueue now candidates sessionId request) (fun _ s' => Change s s') (fun _ s' => s' = s) s := by
  unfold enqueue
  rw [Tx.wp_bind]
  refine Tx.wp_readOnly (readOnly_validateSessionId sessionId) ?_ (fun _ => rfl)
  intro _ hsession
  have hsession : isSecretarySessionId sessionId = true := (Tx.ensure_ok.mp hsession).1
  rw [Tx.wp_bind, Tx.wp_ofExcept]
  refine ⟨?_, fun _ _ => rfl⟩
  intro canonical hcanonical
  rw [Tx.wp_bind]
  refine Tx.wp_readOnly (readOnly_time now) ?_ (fun _ => rfl)
  intro value htime
  have hsafe := time_ok htime
  rw [Tx.wp_bind, wp_transaction, Tx.wp_bind]
  refine Tx.wp_readOnly (readOnly_requireReadySession sessionId) ?_ (fun _ => rfl)
  intro _ _
  simp only [insertTurn, Tx.wp_bind, Tx.wp_read, Tx.wp_ensure, Tx.wp_ofExcept, Tx.wp_write, Tx.wp_pure, id_eq]
  refine ⟨fun hroom => ⟨fun hidle => ⟨?_, fun _ _ => trivial⟩, fun _ => trivial⟩, fun _ => trivial⟩
  intro turnId hturnId
  obtain ⟨hcanonicalId, hfree⟩ := freshTurnId_ok hturnId
  refine ⟨fun hpristine => ⟨fun _ => ⟨fun _ => ⟨fun _ => ⟨fun _ => ⟨fun _ => ?_, fun _ => trivial⟩,
    fun _ => trivial⟩, fun _ => trivial⟩, fun _ => trivial⟩, fun _ => trivial⟩, fun _ => trivial⟩
  obtain ⟨hrole, hagain⟩ := message_ok hcanonical
  have hmax := maxSequence_of_numbered (h.numbered sessionId)
  -- The turn is there and reads back, so the call does not throw behind the commit.
  unfold status
  rw [Tx.wp_bind, Tx.wp_ensure]
  refine ⟨fun _ => ?_, fun hnot => absurd hcanonicalId hnot⟩
  rw [Tx.wp_bind, Tx.wp_read, Tx.wp_bind, Tx.wp_require]
  have hget : ∀ t : Turn, t.id = turnId → (s.turns.put t).get? turnId = some t := by
    intro t ht
    rw [Table.get?_put, if_pos ht.symm]
  refine ⟨?_, fun hnone => ?_⟩
  · intro row hrow
    rw [id_eq, hget _ rfl] at hrow
    cases hrow
    rw [Tx.wp_ofExcept]
    have hreads := rowTurn_pristine (t := ⟨turnId, sessionId, maxSequence (s.turnsOf sessionId) + 1, .queued, canonical,
      none, value, value, none, none, none⟩) hcanonicalId hsession
      ⟨by simp, by unfold maxConversationTurns at hroom; simp [isSafe]; omega⟩ hsafe hsafe hpristine hagain
    refine ⟨fun _ _ => ?_, fun e he => ?_⟩
    · refine .enqueued _ hpristine hrole ?_ rfl ?_
      · intro x hx hsame
        exact hidle x (Table.mem_select.mpr ⟨hx, decide_eq_true hsame⟩)
      · exact Table.rows_put_of_none hfree
    · rw [hreads] at he
      cases he
  · rw [id_eq, hget _ rfl] at hnone
    cases hnone

theorem wp_recoverClaimed (now : Js.Num) :
    Tx.wp (recoverClaimed now) (fun _ s' => Change s s') (fun _ s' => s' = s) s := by
  unfold recoverClaimed
  rw [Tx.wp_bind]
  refine Tx.wp_readOnly (readOnly_time now) ?_ (fun _ => rfl)
  intro value _
  refine wp_updateTurns (steady_settled (by decide) ?_) (fun _ hmoved => .moved hmoved) (fun _ => rfl)
  intro t ht
  rw [of_decide_eq_true ht]
  rfl

/-- Both statements that settle the turns of a session. -/
theorem wp_settle {sessionId reason : String} {updatedAt : Turn → ℤ} {Q : ℕ → ℕ → Store → Prop} (hQ : ∀ n m s', s'.sessions = s.sessions → Moved s s' → Q n m s')
    (hE : ∀ e s', E e s') :
    Tx.wp (updateTurns (fun t => decide (t.sessionId = sessionId ∧ t.status = .queued))
        (Turn.settled .cancelled updatedAt reason) (Turn.settled_id _ _ _))
      (fun n s' => Tx.wp (updateTurns (fun t => decide (t.sessionId = sessionId ∧ t.status = .claimed))
        (Turn.settled .ambiguous updatedAt reason) (Turn.settled_id _ _ _)) (fun m s'' => Q n m s'') E s') E s := by
  refine wp_updateTurns (steady_settled (by decide) (fun _ => active_of_eq rfl)) ?_ (fun e => hE e s)
  intro n hmoved
  refine wp_updateTurns (steady_settled (by decide) (fun _ => active_of_eq rfl)) ?_ (fun e => hE e _)
  exact fun m hmoved' => hQ n m _ rfl (hmoved.trans hmoved')

theorem wp_settleSession (now : Js.Num) (sessionId reason : String) :
    Tx.wp (settleSession now sessionId reason) (fun _ s' => Change s s') (fun _ s' => s' = s) s := by
  unfold settleSession
  rw [Tx.wp_bind]
  refine Tx.wp_readOnly (readOnly_validateSessionId sessionId) ?_ (fun _ => rfl)
  intro _ _
  rw [Tx.wp_bind, Tx.wp_ensure]
  refine ⟨fun _ => ?_, fun _ => rfl⟩
  rw [Tx.wp_bind]
  refine Tx.wp_readOnly (readOnly_time now) ?_ (fun _ => rfl)
  intro value _
  rw [wp_transaction, Tx.wp_bind]
  simp only [Tx.wp_bind, Tx.wp_pure]
  exact wp_settle (fun _ _ s' _ hmoved => .moved hmoved) (fun _ _ => trivial)

theorem wp_complete (now : Js.Num) (sessionId turnId : String) (response : ChatMessage) :
    Tx.wp (complete now sessionId turnId response) (fun _ s' => Change s s') (fun _ s' => s' = s) s := by
  unfold complete
  rw [Tx.wp_bind]
  refine Tx.wp_readOnly (readOnly_validateSessionId sessionId) ?_ (fun _ => rfl)
  intro _ _
  rw [Tx.wp_bind, Tx.wp_ensure]
  refine ⟨fun _ => ?_, fun _ => rfl⟩
  rw [Tx.wp_bind, Tx.wp_ofExcept]
  refine ⟨?_, fun _ _ => rfl⟩
  intro canonical hcanonical
  rw [Tx.wp_bind]
  refine Tx.wp_readOnly (readOnly_time now) ?_ (fun _ => rfl)
  intro value _
  rw [wp_transaction, Tx.wp_bind]
  refine Tx.wp_readOnly (readOnly_requireReadySession sessionId) ?_ (fun _ => rfl)
  intro _ _
  simp only [Tx.wp_bind, Tx.wp_read, Tx.wp_require, Tx.wp_ofExcept, Tx.wp_ite, Tx.wp_ensure, Tx.wp_pure]
  refine ⟨fun row _ => ⟨fun current _ => ⟨fun _ => ⟨fun _ => .moved (.of_turns rfl), fun _ => trivial⟩,
    fun _ => ⟨fun _ => ?_, fun _ => trivial⟩⟩, fun _ _ => trivial⟩, fun _ => trivial⟩
  refine wp_updateTurns (steady_complete (message_ok hcanonical).1) ?_ (fun _ => trivial)
  exact fun n hmoved => ⟨fun _ => ⟨fun row _ => ⟨fun _ _ => .moved hmoved, fun _ _ => trivial⟩, fun _ => trivial⟩,
    fun _ => trivial⟩

theorem wp_updateSession (sessionId : String) (from_ : SessionStatus → Bool) (f : Session → Session) :
    Tx.wp (updateSession sessionId from_ f) (fun _ s' => Change s s') (fun _ s' => s' = s) s := by
  unfold updateSession
  rw [Tx.wp_transaction, Tx.wp_bind, Tx.wp_read]
  split
  · exact Tx.wp_pure.mpr (.moved (.of_turns rfl))
  · rename_i old hold
    simp only [settleTurns, Tx.wp_bind, Tx.wp_ensure, Tx.wp_when, Tx.wp_write, Tx.wp_pure]
    refine ⟨fun _ => ⟨fun _ => ?_, fun _ => ⟨fun _ => .moved (.of_turns rfl), fun _ => trivial⟩⟩, fun _ => trivial⟩
    refine wp_settle (fun _ _ s' _ hmoved => ?_) (fun _ _ => trivial)
    exact ⟨fun _ => .moved (hmoved.trans (.of_turns rfl)), fun _ => trivial⟩

end Calls

/-! ## The transcript of a claim -/

section Transcript

variable {s s' : Store}

/-- The completed turns of a session before this number, in order. -/
def Store.completedBefore (s : Store) (sessionId : String) (sequence : ℕ) : List Turn :=
  (s.turns.select (fun t => decide (t.sessionId = sessionId ∧ t.status = .completed ∧
    t.sequence < sequence))).insertionSort (fun t t' => t.sequence ≤ t'.sequence)

theorem mem_completedBefore {sessionId : String} {sequence : ℕ} {t : Turn} :
    t ∈ s.completedBefore sessionId sequence ↔
      t ∈ s.turns ∧ t.sessionId = sessionId ∧ t.status = .completed ∧ t.sequence < sequence := by
  unfold Store.completedBefore
  rw [List.mem_insertionSort, Table.mem_select, decide_eq_true_iff]

/-- Turns of one session in the order of their numbers. -/
theorem Lawful.pairwise_sorted (h : Lawful s) (sessionId : String) {p : Turn → Bool}
    (hp : ∀ t, p t = true → t.sessionId = sessionId) :
    ((s.turns.select p).insertionSort (fun t t' => t.sequence ≤ t'.sequence)).Pairwise
      (fun t t' => t.sequence < t'.sequence) := by
  have : Std.Total (fun t t' : Turn => t.sequence ≤ t'.sequence) := ⟨fun t t' => le_total t.sequence t'.sequence⟩
  have : IsTrans Turn (fun t t' : Turn => t.sequence ≤ t'.sequence) := ⟨fun _ _ _ => le_trans⟩
  have hle := List.pairwise_insertionSort (fun t t' : Turn => t.sequence ≤ t'.sequence) (s.turns.select p)
  have hperm := (List.perm_insertionSort (fun t t' : Turn => t.sequence ≤ t'.sequence) (s.turns.select p)).map
    Turn.sequence
  have hnodup : ((s.turns.select p).map Turn.sequence).Nodup := by
    have hall : ((s.turnsOf sessionId).map Turn.sequence).Nodup := by
      rw [h.numbered]
      exact List.nodup_range'
    have hsub : (s.turns.select p).Sublist (s.turnsOf sessionId) := by
      unfold Store.turnsOf Table.select
      refine List.monotone_filter_right _ ?_
      intro t ht
      exact decide_eq_true (hp t ht)
    exact hall.sublist (hsub.map Turn.sequence)
  have hne := List.pairwise_map.mp (hperm.nodup_iff.mpr hnodup)
  exact (hle.and hne).imp (fun h => lt_of_le_of_ne h.1 h.2)

/-- The claimed turn comes last in its transcript. -/
theorem Lawful.transcript_eq (h : Lawful s) (queued : Turn) {t : Turn} (ht : t ∈ s.turns) (hid : queued.id = t.id)
    (hsequence : queued.sequence = t.sequence) (hstatus : t.status ≠ .completed) :
    transcript s t.sessionId queued = s.completedBefore t.sessionId t.sequence ++ [t] := by
  refine eq_of_pairwise_lt Turn.sequence (h.pairwise_sorted t.sessionId ?_) ?_ ?_
  · exact fun x hx => (of_decide_eq_true hx).1
  · rw [List.pairwise_append]
    refine ⟨h.pairwise_sorted t.sessionId (fun x hx => (of_decide_eq_true hx).1),
      List.pairwise_singleton _ _, ?_⟩
    intro x hx y hy
    rw [List.mem_singleton] at hy
    subst hy
    exact (mem_completedBefore.mp hx).2.2.2
  · intro x
    unfold transcript
    rw [List.mem_insertionSort, Table.mem_select, decide_eq_true_iff, List.mem_append, List.mem_singleton,
      mem_completedBefore, hid, hsequence]
    constructor
    · rintro ⟨hx, hsession, hle, hcompleted | hsame⟩
      · refine Or.inl ⟨hx, hsession, hcompleted, lt_of_le_of_ne hle ?_⟩
        -- Two turns of a session do not share a number.
        intro heq
        have hinj := List.inj_on_of_nodup_map (f := Turn.sequence) (l := s.turnsOf t.sessionId)
          (by rw [h.numbered]; exact List.nodup_range')
          (Table.mem_select.mpr ⟨hx, decide_eq_true hsession⟩) (Table.mem_select.mpr ⟨ht, decide_eq_true rfl⟩) heq
        exact hstatus (hinj ▸ hcompleted)
      · exact Or.inr (Table.eq_of_key hx ht hsame)
    · rintro (⟨hx, hsession, hcompleted, hlt⟩ | rfl)
      · exact ⟨hx, hsession, hlt.le, Or.inl hcompleted⟩
      · exact ⟨ht, rfl, le_rfl, Or.inr rfl⟩

/-- The messages a completed turn stands for in a transcript. -/
def Turn.exchanged (t : Turn) : List Message := t.request :: t.response.toList

/-- What a claim hands out. -/
structure Handed (s s' : Store) (k : TurnClaim) : Prop where
  queued : ∃ t ∈ s.turns, t.id = k.turn.id ∧ t.status = .queued
  claimed : k.turn ∈ s'.turns ∧ k.turn.status = .claimed
  messages : k.messages = (s'.completedBefore k.turn.sessionId k.turn.sequence).flatMap Turn.exchanged ++
    [k.turn.request]

theorem mapM_ok_map {α β ε : Type} {f : α → Except ε β} {g : α → β} :
    ∀ {xs : List α} {ys : List β}, (∀ x ∈ xs, ∀ y, f x = .ok y → y = g x) → xs.mapM f = .ok ys → ys = xs.map g
  | [], _, _, h => by
      rw [List.mapM_nil] at h
      cases h
      rfl
  | x :: xs, _, hf, h => by
      rw [List.mapM_cons] at h
      rcases hx : f x with e | y
      · rw [hx] at h
        cases h
      · rw [hx] at h
        rcases hxs : xs.mapM f with e | ys
        · rw [hxs] at h
          cases h
        · rw [hxs] at h
          cases h
          rw [List.map_cons, hf x List.mem_cons_self y hx,
            mapM_ok_map (fun x' hx' => hf x' (List.mem_cons_of_mem x hx')) hxs]

theorem exchange_completed {t : Turn} {ms : List Message} (h : t.status = .completed) (hms : exchange t = .ok ms) :
    ms = t.exchanged := by
  unfold exchange at hms
  rw [if_pos h] at hms
  unfold Turn.exchanged
  cases hresponse : t.response with
  | none =>
      rw [hresponse] at hms
      cases hms
  | some response =>
      rw [hresponse] at hms
      cases hms
      rfl

theorem exchange_open {t : Turn} (h : t.status ≠ .completed) : exchange t = .ok [t.request] := if_neg h

theorem mem_first {turns : List Turn} {t : Turn} (h : first turns = some t) : t ∈ turns :=
  (List.mem_insertionSort _).mp (List.mem_of_mem_head? (Option.mem_def.mpr h))

theorem wp_claim (h : Lawful s) (now : Js.Num) (sessionId : String) :
    Tx.wp (claim now sessionId)
      (fun r s' => Change s s' ∧ ∀ k ∈ r, k.turn.sessionId = sessionId ∧ Handed s s' k) (fun _ s' => s' = s) s := by
  unfold claim
  rw [Tx.wp_bind]
  refine Tx.wp_readOnly (readOnly_validateSessionId sessionId) ?_ (fun _ => rfl)
  intro _ _
  rw [Tx.wp_bind]
  refine Tx.wp_readOnly (readOnly_time now) ?_ (fun _ => rfl)
  intro value _
  rw [wp_transaction, Tx.wp_bind]
  refine Tx.wp_readOnly (readOnly_requireReadySession sessionId) ?_ (fun _ => rfl)
  intro _ _
  rw [Tx.wp_bind, Tx.wp_read, id_eq]
  split
  · exact Tx.wp_pure.mpr ⟨.moved (.of_turns rfl), fun k hk => by cases hk⟩
  · rename_i row hrow
    obtain ⟨hof, hqueued⟩ := List.mem_filter.mp (mem_first hrow)
    obtain ⟨hrow, hsession⟩ := Table.mem_select.mp hof
    have hsession : row.sessionId = sessionId := of_decide_eq_true hsession
    have hqueued : row.status = .queued := of_decide_eq_true hqueued
    rw [Tx.wp_bind, Tx.wp_ofExcept]
    refine ⟨?_, fun _ _ => rfl⟩
    intro queued hread
    obtain rfl := rowTurn_ok hread
    rw [Tx.wp_bind]
    refine wp_updateTurns steady_claim ?_ (fun _ => rfl)
    intro n hmoved
    simp only [Tx.wp_bind, Tx.wp_read, Tx.wp_require, Tx.wp_ofExcept, Tx.wp_ensure, Tx.wp_pure, id_eq]
    refine ⟨fun _ => ⟨fun entries hentries => ⟨fun messages hmessages => ⟨fun claimed hclaimed =>
      ⟨fun turn hturn => ⟨.moved hmoved, ?_⟩, fun _ _ => trivial⟩, fun _ => trivial⟩, fun _ _ => trivial⟩,
      fun _ _ => trivial⟩, fun _ => trivial⟩
    obtain rfl := rowTurn_ok hturn
    -- The row that is read back is the one that was claimed.
    have hturn : turn = queued.claim value := by
      rw [Table.get?_update, Table.get?_key hrow, Option.map_some, if_pos (by simp [hsession, hqueued])] at hclaimed
      exact (Option.some.inj hclaimed).symm
    have hin := Table.mem_of_get? hclaimed
    have hlawful := h.moved hmoved
    rintro k ⟨rfl⟩
    refine ⟨by rw [hturn]; exact hsession, ⟨queued, hrow, by rw [hturn]; rfl, hqueued⟩, ⟨hin, by rw [hturn]; rfl⟩, ?_⟩
    have hentries := mapM_ok_map (g := id) (fun t _ t' ht' => rowTurn_ok ht') hentries
    have htranscript := hlawful.transcript_eq queued hin (by rw [hturn]; rfl) (by rw [hturn]; rfl)
      (by rw [hturn]; exact fun h => by cases h)
    have hsame : turn.sessionId = sessionId := by
      rw [hturn]
      exact hsession
    rw [hsame] at htranscript
    rw [htranscript, List.map_id] at hentries
    subst hentries
    have hmessages := mapM_ok_map (g := fun t => if t.status = .completed then t.exchanged else [t.request]) (by
      intro t _ ms hms
      split
      · exact exchange_completed ‹_› hms
      · rw [exchange_open ‹_›] at hms
        cases hms
        rfl) hmessages
    have hcompleted : ∀ s : Store, ∀ t ∈ s.completedBefore sessionId turn.sequence,
        (if t.status = .completed then t.exchanged else [t.request]) = t.exchanged :=
      fun _ t ht => if_pos (mem_completedBefore.mp ht).2.2.1
    show messages.flatten = _
    rw [hsame]
    rw [hmessages, List.map_append, List.flatten_append, List.map_congr_left (hcompleted _), ← List.flatMap_def]
    congr 1
    rw [List.map_singleton, if_neg (by rw [hturn]; exact fun h => by cases h)]
    rfl

def Role.other : Role → Role
  | .user => .assistant
  | .assistant => .user

/-- The roles take turns, from this one on. -/
def Alternating : Role → List Message → Prop
  | _, [] => True
  | role, m :: ms => m.role = role ∧ Alternating role.other ms

theorem alternating_exchanged {last : Message} (hlast : last.role = .user) :
    ∀ {turns : List Turn}, (∀ t ∈ turns, t.request.role = .user ∧ ∃ r, t.response = some r ∧ r.role = .assistant) →
      Alternating .user (turns.flatMap Turn.exchanged ++ [last])
  | [], _ => ⟨hlast, trivial⟩
  | t :: turns, h => by
      obtain ⟨hrequest, r, hresponse, hr⟩ := h t List.mem_cons_self
      have ih := alternating_exchanged hlast (fun x hx => h x (List.mem_cons_of_mem t hx))
      rw [List.flatMap_cons, Turn.exchanged, hresponse]
      exact ⟨hrequest, hr, ih⟩

theorem Lawful.responded (h : Lawful s) {t : Turn} (ht : t ∈ s.turns) (hstatus : t.status = .completed) :
    ∃ r, t.response = some r ∧ r.role = .assistant := by
  have hlifecycle := h.lifecycle t ht
  unfold Turn.lifecycle at hlifecycle
  rw [hstatus] at hlifecycle
  obtain ⟨r, hr⟩ := Option.ne_none_iff_exists'.mp (of_decide_eq_true hlifecycle).2.1
  exact ⟨r, hr, h.response t ht r hr⟩

theorem Lawful.alternating (h : Lawful s') {k : TurnClaim} (hk : Handed s s' k) : Alternating .user k.messages := by
  rw [hk.messages]
  refine alternating_exchanged (h.request _ hk.claimed.1) ?_
  intro t ht
  obtain ⟨hin, -, hstatus, -⟩ := mem_completedBefore.mp ht
  exact ⟨h.request t hin, h.responded hin hstatus⟩

end Transcript

/-! ## Runs -/

section Runs

variable {s s' : Store}

theorem wp_call (h : Lawful s) (c : Call) :
    Tx.wp c.method (fun r s' => Change s s' ∧ ∀ k ∈ r, Handed s s' k) (fun _ s' => s' = s) s := by
  have hnone : ∀ s', Change s s' → Tx.wp (pure none : Method (Option TurnClaim))
      (fun r s' => Change s s' ∧ ∀ k ∈ r, Handed s s' k) (fun _ s' => s' = s) s' :=
    fun s' hs' => Tx.wp_pure.mpr ⟨hs', fun k hk => by cases hk⟩
  cases c with
  | enqueue now candidates sessionId request =>
      exact Tx.wp_bind.mpr (Tx.wp_mono (fun _ s' => hnone s') (fun _ _ hs => hs)
        (wp_enqueue h now candidates sessionId request))
  | claim now sessionId =>
      exact Tx.wp_mono (fun _ _ hs => ⟨hs.1, fun k hk => (hs.2 k hk).2⟩) (fun _ _ hs => hs) (wp_claim h now sessionId)
  | complete now sessionId turnId response =>
      exact Tx.wp_bind.mpr (Tx.wp_mono (fun _ s' => hnone s') (fun _ _ hs => hs)
        (wp_complete now sessionId turnId response))
  | recoverClaimed now =>
      exact Tx.wp_bind.mpr (Tx.wp_mono (fun _ s' => hnone s') (fun _ _ hs => hs) (wp_recoverClaimed now))
  | settleSession now sessionId reason =>
      exact Tx.wp_bind.mpr (Tx.wp_mono (fun _ s' => hnone s') (fun _ _ hs => hs)
        (wp_settleSession now sessionId reason))
  | createSession session =>
      simp only [Call.method, Tx.wp_bind, Tx.wp_read, Tx.wp_ensure, Tx.wp_write, Tx.wp_pure]
      exact ⟨fun _ => ⟨.moved (.of_turns rfl), fun k hk => by cases hk⟩, fun _ => trivial⟩
  | updateSession sessionId from_ f =>
      exact Tx.wp_bind.mpr (Tx.wp_mono (fun _ s' => hnone s') (fun _ _ hs => hs) (wp_updateSession sessionId from_ _))

theorem Change.refl (s : Store) : Change s s := .moved (.of_turns rfl)

theorem change_step (h : Lawful s) (c : Call) : Change s (step s c) := by
  refine Tx.wp_final (Tx.wp_mono (fun _ _ hs => hs.1) ?_ (wp_call h c))
  rintro _ s' rfl
  exact .refl s'

theorem Lawful.step (h : Lawful s) (c : Call) : Lawful (step s c) := h.change (change_step h c)

theorem Lawful.run (h : Lawful s) (cs : List Call) : Lawful (Lib.run Secretary.step s cs) := by
  have hstep : ∀ s c, Lawful s → Lawful (Secretary.step s c) := fun _ c hs => hs.step c
  exact run_inv hstep cs h

theorem Change.mem_of (h : Change s s') {t : Turn} (ht : t ∈ s.turns) : ∃ t' ∈ s'.turns, Advance t t' := by
  cases h with
  | moved moved => exact moved.mem_of ht
  | enqueued x pristine role idle sequence rows =>
      refine ⟨t, ?_, .same⟩
      show t ∈ s'.turns.rows
      rw [rows]
      exact List.mem_append_left _ ht

theorem Lawful.advance (h : Lawful s) {t : Turn} (ht : t ∈ s.turns) (cs : List Call) :
    ∃ t' ∈ (Lib.run Secretary.step s cs).turns, Advance t t' := by
  induction cs generalizing s t with
  | nil => exact ⟨t, ht, .same⟩
  | cons c cs ih =>
      obtain ⟨t₁, ht₁, hadvance₁⟩ := (change_step h c).mem_of ht
      obtain ⟨t₂, ht₂, hadvance₂⟩ := ih (h.step c) ht₁
      exact ⟨t₂, ht₂, hadvance₁.trans hadvance₂⟩

/-- The turns that the claims of a run hand out. -/
def handed (s : Store) : List Call → List String
  | [] => []
  | c :: cs =>
      (match (c.method s).1 with
        | .ok (some k) => [k.turn.id]
        | _ => []) ++ handed (step s c) cs

/-- What is handed out later is queued until then. -/
theorem Lawful.queued_of_handed (h : Lawful s) {cs : List Call} {id : String} (hid : id ∈ handed s cs) {t : Turn}
    (ht : t ∈ s.turns) (hsame : t.id = id) : t.status = .queued := by
  induction cs generalizing s t with
  | nil => cases hid
  | cons c cs ih =>
      rcases List.mem_append.mp hid with hfirst | hrest
      · have hspec := Tx.wp_iff.mp (wp_call h c)
        rcases hc : c.method s with ⟨e | r, s'⟩
        · rw [hc] at hfirst
          cases hfirst
        · rw [hc] at hfirst
          cases r with
          | none => cases hfirst
          | some k =>
              rw [List.mem_singleton] at hfirst
              obtain ⟨q, hq, hqid, hqueued⟩ := ((hspec.1 _ _ hc).2 k rfl).queued
              obtain rfl := Table.eq_of_key hq ht (hqid.trans (hfirst.symm.trans hsame.symm))
              exact hqueued
      · obtain ⟨t', ht', hadvance⟩ := (change_step h c).mem_of ht
        have hqueued := ih (h.step c) hrest ht' (hadvance.id_eq.trans hsame)
        rw [hadvance.queued hqueued] at hqueued
        exact hqueued

theorem Lawful.nodup_handed (h : Lawful s) (cs : List Call) : (handed s cs).Nodup := by
  induction cs generalizing s with
  | nil => exact List.nodup_nil
  | cons c cs ih =>
      have hspec := Tx.wp_iff.mp (wp_call h c)
      have hnext := h.step c
      unfold handed
      rcases hc : c.method s with ⟨e | r, s'⟩
      · exact ih hnext
      · cases r with
        | none => exact ih hnext
        | some k =>
            refine List.nodup_cons.mpr ⟨?_, ih hnext⟩
            intro hagain
            have hclaimed := ((hspec.1 _ _ hc).2 k rfl).claimed
            have hin : k.turn ∈ (Secretary.step s c).turns := by
              unfold Secretary.step
              rw [hc]
              exact hclaimed.1
            have hqueued := hnext.queued_of_handed hagain hin rfl
            rw [hclaimed.2] at hqueued
            cases hqueued

/-- Over every run: one open turn a session, numbers without a gap, no turn handed out twice, and
what is closed stays; a claim hands out the transcript, and what throws leaves the turns alone. -/
theorem conversation_lawful (cs : List Call) :
    let s := run step Store.empty cs
    (∀ t ∈ s.turns, ∀ t' ∈ s.turns, t.sessionId = t'.sessionId → t.status.active = true →
      t'.status.active = true → t = t') ∧
    (∀ sessionId, (s.turnsOf sessionId).map Turn.sequence = List.range' 1 (s.turnsOf sessionId).length) ∧
    (handed Store.empty cs).Nodup ∧
    (∀ t ∈ s.turns, t.status.active = false → ∀ cs', t ∈ (run step s cs').turns) ∧
    (∀ now sessionId k s', claim now sessionId s = (.ok (some k), s') →
      k.turn.sessionId = sessionId ∧ k.turn ∈ s'.turns ∧
        k.messages = (s'.completedBefore sessionId k.turn.sequence).flatMap Turn.exchanged ++ [k.turn.request] ∧
        Alternating .user k.messages) ∧
    ∀ (c : Call) e s', c.method s = (.error e, s') → s'.turns = s.turns := by
  intro s
  have h : Lawful s := lawful_empty.run cs
  refine ⟨h.oneActive, h.numbered, lawful_empty.nodup_handed cs, ?_, ?_, ?_⟩
  · intro t ht hclosed cs'
    obtain ⟨t', ht', hadvance⟩ := h.advance ht cs'
    rw [hadvance.of_closed hclosed] at ht'
    exact ht'
  · intro now sessionId k s' hclaim
    obtain ⟨hchange, hk⟩ := (Tx.wp_iff.mp (wp_claim h now sessionId)).1 _ s' hclaim
    obtain ⟨hsession, hhanded⟩ := hk k rfl
    refine ⟨hsession, hhanded.claimed.1, ?_, (h.change hchange).alternating hhanded⟩
    rw [← hsession]
    exact hhanded.messages
  · intro c e s' hc
    rw [(Tx.wp_iff.mp (wp_call h c)).2 e s' hc]

end Runs

end Elpis.Secretary
