import Elpis.Secretary.ConversationRuns
import Elpis.Secretary.Spawn

/-!
# Every run of the spawn broker

What a call of the session store may do, what a step of the broker may do to the sessions and the
log, and from it the claims over runs.
-/

namespace Elpis.Secretary

open Elpis.Js Elpis.Lib

namespace SessionStore

variable {s : Store} {now : ℤ} {sessionId : String}

theorem wp_updateSession {from_ : SessionStatus → Bool} {f : Session → Session} {Q : ℕ → Store → Prop}
    {E : Failure → Store → Prop} (hnone : Q 0 s)
    (hsome : ∀ old s', s.sessions.get? sessionId = some old → from_ old.status = true →
      s'.sessions = s.sessions.put (f old) → Q 1 s') (hE : ∀ e, E e s) :
    Tx.wp (updateSession sessionId from_ f) Q E s := by
  unfold updateSession
  rw [Tx.wp_transaction, Tx.wp_bind, Tx.wp_read]
  split
  · exact Tx.wp_pure.mpr hnone
  · rename_i old hold
    obtain ⟨hget, hfrom⟩ := Option.filter_eq_some_iff.mp hold
    simp only [settleTurns, Tx.wp_bind, Tx.wp_ensure, Tx.wp_when, Tx.wp_write, Tx.wp_pure]
    refine ⟨fun _ => ⟨fun _ => ?_, fun _ => ⟨fun _ => hsome old _ hget hfrom rfl, fun _ => hE _⟩⟩, fun _ => hE _⟩
    refine wp_settle (fun _ _ s' hsessions _ => ?_) (fun e _ => hE e)
    refine ⟨fun _ => hsome old _ hget hfrom ?_, fun _ => hE _⟩
    rw [hsessions]

theorem wp_requireSession {Q : Session → Store → Prop} {E : Failure → Store → Prop}
    (hQ : ∀ x, s.sessions.get? sessionId = some x → Q x s)
    (hE : s.sessions.get? sessionId = none → ∀ e, E e s) : Tx.wp (requireSession sessionId) Q E s := by
  unfold requireSession
  simp only [Tx.wp_bind, Tx.wp_read, Tx.wp_require, id_eq]
  exact ⟨hQ, fun hnone => hE hnone _⟩

theorem wp_transition {from_ : SessionStatus → Bool} {f : Session → Session} {text : String}
    {Q : Session → Store → Prop} (hid : ∀ x, (f x).id = x.id)
    (hQ : ∀ old s', old ∈ s.sessions → old.id = sessionId → from_ old.status = true →
      s'.sessions = s.sessions.put (f old) → Q (f old) s') :
    Tx.wp (do
      let changes ← updateSession sessionId from_ f
      Tx.ensure (changes = 1) (refuse .conflict text)
      requireSession sessionId) Q (fun _ s' => s' = s) s := by
  rw [Tx.wp_bind]
  refine wp_updateSession ?_ ?_ (fun _ => rfl)
  · rw [Tx.wp_bind, Tx.wp_ensure]
    exact ⟨fun h => absurd h (by decide), fun _ => rfl⟩
  · intro old s' hget hfrom hsessions
    obtain ⟨hmem, holdId⟩ := Table.get?_eq_some.mp hget
    have hfound : s'.sessions.get? sessionId = some (f old) := by
      rw [hsessions, Table.get?_put, if_pos]
      exact ((hid old).trans holdId).symm
    rw [Tx.wp_bind, Tx.wp_ensure]
    refine ⟨fun _ => wp_requireSession ?_ ?_, fun h => absurd rfl h⟩
    · intro x hx
      rw [hfound] at hx
      cases hx
      exact hQ old s' hmem holdId hfrom hsessions
    · intro hnone
      rw [hfound] at hnone
      cases hnone

variable (s now sessionId) in
theorem wp_ready (pod : Receipt) :
    Tx.wp (ready now sessionId pod)
      (fun y s' => ∃ x ∈ s.sessions, x.id = sessionId ∧ x.status = .starting ∧ y.id = x.id ∧ y.status = .ready ∧
        s'.sessions = s.sessions.put y) (fun _ s' => s' = s) s := by
  unfold ready
  rw [Tx.wp_bind]
  refine wp_requireSession ?_ (fun _ _ => rfl)
  intro current _
  rw [Tx.wp_bind, Tx.wp_ensure]
  refine ⟨fun _ => ?_, fun _ => rfl⟩
  rw [Tx.wp_bind, Tx.wp_ensure]
  refine ⟨fun _ => ?_, fun _ => rfl⟩
  refine wp_transition (fun _ => rfl) ?_
  exact fun old s' hold hid hfrom hsessions => ⟨old, hold, hid, of_decide_eq_true hfrom, rfl, rfl, hsessions⟩

/-- The session has ended, now or before. -/
def Ended (status : SessionStatus) (sessionId : String) (s s' : Store) (y : Session) : Prop :=
  ∃ x ∈ s.sessions, x.id = sessionId ∧ y.id = x.id ∧ y.status = status ∧ s'.sessions = s.sessions.put y ∧
    (x.status.active = true ∨ x = y)

theorem wp_finish {status : SessionStatus} {lastError : Option String} {previous : ℤ} :
    Tx.wp (finish now sessionId status lastError previous) (fun y s' => Ended status sessionId s s' y)
      (fun _ s' => s' = s) s := by
  unfold finish
  refine wp_transition (fun _ => rfl) ?_
  exact fun old s' hold hid hfrom hsessions => ⟨old, hold, hid, rfl, rfl, hsessions, Or.inl hfrom⟩

theorem ended_of_get? {x : Session} {status : SessionStatus} (h : s.sessions.get? sessionId = some x)
    (hstatus : x.status = status) : Ended status sessionId s s x := by
  obtain ⟨hmem, hid⟩ := Table.get?_eq_some.mp h
  exact ⟨x, hmem, hid, rfl, hstatus, (Table.put_of_mem hmem).symm, Or.inr rfl⟩

variable (s now sessionId) in
theorem wp_close : Tx.wp (close now sessionId) (fun y s' => Ended .closed sessionId s s' y) (fun _ s' => s' = s) s := by
  unfold close
  rw [Tx.wp_bind]
  refine wp_requireSession ?_ (fun _ _ => rfl)
  intro current hcurrent
  rw [Tx.wp_ite]
  refine ⟨fun hclosed => Tx.wp_pure.mpr (ended_of_get? hcurrent hclosed), fun _ => ?_⟩
  rw [Tx.wp_bind, Tx.wp_ensure]
  exact ⟨fun _ => wp_finish, fun _ => rfl⟩

variable (s now sessionId) in
/-- A session that has failed fails again, so an error says it has not. -/
theorem wp_fail (error : String) :
    Tx.wp (fail now sessionId error) (fun y s' => Ended .failed sessionId s s' y)
      (fun _ s' => s' = s ∧ ∀ x ∈ s.sessions, x.id = sessionId → x.status ≠ .failed) s := by
  unfold fail
  rw [Tx.wp_bind]
  refine wp_requireSession ?_ (fun hnone _ => ⟨rfl, fun x hx hid => absurd hid (Table.get?_eq_none.mp hnone x hx)⟩)
  intro current hcurrent
  rw [Tx.wp_ite]
  refine ⟨fun hfailed => Tx.wp_pure.mpr (ended_of_get? hcurrent hfailed), fun hnot => ?_⟩
  have hother : ∀ x ∈ s.sessions, x.id = sessionId → x.status ≠ .failed := by
    intro x hx hid
    rw [Table.get?_eq_some.mpr ⟨hx, hid⟩] at hcurrent
    cases hcurrent
    exact hnot
  rw [Tx.wp_bind, Tx.wp_ensure]
  refine ⟨fun _ => ?_, fun _ => ⟨rfl, hother⟩⟩
  exact Tx.wp_mono (fun _ _ h => h) (fun _ _ h => ⟨h, hother⟩) wp_finish

variable (s) in
theorem wp_create (d : Draw) (hintMindId : Option String) (modelRef : String) :
    Tx.wp (create d hintMindId modelRef)
      (fun y s' => s.sessions.get? y.id = none ∧ y.status = .starting ∧ s'.sessions = s.sessions.put y)
      (fun _ s' => s' = s) s := by
  have hfresh : ∀ {n : ℕ} {candidates : List String} {id : String},
      freshId s n candidates = .ok id → s.sessions.get? id = none := by
    intro n candidates id h
    induction n generalizing candidates with
    | zero => cases h
    | succ n ih =>
        cases candidates with
        | nil => cases h
        | cons candidate candidates =>
            unfold freshId at h
            split at h
            · cases h
            · split at h
              · rename_i hfree
                cases h
                exact hfree
              · exact ih h
  unfold create
  simp only [Tx.wp_bind, Tx.wp_ensure, Tx.wp_transaction, Tx.wp_mapError, Tx.wp_read, Tx.wp_ofExcept, Tx.wp_write,
    Tx.wp_pure, id_eq]
  refine ⟨fun _ => ⟨fun _ => ⟨fun _ => ⟨fun sessionId hid => ⟨fun _ => ?_, fun _ => trivial⟩, fun _ _ => trivial⟩,
    fun _ => trivial⟩, fun _ => trivial⟩, fun _ => trivial⟩
  exact ⟨hfresh hid, trivial, trivial⟩

end SessionStore

namespace Spawn

open Broker

variable {config : Config} {b b' b'' : Broker}

/-! ## What a step may do -/

/-- What a step that starts nothing may do to the sessions and to the log. `ends` is said of a
session that ends. -/
inductive Acts (ends : Session → Prop) (b b' : Broker) : Prop
  | idle (sessions : b'.store.sessions = b.store.sessions) (log : b'.log = b.log)
  | readied (x y : Session) (mem : x ∈ b.store.sessions) (id : y.id = x.id) (before : x.status = .starting)
      (after : y.status = .ready) (sessions : b'.store.sessions = b.store.sessions.put y) (log : b'.log = b.log)
  | ended (x y : Session) (mem : x ∈ b.store.sessions) (id : y.id = x.id)
      (before : x.status.active = true ∧ ends y ∨ x.status.active = false ∧ y = x)
      (terminal : y.status.active = false) (sessions : b'.store.sessions = b.store.sessions.put y)
      (log : b'.log = .cleanup y.id :: b.log)

theorem ended_cases {status : SessionStatus} {sessionId : String} {s s' : Store} {y : Session}
    (h : SessionStore.Ended status sessionId s s' y) (hterminal : status.active = false) :
    ∃ x ∈ s.sessions, y.id = x.id ∧ (x.status.active = true ∧ y.status = status ∨ x.status.active = false ∧ y = x) ∧
      y.status.active = false ∧ s'.sessions = s.sessions.put y := by
  obtain ⟨x, hx, -, hid, hstatus, hsessions, hbefore⟩ := h
  refine ⟨x, hx, hid, ?_, by rw [hstatus]; exact hterminal, hsessions⟩
  rcases hbefore with hactive | rfl
  · exact Or.inl ⟨hactive, hstatus⟩
  · exact Or.inr ⟨by rw [hstatus]; exact hterminal, rfl⟩

theorem failInspected_acts {now : ℤ} {includeStarting : Bool} {sessionId error : String} {rest : List Session} :
    Acts (fun y => y.status = .failed) b (b.failInspected now includeStarting sessionId error rest).2 := by
  have hspec := Tx.wp_iff.mp (SessionStore.wp_fail b.store now sessionId error)
  unfold failInspected
  rcases hfail : SessionStore.fail now sessionId error b.store with ⟨e | y, s'⟩
  · obtain ⟨rfl, -⟩ := hspec.2 e s' hfail
    exact .idle rfl rfl
  · obtain ⟨x, hx, hid, hbefore, hterminal, hsessions⟩ := ended_cases (hspec.1 y s' hfail) rfl
    exact .ended x y hx hid hbefore hterminal hsessions rfl

theorem failActive_acts {now : ℤ} {includeStarting : Bool} {sessionId error : String} {rest : List Session} :
    Acts (fun y => y.status = .failed) b (b.failActive now includeStarting sessionId error rest).2 := by
  unfold failActive
  cases b.active includeStarting sessionId with
  | none => exact .idle rfl rfl
  | some current => exact failInspected_acts

theorem resume_acts (now : ℤ) (outcome : Except String ProvisionState) (i : Inspection) :
    Acts (fun y => y.status = .failed) b (b.resume now outcome i).2 := by
  unfold resume
  cases i.inspecting with
  | none => exact .idle rfl rfl
  | some session =>
      unfold inspected
      rcases outcome with error | state
      · exact failActive_acts
      · cases state with
        | pending => exact .idle rfl rfl
        | failed error => exact failActive_acts
        | missing => exact failActive_acts
        | ready receipt =>
            simp only
            split
            · exact failActive_acts
            · split
              · exact .idle rfl rfl
              · rename_i current hcurrent
                split
                · have hspec := Tx.wp_iff.mp
                    (SessionStore.wp_ready b.store now current.id receipt)
                  rcases hready : SessionStore.ready now current.id receipt b.store with ⟨e | y, s'⟩
                  · obtain rfl := hspec.2 e s' hready
                    exact failActive_acts
                  · obtain ⟨x, hx, -, hbefore, hid, hafter, hsessions⟩ := hspec.1 y s' hready
                    exact .readied x y hx hid hbefore hafter hsessions rfl
                · split
                  · exact .idle rfl rfl
                  · exact failInspected_acts

theorem close_acts (now : ℤ) (sessionId : String) : Acts (fun y => y.id = sessionId) b (Broker.close now sessionId b) := by
  unfold Broker.close
  cases hget : b.store.sessions.get? sessionId with
  | none => exact .idle rfl rfl
  | some current =>
      simp only
      obtain ⟨hmem, -⟩ := Table.get?_eq_some.mp hget
      split
      · rename_i hended
        exact .ended current current hmem rfl (Or.inr ⟨hended, rfl⟩) hended (Table.put_of_mem hmem).symm rfl
      · have hspec := Tx.wp_iff.mp (SessionStore.wp_close b.store now sessionId)
        rcases hclose : SessionStore.close now sessionId b.store with ⟨e | y, s'⟩
        · obtain rfl := hspec.2 e s' hclose
          exact .idle rfl rfl
        · obtain ⟨x, hx, hid, hbefore, hterminal, hsessions⟩ := ended_cases (hspec.1 y s' hclose) rfl
          obtain ⟨x', -, hx', hid', -⟩ := hspec.1 y s' hclose
          exact .ended x y hx hid (hbefore.imp_left (fun h => ⟨h.1, hid'.trans hx'⟩)) hterminal hsessions rfl

/-! ## Cleanup -/

/-- A pod of this session was provisioned, and no cleanup has been issued since. -/
def uncleaned (sessionId : String) : List Entry → Bool
  | [] => false
  | .provisioned id :: log => decide (id = sessionId) || uncleaned sessionId log
  | .cleanup id :: log => !decide (id = sessionId) && uncleaned sessionId log

/-- Whatever has ended has been cleaned up behind its pod. -/
def Cleaned (b : Broker) : Prop :=
  ∀ x ∈ b.store.sessions.rows, x.status.active = false → uncleaned x.id b.log = false

instance (b : Broker) : Decidable (Cleaned b) := inferInstanceAs (Decidable (∀ x ∈ b.store.sessions.rows, _))

/-- The session whose provisioning call is outstanding has not been closed. -/
def Open (b : Broker) : Prop :=
  ∀ sessionId, b.starting = some (.provisioning sessionId) →
    ∀ x ∈ b.store.sessions, x.id = sessionId → x.status ≠ .closed

variable {ends : Session → Prop}

theorem Acts.cleaned (h : Acts ends b b') (hclean : Cleaned b) : Cleaned b' := by
  intro z hz hended
  cases h with
  | idle sessions log =>
      have hz : z ∈ b'.store.sessions := hz
      rw [sessions] at hz
      rw [log]
      exact hclean z hz hended
  | readied x y mem id before after sessions log =>
      have hz : z ∈ b'.store.sessions := hz
      rw [sessions] at hz
      rw [log]
      rcases Table.mem_put.mp hz with rfl | ⟨hz, -⟩
      · rw [after] at hended
        cases hended
      · exact hclean z hz hended
  | ended x y mem id before terminal sessions log =>
      have hz : z ∈ b'.store.sessions := hz
      rw [sessions] at hz
      rw [log]
      show (!decide (y.id = z.id) && uncleaned z.id b.log) = false
      rcases Table.mem_put.mp hz with rfl | ⟨hz, -⟩
      · simp
      · rw [hclean z hz hended, Bool.and_false]

theorem Acts.isOpen (h : Acts ends b b') (hstarting : b'.starting = b.starting)
    (hends : ∀ y, ends y → y.status ≠ .closed ∨ b.starting ≠ some (.provisioning y.id))
    (hopen : Open b) : Open b' := by
  intro sessionId hs z hz hid
  rw [hstarting] at hs
  cases h with
  | idle sessions log =>
      rw [sessions] at hz
      exact hopen sessionId hs z hz hid
  | readied x y mem _ before after sessions log =>
      rw [sessions] at hz
      rcases Table.mem_put.mp hz with rfl | ⟨hz, -⟩
      · rw [after]
        decide
      · exact hopen sessionId hs z hz hid
  | ended x y mem hid' before terminal sessions log =>
      rw [sessions] at hz
      rcases Table.mem_put.mp hz with rfl | ⟨hz, -⟩
      · rcases before with ⟨-, hz⟩ | ⟨-, rfl⟩
        · rcases hends z hz with hne | hother
          · exact hne
          · exact absurd (hid ▸ hs) hother
        · exact hopen sessionId hs z mem hid
      · exact hopen sessionId hs z hz hid

/-- A start that fails cleans up, unless its session is still active. -/
theorem startFailed_cleaned {now : ℤ} {sessionId error : String} (hopen : ∀ x ∈ b.store.sessions, x.id = sessionId →
    x.status ≠ .closed) (hclean : ∀ x ∈ b.store.sessions, x.id ≠ sessionId → x.status.active = false →
      uncleaned x.id b.log = false) : Cleaned (startFailed now sessionId error b) := by
  have hspec := Tx.wp_iff.mp (SessionStore.wp_fail b.store now sessionId error)
  unfold startFailed
  rcases hfail : SessionStore.fail now sessionId error b.store with ⟨e | y, s'⟩
  · obtain ⟨rfl, hnot⟩ := hspec.2 e s' hfail
    intro z hz hended
    refine hclean z hz ?_ hended
    intro hid
    have hfailed := hnot z hz hid
    have hclosed := hopen z hz hid
    cases hstatus : z.status <;> simp_all [SessionStatus.active]
  · obtain ⟨x, hx, hxid, hid, hstatus, hsessions, -⟩ := hspec.1 y s' hfail
    intro z hz hended
    have hz : z ∈ s'.sessions := hz
    rw [hsessions] at hz
    show (!decide (y.id = z.id) && uncleaned z.id b.log) = false
    rcases Table.mem_put.mp hz with rfl | ⟨hz, hne⟩
    · simp
    · rw [hclean z hz ?_ hended, Bool.and_false]
      exact fun h => hne (h.trans (hid.trans hxid).symm)

variable {outcome : Except String Receipt}

theorem provisioned_cleaned {now : ℤ} {sessionId : String} (hclean : Cleaned b)
    (hopen : ∀ x ∈ b.store.sessions, x.id = sessionId → x.status ≠ .closed) :
    Cleaned (provisioned now sessionId outcome b) := by
  unfold provisioned
  cases outcome with
  | error error => exact startFailed_cleaned hopen (fun x hx _ hended => hclean x hx hended)
  | ok receipt =>
      have hlogged : ∀ x ∈ b.store.sessions, x.id ≠ sessionId → x.status.active = false →
          uncleaned x.id (b.logged (.provisioned sessionId)).log = false := by
        intro x hx hne hended
        show (decide (sessionId = x.id) || uncleaned x.id b.log) = false
        rw [hclean x hx hended, Bool.or_false, decide_eq_false_iff_not]
        exact fun h => hne h.symm
      simp only
      split
      · exact startFailed_cleaned hopen hlogged
      · have hspec := Tx.wp_iff.mp (SessionStore.wp_ready b.store now sessionId receipt)
        rcases hready : SessionStore.ready now sessionId receipt (b.logged (.provisioned sessionId)).store with ⟨e | y, s'⟩
        · obtain rfl := hspec.2 e s' hready
          exact startFailed_cleaned hopen hlogged
        · obtain ⟨x, hx, hxid, hbefore, hid, hafter, hsessions⟩ := hspec.1 y s' hready
          intro z hz hended
          have hz : z ∈ s'.sessions := hz
          rw [hsessions] at hz
          rcases Table.mem_put.mp hz with rfl | ⟨hz, hne⟩
          · rw [hafter] at hended
            cases hended
          · exact hlogged z hz (fun h => hne (h.trans (hid.trans hxid).symm)) hended

/-! ## Sessions -/

/-- Nothing happens to the sessions, or one that is active goes on or ends. -/
inductive Moves (s s' : Store) : Prop
  | same (sessions : s'.sessions = s.sessions)
  | one (x y : Session) (mem : x ∈ s.sessions) (id : y.id = x.id) (ended : x.status.active = false → y = x)
      (sessions : s'.sessions = s.sessions.put y)

theorem Acts.moves (h : Acts ends b b') : Moves b.store b'.store := by
  cases h with
  | idle sessions log => exact .same sessions
  | readied x y mem id before after sessions log =>
      refine .one x y mem id ?_ sessions
      intro hended
      rw [before] at hended
      cases hended
  | ended x y mem id before terminal sessions log =>
      refine .one x y mem id ?_ sessions
      intro hended
      rcases before with ⟨hactive, -⟩ | ⟨-, hsame⟩
      · rw [hactive] at hended
        cases hended
      · exact hsame

theorem startFailed_moves {now : ℤ} {sessionId error : String} :
    Moves b.store (startFailed now sessionId error b).store := by
  have hspec := Tx.wp_iff.mp (SessionStore.wp_fail b.store now sessionId error)
  unfold startFailed
  rcases hfail : SessionStore.fail now sessionId error b.store with ⟨e | y, s'⟩
  · obtain ⟨rfl, -⟩ := hspec.2 e s' hfail
    exact .same rfl
  · obtain ⟨x, hx, -, hid, -, hsessions, hbefore⟩ := hspec.1 y s' hfail
    refine .one x y hx hid ?_ hsessions
    intro hended
    rcases hbefore with hactive | hsame
    · rw [hactive] at hended
      cases hended
    · exact hsame.symm

theorem provisioned_moves {now : ℤ} {sessionId : String} :
    Moves b.store (provisioned now sessionId outcome b).store := by
  unfold provisioned
  cases outcome with
  | error error => exact startFailed_moves
  | ok receipt =>
      simp only
      split
      · exact startFailed_moves (b := b.logged (.provisioned sessionId))
      · have hspec := Tx.wp_iff.mp (SessionStore.wp_ready b.store now sessionId receipt)
        rcases hready : SessionStore.ready now sessionId receipt (b.logged (.provisioned sessionId)).store with ⟨e | y, s'⟩
        · obtain rfl := hspec.2 e s' hready
          exact startFailed_moves (b := b.logged (.provisioned sessionId))
        · obtain ⟨x, hx, -, hbefore, hid, -, hsessions⟩ := hspec.1 y s' hready
          refine .one x y hx hid ?_ hsessions
          intro hended
          rw [hbefore] at hended
          cases hended

/-- The sessions that take up room. -/
def activeSessions (s : Store) : List Session := s.sessions.select (fun x => x.status.active)

theorem length_active_put {s s' : Store} {x y : Session} (hx : x ∈ s.sessions) (hid : y.id = x.id)
    (hended : x.status.active = false → y.status.active = false) (hs : s'.sessions = s.sessions.put y) :
    (activeSessions s').length ≤ (activeSessions s).length := by
  unfold activeSessions Table.select
  rw [hs, Table.put, dif_neg]
  · rw [← List.countP_eq_length_filter, ← List.countP_eq_length_filter]
    show List.countP _ (s.sessions.rows.map _) ≤ _
    rw [List.countP_map]
    refine List.countP_mono_left ?_
    intro z hz hactive
    simp only [Function.comp_apply, if_true] at hactive
    split at hactive
    · rename_i hsame
      obtain rfl := Table.eq_of_key hz hx (hsame.trans hid)
      by_contra hnot
      rw [hended (by simpa using hnot)] at hactive
      cases hactive
    · exact hactive
  · rw [hid, Table.get?_key hx]
    exact Option.some_ne_none x

theorem Moves.active {s s' : Store} (h : Moves s s') : (activeSessions s').length ≤ (activeSessions s).length := by
  cases h with
  | same sessions =>
      unfold activeSessions
      rw [sessions]
  | one x y mem id ended sessions =>
      refine length_active_put mem id ?_ sessions
      intro hended
      rw [ended hended]
      exact hended

theorem Moves.ended {s s' : Store} (h : Moves s s') {z : Session} (hz : z ∈ s.sessions)
    (hended : z.status.active = false) : z ∈ s'.sessions := by
  cases h with
  | same sessions =>
      rw [sessions]
      exact hz
  | one x y mem id ended sessions =>
      rw [sessions, Table.mem_put]
      by_cases hsame : z.id = y.id
      · obtain rfl := Table.eq_of_key hz mem (hsame.trans id)
        exact Or.inl (ended hended).symm
      · exact Or.inr ⟨hz, hsame⟩

/-! ## Steps -/

theorem resume_starting (now : ℤ) (outcome : Except String ProvisionState) (i : Inspection) :
    (b.resume now outcome i).2.starting = b.starting := by
  have hfailInspected : ∀ (b : Broker) includeStarting sessionId error rest,
      (b.failInspected now includeStarting sessionId error rest).2.starting = b.starting := by
    intro b includeStarting sessionId error rest
    unfold failInspected
    rcases SessionStore.fail now sessionId error b.store with ⟨e | y, s'⟩ <;> rfl
  have hfailActive : ∀ (b : Broker) includeStarting sessionId error rest,
      (b.failActive now includeStarting sessionId error rest).2.starting = b.starting := by
    intro b includeStarting sessionId error rest
    unfold failActive
    cases b.active includeStarting sessionId with
    | none => rfl
    | some current => exact hfailInspected ..
  unfold resume
  cases i.inspecting with
  | none => rfl
  | some session =>
      unfold inspected
      rcases outcome with error | state
      · exact hfailActive ..
      · cases state with
        | pending => rfl
        | failed error => exact hfailActive ..
        | missing => exact hfailActive ..
        | ready receipt =>
            simp only
            split
            · exact hfailActive ..
            · split
              · rfl
              · rename_i current _
                split
                · rcases SessionStore.ready now current.id receipt b.store with ⟨e | y, s'⟩
                  · exact hfailActive ..
                  · rfl
                · split
                  · rfl
                  · exact hfailInspected ..

theorem close_starting (now : ℤ) (sessionId : String) : (Broker.close now sessionId b).starting = b.starting := by
  unfold Broker.close
  cases b.store.sessions.get? sessionId with
  | none => rfl
  | some current =>
      simp only
      split
      · rfl
      · rcases SessionStore.close now sessionId b.store with ⟨e | y, s'⟩ <;> rfl

/-- What a start does: nothing, or a new session is starting. -/
inductive Begun (config : Config) (b b' : Broker) : Prop
  | refused (sessions : b'.store.sessions = b.store.sessions) (log : b'.log = b.log)
      (starting : b'.starting = b.starting)
  | created (y : Session) (fresh : b.store.sessions.get? y.id = none) (status : y.status = .starting)
      (room : (activeSessions b.store).length < config.maxConcurrent) (sessions : b'.store.sessions = b.store.sessions.put y)
      (log : b'.log = b.log) (starting : b'.starting = some (.provisioning y.id))

theorem startInside_begun (config : Config) (b : Broker) (d : SessionStore.Draw) (hintMindId : Option String) :
    Begun config b (startInside config d hintMindId b) := by
  unfold startInside
  split
  · exact .refused rfl rfl rfl
  · cases config.modelRef with
    | none => exact .refused rfl rfl rfl
    | some modelRef =>
        simp only
        split
        · exact .refused rfl rfl rfl
        · rename_i hroom
          have hspec := Tx.wp_iff.mp (SessionStore.wp_create b.store d hintMindId modelRef)
          rcases hcreate : SessionStore.create d hintMindId modelRef b.store with ⟨e | y, s'⟩
          · obtain rfl := hspec.2 e s' hcreate
            exact .refused rfl rfl rfl
          · obtain ⟨hfresh, hstatus, hsessions⟩ := hspec.1 y s' hcreate
            refine .created y hfresh hstatus ?_ hsessions rfl rfl
            have hperm : ((SessionStore.list b.store).filter (fun x => x.status.active)).length =
                (activeSessions b.store).length :=
              ((List.mergeSort_perm b.store.sessions.rows _).filter _).length_eq
            omega

/-! ## Runs -/

/-- A session is not closed while its provisioning call is outstanding. -/
def Settled (b : Broker) : Event → Prop
  | .close _ sessionId => b.starting ≠ some (.provisioning sessionId)
  | _ => True

instance : (b : Broker) → (e : Event) → Decidable (Settled b e)
  | b, .close _ sessionId => inferInstanceAs (Decidable (b.starting ≠ some (.provisioning sessionId)))
  | _, .start _ | _, .startNext _ | _, .provisionReturns _ _ | _, .startCleaned | _, .recover | _, .reconcile
  | _, .reconcileNext | _, .reconcileResumes _ _ | _, .recoveryResumes _ _ _ | _, .turns _ | _, .restart =>
      isTrue trivial

/-- What is kept as long as no session is closed under its provisioning call. -/
structure Tended (b : Broker) : Prop where
  cleaned : Cleaned b
  isOpen : Open b

theorem Begun.tended (h : Begun config b b') (ht : Tended b) : Tended b' := by
  cases h with
  | refused sessions log starting =>
      constructor
      · intro z hz hended
        have hz : z ∈ b'.store.sessions := hz
        rw [sessions] at hz
        rw [log]
        exact ht.cleaned z hz hended
      · intro sessionId hs z hz
        rw [sessions] at hz
        exact ht.isOpen sessionId (starting ▸ hs) z hz
  | created y fresh status room sessions log starting =>
      constructor
      · intro z hz hended
        have hz : z ∈ b'.store.sessions := hz
        rw [sessions] at hz
        rw [log]
        rcases Table.mem_put.mp hz with rfl | ⟨hz, -⟩
        · rw [status] at hended
          cases hended
        · exact ht.cleaned z hz hended
      · intro sessionId hs z hz hid
        rw [starting] at hs
        obtain rfl : y.id = sessionId := by simpa using hs
        rw [sessions] at hz
        rcases Table.mem_put.mp hz with rfl | ⟨-, hne⟩
        · rw [status]
          decide
        · exact absurd hid hne

/-- No start is under way, or the one that was goes on. -/
theorem Acts.tended (h : Acts ends b b') (hstarting : b'.starting = b.starting)
    (hends : ∀ y, ends y → y.status ≠ .closed ∨ b.starting ≠ some (.provisioning y.id))
    (ht : Tended b) : Tended b' :=
  ⟨h.cleaned ht.cleaned, h.isOpen hstarting hends ht.isOpen⟩

theorem provisioned_starting {now : ℤ} {sessionId : String} (id : String) :
    (provisioned now sessionId outcome b).starting ≠ some (.provisioning id) := by
  have hfailed : ∀ (b : Broker) error, (startFailed now sessionId error b).starting ≠ some (.provisioning id) := by
    intro b error
    unfold startFailed
    rcases SessionStore.fail now sessionId error b.store with ⟨e | y, s'⟩
    · exact fun h => by cases h
    · exact fun h => by cases h
  unfold provisioned
  cases outcome with
  | error error => exact hfailed b error
  | ok receipt =>
      simp only
      split
      · exact hfailed _ _
      · rcases SessionStore.ready now sessionId receipt (b.logged (.provisioned sessionId)).store with ⟨e | y, s'⟩
        · exact hfailed _ _
        · exact fun h => by cases h

theorem Tended.step (h : Tended b) {e : Event} (hsettled : Settled b e) : Tended (step config b e) := by
  cases e with
  | start hintMindId => exact ⟨h.cleaned, h.isOpen⟩
  | startNext d =>
      unfold Spawn.step
      simp only
      split
      · rename_i hintMindId startTail hstarting _
        exact (startInside_begun _ _ d hintMindId).tended ⟨h.cleaned, h.isOpen⟩
      · exact h
  | provisionReturns now outcome =>
      unfold Spawn.step
      simp only
      split
      · rename_i sessionId hstarting
        exact ⟨provisioned_cleaned h.cleaned (h.isOpen sessionId hstarting),
          fun id hid => absurd hid (provisioned_starting id)⟩
      · exact h
  | startCleaned =>
      unfold Spawn.step
      simp only
      split
      · exact ⟨h.cleaned, fun id hid => by cases hid⟩
      · exact h
  | close now sessionId =>
      refine (close_acts now sessionId).tended (close_starting now sessionId) ?_ h
      rintro y rfl
      exact Or.inr hsettled
  | recover => exact ⟨h.cleaned, h.isOpen⟩
  | reconcile => exact ⟨h.cleaned, h.isOpen⟩
  | reconcileNext =>
      unfold Spawn.step
      simp only
      split
      · exact ⟨h.cleaned, h.isOpen⟩
      · exact h
  | reconcileResumes now outcome =>
      unfold Spawn.step
      simp only
      split
      · exact h
      · rename_i i _
        have ht := (resume_acts now outcome i).tended (resume_starting now outcome i) (fun y hy => Or.inl (by rw [hy]; decide)) h
        exact ⟨ht.cleaned, ht.isOpen⟩
  | recoveryResumes k now outcome =>
      unfold Spawn.step
      simp only
      split
      · exact h
      · rename_i i _
        have ht := (resume_acts now outcome i).tended (resume_starting now outcome i) (fun y hy => Or.inl (by rw [hy]; decide)) h
        exact ⟨ht.cleaned, ht.isOpen⟩
  | turns turns => exact ⟨h.cleaned, h.isOpen⟩
  | restart => exact ⟨h.cleaned, fun id hid => by cases hid⟩

/-- A step moves one session, or makes a new one where there is room. -/
theorem step_sessions (config : Config) (b : Broker) (e : Event) : Moves b.store (step config b e).store ∨
    ∃ y, b.store.sessions.get? y.id = none ∧ (activeSessions b.store).length < config.maxConcurrent ∧
      (step config b e).store.sessions = b.store.sessions.put y := by
  have hsame : ∀ {b' : Broker}, b'.store.sessions = b.store.sessions → Moves b.store b'.store := fun h => .same h
  cases e with
  | startNext d =>
      unfold step
      simp only
      split
      · rename_i hintMindId startTail hstarting _
        cases startInside_begun config { b with startTail } d hintMindId with
        | refused sessions log starting => exact Or.inl (.same sessions)
        | created y fresh status room sessions log starting => exact Or.inr ⟨y, fresh, room, sessions⟩
      · exact Or.inl (.same rfl)
  | provisionReturns now outcome =>
      unfold step
      simp only
      split
      · exact Or.inl provisioned_moves
      · exact Or.inl (.same rfl)
  | close now sessionId => exact Or.inl (close_acts now sessionId).moves
  | startCleaned =>
      unfold step
      simp only
      split
      · exact Or.inl (.same rfl)
      · exact Or.inl (.same rfl)
  | reconcileNext =>
      unfold step
      simp only
      split
      · exact Or.inl (.same rfl)
      · exact Or.inl (.same rfl)
  | reconcileResumes now outcome =>
      unfold step
      simp only
      split
      · exact Or.inl (.same rfl)
      · exact Or.inl (resume_acts now outcome _).moves
  | recoveryResumes k now outcome =>
      unfold step
      simp only
      split
      · exact Or.inl (.same rfl)
      · exact Or.inl (resume_acts now outcome _).moves
  | start hintMindId => exact Or.inl (.same rfl)
  | recover => exact Or.inl (.same rfl)
  | reconcile => exact Or.inl (.same rfl)
  | turns turns => exact Or.inl (.same rfl)
  | restart => exact Or.inl (.same rfl)

theorem step_capacity (h : (activeSessions b.store).length ≤ config.maxConcurrent) (e : Event) :
    (activeSessions (step config b e).store).length ≤ config.maxConcurrent := by
  rcases step_sessions config b e with hmoves | ⟨y, hfresh, hroom, hsessions⟩
  · exact hmoves.active.trans h
  · unfold activeSessions Table.select at hroom ⊢
    rw [hsessions, Table.rows_put_of_none hfresh, List.filter_append, List.length_append]
    have hone : ([y].filter (fun x => x.status.active)).length ≤ 1 := List.length_filter_le _ [y]
    omega

theorem step_ended {z : Session} (hz : z ∈ b.store.sessions) (hended : z.status.active = false) (e : Event) :
    z ∈ (step config b e).store.sessions := by
  rcases step_sessions config b e with hmoves | ⟨y, hfresh, -, hsessions⟩
  · exact hmoves.ended hz hended
  · rw [hsessions, Table.mem_put]
    exact Or.inr ⟨hz, fun h => Table.get?_eq_none.mp hfresh z hz h⟩

theorem run_ended {z : Session} (es : List Event) (hz : z ∈ b.store.sessions) (hended : z.status.active = false) :
    z ∈ (run (step config) b es).store.sessions := by
  have hstep : ∀ b e, z ∈ b.store.sessions → z ∈ (step config b e).store.sessions :=
    fun _ e hz => step_ended hz hended e
  exact run_inv hstep es hz

theorem tended_create : Tended (Broker.create Store.empty) :=
  ⟨fun x hx => absurd hx Table.not_mem_empty, fun _ h => by cases h⟩

/-- Over every run the sessions stay within their number and what has ended has ended. As long as
no session is closed under its provisioning call, what has ended has been cleaned up. -/
theorem spawn_tended (config : Config) (es : List Event) :
    Throughout (step config) (fun b => (activeSessions b.store).length ≤ config.maxConcurrent)
        (Broker.create Store.empty) es ∧
      (∀ x ∈ (run (step config) (Broker.create Store.empty) es).store.sessions, x.status.active = false →
        ∀ es', x ∈ (run (step config) (run (step config) (Broker.create Store.empty) es) es').store.sessions) ∧
      (EachStep (step config) Settled (Broker.create Store.empty) es →
        Throughout (step config) Cleaned (Broker.create Store.empty) es) := by
  refine ⟨?_, ?_, ?_⟩
  · exact throughout_of_inv (fun _ h => h) (fun _ e h => step_capacity h e) es (Nat.zero_le _)
  · exact fun x hx hended es' => run_ended es' hx hended
  · exact throughout_of_eachStep (fun _ h => h.cleaned) (fun _ _ h hsettled => h.step hsettled) es tended_create

/-! ## A close under the provisioning call -/

section Example

def exampleConfig : Config := ⟨true, some "openai/gpt", 1⟩

def exampleDraw : SessionStore.Draw :=
  ⟨1, ["sec-aaaaaaaaaaaaaaaaaaaaaa"], "digest", true, fun _ => true⟩

def exampleReceipt : Receipt := ⟨"pod", "uid"⟩

/-- The session is closed, then its pod comes: `ready` is refused, so is `fail`, and the cleanup is
not reached. -/
theorem close_under_provision_uncleaned :
    ¬Throughout (step exampleConfig) Cleaned (Broker.create Store.empty)
      [.start none, .startNext exampleDraw, .close 2 "sec-aaaaaaaaaaaaaaaaaaaaaa",
        .provisionReturns 3 (.ok exampleReceipt)] := by
  intro h
  exact absurd h.last (by decide +kernel)

/-- Closed behind its provisioning call, the session is cleaned up. -/
theorem close_after_provision_cleaned :
    Cleaned (run (step exampleConfig) (Broker.create Store.empty)
      [.start none, .startNext exampleDraw, .provisionReturns 2 (.ok exampleReceipt),
        .close 3 "sec-aaaaaaaaaaaaaaaaaaaaaa"]) :=
  ((spawn_tended exampleConfig _).2.2 (by decide +kernel)).last

end Example

end Spawn

end Elpis.Secretary
