import Elpis.Worker.Slices
import Elpis.Lib.Run
import Elpis.Mind.Store

/-!
# Workers: what holds in every run

The slices are put together: one step of the world keeps `Sound` over all the
calls there are and goes on by the ledger, so every run does. The results are read
off the rows and the calls in flight.
-/

namespace Elpis.Worker

open Elpis.Lib Elpis.Mind

variable {cap : ℕ} {w w' : World} {t : Thread} {ts : List Thread} {sha : Sha256} {cfg : SpawnConfig}

/-! ## One step -/

/-- A step kept the calls sound and went on by the ledger. -/
def World.GoesOn (cap : ℕ) (w w' : World) : Prop :=
  Sound cap w' w'.threads ∧ Ledger cap (fun _ => True) w.db w'.db

variable {m : SpawnM Thread}

theorem runs_iff :
    Runs cap w ts m w ↔ Yields cap w ts (m w).1 (m w).2 := by
  unfold Runs Tx.wp
  rcases m w with ⟨e | a, w'⟩
  · exact Iff.rfl
  · exact Iff.rfl

theorem World.run_goesOn {tid : ℕ} (h : Sound cap w w.threads)
    (ht : w.threads[tid]? = some t)
    (hm : ∀ ts, Sound cap w (t :: ts) → Runs cap w ts m w) : w.GoesOn cap (w.run tid m) := by
  obtain ⟨hlt, hget⟩ := List.getElem?_eq_some_iff.mp ht
  -- the call goes to the front, and comes back to its place afterwards
  have hfront : Sound cap w (t :: w.threads.eraseIdx tid) := by
    rw [← hget]
    exact h.perm (List.getElem_cons_eraseIdx_perm hlt).symm
  obtain ⟨hl, new, hthreads, hs⟩ := runs_iff.mp (hm _ hfront)
  refine ⟨?_, hl⟩
  have hlt' : tid < (m w).2.threads.length := by
    rw [hthreads, List.length_append]
    omega
  have hperm : (Thread.ofResult (m w).1 :: (new ++ w.threads.eraseIdx tid)).Perm
      ((m w).2.threads.set tid (Thread.ofResult (m w).1)) := by
    refine List.Perm.trans ?_ (List.set_perm_cons_eraseIdx hlt' _).symm
    rw [hthreads, List.eraseIdx_append_of_lt_length hlt]
    exact List.Perm.cons _ List.perm_append_comm
  exact (hs.perm hperm).still rfl rfl rfl

/-- A call that begins with a sound slice. -/
theorem World.call_goesOn (h : Sound cap w w.threads)
    (hm : ∀ w₀ ts, Sound cap w₀ ts → Runs cap w₀ ts m w₀) : w.GoesOn cap (w.call m) := by
  have h₁ : Sound cap { w with threads := w.threads ++ [.returned (.ok [])] }
      (w.threads ++ [.returned (.ok [])]) := by
    refine Sound.perm ?_ List.perm_append_comm
    exact Sound.idle (h.still rfl rfl rfl) rfl rfl rfl rfl
  refine World.run_goesOn h₁ List.getElem?_concat_length ?_
  intro ts hts
  exact hm _ ts hts.tail

theorem World.mail_goesOn {α : Type} {m : MailboxM α} (h : Sound cap w w.threads) (hm : Posts m) :
    w.GoesOn cap (w.mail m) := by
  have hl : Ledger cap (fun _ => False) w.db (m w.db).2 := by
    rcases hrun : m w.db with ⟨e | a, db'⟩
    · rw [hm.error h.valid hrun]
      exact Ledger.refl h.valid
    · exact hm.ok h.valid hrun
  have hcalm : Calm cap w (w.mail m) := ⟨hl, rfl, rfl, rfl⟩
  exact ⟨h.calm hcalm, hl.any⟩

theorem World.calm_goesOn (h : Sound cap w w.threads) (hc : Calm cap w w') : w.GoesOn cap w' := by
  refine ⟨?_, hc.ledger.any⟩
  rw [hc.threads]
  exact h.calm hc

/-- Once its promise has settled, the flight a call waited for is over. -/
theorem Sound.landed {id : String} {promise : ℕ}
    (h : Sound cap w (.dismissProvisioning id promise :: ts))
    (hs : w.settled[promise]? = some true) : Grounded w ts id := by
  refine ⟨h.head.awaited id promise rfl, ?_⟩
  intro u hu p' hf
  have hp : promise = p' := ((h.head_apart u hu).2 id p' hf).2.2 promise rfl
  have hfly := ((h.tail.fits u hu).flight id p' hf).unsettled
  rw [← hp, hs] at hfly
  cases hfly

theorem runs_next {s : Slice} {o : Outcome} (hn : t.next w s o = some m)
    (h : Sound cap w (t :: ts)) : Runs cap w ts m w := by
  unfold Thread.next at hn
  split at hn
  · -- `start` after `prepareSource`
    cases hn
    exact runs_afterSource h
  · -- `start` after `provision`
    cases hn
    exact runs_afterProvision h
  · -- `start` after the `cleanup` that follows a failed provision
    cases hn
    have hg := h.grounded List.mem_cons_self
    split
    · exact runs_provisionFailed h.tail hg
    · exact runs_throwFromStart h.tail hg.2 _
  · have hg := h.grounded List.mem_cons_self
    split at hn
    · cases hn
    · cases hn
      exact runs_throwFromStart h.tail hg.2 _
  · -- `start` after the `cleanup` that follows a provision
    cases hn
    have hg := h.grounded List.mem_cons_self
    split
    · exact runs_provisionReady h.tail hg
    · exact runs_throwFromStart h.tail hg.2 _
  · have hg := h.grounded List.mem_cons_self
    split at hn
    · cases hn
    · cases hn
      exact runs_throwFromStart h.tail hg.2 _
  · -- `dismiss` after the provisioning it waited for
    split at hn
    · next hs =>
        cases hn
        exact runs_dismissCleanup h.tail (h.landed hs)
    · cases hn
  · split at hn
    · cases hn
    · cases hn
    · cases hn
      exact runs_afterDismissCleanup h.tail
  · -- the flow inside `cleanupRuntime`
    cases hn
    exact runs_afterCleanup h
  · cases hn
    exact runs_afterCleaned h.tail
  · cases hn
    exact runs_afterRecoverInspect h.tail
  · cases hn
    exact runs_afterRecovered h.tail
  · cases hn
    exact runs_afterPendingInspect h
  · split at hn
    · cases hn
    · cases hn
      exact runs_afterPendingCleanup h
  · cases hn

/-- **One step.** Every step of the world keeps its calls sound. -/
theorem step_goesOn (h : Sound cfg.maxConcurrent w w.threads) (a : WorkerAct) :
    w.GoesOn cfg.maxConcurrent (w.step sha cfg a) := by
  cases a with
  | sendToWorker => exact World.mail_goesOn h posts_sendToWorker
  | postFromWorker => exact World.mail_goesOn h (posts_postFromWorker sha _)
  | acknowledgeForWorker => exact World.mail_goesOn h (posts_acknowledgeForWorker sha _ _)
  | acknowledgeFromWorker => exact World.mail_goesOn h (posts_acknowledgeFromWorker _)
  | storeArtifact row =>
      exact World.calm_goesOn h ⟨Ledger.storeArtifact h.valid row, rfl, rfl, rfl⟩
  | delivered id now => exact World.calm_goesOn h ⟨Ledger.deliver h.valid id now, rfl, rfl, rfl⟩
  | start => exact World.call_goesOn h (fun _ _ hs => runs_start hs)
  | dismiss => exact World.call_goesOn h (fun _ _ hs => runs_dismiss hs)
  | recoverState => exact World.call_goesOn h (fun _ _ hs => runs_recoverState hs)
  | cleanupPending => exact World.call_goesOn h (fun _ _ hs => runs_cleanupPending hs)
  | recover => exact World.call_goesOn h (fun _ _ hs => runs_recoverState hs)
  | revokeProvisioning now => exact World.calm_goesOn h (calm_revokeProvisioning h.valid)
  | resume tid s outcome =>
      simp only [World.step]
      split
      · next m hm =>
          obtain ⟨t, ht, hnext⟩ := Option.bind_eq_some_iff.mp hm
          exact World.run_goesOn h ht (fun _ hs => runs_next hnext hs)
      · exact ⟨h, Ledger.refl h.valid⟩
  | restart =>
      refine ⟨⟨h.valid, ?_, List.Pairwise.nil⟩, Ledger.refl h.valid⟩
      intro t ht
      cases ht

/-! ## Every run -/

/-- The world after some steps from an empty store. -/
def World.reached (sha : Sha256) (cfg : SpawnConfig) (acts : List WorkerAct) : World :=
  Lib.run (World.step sha cfg) (World.boot WorkerDb.empty) acts

theorem sound_reached (sha : Sha256) (cfg : SpawnConfig) (acts : List WorkerAct) :
    Sound cfg.maxConcurrent (World.reached sha cfg acts) (World.reached sha cfg acts).threads := by
  refine run_inv (I := fun w => Sound cfg.maxConcurrent w w.threads) ?_ acts ?_
  · intro w a h
    exact (step_goesOn h a).1
  · refine ⟨valid_empty _, ?_, List.Pairwise.nil⟩
    intro t ht
    cases ht

/-- From a reached world, every run goes on by the ledger. -/
theorem ledger_reached (sha : Sha256) (cfg : SpawnConfig) (acts later : List WorkerAct) :
    Ledger cfg.maxConcurrent (fun _ => True) (World.reached sha cfg acts).db
      (World.reached sha cfg (acts ++ later)).db := by
  have hs := sound_reached sha cfg acts
  have hrel : ∀ {w : World} (is : List WorkerAct), Sound cfg.maxConcurrent w w.threads →
      (w.db.Valid cfg.maxConcurrent →
        Ledger cfg.maxConcurrent (fun _ => True) w.db (run (World.step sha cfg) w is).db) := by
    intro w is h
    refine run_rel (I := fun w => Sound cfg.maxConcurrent w w.threads)
      (R := fun w w' => w.db.Valid cfg.maxConcurrent →
        Ledger cfg.maxConcurrent (fun _ => True) w.db w'.db) ?_ ?_ ?_ ?_ is h
    · intro w a h
      exact (step_goesOn h a).1
    · intro w hv
      exact Ledger.refl hv
    · intro w w₁ w₂ h₁ h₂ hv
      exact (h₁ hv).trans (h₂ (h₁ hv).valid)
    · intro w a h _
      exact (step_goesOn h a).2
  unfold World.reached at hs ⊢
  rw [run_append]
  exact hrel later hs hs.valid

/-- A session is found again in every later world. -/
theorem reached_session (sha : Sha256) (cfg : SpawnConfig) (acts later : List WorkerAct)
    {r : SessionRow}
    (hr : r ∈ (World.reached sha cfg acts).db.sessions) :
    ∃ r', (World.reached sha cfg (acts ++ later)).byId r.id = some r' ∧
      (r.status.terminal = true → r'.status.terminal = true) ∧
      (r.status = .finished → r'.status = .finished) := by
  obtain ⟨r', hr', hid, hlaw⟩ := (ledger_reached sha cfg acts later).session r hr
  exact ⟨r', Table.get?_eq_some.mpr ⟨hr', hid⟩, hlaw⟩

/-- **One finish.** In every run a session has at most one finish message, and has
one exactly when its status is `finished`. From then on the status stays and the
mailbox of the session is frozen. A finish that is rejected changes no row. -/
theorem reached_finish (sha : Sha256) (cfg : SpawnConfig) (acts : List WorkerAct) :
    (∀ id, ((World.reached sha cfg acts).db.messages.select (·.isFinishOf id)).length ≤ 1) ∧
    (∀ id, (∃ m ∈ (World.reached sha cfg acts).db.messages, m.isFinishOf id = true) ↔
      ∃ r ∈ (World.reached sha cfg acts).db.sessions, r.id = id ∧ r.status = .finished) ∧
    (∀ later, ∀ r ∈ (World.reached sha cfg acts).db.sessions, r.status = .finished →
      (∃ r', (World.reached sha cfg (acts ++ later)).byId r.id = some r' ∧
        r'.status = .finished) ∧
      (World.reached sha cfg (acts ++ later)).db.mailbox r.id =
        (World.reached sha cfg acts).db.mailbox r.id) ∧
    (∀ token key body now e db',
      postFromWorker sha token key .finish body now (World.reached sha cfg acts).db =
        (.error e, db') → db' = (World.reached sha cfg acts).db) := by
  have hv := (sound_reached sha cfg acts).valid
  refine ⟨?_, hv.agrees.finished, ?_, ?_⟩
  · intro id
    exact Table.length_select_le_one (hv.agrees.once id)
  · intro later r hr hs
    obtain ⟨r', hr', _, hfin⟩ := reached_session sha cfg acts later hr
    refine ⟨⟨r', hr', hfin hs⟩, ?_⟩
    exact (ledger_reached sha cfg acts later).frozen r.id ((hv.agrees.finished r.id).mpr ⟨r, hr, rfl, hs⟩)
  · intro token key body now e db' hpost
    exact (posts_postFromWorker sha token).error hv hpost

/-- **One worker for each item, within the limit.** In every run, at every pause of
every call, an item has at most one active session, the active sessions fit the
limit, and a session that has ended stays ended. -/
theorem reached_workers (sha : Sha256) (cfg : SpawnConfig) (acts : List WorkerAct) :
    (∀ r ∈ (World.reached sha cfg acts).db.sessions,
      ∀ r' ∈ (World.reached sha cfg acts).db.sessions, r.status.active = true →
        r'.status.active = true → r.mindId = r'.mindId → r = r') ∧
    (World.reached sha cfg acts).db.activeSessions.length ≤ cfg.maxConcurrent ∧
    ∀ later, ∀ r ∈ (World.reached sha cfg acts).db.sessions, r.status.terminal = true →
      ∃ r', (World.reached sha cfg (acts ++ later)).byId r.id = some r' ∧
        r'.status.terminal = true := by
  have hseats := (sound_reached sha cfg acts).valid.seats
  refine ⟨hseats.oneWorker, hseats.capacity, ?_⟩
  intro later r hr ht
  obtain ⟨r', hr', hterminal, _⟩ := reached_session sha cfg acts later hr
  exact ⟨r', hr', hterminal ht⟩

theorem mem_cleanupSelection {r : SessionRow} :
    r ∈ w.cleanupSelection ↔
      r ∈ w.db.sessions ∧ r.status.terminal = true ∧ r.completed = false := by
  unfold World.cleanupSelection SessionRow.completed
  rw [mem_orderBy, Table.mem_select, Bool.and_eq_true, Option.isSome_eq_false_iff]

/-- **No cleanup is early and none is forgotten.** In every run a session whose
cleanup is marked complete has ended and no `start` is in flight for it; a session
that has ended without the mark is selected by `cleanupPending`, and stays so until
it is marked. -/
theorem reached_cleanup (sha : Sha256) (cfg : SpawnConfig) (acts : List WorkerAct) :
    (∀ r ∈ (World.reached sha cfg acts).db.sessions, r.completed = true →
      r.status.terminal = true ∧
        ∀ t ∈ (World.reached sha cfg acts).threads, ∀ promise, t.flight ≠ some (r.id, promise)) ∧
    (∀ r ∈ (World.reached sha cfg acts).db.sessions, r.status.terminal = true →
      r.completed = false → r ∈ (World.reached sha cfg acts).cleanupSelection) ∧
    ∀ later, ∀ r ∈ (World.reached sha cfg acts).cleanupSelection,
      ∃ r', (World.reached sha cfg (acts ++ later)).byId r.id = some r' ∧
        (r'.completed = true ∨ r' ∈ (World.reached sha cfg (acts ++ later)).cleanupSelection) := by
  have hs := sound_reached sha cfg acts
  refine ⟨?_, ?_, ?_⟩
  · intro r hr hc
    refine ⟨hs.valid.seats.completed r hr hc, ?_⟩
    intro t ht promise hf
    have hun := ((hs.fits t ht).flight r.id promise hf).unmarked r hr rfl
    rw [hc] at hun
    cases hun
  · intro r hr ht hc
    exact mem_cleanupSelection.mpr ⟨hr, ht, hc⟩
  · intro later r hr
    obtain ⟨hmem, ht, _⟩ := mem_cleanupSelection.mp hr
    obtain ⟨r', hr', hterminal, _⟩ := reached_session sha cfg acts later hmem
    refine ⟨r', hr', ?_⟩
    cases hc : r'.completed with
    | true => exact Or.inl rfl
    | false =>
        exact Or.inr (mem_cleanupSelection.mpr ⟨Table.mem_of_get? hr', hterminal ht, hc⟩)

-- A worker is dismissed in flight, its Pod arrives, and the flow that `dismiss`
-- starts then cleans up: before that the mark is missing, afterwards it is there.
example :
    let mind := ((MindCall.create ⟨"Write it", none, none, none, none, none, none, [], [], none,
      none⟩ [7] ⟨0, 0, 0⟩).exec Js.Unicode.ascii MindDb.empty).2
    let digest := String.ofList (List.replicate 64 '0')
    let slice : Slice := ⟨true, 1, 1, 1, none⟩
    let acts := [
      WorkerAct.start slice "elm-00000007" .undefined ⟨["w1"], "quiet-fox", digest, mind⟩,
      .dismiss slice "w1",
      .resume 0 slice (.provisioned (.ok ⟨"pod", none, "ref"⟩)),
      .resume 1 slice .settled,
      .resume 2 slice (.cleanedUp (.ok ()))]
    let marks := fun n => (World.reached (fun _ => digest) ⟨true, 1, "main", fun _ => none, false⟩
      (acts.take n)).db.sessions.rows.map (fun r => (r.status, r.completed))
    marks 2 = [(.dismissed, false)] ∧ marks 4 = [(.dismissed, false)] ∧
      marks 5 = [(.dismissed, true)] := by
  decide

end Elpis.Worker
