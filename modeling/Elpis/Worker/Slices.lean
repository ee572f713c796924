import Elpis.Worker.Flights

/-!
# Workers: every slice is sound

One specification for each slice of the broker, in the order of
`src/worker/spawn.ts`: from calls that are sound it yields calls that are sound.
-/

namespace Elpis.Worker

open Elpis.Lib Elpis.Mind

variable {cap : ℕ} {w w' : World} {t : Thread} {ts : List Thread} {id : String} {promise job : ℕ}
  {s : Slice}

/-! ## Ends of a slice -/

/-- A slice that ends by waiting for `cleanupRuntime`. -/
theorem runs_cleanup {always : Bool} {pause : ℕ → Thread} (h : Sound cap w ts)
    (hg : Grounded w ts id) (hflight : ∀ job, (pause job).flight = none)
    (hclear : ∀ job, ∀ i ∈ (pause job).cleared, i = id) (hawait : ∀ job, (pause job).awaited = none)
    (hlist : ∀ job, ∀ i ∈ (pause job).listed, w.Known i) :
    Runs cap w ts (do let job ← cleanupRuntime id always; pure (pause job)) w := by
  simp only [Runs, Tx.wp_bind, Tx.wp_pure]
  refine Tx.wp_mono ?_ (fun _ _ he => he) (wp_cleanupRuntime h hg)
  rintro job w' ⟨hdb, new, hthreads, hs, hnew⟩
  have hl : Ledger cap (fun _ => True) w.db w'.db := by
    rw [hdb]
    exact Ledger.refl h.valid
  have hknown : ∀ i, w.Known i → w'.Known i := by
    intro i hi
    unfold World.Known
    rw [hdb]
    exact hi
  refine ⟨hl, new, hthreads, hs.ground (hflight job) ?_ ?_ ?_⟩
  · intro i hi
    cases hclear job i hi
    refine ⟨hknown id hg.1, ?_⟩
    intro u hu p hf
    rcases List.mem_append.mp hu with hu | hu
    · rw [hnew u hu] at hf
      cases hf
    · exact hg.2 u hu p hf
  · intro i p ha
    rw [show (Thread.ofResult (.ok (pause job))).awaited = none from hawait job] at ha
    cases ha
  · intro i hi
    exact hknown i (hlist job i hi)

theorem runs_endProvisioning {f : Unit → SpawnM Thread} (h : Sound cap w ts) (hc : Clear ts id)
    (hf : ∀ w', Sound cap w' ts → w'.db = w.db → Runs cap w' ts (f ()) w') :
    Runs cap w ts (endProvisioning id promise >>= f) w := by
  refine Runs.bind (Tx.wp_mono ?_ (fun _ _ he => he) (wp_endProvisioning h hc))
  rintro _ w' ⟨hs, hdb, hthreads⟩
  have hl : Ledger cap (fun _ => True) w.db w'.db := by
    rw [hdb]
    exact Ledger.refl h.valid
  exact ⟨hthreads, hl, hf w' hs hdb⟩

theorem runs_throwFromStart (h : Sound cap w ts) (hc : Clear ts id) (e : SpawnError) :
    Runs cap w ts (throwFromStart id promise e) w :=
  runs_endProvisioning h hc (fun _ hs _ => Runs.throw (Yields.throw hs e))

theorem runs_returnSession (h : Sound cap w ts) (hc : Clear ts id) :
    Runs cap w ts (returnSession id promise) w := by
  refine runs_endProvisioning h hc ?_
  intro w' hs _
  simp only [Runs, Tx.wp_bind, Tx.wp_read, Tx.wp_pure]
  exact Yields.stop hs _

/-! ## Starting -/

theorem runs_provisionFailed {error : String} (h : Sound cap w ts) (hg : Grounded w ts id) :
    Runs cap w ts (provisionFailed s id promise error) w := by
  simp only [provisionFailed, Runs, Tx.wp_bind, Tx.wp_read, Tx.wp_write]
  generalize hw : w.setSession id _ _ _ = w₁
  have hcalm : Calm cap w w₁ := by
    rw [← hw]
    exact Calm.setSession h.valid SessionRow.active_of_spawning (fun _ => rfl)
      (fun _ _ hs => by cases hs) (fun _ hc => hc)
  have h₁ := h.calm hcalm
  have hg₁ := hg.move hcalm.ledger
  refine Runs.moves hcalm ?_
  split
  · exact runs_returnSession h₁ hg₁.2
  · refine runs_cleanup h₁ hg₁ (fun _ => rfl) ?_ (fun _ => rfl) (fun _ _ hi => by cases hi)
    intro job i hi
    exact List.mem_singleton.mp hi

theorem runs_provisionReady {receipt : ProvisionReceipt} (h : Sound cap w ts)
    (hg : Grounded w ts id) : Runs cap w ts (provisionReady s id promise receipt) w := by
  simp only [provisionReady, Runs, Tx.wp_bind, Tx.wp_read, Tx.wp_write]
  generalize hw : w.setSession id _ _ _ = w₁
  have hcalm : Calm cap w w₁ := by
    rw [← hw]
    exact Calm.setSession h.valid SessionRow.active_of_spawning (fun _ => rfl)
      (fun _ _ hs => by cases hs) (fun _ hc => hc)
  have h₁ := h.calm hcalm
  have hg₁ := hg.move hcalm.ledger
  refine Runs.moves hcalm ?_
  split
  · exact runs_returnSession h₁ hg₁.2
  · refine runs_cleanup h₁ hg₁ (fun _ => rfl) ?_ (fun _ => rfl) (fun _ _ hi => by cases hi)
    intro job i hi
    exact List.mem_singleton.mp hi

/-- A call of `start` that pauses again after its flight. -/
theorem yields_cleared (h : Sound cap w ts) (hg : Grounded w ts id) (hflight : t.flight = none)
    (hclear : t.cleared = [id]) (hawait : t.awaited = none) (hlist : t.listed = []) :
    Yields cap w ts (.ok t) w := by
  refine Yields.here (h.ground hflight ?_ ?_ ?_)
  · intro i hi
    rw [show (Thread.ofResult (.ok t)).cleared = [id] from hclear] at hi
    cases List.mem_singleton.mp hi
    exact hg
  · intro i p ha
    rw [show (Thread.ofResult (.ok t)).awaited = none from hawait] at ha
    cases ha
  · intro i hi
    rw [show (Thread.ofResult (.ok t)).listed = [] from hlist] at hi
    cases hi

theorem runs_afterProvision {r : Except String ProvisionReceipt}
    (h : Sound cap w (.startProvision id promise :: ts)) :
    Runs cap w ts (afterProvision s id promise r) w := by
  -- the flight lands: nobody else holds its promise or its session
  have h₁ : Sound cap { w with settled := w.settled.set promise true } ts :=
    h.tail.settle (h.promise_ne rfl)
  have hg : Grounded { w with settled := w.settled.set promise true } ts id :=
    h.clear_of_flight rfl
  simp only [afterProvision, settleProvisioning, Runs, Tx.wp_bind, Tx.wp_write]
  refine Runs.after (Ledger.refl h.valid) rfl ?_
  cases r with
  | error e =>
      simp only [Runs, Tx.wp_ite, Tx.wp_pure]
      exact ⟨fun _ => runs_provisionFailed h₁ hg, fun _ => yields_cleared h₁ hg rfl rfl rfl rfl⟩
  | ok receipt =>
      simp only [Runs, Tx.wp_ite, Tx.wp_pure]
      exact ⟨fun _ => runs_provisionReady h₁ hg, fun _ => yields_cleared h₁ hg rfl rfl rfl rfl⟩

/-- Binding the source leaves the memory alone and marks nothing. -/
theorem wp_bindSource {r : Except SourceFailure (Option SourceReceipt)} (h : w.db.Valid cap) :
    Tx.wp (bindSource s id r) (fun _ w' => Calm cap w w') (fun _ w' => Calm cap w w') w := by
  cases r with
  | error e => exact Tx.wp_throw.mpr (Moves.refl h)
  | ok source =>
      simp only [bindSource, requireOperationCurrent, Tx.wp_bind, Tx.wp_ensure]
      refine ⟨fun _ => ?_, fun _ => Moves.refl h⟩
      cases source with
      | none => exact Tx.wp_pure.mpr (Moves.refl h)
      | some receipt =>
          simp only [discardSource, Tx.wp_bind, Tx.wp_read, Tx.wp_ensure, Tx.wp_write, Tx.wp_ite,
            Tx.wp_pure, Tx.wp_throw]
          refine ⟨fun _ => ?_, fun _ => Moves.refl h⟩
          generalize hw : w.setSession id _ _ _ = w₁
          have hcalm : Calm cap w w₁ := by
            rw [← hw]
            refine Calm.setSession h ?_ (fun _ => rfl) ?_ (fun _ hc => hc)
            · intro r hr
              exact r.active_of_spawning (Bool.and_eq_true_iff.mp hr).1
            · intro r hr
              have hs := of_decide_eq_true (Bool.and_eq_true_iff.mp hr).1
              show r.status ≠ .finished
              rw [hs]
              decide
          exact ⟨fun _ => hcalm, fun _ => ⟨fun _ => hcalm, fun _ => hcalm⟩⟩

/-- A failed source preparation always throws. It marks its own session only. -/
theorem wp_sourceFailed {dirty : Bool} {e : SpawnError} (h : w.db.Valid cap) :
    Tx.wp (sourceFailed s id dirty e) (fun _ _ => False)
      (fun _ w' => Moves cap (fun i => i = id) w w') w := by
  simp only [sourceFailed, discardSource, requireOperationCurrent, Tx.wp_bind, Tx.wp_ensure,
    Tx.wp_write]
  refine ⟨fun _ => ⟨fun _ => ?_, fun _ => Moves.refl h⟩, fun _ => Moves.refl h⟩
  generalize hw : w.setSession id _ _ _ = w₁
  have hm : Moves cap (fun i => i = id) w w₁ := by
    rw [← hw]
    refine ⟨Ledger.update h ?_ ?_ ?_, rfl, rfl, rfl⟩
    · intro r _ hp
      refine ⟨rfl, fun _ => r.active_of_spawning (Bool.and_eq_true_iff.mp hp).2, ?_, fun _ => rfl⟩
      intro hs
      have hsp := of_decide_eq_true (Bool.and_eq_true_iff.mp hp).2
      rw [hs] at hsp
      cases hsp
    · intro r _ _ hs
      cases hs
    · intro r _ hp _
      exact Or.inr (of_decide_eq_true (Bool.and_eq_true_iff.mp hp).1)
  cases e with
  | spawn code message => exact Tx.wp_throw.mpr hm
  | other message => exact Tx.wp_throw.mpr hm

theorem runs_afterSource {r : Except SourceFailure (Option SourceReceipt)}
    (h : Sound cap w (.startSource id promise :: ts)) :
    Runs cap w ts (afterSource s id promise r) w := by
  refine Runs.bind ?_
  rw [Tx.wp_attempt]
  refine Tx.wp_mono ?_ ?_ (wp_bindSource h.valid)
  · intro _ w₁ hcalm
    refine ⟨hcalm.threads, hcalm.ledger.any, ?_⟩
    exact Runs.pure (Yields.here ((h.calm hcalm).stay rfl rfl rfl rfl))
  · intro e w₁ hcalm
    refine ⟨hcalm.threads, hcalm.ledger.any, ?_⟩
    have h₁ := h.calm hcalm
    have hg := h₁.clear_of_flight rfl
    refine Runs.bind ?_
    rw [Tx.wp_attempt]
    refine Tx.wp_mono (fun _ _ hf => hf.elim) ?_ (wp_sourceFailed h₁.valid)
    intro e' w₂ hm
    have h₂ : Sound cap w₂ ts := by
      refine h₁.tail.moves hm ?_
      rintro i rfl
      exact hg.2
    refine ⟨hm.threads, hm.ledger.any, ?_⟩
    refine Runs.bind (Tx.wp_write.mpr ⟨rfl, Ledger.refl h₂.valid, ?_⟩)
    exact runs_throwFromStart (h₂.settle (h₁.promise_ne rfl)) hg.2 e'

/-- What the admission leaves: one more session, under a new identity. -/
structure Admitted (cap : ℕ) (w : World) (id : String) (w' : World) : Prop where
  calm : Calm cap w w'
  fresh : ¬w.Known id
  known : w'.Known id
  unmarked : ∀ r ∈ w'.db.sessions, r.id = id → r.completed = false

theorem wp_admission {cfg : SpawnConfig} {mindId : CanonicalId} {modelRef : String}
    {draws : StartDraws} {now : Time} (h : w.db.Valid cfg.maxConcurrent) :
    Tx.wp (admission cfg mindId modelRef draws now) (Admitted cfg.maxConcurrent w)
      (fun _ w' => w' = w) w := by
  simp only [admission, insertSession, Tx.wp_transaction, Tx.wp_bind, Tx.wp_read, Tx.wp_ensure,
    Tx.wp_require, Tx.wp_write, Tx.wp_pure, implies_true, and_true]
  intro hcap hmind id _ _ sessions hsessions
  obtain ⟨fresh, rfl⟩ := Table.insert?_eq_some.mp hsessions
  have hmem : ∀ r, r ∈ w.db.sessions.insert (spawningRow id draws.slug modelRef mindId draws.digest
      now) fresh ↔ _ := fun r => Table.mem_insert
  refine ⟨⟨Ledger.admission h hcap hmind rfl rfl, rfl, rfl, rfl⟩, ?_, ?_, ?_⟩
  · rintro ⟨r, hr, hid⟩
    exact fresh r hr hid
  · exact ⟨_, (hmem _).mpr (Or.inr rfl), rfl⟩
  · intro r hr hid
    rcases (hmem r).mp hr with hr | rfl
    · exact absurd hid (fresh r hr)
    · rfl

/-- A new flight: its session and its promise are new to all the others. -/
theorem Sound.launch (h : Sound cap w ts) (ha : Admitted cap w id w')
    (hflight : t.flight = some (id, w'.settled.length)) (hclear : t.cleared = [])
    (hawait : t.awaited = none) (hlist : t.listed = []) :
    Sound cap { w' with
      settled := w'.settled ++ [false]
      provisioning := w'.provisioning.insert id w'.settled.length } (t :: ts) := by
  have h₁ := h.calm ha.calm
  have hne : ∀ u ∈ ts, ∀ i p, u.flight = some (i, p) → i ≠ id ∧ p < w'.settled.length := by
    intro u hu i p hf
    refine ⟨?_, ?_⟩
    · rintro rfl
      exact ha.fresh ((h.fits u hu).flight i p hf).known
    · exact (List.getElem?_eq_some_iff.mp ((h₁.fits u hu).flight i p hf).unsettled).1
  have hothers : Sound cap { w' with
      settled := w'.settled ++ [false]
      provisioning := w'.provisioning.insert id w'.settled.length } ts := by
    refine h₁.memory rfl ?_ ?_
    · intro u hu i p hf hheld
      show (w'.provisioning.insert id _).lookup i = some p
      rw [AList.lookup_insert_ne (hne u hu i p hf).1]
      exact hheld
    · intro u hu i p hf hs
      show (w'.settled ++ [false])[p]? = some false
      rw [List.getElem?_append_left (hne u hu i p hf).2]
      exact hs
  refine ⟨hothers.valid, ?_, List.pairwise_cons.mpr ⟨?_, hothers.apart⟩⟩
  · intro u hu
    rcases List.mem_cons.mp hu with rfl | hu
    · refine ⟨?_, ?_, ?_, ?_⟩
      · intro i p hf
        rw [hflight] at hf
        cases hf
        refine ⟨ha.known, AList.lookup_insert _, ?_, ha.unmarked⟩
        show (w'.settled ++ [false])[w'.settled.length]? = some false
        rw [List.getElem?_concat_length]
      · rw [hclear]
        intro i hi
        cases hi
      · rw [hawait]
        intro i p hi
        cases hi
      · rw [hlist]
        intro i hi
        cases hi
    · exact hothers.fits u hu
  · intro u hu
    have hfits := h.fits u hu
    refine ⟨?_, ?_⟩
    · intro i p hf
      rw [hflight] at hf
      cases hf
      refine ⟨?_, ?_, ?_⟩
      · intro i' p' hf'
        obtain ⟨hi, hp⟩ := hne u hu i' p' hf'
        exact ⟨hi, by omega⟩
      · intro hc
        exact ha.fresh (hfits.cleared id hc)
      · intro p' hp'
        exact absurd (hfits.awaited id p' hp') ha.fresh
    · intro i p hf
      obtain ⟨hi, hp⟩ := hne u hu i p hf
      rw [hflight, hclear, hawait]
      refine ⟨?_, List.not_mem_nil, ?_⟩
      · intro i' p' hf'
        cases hf'
        exact ⟨hi.symm, by omega⟩
      · intro p' ha'
        cases ha'

theorem runs_start {cfg : SpawnConfig} {mindId : String} {value : StartValue} {draws : StartDraws}
    (h : Sound cfg.maxConcurrent w ts) :
    Runs cfg.maxConcurrent w ts (start cfg s mindId value draws) w := by
  simp only [start, requireOperationCurrent, Runs, Tx.wp_bind, Tx.wp_ensure, Tx.wp_ofExcept]
  refine ⟨fun _ => ?_, fun _ => Yields.throw h _⟩
  refine ⟨fun _ => ?_, fun _ => Yields.throw h _⟩
  refine ⟨fun item _ => ?_, fun e _ => Yields.throw h e⟩
  refine ⟨fun input _ => ?_, fun e _ => Yields.throw h e⟩
  refine ⟨fun _ => ?_, fun _ => Yields.throw h _⟩
  refine Tx.wp_mono ?_ ?_ (wp_admission h.valid)
  · intro id w' ha
    simp only [Tx.wp_read, Tx.wp_write, Tx.wp_pure]
    refine ⟨ha.calm.ledger.any, [], ?_, ?_⟩
    · rw [List.append_nil]
      exact ha.calm.threads
    · cases cfg.hasWorkspace with
      | true => exact h.launch ha rfl rfl rfl rfl
      | false => exact h.launch ha rfl rfl rfl rfl
  · rintro e w' rfl
    exact Yields.throw h e

/-! ## Dismissing -/

theorem runs_dismissCleanup (h : Sound cap w ts) (hg : Grounded w ts id) :
    Runs cap w ts (dismissCleanup s id) w := by
  simp only [dismissCleanup, requireOperationCurrent]
  refine Runs.bind ?_
  rw [Tx.wp_ensure]
  refine ⟨fun _ => ⟨rfl, Ledger.refl h.valid, ?_⟩, fun _ => Yields.throw h _⟩
  exact runs_cleanup h hg (fun _ => rfl) (fun _ _ hi => by cases hi) (fun _ => rfl)
    (fun _ _ hi => by cases hi)

theorem wp_resolve {ref : String} :
    Tx.wp (resolve ref) (fun row w' => w' = w ∧ row ∈ w.db.sessions) (fun _ w' => w' = w) w := by
  simp only [resolve, Tx.wp_bind, Tx.wp_ensure, Tx.wp_read]
  refine ⟨fun _ => ?_, fun _ => trivial⟩
  split
  · exact Tx.wp_throw.mpr rfl
  · next row heq =>
      rw [Tx.wp_pure]
      refine ⟨rfl, ?_⟩
      have hmem := List.mem_singleton_self row
      rw [← heq] at hmem
      exact (Table.mem_select.mp hmem).1
  · exact Tx.wp_throw.mpr rfl

theorem runs_dismiss {ref : String} (h : Sound cap w ts) : Runs cap w ts (dismiss s ref) w := by
  simp only [dismiss, requireOperationCurrent, Runs, Tx.wp_bind, Tx.wp_ensure]
  refine ⟨fun _ => ?_, fun _ => Yields.throw h _⟩
  refine Tx.wp_mono ?_ ?_ wp_resolve
  · rintro session w' ⟨rfl, hsession⟩
    simp only [Tx.wp_read, Tx.wp_write]
    generalize hw : w'.setSession session.id _ _ _ = w₁
    have hcalm : Calm cap w' w₁ := by
      rw [← hw]
      exact Calm.setSession h.valid (fun _ ha => ha) (fun _ => rfl) (fun _ _ hs => by cases hs)
        (fun _ hc => hc)
    have h₁ := h.calm hcalm
    have hk : w₁.Known session.id := by
      obtain ⟨r, hr, hid, _⟩ := hcalm.ledger.session session hsession
      exact ⟨r, hr, hid⟩
    refine Runs.moves hcalm ?_
    split
    · exact Runs.pure (Yields.stop h₁ _)
    · simp only [Runs, Tx.wp_bind, Tx.wp_read]
      cases hl : w₁.provisioning.lookup session.id with
      | none => exact runs_dismissCleanup h₁ (h₁.grounded_of_lookup hk hl)
      | some promise =>
          refine Runs.pure (Yields.here ?_)
          refine (h₁.ground rfl (fun _ hi => by cases hi) ?_ (fun _ hi => by cases hi))
          intro i p hip
          cases hip
          refine ⟨hk, ?_⟩
          intro u hu p' hf
          have hheld := ((h₁.fits u hu).flight _ p' hf).held
          rw [hl] at hheld
          cases hheld
          rfl
  · rintro e w' rfl
    exact Yields.throw h e

theorem runs_afterDismissCleanup {state : PromiseState} (h : Sound cap w ts) :
    Runs cap w ts (afterDismissCleanup s id state) w := by
  simp only [afterDismissCleanup, requireOperationCurrent, Runs, Tx.wp_bind, Tx.wp_ensure,
    Tx.wp_read, Tx.wp_pure]
  exact ⟨fun _ => ⟨fun _ => Yields.stop h _, fun _ => Yields.throw h _⟩, fun _ => Yields.throw h _⟩

/-! ## Cleaning up -/

/-- A mark goes to a session that is over and that nobody is in flight for. -/
theorem runs_afterCleanup {always : Bool} {r : Except String Unit}
    (h : Sound cap w (.cleaning id job always :: ts)) :
    Runs cap w ts (afterCleanup s id job always r) w := by
  have hg : Grounded w ts id := h.grounded (List.mem_singleton_self id)
  have hdone : ∀ {w₁ : World} (ok : Bool), Moves cap (fun i => i = id) w w₁ →
      Yields cap w ts (.ok (.cleaned id job ok)) w₁ := by
    intro w₁ ok hm
    refine ⟨hm.ledger.any, [], (List.append_nil _).symm ▸ hm.threads, ?_⟩
    refine Sound.idle (h.tail.moves hm ?_) rfl rfl rfl rfl
    rintro i rfl
    exact hg.2
  have hterminal : ∀ r : SessionRow, (decide (r.id = id) && (r.status.terminal &&
      r.runtimeCleanupCompletedAt.isNone)) = true → r.status.terminal = true := by
    intro r hr
    exact (Bool.and_eq_true_iff.mp (Bool.and_eq_true_iff.mp hr).2).1
  cases r with
  | error e =>
      simp only [afterCleanup, Runs, Tx.wp_bind, Tx.wp_when, Tx.wp_write, Tx.wp_pure]
      refine ⟨fun _ => hdone _ ⟨Ledger.update h.valid ?_ (fun _ _ _ hs => hs)
        (fun _ _ _ hc => Or.inl hc), rfl, rfl, rfl⟩, fun _ => hdone _ (Moves.refl h.valid)⟩
      intro r _ hp
      exact ⟨rfl, fun ha => ha, fun hs => hs, fun _ => hterminal r hp⟩
  | ok =>
      simp only [afterCleanup, Runs, Tx.wp_bind, Tx.wp_when, Tx.wp_write, Tx.wp_pure]
      refine ⟨fun _ => hdone _ ⟨Ledger.update h.valid ?_ (fun _ _ _ hs => hs) ?_, rfl, rfl, rfl⟩,
        fun _ => hdone _ (Moves.refl h.valid)⟩
      · intro r _ hp
        exact ⟨rfl, fun ha => ha, fun hs => hs, fun _ => hterminal r hp⟩
      · intro r _ hp _
        exact Or.inr (of_decide_eq_true (Bool.and_eq_true_iff.mp hp).1)

theorem runs_afterCleaned {ok : Bool} (h : Sound cap w ts) :
    Runs cap w ts (afterCleaned id job ok) w := by
  simp only [afterCleaned, Runs, Tx.wp_bind, Tx.wp_write, Tx.wp_pure]
  split
  · exact ⟨Ledger.refl h.valid, [], (List.append_nil _).symm,
      Sound.idle (h.still rfl rfl rfl) rfl rfl rfl rfl⟩
  · exact ⟨Ledger.refl h.valid, [], (List.append_nil _).symm,
      Sound.idle (h.still rfl rfl rfl) rfl rfl rfl rfl⟩

variable {rest : List (String × Bool)}

/-- The loop looks at known sessions; it goes on with those outside the map. -/
theorem runs_pendingLoop :
    ∀ {w : World}, Sound cap w ts → (∀ i ∈ rest.map Prod.fst, w.Known i) →
      Runs cap w ts (pendingLoop s rest) w := by
  induction rest with
  | nil =>
      intro w h _
      simp only [pendingLoop, Runs, Tx.wp_bind, Tx.wp_read, Tx.wp_pure]
      exact Yields.stop h _
  | cons row rest ih =>
      obtain ⟨id, finished⟩ := row
      intro w h hk
      have hkrest : ∀ i ∈ rest.map Prod.fst, w.Known i :=
        fun i hi => hk i (List.mem_cons_of_mem _ hi)
      simp only [pendingLoop, Runs, Tx.wp_bind, Tx.wp_read, Tx.wp_ite, Tx.wp_pure, Tx.wp_write]
      refine ⟨fun _ => Yields.stop h _, fun _ => ⟨fun _ => ih h hkrest, fun hl => ?_⟩⟩
      rw [Bool.not_eq_true, Option.isSome_eq_false_iff, Option.isNone_iff_eq_none] at hl
      have hg := h.grounded_of_lookup (hk id List.mem_cons_self) hl
      refine ⟨fun _ => ?_, fun _ => ?_⟩
      · refine ⟨Ledger.refl h.valid, [], (List.append_nil _).symm, ?_⟩
        refine Sound.ground (h.still rfl rfl rfl) rfl ?_ (fun _ _ ha => by cases ha) hkrest
        intro i hi
        cases List.mem_singleton.mp hi
        exact hg
      · have hr : Runs cap w ts (do
            let job ← cleanupRuntime id false
            pure (.pendingCleanup id job rest)) w :=
          runs_cleanup h hg (fun _ => rfl) (fun _ _ hi => by cases hi) (fun _ => rfl)
            (fun _ i hi => hkrest i hi)
        simp only [Runs, Tx.wp_bind, Tx.wp_pure] at hr
        exact hr

theorem runs_cleanupPending (h : Sound cap w ts) : Runs cap w ts (cleanupPending s) w := by
  simp only [cleanupPending, Runs, Tx.wp_bind, Tx.wp_read, Tx.wp_ite, Tx.wp_pure]
  refine ⟨fun _ => runs_pendingLoop h ?_, fun _ => Yields.stop h _⟩
  intro i hi
  simp only [World.cleanupSelection, List.map_map, List.mem_map, mem_orderBy,
    Table.mem_select] at hi
  obtain ⟨r, ⟨hr, _⟩, hid⟩ := hi
  exact ⟨r, hr, hid⟩

theorem runs_afterPendingInspect {graceExpired : Bool}
    {r : Except String ProvisionState} (h : Sound cap w (.pendingInspect id graceExpired rest :: ts)) :
    Runs cap w ts (afterPendingInspect s id graceExpired rest r) w := by
  have hg := h.grounded (List.mem_singleton_self id)
  have hk : ∀ i ∈ rest.map Prod.fst, w.Known i := h.head.listed
  have hgo : ∀ goOn : Bool, Runs cap w ts (if goOn then do
      let job ← cleanupRuntime id false
      pure (.pendingCleanup id job rest)
    else pendingLoop s rest) w := by
    intro goOn
    cases goOn with
    | true =>
        exact runs_cleanup h.tail hg (fun _ => rfl) (fun _ _ hi => by cases hi) (fun _ => rfl)
          (fun _ => hk)
    | false => exact runs_pendingLoop h.tail hk
  unfold afterPendingInspect
  split
  · exact Runs.pure (Yields.stop h.tail _)
  · exact hgo _

theorem runs_afterPendingCleanup
    (h : Sound cap w (.pendingCleanup id job rest :: ts)) :
    Runs cap w ts (afterPendingCleanup s id rest) w := by
  have hk : ∀ i ∈ rest.map Prod.fst, w.Known i := h.head.listed
  unfold afterPendingCleanup
  split
  · exact Runs.pure (Yields.stop h.tail _)
  · refine Runs.bind ?_
    rw [Tx.wp_write]
    split
    · exact ⟨rfl, Ledger.refl h.valid, runs_pendingLoop (h.tail.still rfl rfl rfl) hk⟩
    · exact ⟨rfl, Ledger.refl h.valid, runs_pendingLoop h.tail hk⟩

/-! ## Recovering -/

/-- A session with a finish message is finished, so there is nothing to repair. -/
theorem calm_markFinished {E : SpawnError → World → Prop} (h : w.db.Valid cap)
    (hfin : w.db.hasDurableFinish id = true) :
    Tx.wp (markFinished id) (fun _ w' => Calm cap w w') E w := by
  have hnone : ∀ r ∈ w.db.sessions,
      ¬(decide (r.id = id) && r.status.active) = true := by
    intro r hr hp
    obtain ⟨hid, ha⟩ := Bool.and_eq_true_iff.mp hp
    obtain ⟨r', hr', hid', hs⟩ := (h.agrees.finished id).mp (WorkerDb.finishOf_isSome.mp hfin)
    rw [Table.eq_of_key hr hr' ((of_decide_eq_true hid).trans hid'.symm), hs] at ha
    cases ha
  simp only [markFinished, Tx.wp_bind, Tx.wp_read, Tx.wp_write]
  exact ⟨Ledger.update h (fun r hr hp => absurd hp (hnone r hr))
    (fun r hr hp => absurd hp (hnone r hr)) (fun r hr hp => absurd hp (hnone r hr)), rfl, rfl, rfl⟩

theorem calm_finishFailed (h : w.db.Valid cap) : Calm cap w w.finishFailed := by
  have hnone : ∀ r ∈ w.db.sessions,
      ¬(decide (r.status = .failed) && w.db.hasDurableFinish r.id) = true := by
    intro r hr hp
    obtain ⟨hs, hfin⟩ := Bool.and_eq_true_iff.mp hp
    obtain ⟨r', hr', hid', hs'⟩ := (h.agrees.finished r.id).mp (WorkerDb.finishOf_isSome.mp hfin)
    rw [← Table.eq_of_key hr' hr hid', hs'] at hs
    cases of_decide_eq_true hs
  exact ⟨Ledger.update h (fun r hr hp => absurd hp (hnone r hr))
    (fun r hr hp => absurd hp (hnone r hr)) (fun r hr hp => absurd hp (hnone r hr)), rfl, rfl, rfl⟩

/-- A pause of `recoverState` holds nothing. -/
theorem yields_recover (h : Sound cap w ts) (thenCleanup : Bool)
    (r : Except SpawnError (List SessionRow)) :
    Yields cap w ts (.ok (if thenCleanup then .recovered else .returned r)) w := by
  cases thenCleanup with
  | true => exact Yields.here (h.idle rfl rfl rfl rfl)
  | false => exact Yields.stop h r

theorem runs_recoverLoop {thenCleanup : Bool} {rest : List String} :
    ∀ {w : World}, Sound cap w ts → Runs cap w ts (recoverLoop s thenCleanup rest) w := by
  induction rest with
  | nil =>
      intro w h
      simp only [recoverLoop, Runs, Tx.wp_bind, Tx.wp_read, Tx.wp_pure]
      exact yields_recover h thenCleanup _
  | cons id rest ih =>
      intro w h
      simp only [recoverLoop, Runs, Tx.wp_bind, Tx.wp_read, Tx.wp_ite, Tx.wp_pure]
      refine ⟨fun _ => yields_recover h thenCleanup _, fun _ => ⟨fun hfin => ?_, fun _ => ?_⟩⟩
      · refine Tx.wp_mono ?_ (fun _ _ he => he) (calm_markFinished h.valid hfin)
        intro _ w' hcalm
        exact Runs.moves hcalm (ih (h.calm hcalm))
      · exact Yields.here (h.idle rfl rfl rfl rfl)

theorem runs_recoverState {thenCleanup : Bool} (h : Sound cap w ts) :
    Runs cap w ts (recoverState s thenCleanup) w := by
  unfold recoverState
  split
  · exact Runs.pure (yields_recover h thenCleanup _)
  · have hcalm := calm_finishFailed h.valid
    refine Runs.bind (Tx.wp_write.mpr ⟨hcalm.threads, hcalm.ledger.any, ?_⟩)
    refine Runs.bind (Tx.wp_read.mpr ⟨rfl, Ledger.refl hcalm.ledger.valid, ?_⟩)
    exact runs_recoverLoop (h.calm hcalm)

theorem runs_afterRecoverInspect {thenCleanup : Bool} {rest : List String}
    {r : Except String ProvisionState} (h : Sound cap w ts) :
    Runs cap w ts (afterRecoverInspect s id rest thenCleanup r) w := by
  have hloop : Runs cap w ts (recoverLoop s thenCleanup rest) w := runs_recoverLoop h
  -- a row the loop sets stays active, or fails
  have hset : ∀ (f : SessionRow → SessionRow) (hf : ∀ r, (f r).id = r.id),
      (∀ r, (f r).mindId = r.mindId) → (∀ r, (f r).status ≠ .finished) →
      (∀ r, (f r).completed = true → r.completed = true) →
      Runs cap w ts (recoverLoop s thenCleanup rest) (w.setSession id (·.status.active) f hf) := by
    intro f hf hmind hfin hmark
    have hcalm : Calm cap w (w.setSession id (·.status.active) f hf) :=
      Calm.setSession h.valid (fun _ ha => ha) hmind (fun r _ => hfin r) hmark
    exact Runs.moves hcalm (runs_recoverLoop (h.calm hcalm))
  simp only [afterRecoverInspect, Runs, Tx.wp_bind, Tx.wp_read, Tx.wp_ite, Tx.wp_pure]
  refine ⟨fun _ => yields_recover h thenCleanup _, fun _ => ⟨fun hfin => ?_, fun _ => ?_⟩⟩
  · refine Tx.wp_mono ?_ (fun _ _ he => he) (calm_markFinished h.valid hfin)
    intro _ w' hcalm
    exact Runs.moves hcalm (runs_recoverLoop (h.calm hcalm))
  · cases r with
    | error e => exact hloop
    | ok state =>
        cases state with
        | pending receipt => exact hloop
        | ready receipt =>
            refine Tx.wp_bind.mpr (Tx.wp_write.mpr ?_)
            exact hset _ _ (fun _ => rfl) (fun _ hs => by cases hs) (fun _ hc => hc)
        | succeeded receipt =>
            refine Tx.wp_bind.mpr (Tx.wp_write.mpr ?_)
            exact hset _ _ (fun _ => rfl) (fun _ hs => by cases hs) (fun _ hc => hc)
        | failed error receipt =>
            refine Tx.wp_bind.mpr (Tx.wp_write.mpr ?_)
            exact hset _ _ (fun _ => rfl) (fun _ hs => by cases hs) (fun _ hc => hc)
        | missing =>
            refine Tx.wp_bind.mpr (Tx.wp_write.mpr ?_)
            exact hset _ _ (fun _ => rfl) (fun _ hs => by cases hs) (fun _ hc => hc)

theorem runs_afterRecovered (h : Sound cap w ts) : Runs cap w ts (afterRecovered s) w := by
  unfold afterRecovered
  split
  · exact runs_cleanupPending h
  · exact Runs.pure (Yields.stop h _)

/-- Revoking what is in flight ends sessions and marks nothing. -/
theorem calm_revokeProvisioning {now : Time} (h : w.db.Valid cap) :
    Calm cap w (revokeProvisioning now w).2 := by
  refine Calm.active h ?_ (fun _ => rfl) (fun _ _ hs => by cases hs) (fun _ hc => by cases hc)
  intro r hr
  exact r.active_of_spawning (Bool.and_eq_true_iff.mp hr).2

end Elpis.Worker
