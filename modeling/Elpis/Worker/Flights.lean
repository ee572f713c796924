import Elpis.Worker.Ledger

/-!
# Workers: who is still provisioning

A `start` between its admission and the end of `provision` is in flight. The rest
of the broker must not mark the cleanup of its session, and knows only a map and a
list of promises. `Sound cap w ts` is what makes that enough: each call in `ts`
fits the state `w`, and no two of them contradict each other. A slice takes one
call from one pause to the next while the others stay where they are, so its
specification, `Yields`, is about a list of calls whose head goes on.
-/

namespace Elpis.Worker

open Elpis.Lib Elpis.Mind

/-! ## What a paused call stands for -/

/-- The session and the promise of a call in flight. -/
def Thread.flight : Thread → Option (String × ℕ)
  | .startSource id promise | .startProvision id promise => some (id, promise)
  | _ => none

/-- The sessions a call takes to be no longer in flight. -/
def Thread.cleared : Thread → List String
  | .startFailedCleanup id _ _ | .startFailedWait id _ _ _ | .startReadyCleanup id _ _
  | .startRevokedWait id _ _ | .cleaning id _ _ | .pendingInspect id _ _ => [id]
  | _ => []

/-- The flight a call waits for. -/
def Thread.awaited : Thread → Option (String × ℕ)
  | .dismissProvisioning id promise => some (id, promise)
  | _ => none

/-- The sessions a call still has to look at. -/
def Thread.listed : Thread → List String
  | .pendingInspect _ _ rest | .pendingCleanup _ _ rest => rest.map Prod.fst
  | _ => []

def World.Known (w : World) (id : String) : Prop := ∃ r ∈ w.db.sessions, r.id = id

/-- What the memory and the rows hold for a session in flight. -/
structure Flying (w : World) (id : String) (promise : ℕ) : Prop where
  known : w.Known id
  held : w.provisioning.lookup id = some promise
  unsettled : w.settled[promise]? = some false
  unmarked : ∀ r ∈ w.db.sessions, r.id = id → r.completed = false

/-- A call fits the state. -/
structure Thread.Fits (w : World) (t : Thread) : Prop where
  flight : ∀ id promise, t.flight = some (id, promise) → Flying w id promise
  cleared : ∀ id ∈ t.cleared, w.Known id
  awaited : ∀ id promise, t.awaited = some (id, promise) → w.Known id
  listed : ∀ id ∈ t.listed, w.Known id

/-- `u` respects the flight of `t`. -/
def Thread.Respects (t u : Thread) : Prop :=
  ∀ id promise, t.flight = some (id, promise) →
    (∀ id' promise', u.flight = some (id', promise') → id' ≠ id ∧ promise' ≠ promise) ∧
    id ∉ u.cleared ∧ ∀ promise', u.awaited = some (id, promise') → promise' = promise

/-- Two calls that respect each other. -/
def Thread.Apart (t u : Thread) : Prop := t.Respects u ∧ u.Respects t

theorem Thread.Apart.symm {t u : Thread} (h : t.Apart u) : u.Apart t := ⟨h.2, h.1⟩

structure Sound (cap : ℕ) (w : World) (ts : List Thread) : Prop where
  valid : w.db.Valid cap
  fits : ∀ t ∈ ts, t.Fits w
  apart : ts.Pairwise Thread.Apart

/-- None of the calls is in flight for this session. -/
def Clear (ts : List Thread) (id : String) : Prop :=
  ∀ t ∈ ts, ∀ promise, t.flight ≠ some (id, promise)

/-- The session exists and nobody is in flight for it. -/
def Grounded (w : World) (ts : List Thread) (id : String) : Prop := w.Known id ∧ Clear ts id

variable {cap : ℕ} {w w' w'' : World} {t t' : Thread} {ts new : List Thread} {id : String}
  {promise : ℕ}

/-! ## Adding and removing calls -/

theorem Sound.perm (h : Sound cap w ts) (hp : ts.Perm new) : Sound cap w new where
  valid := h.valid
  fits u hu := h.fits u (hp.mem_iff.mpr hu)
  apart := (hp.pairwise_iff Thread.Apart.symm).mp h.apart

theorem Sound.tail (h : Sound cap w (t :: ts)) : Sound cap w ts where
  valid := h.valid
  fits u hu := h.fits u (List.mem_cons_of_mem _ hu)
  apart := (List.pairwise_cons.mp h.apart).2

theorem Sound.head (h : Sound cap w (t :: ts)) : t.Fits w := h.fits t List.mem_cons_self

theorem Sound.head_apart (h : Sound cap w (t :: ts)) : ∀ u ∈ ts, t.Apart u :=
  (List.pairwise_cons.mp h.apart).1

theorem Sound.ground (h : Sound cap w ts) (hflight : t.flight = none)
    (hclear : ∀ id ∈ t.cleared, Grounded w ts id)
    (hawait : ∀ id promise, t.awaited = some (id, promise) → w.Known id ∧
      ∀ u ∈ ts, ∀ promise', u.flight = some (id, promise') → promise' = promise)
    (hlist : ∀ id ∈ t.listed, w.Known id) : Sound cap w (t :: ts) where
  valid := h.valid
  fits := by
    intro u hu
    rcases List.mem_cons.mp hu with rfl | hu
    · refine ⟨?_, fun id hid => (hclear id hid).1, fun id p ha => (hawait id p ha).1, hlist⟩
      intro id p hf
      rw [hflight] at hf
      cases hf
    · exact h.fits u hu
  apart := by
    refine List.pairwise_cons.mpr ⟨?_, h.apart⟩
    intro u hu
    refine ⟨?_, ?_⟩
    · intro id p hf
      rw [hflight] at hf
      cases hf
    · intro id p hf
      refine ⟨?_, ?_, ?_⟩
      · intro id' p' hf'
        rw [hflight] at hf'
        cases hf'
      · intro hc
        exact (hclear id hc).2 u hu p hf
      · intro p' ha
        exact ((hawait id p' ha).2 u hu p hf).symm

theorem Sound.idle (h : Sound cap w ts) (hflight : t.flight = none) (hclear : t.cleared = [])
    (hawait : t.awaited = none) (hlist : t.listed = []) : Sound cap w (t :: ts) := by
  refine h.ground hflight ?_ ?_ ?_
  · intro id hid
    rw [hclear] at hid
    cases hid
  · intro id p ha
    rw [hawait] at ha
    cases ha
  · intro id hid
    rw [hlist] at hid
    cases hid

theorem Sound.stay (h : Sound cap w (t :: ts)) (hflight : t'.flight = t.flight)
    (hclear : t'.cleared = t.cleared) (hawait : t'.awaited = t.awaited)
    (hlist : t'.listed = t.listed) : Sound cap w (t' :: ts) where
  valid := h.valid
  fits := by
    intro u hu
    rcases List.mem_cons.mp hu with rfl | hu
    · have ht := h.head
      exact ⟨fun id p hf => ht.flight id p (hflight ▸ hf), fun id hid => ht.cleared id (hclear ▸ hid),
        fun id p ha => ht.awaited id p (hawait ▸ ha), fun id hid => ht.listed id (hlist ▸ hid)⟩
    · exact h.tail.fits u hu
  apart := by
    refine List.pairwise_cons.mpr ⟨?_, h.tail.apart⟩
    intro u hu
    have ht := h.head_apart u hu
    refine ⟨fun id p hf => ht.1 id p (hflight ▸ hf), ?_⟩
    intro id p hf
    rw [hflight, hclear, hawait]
    exact ht.2 id p hf

/-- The others are not in flight for the session of a call in flight. -/
theorem Sound.clear_of_flight (h : Sound cap w (t :: ts)) (hf : t.flight = some (id, promise)) :
    Grounded w ts id := by
  refine ⟨(h.head.flight id promise hf).known, ?_⟩
  intro u hu p' hu'
  exact (((h.head_apart u hu).1 id promise hf).1 id p' hu').1 rfl

theorem Sound.promise_ne (h : Sound cap w (t :: ts)) (hf : t.flight = some (id, promise)) :
    ∀ u ∈ ts, ∀ id' promise', u.flight = some (id', promise') → promise' ≠ promise :=
  fun u hu id' p' hu' => (((h.head_apart u hu).1 id promise hf).1 id' p' hu').2

/-- Nobody is in flight for a session a call takes to be cleared. -/
theorem Sound.grounded (h : Sound cap w (t :: ts)) (hid : id ∈ t.cleared) : Grounded w ts id := by
  refine ⟨h.head.cleared id hid, ?_⟩
  intro u hu p hf
  exact ((h.head_apart u hu).2 id p hf).2.1 hid

/-- A session outside the map is not in flight. -/
theorem Sound.grounded_of_lookup (h : Sound cap w ts) (hk : w.Known id)
    (hl : w.provisioning.lookup id = none) : Grounded w ts id := by
  refine ⟨hk, ?_⟩
  intro u hu p hf
  have := ((h.fits u hu).flight id p hf).held
  rw [hl] at this
  cases this

/-! ## Changing the state under the calls -/

variable {may : String → Prop}

/-- The rows change as the ledger allows, and the flights keep their promise. -/
theorem Sound.move (h : Sound cap w ts)
    (hl : Ledger cap may w.db w'.db) (hmay : ∀ id, may id → Clear ts id)
    (hheld : ∀ u ∈ ts, ∀ id promise, u.flight = some (id, promise) →
      w.provisioning.lookup id = some promise → w'.provisioning.lookup id = some promise)
    (hsettled : ∀ u ∈ ts, ∀ id promise, u.flight = some (id, promise) →
      w.settled[promise]? = some false → w'.settled[promise]? = some false) :
    Sound cap w' ts where
  valid := hl.valid
  fits := by
    have hknown : ∀ id, w.Known id → w'.Known id := by
      rintro id ⟨r, hr, rfl⟩
      obtain ⟨r', hr', hid, _⟩ := hl.session r hr
      exact ⟨r', hr', hid⟩
    intro u hu
    have ht := h.fits u hu
    refine ⟨?_, fun id hid => hknown id (ht.cleared id hid),
      fun id p ha => hknown id (ht.awaited id p ha), fun id hid => hknown id (ht.listed id hid)⟩
    intro id p hf
    have hfly := ht.flight id p hf
    refine ⟨hknown id hfly.known, hheld u hu id p hf hfly.held, hsettled u hu id p hf hfly.unsettled,
      ?_⟩
    intro r' hr' hid
    cases hc : r'.completed with
    | false => rfl
    | true =>
        -- the mark is an old one, or on a session nobody is in flight for
        rcases hl.marks r' hr' hc with ⟨r, hr, hrid, hrc⟩ | hm
        · rw [hfly.unmarked r hr (hrid.trans hid)] at hrc
          cases hrc
        · rw [hid] at hm
          exact absurd hf (hmay id hm u hu p)
  apart := h.apart

/-- The memory changes, and the flights keep their promise. -/
theorem Sound.memory (h : Sound cap w ts) (hdb : w'.db = w.db)
    (hheld : ∀ u ∈ ts, ∀ id promise, u.flight = some (id, promise) →
      w.provisioning.lookup id = some promise → w'.provisioning.lookup id = some promise)
    (hsettled : ∀ u ∈ ts, ∀ id promise, u.flight = some (id, promise) →
      w.settled[promise]? = some false → w'.settled[promise]? = some false) :
    Sound cap w' ts := by
  have hl : Ledger cap (fun _ => False) w.db w'.db := by
    rw [hdb]
    exact Ledger.refl h.valid
  exact h.move hl (fun _ hm => hm.elim) hheld hsettled

theorem Sound.still (h : Sound cap w ts) (hdb : w'.db = w.db)
    (hprov : w'.provisioning = w.provisioning) (hset : w'.settled = w.settled) :
    Sound cap w' ts := by
  refine h.memory hdb ?_ ?_
  · intro u _ id p _ hheld
    rw [hprov]
    exact hheld
  · intro u _ id p _ hs
    rw [hset]
    exact hs

theorem Grounded.move (h : Grounded w ts id)
    (hl : Ledger cap may w.db w'.db) : Grounded w' ts id := by
  obtain ⟨⟨r, hr, rfl⟩, hc⟩ := h
  obtain ⟨r', hr', hid, _⟩ := hl.session r hr
  exact ⟨⟨r', hr', hid⟩, hc⟩

/-- Rows change, marks are new only where `may` says, and the memory stays. -/
structure Moves (cap : ℕ) (may : String → Prop) (w w' : World) : Prop where
  ledger : Ledger cap may w.db w'.db
  provisioning : w'.provisioning = w.provisioning
  settled : w'.settled = w.settled
  threads : w'.threads = w.threads

/-- No mark is new. -/
abbrev Calm (cap : ℕ) (w w' : World) : Prop := Moves cap (fun _ => False) w w'

theorem Moves.refl (h : w.db.Valid cap) : Moves cap may w w :=
  ⟨Ledger.refl h, rfl, rfl, rfl⟩

/-- Marks on sessions nobody is in flight for are sound. -/
theorem Sound.moves (h : Sound cap w ts) (hm : Moves cap may w w')
    (hmay : ∀ id, may id → Clear ts id) : Sound cap w' ts := by
  refine h.move hm.ledger hmay ?_ ?_
  · intro u _ id p _ hheld
    rw [hm.provisioning]
    exact hheld
  · intro u _ id p _ hs
    rw [hm.settled]
    exact hs

theorem Sound.calm (h : Sound cap w ts) (hc : Calm cap w w') : Sound cap w' ts :=
  h.moves hc (fun _ hm => hm.elim)

/-- Active sessions change, none to `finished`. -/
theorem Calm.active {p : SessionRow → Bool} {f : SessionRow → SessionRow}
    {hf : ∀ r, (f r).id = r.id} (h : w.db.Valid cap) (hp : ∀ r, p r = true → r.status.active = true)
    (hmind : ∀ r, (f r).mindId = r.mindId)
    (hfin : ∀ r, p r = true → (f r).status ≠ .finished)
    (hmark : ∀ r, (f r).completed = true → r.completed = true) :
    Calm cap w { w with db := { w.db with sessions := w.db.sessions.update p f hf } } := by
  have hunmarked : ∀ r ∈ w.db.sessions, p r = true → r.completed = false := by
    intro r hr hpr
    cases hc : r.completed with
    | false => rfl
    | true =>
        have ht := SessionStatus.terminal_iff.mp (h.seats.completed r hr hc)
        rw [hp r hpr] at ht
        cases ht
  refine ⟨Ledger.update h ?_ ?_ ?_, rfl, rfl, rfl⟩
  · intro r hr hpr
    refine ⟨hmind r, fun _ => hp r hpr, ?_, ?_⟩
    · intro hs
      have ha := hp r hpr
      rw [hs] at ha
      cases ha
    · intro hc
      have hrc := hmark r hc
      rw [hunmarked r hr hpr] at hrc
      cases hrc
  · intro r _ hpr hs
    exact absurd hs (hfin r hpr)
  · intro r _ _ hc
    exact Or.inl (hmark r hc)

theorem Calm.setSession {p : SessionRow → Bool} {f : SessionRow → SessionRow}
    {hf : ∀ r, (f r).id = r.id} (h : w.db.Valid cap) (hp : ∀ r, p r = true → r.status.active = true)
    (hmind : ∀ r, (f r).mindId = r.mindId)
    (hfin : ∀ r, p r = true → (f r).status ≠ .finished)
    (hmark : ∀ r, (f r).completed = true → r.completed = true) :
    Calm cap w (w.setSession id p f hf) := by
  refine Calm.active h ?_ hmind ?_ hmark
  · intro r hr
    exact hp r (Bool.and_eq_true_iff.mp hr).2
  · intro r hr
    exact hfin r (Bool.and_eq_true_iff.mp hr).2

theorem SessionRow.active_of_spawning (r : SessionRow) (h : decide (r.status = .spawning) = true) :
    r.status.active = true := by
  rw [of_decide_eq_true h]
  rfl

/-! ## What a slice yields -/

/-- The rows went on by the ledger, the head of the calls is where `r` says, and the
new calls are sound with the others. -/
def Yields (cap : ℕ) (w : World) (ts : List Thread) (r : Except SpawnError Thread)
    (w' : World) : Prop :=
  Ledger cap (fun _ => True) w.db w'.db ∧
    ∃ new, w'.threads = w.threads ++ new ∧ Sound cap w' (Thread.ofResult r :: (new ++ ts))

/-- Every way a slice ends is sound. -/
def Runs (cap : ℕ) (w₀ : World) (ts : List Thread) (m : SpawnM Thread) (w : World) : Prop :=
  Tx.wp m (fun t w' => Yields cap w₀ ts (.ok t) w') (fun e w' => Yields cap w₀ ts (.error e) w') w

theorem Ledger.any {db db' : WorkerDb} (h : Ledger cap may db db') :
    Ledger cap (fun _ => True) db db' := h.mono (fun _ _ => trivial)

/-- A slice may begin with statements that leave the calls alone. -/
theorem Runs.after {m : SpawnM Thread} (hl : Ledger cap (fun _ => True) w.db w'.db)
    (ht : w'.threads = w.threads) (h : Runs cap w' ts m w'') : Runs cap w ts m w'' := by
  refine Tx.wp_mono ?_ ?_ h
  · rintro t u ⟨hl', new, hnew, hs⟩
    exact ⟨hl.trans hl', new, ht ▸ hnew, hs⟩
  · rintro e u ⟨hl', new, hnew, hs⟩
    exact ⟨hl.trans hl', new, ht ▸ hnew, hs⟩

theorem Runs.moves {m : SpawnM Thread} (hc : Moves cap may w w') (h : Runs cap w' ts m w') :
    Runs cap w ts m w' :=
  Runs.after hc.ledger.any hc.threads h

/-- A slice in two parts, the first of which leaves the calls alone. -/
theorem Runs.bind {α : Type} {m : SpawnM α} {f : α → SpawnM Thread}
    (h : Tx.wp m (fun a w' => w'.threads = w.threads ∧ Ledger cap (fun _ => True) w.db w'.db ∧
      Runs cap w' ts (f a) w') (fun e w' => Yields cap w ts (.error e) w') w) :
    Runs cap w ts (m >>= f) w := by
  rw [Runs, Tx.wp_bind]
  refine Tx.wp_mono ?_ (fun _ _ he => he) h
  rintro a w' ⟨ht, hl, hr⟩
  exact Runs.after hl ht hr

theorem Runs.pure {t : Thread} (h : Yields cap w ts (.ok t) w') : Runs cap w ts (pure t) w' :=
  Tx.wp_pure.mpr h

theorem Runs.throw {e : SpawnError} (h : Yields cap w ts (.error e) w') :
    Runs cap w ts (Tx.throw e) w' :=
  Tx.wp_throw.mpr h

theorem Yields.here {r : Except SpawnError Thread}
    (h : Sound cap w (Thread.ofResult r :: ts)) : Yields cap w ts r w :=
  ⟨Ledger.refl h.valid, [], (List.append_nil _).symm, h⟩

/-- A slice that ends its call with nothing changed. -/
theorem Yields.stop (h : Sound cap w ts) (r : Except SpawnError (List SessionRow)) :
    Yields cap w ts (.ok (.returned r)) w :=
  Yields.here (h.idle rfl rfl rfl rfl)

theorem Yields.throw (h : Sound cap w ts) (e : SpawnError) : Yields cap w ts (.error e) w :=
  Yields.here (h.idle rfl rfl rfl rfl)

/-! ## Shared pieces -/

theorem Sound.settle (h : Sound cap w ts)
    (hne : ∀ u ∈ ts, ∀ id' promise', u.flight = some (id', promise') → promise' ≠ promise) :
    Sound cap { w with settled := w.settled.set promise true } ts := by
  refine h.memory rfl (fun _ _ _ _ _ hheld => hheld) ?_
  intro u hu id p hf hs
  show (w.settled.set promise true)[p]? = some false
  rw [List.getElem?_set_ne (hne u hu id p hf).symm]
  exact hs

/-- The promise of a session nobody is in flight for may leave the map. -/
theorem wp_endProvisioning {E : SpawnError → World → Prop} (h : Sound cap w ts)
    (hc : Clear ts id) :
    Tx.wp (endProvisioning id promise)
      (fun _ w' => Sound cap w' ts ∧ w'.db = w.db ∧ w'.threads = w.threads) E w := by
  simp only [endProvisioning, Tx.wp_write]
  split
  · refine ⟨?_, rfl, rfl⟩
    refine h.memory rfl ?_ (fun _ _ _ _ _ hs => hs)
    intro u hu id' p hf hheld
    have hne : id' ≠ id := by
      rintro rfl
      exact hc u hu p hf
    show (w.provisioning.erase id).lookup id' = some p
    rw [AList.lookup_erase_ne hne]
    exact hheld
  · exact ⟨h, rfl, rfl⟩

/-- `cleanupRuntime` returns a promise, and may leave a flow that cleans up. -/
theorem wp_cleanupRuntime {always : Bool} {E : SpawnError → World → Prop} (h : Sound cap w ts)
    (hg : Grounded w ts id) :
    Tx.wp (cleanupRuntime id always) (fun _ w' => w'.db = w.db ∧ ∃ new,
      w'.threads = w.threads ++ new ∧ Sound cap w' (new ++ ts) ∧ ∀ u ∈ new, u.flight = none) E w := by
  simp only [cleanupRuntime, newJob, pushThread, Tx.wp_bind, Tx.wp_read, Tx.wp_ite, Tx.wp_write,
    Tx.wp_pure]
  refine ⟨fun _ => ?_, fun _ => ?_⟩
  · refine ⟨trivial, [], (List.append_nil _).symm, ?_, fun _ hu => absurd hu List.not_mem_nil⟩
    exact h.still rfl rfl rfl
  · cases w.cleaning.lookup id with
    | some job =>
        rw [Tx.wp_pure]
        exact ⟨rfl, [], (List.append_nil _).symm, h, fun _ hu => absurd hu List.not_mem_nil⟩
    | none =>
        simp only [Tx.wp_bind, Tx.wp_read, Tx.wp_write, Tx.wp_pure]
        refine ⟨trivial, [.cleaning id w.jobs.length always], rfl, ?_, ?_⟩
        · have hm : Sound cap { w with
              jobs := w.jobs ++ [.pending]
              cleaning := w.cleaning.insert id w.jobs.length
              threads := w.threads ++ [.cleaning id w.jobs.length always] } ts :=
            h.still rfl rfl rfl
          refine hm.ground rfl ?_ (fun _ _ ha => by cases ha) (fun _ hid => by cases hid)
          intro id' hid'
          cases List.mem_singleton.mp hid'
          exact hg
        · intro u hu
          cases List.mem_singleton.mp hu
          rfl

end Elpis.Worker
