import Elpis.Console.ThreadHolds

/-!
# Runs of the hub and a console client

Every step keeps what the client holds, as long as the frames fit.
-/

namespace Elpis.Console

open Elpis.Lib

variable {α β : Type}

section Runs

variable {present : ChatMessage α → Option ℕ → String × β} {pool : List (ChatMessage α)}

/-! ## Steps of the hub and of the client -/

theorem Hub.mirrorBase_congr {hub hub' : Hub β} (hm : hub'.mirror = hub.mirror)
    (hn : hub'.nextId = hub.nextId) : hub'.mirrorBase = hub.mirrorBase := by
  unfold Hub.mirrorBase
  rw [hm, hn]

theorem Hub.Retains.congr {hub hub' : Hub β} {log : List (StreamEntry β)} (h : hub.Retains log)
    (hm : hub'.mirror = hub.mirror) (hn : hub'.nextId = hub.nextId) : hub'.Retains log := by
  have hbase := Hub.mirrorBase_congr hm hn
  exact ⟨hm ▸ h.suffix, hbase ▸ hm ▸ h.numbered, hbase ▸ h.base, by rw [hbase, hm, hn]; exact h.top,
    hm ▸ hn ▸ h.nonempty⟩

/-- A step that leaves the Thread alone at both ends, and the frames under way. -/
theorem Inv.keep {s t : Thread β} (h : Inv present pool s) (hmirror : t.hub.mirror = s.hub.mirror)
    (hnext : t.hub.nextId = s.hub.nextId) (hlog : t.log = s.log)
    (hmessages : t.client.messages = s.client.messages) (hmore : t.client.hasMore = s.client.hasMore)
    (hstarted : t.client.startedAt = s.client.startedAt) (happlied : t.applied = s.applied)
    (hmissed : t.missed = s.missed) (hdown : t.down = s.down)
    (hstate : t.hub.hasState = true → s.hub.hasState = true ∧ t.hub.generation.isSome = true)
    (hup : ∀ b ∈ t.up, b ≤ top s.client.messages) : Inv present pool t where
  retains := hlog ▸ h.retains.congr hmirror hnext
  log := hlog ▸ h.log
  nextId := by rw [hlog, hnext]; exact h.nextId
  holds := h.holds.keep hmessages hmore hstarted happlied hmissed (by simp [hlog])
    (Hub.mirrorBase_congr hmirror hnext).ge
  down := by rw [hmessages, happlied, hdown, hlog]; exact h.down
  link := by rw [hmessages, happlied, hdown, hnext]; exact h.link
  synced := by
    rw [hmessages, happlied, hdown, hnext]
    exact fun hs => h.synced (hstate hs).1
  attached := fun hs => (hstate hs).2
  up := by rw [hmessages]; exact hup

variable {s : Thread β}

theorem Inv.send (h : Inv present pool s) {frame : ServerFrame β}
    (hsound : ∀ early, Sound present pool s.log (reach ⟨top s.client.messages, s.applied⟩ s.down)
      ⟨frame, early⟩)
    (hstay : ∀ (c : Cursor) early, c.after ⟨frame, early⟩ = c) : Inv present pool (s.send frame) := by
  unfold Thread.send
  split
  · exact
      { retains := h.retains
        log := h.log
        nextId := h.nextId
        holds := h.holds.keep rfl rfl rfl rfl rfl (fun _ he => he) le_rfl
        down := chain_append.mpr ⟨h.down, hsound _⟩
        link := by
          show (reach _ (s.down ++ [_])).top ≤ _
          rw [reach_append, hstay]
          exact h.link
        synced := by
          intro hs
          show reach _ (s.down ++ [_]) = _
          rw [reach_append, hstay]
          exact h.synced hs
        attached := h.attached
        up := h.up }
  · exact h

/-- An entry is appended and broadcast: to a client that has its snapshot, as the next one. -/
theorem Inv.push (h : Inv present pool s) (entry : StreamEntry β) :
    Inv present pool (s.push entry) := by
  obtain ⟨hretains, hbase⟩ := h.retains.pushEntry entry
  have hlen := h.nextId
  have hlog : Numbered 0 (s.log ++ [(s.hub.pushEntry entry).1]) := by
    refine Numbered.append.mpr ⟨h.log, ?_, trivial⟩
    show (s.hub.nextId : ℤ) = 0 + s.log.length
    omega
  have hnext : ((s.log ++ [(s.hub.pushEntry entry).1]).length : ℤ) =
      ((s.hub.nextId + 1 : ℕ) : ℤ) := by
    rw [List.length_append, List.length_singleton]
    push_cast
    omega
  have hsub : ∀ e ∈ s.log, e ∈ s.log ++ [(s.hub.pushEntry entry).1] :=
    fun e he => List.mem_append_left _ he
  have hdown := h.down.mono hsub
  have hlink := h.link
  have hsynced := h.synced
  have hpush : s.push entry = Thread.send
      { s with
        hub := (s.hub.pushEntry entry).2
        log := s.log ++ [(s.hub.pushEntry entry).1] } (.message (s.hub.pushEntry entry).1) := rfl
  rw [hpush]
  unfold Thread.send
  split
  · rename_i hsome
    refine
      { retains := hretains
        log := hlog
        nextId := hnext
        holds := h.holds.keep rfl rfl rfl rfl rfl hsub hbase
        down := chain_append.mpr ⟨hdown, ?_⟩
        link := ?_
        synced := ?_
        attached := h.attached
        up := h.up }
    · refine ⟨List.mem_append_right _ List.mem_cons_self, hlink, fun hearly => ?_⟩
      have hstate : s.hub.hasState = true := by
        have hnot : (!s.hub.hasState) = false := hearly
        simpa using hnot
      rw [hsynced hstate]
      rfl
    · show (reach _ (s.down ++ [_])).top ≤ ((s.hub.nextId + 1 : ℕ) : ℤ)
      rw [reach_append]
      show (s.hub.nextId : ℤ) + 1 ≤ _
      push_cast
      exact le_rfl
    · intro hs
      show reach _ (s.down ++ [_]) = ⟨((s.hub.nextId + 1 : ℕ) : ℤ), true⟩
      rw [reach_append, hsynced hs]
      simp only [Cursor.after]
      congr 1
  · rename_i hnone
    exact
      { retains := hretains
        log := hlog
        nextId := hnext
        holds := h.holds.keep rfl rfl rfl rfl rfl hsub hbase
        down := hdown
        link := by
          show _ ≤ ((s.hub.nextId + 1 : ℕ) : ℤ)
          push_cast
          exact hlink.trans (by omega)
        synced := fun hs => absurd (h.attached hs) hnone
        attached := h.attached
        up := h.up }

theorem Inv.disconnect (h : Inv present pool s) : Inv present pool s.disconnect where
  retains := h.retains.congr rfl rfl
  log := h.log
  nextId := h.nextId
  holds := h.holds.keep rfl rfl rfl rfl rfl (fun _ he => he) le_rfl
  down := trivial
  link := h.down.le_reach.trans h.link
  synced := fun hs => absurd hs Bool.false_ne_true
  attached := fun hs => absurd hs Bool.false_ne_true
  up := fun _ hb => absurd hb List.not_mem_nil

theorem Inv.requestSnapshot (h : Inv present pool s) :
    Inv present pool s.requestSnapshot := by
  unfold Thread.requestSnapshot
  split
  · exact h
  · rename_i generation hgen
    exact h.keep rfl rfl rfl rfl rfl rfl rfl rfl rfl (fun hs => ⟨hs, h.attached hs⟩) h.up

theorem Inv.addClient (h : Inv present pool s) : Inv present pool s.addClient := by
  unfold Thread.addClient
  refine Inv.requestSnapshot ?_
  split
  · exact h
  · exact h.keep rfl rfl rfl rfl rfl rfl rfl rfl rfl (fun hs => ⟨hs, rfl⟩) h.up

theorem Inv.requestBackfill (h : Inv present pool s) :
    Inv present pool s.requestBackfill := by
  unfold Thread.requestBackfill
  split
  · refine h.keep rfl rfl rfl rfl rfl rfl rfl rfl rfl (fun hs => ⟨hs, h.attached hs⟩) ?_
    intro b hb
    rcases List.mem_append.mp hb with hb | hb
    · exact h.up b hb
    · rw [List.mem_singleton.mp hb]
      unfold ConsoleState.firstId Hub.oldestOf
      split
      · rename_i e rest hmessages
        rw [hmessages]
        exact (lt_top List.mem_cons_self).le
      · exact top_nonneg _
  · exact h

/-- A snapshot is sent: from there on the client is told of every entry. -/
theorem Inv.snapshotReady (h : Inv present pool s) (startedAt generation request : ℕ)
    (metaAvailable : Bool) :
    Inv present pool (s.snapshotReady present pool startedAt generation request metaAvailable) := by
  unfold Thread.snapshotReady
  split
  · dsimp only
    split
    · rename_i hcurrent
      have hsome : s.hub.generation.isSome = true := by
        rw [hcurrent.1]
        rfl
      obtain ⟨hnum, hend, hold, hnil, hknown, hmore⟩ := h.retains.snapshotPage present pool
      unfold Thread.send
      rw [if_pos hsome]
      refine
        { retains := h.retains.congr rfl rfl
          log := h.log
          nextId := h.nextId
          holds := h.holds.keep rfl rfl rfl rfl rfl (fun _ he => he) le_rfl
          down := chain_append.mpr ⟨h.down, ?_⟩
          link := ?_
          synced := ?_
          attached := fun _ => hsome
          up := h.up }
      · exact ⟨hnum, hold, hnil, hknown, hend ▸ h.link, hmore⟩
      · show (reach _ (s.down ++ [_])).top ≤ _
        rw [reach_append]
        exact hend.le
      · intro _
        show reach _ (s.down ++ [_]) = _
        rw [reach_append]
        simp only [Cursor.after, hend]
    · exact h.keep rfl rfl rfl rfl rfl rfl rfl rfl rfl (fun hs => ⟨hs, h.attached hs⟩) h.up
  · exact h

/-- A page is served, out of the mirror or out of the archive. -/
theorem Hub.Retains.served {hub : Hub β} {log : List (StreamEntry β)} (h : hub.Retains log)
    {beforeId n : ℤ} (hn : beforeId ≤ n) (hnext : n ≤ hub.nextId) (hn0 : 0 ≤ n) :
    Served present pool log (hub.backfill present pool beforeId) ∧
      ∀ e ∈ (hub.backfill present pool beforeId).messages, e.id < n := by
  by_cases hb : hub.mirrorBase < beforeId
  · obtain ⟨x, hnum, hend, hx, hlt, hknown, hmore⟩ :=
      h.backfill_mirror present pool hb (hn.trans hnext)
    refine ⟨.mirror x hnum hx ?_ hknown hmore, fun e he => ?_⟩
    · intro hnil
      rw [hnil, List.length_nil] at hend
      omega
    · have hrange := hnum.range he
      omega
  · have harch : (if beforeId ≤ 0 then beforeId else 0) ≤ 0 := by
      split
      · assumption
      · exact le_rfl
    obtain ⟨x, hnum, hend, hknown, hfull⟩ := readArchived_spec present pool harch backfillPage
    have hpage : hub.backfill present pool beforeId =
        ⟨readArchived present pool (if beforeId ≤ 0 then beforeId else 0) backfillPage,
          Hub.oldestOf (readArchived present pool (if beforeId ≤ 0 then beforeId else 0)
            backfillPage) beforeId,
          decide ((readArchived present pool (if beforeId ≤ 0 then beforeId else 0)
            backfillPage).length = backfillPage)⟩ := if_neg hb
    rw [hpage]
    have hold : x + (readArchived present pool (if beforeId ≤ 0 then beforeId else 0)
        backfillPage).length ≤ 0 := by
      rw [hend]
      exact max_le (by omega) harch
    refine ⟨.archive x hnum hold hknown ?_ ?_, fun e he => ?_⟩
    · intro hmore
      exact hfull (by simpa using hmore)
    · intro hnil
      simp only at hnil
      rw [hnil] at hend
      have hzero : 0 ≠ backfillPage := by decide
      have hx := hfull (by rw [hnil]; exact hzero)
      rw [List.length_nil] at hend
      show pool.length = 0 ∨ Hub.oldestOf (readArchived present pool _ _) beforeId ≤ _
      rw [hnil]
      show pool.length = 0 ∨ beforeId ≤ _
      split at hend
      · omega
      · omega
    · have hrange := hnum.range he
      omega

theorem Inv.handleBackfill (h : Inv present pool s) :
    Inv present pool (s.handleBackfill present pool) := by
  unfold Thread.handleBackfill
  split
  · exact h
  · rename_i beforeId rest hup
    have hkept : Inv present pool { s with up := rest } :=
      h.keep rfl rfl rfl rfl rfl rfl rfl rfl rfl (fun hs => ⟨hs, h.attached hs⟩)
        (fun b hb => h.up b (hup ▸ List.mem_cons_of_mem _ hb))
    have hb : beforeId ≤ top s.client.messages := h.up beforeId (hup ▸ List.mem_cons_self)
    have hreach := h.down.le_reach
    have hserved : Served present pool s.log (s.hub.backfill present pool beforeId) ∧ _ :=
      h.retains.served (hb.trans hreach) h.link ((top_nonneg _).trans hreach)
    exact hkept.send (fun _ => hserved) (fun _ _ => rfl)

theorem Inv.step (h : Inv present pool s) (startedAt : ℕ) (event : Event α β)
    (hfits : Fits s event) : Inv present pool (s.step present pool startedAt event) := by
  cases event with
  | messageAppended msg ts =>
      refine Inv.push ?_ _
      exact h.keep rfl rfl rfl rfl rfl rfl rfl rfl rfl (fun hs => ⟨hs, h.attached hs⟩) h.up
  | divider entry => exact h.push entry
  | connect => exact h.keep rfl rfl rfl rfl rfl rfl rfl rfl rfl (fun hs => ⟨hs, h.attached hs⟩) h.up
  | disconnect => exact h.disconnect
  | addClient =>
      show Inv present pool (if s.connected then s.addClient else s)
      split
      · exact h.addClient
      · exact h
  | removeClient =>
      exact h.keep rfl rfl rfl rfl rfl rfl rfl rfl rfl (fun hs => absurd hs Bool.false_ne_true) h.up
  | sendSnapshot => exact h.requestSnapshot
  | snapshotReady generation request metaAvailable => exact h.snapshotReady _ _ _ _
  | sync metaAvailable =>
      show Inv present pool (if s.hub.hasState then s.send _ else s)
      split
      · rename_i hstate
        refine h.send (fun _ => ?_) (fun _ _ => rfl)
        show (reach _ s.down).applied = true
        rw [h.synced hstate]
      · exact h
  | requestBackfill => exact h.requestBackfill
  | handleBackfill => exact h.handleBackfill
  | deliver =>
      show Inv present pool s.deliver
      cases hdown : s.down with
      | nil =>
          have hsame : s.deliver = s := by
            unfold Thread.deliver
            rw [hdown]
          rwa [hsame]
      | cons packet rest =>
          obtain ⟨frame, early⟩ := packet
          simp only [Fits, hdown] at hfits
          cases frame with
          | message msg => exact h.deliver_message hdown
          | snapshot started page => exact h.deliver_snapshot hdown hfits
          | history page => exact h.deliver_history hdown hfits
          | sync started => exact h.deliver_sync hdown

theorem Inv.init : Inv present pool (Thread.init : Thread β) where
  retains := ⟨List.nil_suffix, trivial, le_rfl, rfl, fun _ => rfl⟩
  log := trivial
  nextId := rfl
  holds :=
    { known := by simp [Thread.init, initialState]
      ordered := List.Pairwise.nil
      live := by
        rintro a ⟨-, e, he, -⟩
        exact absurd he List.not_mem_nil
      old := by
        rintro a ⟨-, e, he, -⟩
        exact absurd he List.not_mem_nil
      missed := by simp [Thread.init]
      archived := fun h => absurd h Bool.false_ne_true
      first := fun h => absurd rfl h }
  down := trivial
  link := le_rfl
  synced := fun h => absurd h Bool.false_ne_true
  attached := fun h => absurd h Bool.false_ne_true
  up := fun _ hb => absurd hb List.not_mem_nil

/-- No message that jumps over an entry, nothing missed. -/
theorem missed_step (startedAt : ℕ) (event : Event α β) (h : s.missed = none)
    (hfollows : Follows s event) : (s.step present pool startedAt event).missed = none := by
  have hsend : ∀ (t : Thread β) frame, (t.send frame).missed = t.missed := by
    intro t frame
    unfold Thread.send
    split
    · rfl
    · rfl
  have hrequest : ∀ t : Thread β, t.requestSnapshot.missed = t.missed := by
    intro t
    unfold Thread.requestSnapshot
    split
    · rfl
    · rfl
  cases event with
  | messageAppended msg ts => exact (hsend _ _).trans h
  | divider entry => exact (hsend _ _).trans h
  | connect => exact h
  | disconnect => exact h
  | addClient =>
      show (if s.connected then s.addClient else s).missed = none
      split
      · exact (hrequest _).trans h
      · exact h
  | removeClient => exact h
  | sendSnapshot => exact (hrequest s).trans h
  | snapshotReady generation request metaAvailable =>
      show (s.snapshotReady present pool startedAt generation request metaAvailable).missed = none
      unfold Thread.snapshotReady
      split
      · dsimp only
        split
        · exact (hsend _ _).trans h
        · exact h
      · exact h
  | sync metaAvailable =>
      show (if s.hub.hasState then s.send _ else s).missed = none
      split
      · exact (hsend _ _).trans h
      · exact h
  | requestBackfill =>
      show s.requestBackfill.missed = none
      unfold Thread.requestBackfill
      split
      · exact h
      · exact h
  | handleBackfill =>
      show (s.handleBackfill present pool).missed = none
      unfold Thread.handleBackfill
      split
      · exact h
      · exact (hsend _ _).trans h
  | deliver =>
      show s.deliver.missed = none
      unfold Thread.deliver
      cases hdown : s.down with
      | nil => exact h
      | cons packet rest =>
          obtain ⟨frame, early⟩ := packet
          simp only [Follows, hdown] at hfollows
          cases frame with
          | message msg =>
              dsimp only
              rw [h, Option.isNone_none, Bool.and_true, hfollows]
              rfl
          | snapshot started page => rfl
          | history page => exact h
          | sync started => exact h

variable (present pool) (startedAt : ℕ)

/-- As long as each merge finds the list it is for, the client's list is whole behind every
frame, early messages that jump over an entry apart; and where none does, behind every frame. -/
theorem thread_whole (events : List (Event α β))
    (hfits : EachStep (Thread.step present pool startedAt) Fits Thread.init events) :
    Throughout (Thread.step present pool startedAt)
        (fun s => s.applied = true → s.missed = none → Whole present pool s) Thread.init events ∧
      (EachStep (Thread.step present pool startedAt) Follows Thread.init events →
        Throughout (Thread.step present pool startedAt)
          (fun s => s.applied = true → Whole present pool s) Thread.init events) := by
  constructor
  · exact throughout_of_eachStep
      (fun s hI happlied hmissed => hI.holds.whole hI.log hI.retains happlied hmissed)
      (fun s event hI h => hI.step startedAt event h) events Inv.init hfits
  · intro hfollows
    have hboth := hfits.and hfollows
    refine throughout_of_eachStep (I := fun s => Inv present pool s ∧ s.missed = none)
      (fun s hI happlied => hI.1.holds.whole hI.1.log hI.1.retains happlied hI.2)
      (fun s event hI h => ⟨hI.1.step startedAt event h.1, missed_step startedAt event hI.2 h.2⟩)
      events ⟨Inv.init, rfl⟩ hboth

end Runs

/-! ## A snapshot merged for an early message -/

instance (s : Thread β) (page : Hub.Page β) : Decidable (Adjoins s page) :=
  inferInstanceAs (Decidable (_ ∧ _))

instance (s : Thread β) (started : Option ℕ) (page : Hub.Page β) :
    Decidable (Bridges s started page) :=
  inferInstanceAs (Decidable (_ → ∀ m ∈ s.missed, _))

instance (s : Thread β) (event : Event α β) : Decidable (Fits s event) := by
  unfold Fits
  split
  · split
    · infer_instance
    · infer_instance
    · infer_instance
  · infer_instance

def showAs : ChatMessage Unit → Option ℕ → String × Unit := fun msg _ => (msg.role, ())

def entry (id : ℤ) : StreamEntry Unit := ⟨id, "cachebust", ()⟩

/-- A client that has the first entry loses its connection, `n` entries are appended, and one
more while the snapshot of its next connection awaits its sources. -/
def away (n : ℕ) : List (Event Unit Unit) :=
  [.connect, .addClient, .snapshotReady 1 1 true, .deliver, .divider (entry 0), .deliver,
      .disconnect] ++
    List.replicate n (.divider (entry 0)) ++
    [.connect, .addClient, .divider (entry 0), .snapshotReady 2 2 true, .deliver, .deliver]

/-- A gap of three entries is filled. -/
theorem thread_whole_away :
    Throughout (Thread.step showAs [] 7)
        (fun s => s.applied = true → s.missed = none → Whole showAs [] s) Thread.init (away 3) ∧
      ((run (Thread.step showAs [] 7) Thread.init (away 3)).client.messages.map StreamEntry.id) =
        [0, 1, 2, 3, 4] :=
  ⟨(thread_whole showAs [] 7 (away 3) (by decide)).1, by decide⟩

/-- A gap of sixty-one is not: the snapshot begins at the fourth entry. -/
theorem snapshot_leaves_gap :
    ¬∀ events : List (Event Unit Unit), Throughout (Thread.step showAs [] 7)
      (fun s => s.applied = true → s.missed = none → Whole showAs [] s) Thread.init events := by
  intro h
  have hlast := (h (away 61)).last (by decide +kernel) (by decide +kernel)
  have hmissing := hlast.complete (entry 1) (by decide +kernel) (entry 0) (by decide +kernel)
    (by decide) (by decide) (entry 62) (by decide +kernel) (by decide)
  revert hmissing
  decide +kernel

end Elpis.Console
