import Elpis.Sandbox.Holdings

/-!
# Detached sandboxes are given up

A run that detached holds its sandbox until its future ends. The invariant `Sound` says
that the registry keeps a sandbox detached only for a run whose future is registered
with the manager and still running. While a future is being ended it is excepted (`S`):
its record has stopped, and the listener that gives the sandbox up is about to run.
-/

namespace Elpis.Sandbox

open Elpis.Lib Elpis.Mind

/-- The record of the future, or of the job, says it still runs. -/
def Running (jobs : AutoTable BgJob.id) (b : ℕ) : Prop := ∃ j ∈ jobs, j.id = b ∧ j.running = true

instance (jobs : AutoTable BgJob.id) (b : ℕ) : Decidable (Running jobs b) :=
  inferInstanceAs (Decidable (∃ j ∈ jobs.rows, _))

/-- The future `b` was handed off by the run `o`. -/
def HandedOff (h : Host) (b : ℕ) (o : Owner) : Prop :=
  ∃ x ∈ h.handoffs, x.bgId = b ∧ x.owner = some o

structure Sound (S : Set ℕ) (h : Host) : Prop where
  backed : Backed h.db
  flying : ∀ f ∈ h.flights, isMindId f.owner.sandbox = true ∧ Holds h.db .busy f.owner
  apart : (h.flights.map Flight.owner).Nodup
  carried : ∀ f ∈ h.flights, ∀ b, f.future = some b → HandedOff h b f.owner
  registered : ∀ d ∈ h.detached, isMindId d.owner.sandbox = true ∧
    Holds h.db .detached d.owner ∧ HandedOff h d.bgId d.owner
  alone : ∀ d ∈ h.detached, ∀ d' ∈ h.detached, d.owner = d'.owner → d = d'
  numbered : ∀ x ∈ h.handoffs, x.bgId ≤ h.jobs.seq
  futures : ∀ x ∈ h.handoffs, ∀ j ∈ h.jobs, j.id = x.bgId → j.kind = .future
  early : ∀ e ∈ h.earlySettlements, e.bgId ≤ h.jobs.seq ∧ ¬Running h.jobs e.bgId
  tracked : ∀ b o, HandedOff h b o → Running h.jobs b →
    (∃ d ∈ h.detached, d.bgId = b ∧ d.owner = o) ∨ ∃ f ∈ h.flights, f.owner = o ∧ f.future = some b
  held : ∀ o, Holds h.db .detached o →
    ∃ d ∈ h.detached, d.owner = o ∧ (Running h.jobs d.bgId ∨ d.bgId ∈ S)

variable {S : Set ℕ} {h h' : Host} {b : ℕ} {o o' : Owner}

theorem HandedOff.unique (hb : HandedOff h b o) (hb' : HandedOff h b o') : o = o' := by
  obtain ⟨x, hx, hxb, hxo⟩ := hb
  obtain ⟨y, hy, hyb, hyo⟩ := hb'
  rw [Table.eq_of_key hx hy (hxb.trans hyb.symm)] at hxo
  exact Option.some.inj (hxo.symm.trans hyo)

/-- A run in flight is not registered. -/
theorem Sound.not_registered (hs : Sound S h) {f : Flight} (hf : f ∈ h.flights) {d : DetachedRun}
    (hd : d ∈ h.detached) : d.owner.sandbox ≠ f.owner.sandbox := by
  intro hsame
  have huniq := (hs.registered d hd).2.1.unique (hs.flying f hf).2 hsame
  cases huniq.1

theorem Sound.flight_eq (hs : Sound S h) {f f' : Flight} (hf : f ∈ h.flights)
    (hf' : f' ∈ h.flights) (hsame : f.owner.sandbox = f'.owner.sandbox) : f = f' := by
  have howner := ((hs.flying f hf).2.unique (hs.flying f' hf').2 hsame).2
  exact List.inj_on_of_nodup_map hs.apart hf hf' howner

theorem Sound.registered_eq (hs : Sound S h) {d d' : DetachedRun} (hd : d ∈ h.detached)
    (hd' : d' ∈ h.detached) (hsame : d.owner.sandbox = d'.owner.sandbox) : d = d' :=
  hs.alone d hd d' hd' ((hs.registered d hd).2.1.unique (hs.registered d' hd').2.1 hsame).2

/-- A future that still runs, or that no registered run waits for, need not be excepted. -/
theorem Sound.discharge (hs : Sound (insert b S) h)
    (hb : Running h.jobs b ∨ ∀ d ∈ h.detached, d.bgId ≠ b) : Sound S h where
  __ := hs
  held o ho := by
    obtain ⟨d, hd, hdo, hrun⟩ := hs.held o ho
    refine ⟨d, hd, hdo, ?_⟩
    rcases hrun with hrun | rfl | hS
    · exact Or.inl hrun
    · rcases hb with hrun | hnone
      · exact Or.inl hrun
      · exact absurd rfl (hnone d hd)
    · exact Or.inr hS

/-! ## Steps that leave the runs alone -/

/-- Only the registry and the contexts changed, and the registry kept every holding. -/
def Idle (h h' : Host) : Prop :=
  ∃ db contexts, h' = { h with db := db, contexts := contexts } ∧ Keeps h.db db

instance : IsPreorder Host Idle where
  refl h := ⟨h.db, h.contexts, rfl, refl_of Keeps h.db⟩
  trans := by
    rintro h _ _ ⟨db, contexts, rfl, hk⟩ ⟨db', contexts', rfl, hk'⟩
    exact ⟨db', contexts', rfl, trans_of Keeps hk hk'⟩

theorem Sound.idle (hs : Sound S h) (hi : Idle h h') : Sound S h' := by
  obtain ⟨db, contexts, rfl, hk⟩ := hi
  have hbusy := hk.1 .busy (Or.inl rfl)
  have hdetached := hk.1 .detached (Or.inr rfl)
  exact
    { hs with
      backed := hk.2 hs.backed
      flying := fun f hf => ⟨(hs.flying f hf).1, (hbusy _).mpr (hs.flying f hf).2⟩
      registered := fun d hd => ⟨(hs.registered d hd).1,
        (hdetached _).mpr (hs.registered d hd).2.1, (hs.registered d hd).2.2⟩
      held := fun o ho => hs.held o ((hdetached o).mp ho) }

section Programs
variable {α : Type} (config : ManagerConfig)

theorem registry_idle {m : RegistryM α} (hm : Tx.Along Keeps m) : Tx.Along Idle (registry m) := by
  intro h
  rw [registry, Tx.wp_within]
  exact Tx.wp_mono (fun _ db hk => ⟨db, h.contexts, rfl, hk⟩)
    (fun _ db hk => ⟨db, h.contexts, rfl, hk⟩) (hm h.db)

theorem dropContext_idle (x : MindId) : Tx.Along Idle (dropContext x) :=
  Tx.Along.write (fun h => ⟨h.db, _, rfl, refl_of Keeps h.db⟩)

theorem retirementDeadline_idle (r : SandboxRegistration) :
    Tx.Along Idle (retirementDeadline config r) := by
  unfold retirementDeadline
  refine Tx.Along.ite (Tx.Along.pure _) ?_
  cases r.retireRequestedAt with
  | none => exact Tx.Along.throw _
  | some requestedAt => exact Tx.Along.pure _

theorem finalizeExpired_idle (r : SandboxRegistration) (now : Time) :
    Tx.Along Idle (finalizeExpired config r now) := by
  refine (retirementDeadline_idle config r).bind (fun _ => Tx.Along.ite (Tx.Along.pure _) ?_)
  refine (registry_idle (finalizeRetirement_keeps r.id true now)).bind (fun _ => ?_)
  exact Tx.Along.ite (Tx.Along.pure _) ((dropContext_idle r.id).bind (fun _ => Tx.Along.pure _))

theorem collectGarbage_idle (now : Time) : Tx.Along Idle (collectGarbage config now) := by
  refine (Tx.Along.read _).bind (fun rows => Tx.Along.forEach (fun r => ?_) rows)
  exact (finalizeExpired_idle config r now).bind (fun _ => Tx.Along.pure _)

theorem clearReminderByMind_idle (x : MindId) (now : Time) :
    Tx.Along Idle (registry (clearReminderByMind x now)) :=
  registry_idle (clearReminderByMind_keeps x now)

theorem handleMindStateChange_idle (x : MindId) (status : MindStatus) (archived : Bool)
    (now : Time) : Tx.Along Idle (handleMindStateChange config x status archived now) := by
  refine Tx.Along.ite ?_ ?_
  · refine (registry_idle (retireByMind_keeps x now)).bind (fun retired => ?_)
    refine (Tx.Along.onSome (fun r => finalizeExpired_idle config r now)).bind (fun _ => ?_)
    exact (clearReminderByMind_idle x now).bind (fun _ => Tx.Along.pure _)
  · refine (registry_idle (getByMind_keeps x)).bind (fun found => ?_)
    refine (Tx.Along.onSome (retirementDeadline_idle config)).bind (fun _ => Tx.Along.ite ?_ ?_)
    · refine (Tx.Along.onSome (fun r => finalizeExpired_idle config r now)).bind (fun _ => ?_)
      exact Tx.Along.pure _
    · refine (registry_idle (cancelRetirement_keeps x now)).bind (fun _ => Tx.Along.when ?_)
      exact (clearReminderByMind_idle x now).bind (fun _ => Tx.Along.pure _)

theorem registrationFor_idle (x : MindId) (now : Time) :
    Tx.Along Idle (registrationFor config x now) := by
  refine (registry_idle (getByMind_keeps x)).bind ?_
  intro existing
  cases existing with
  | none => exact registry_idle (ensureForMind_keeps config.executorId x now)
  | some row => exact Tx.Along.pure _

theorem takeNotices_idle (run : SandboxRun) (status : Option MindStatus) (now : Time) :
    Tx.Along Idle (takeNotices run status now) := by
  refine (Tx.Along.when ?_).bind (fun _ => Tx.Along.when ?_)
  · exact (registry_idle (consumeColdNotice_keeps _)).bind (fun _ => Tx.Along.pure _)
  · exact (registry_idle (latchReminder_keeps _ now)).bind (fun _ => Tx.Along.pure _)

theorem context_idle (sandbox : SandboxRegistration) : Tx.Along Idle (context sandbox) := by
  refine (Tx.Along.read _).bind (fun _ => Tx.Along.when (Tx.Along.write (fun h => ?_)))
  exact ⟨h.db, _, rfl, refl_of Keeps h.db⟩

end Programs

/-! ## Ending a run -/

/-- No record runs that did not run before, and no future is handed off. -/
def Winds (h h' : Host) : Prop :=
  (∀ b, Running h'.jobs b → Running h.jobs b) ∧ h'.handoffs = h.handoffs

instance : IsPreorder Host Winds where
  refl _ := ⟨fun _ => id, rfl⟩
  trans _ _ _ hw hw' := ⟨fun b hb => hw.1 b (hw'.1 b hb), hw'.2.trans hw.2⟩

/-- The sandbox of `o` is given up, and nothing else happened. -/
def GivesUp (o : Owner) (h h' : Host) : Prop :=
  ∃ db contexts, h' = { h with db := db, contexts := contexts } ∧ Frees o.sandbox h.db db

theorem GivesUp.idle {h'' : Host} (hg : GivesUp o h h') (hi : Idle h' h'') : GivesUp o h h'' := by
  obtain ⟨db, contexts, rfl, hf⟩ := hg
  obtain ⟨db', contexts', rfl, hk⟩ := hi
  exact ⟨db', contexts', rfl, hf.keeps hk⟩

/-- What the rest of the process needs of a run that gives its sandbox up: nobody else
waits for it, and its futures have ended. -/
theorem Sound.givesUp (hs : Sound S h) (hg : GivesUp o h h')
    (hflights : ∀ f ∈ h.flights, f.owner.sandbox ≠ o.sandbox)
    (hdetached : ∀ d ∈ h.detached, d.owner.sandbox ≠ o.sandbox) : Sound S h' := by
  obtain ⟨db, contexts, rfl, hf⟩ := hg
  have hbusy := hf.1 .busy (Or.inl rfl)
  have hdet := hf.1 .detached (Or.inr rfl)
  exact
    { hs with
      backed := hf.2 hs.backed
      flying := fun f hff =>
        ⟨(hs.flying f hff).1, (hbusy _).mpr ⟨(hs.flying f hff).2, hflights f hff⟩⟩
      registered := fun d hd => ⟨(hs.registered d hd).1,
        (hdet _).mpr ⟨(hs.registered d hd).2.1, hdetached d hd⟩, (hs.registered d hd).2.2⟩
      held := fun p hp => hs.held p ((hdet p).mp hp).1 }

section Programs
variable (config : ManagerConfig) {l : SandboxLifecycle} (now : Time)

theorem endRun_givesUp (hname : isMindId o.sandbox = true) (howned : l.Owned)
    (hold : Holds h.db l o) (hb : Backed h.db) :
    Tx.wp (endRun config o now) (fun _ h' => GivesUp o h h') (fun _ h' => GivesUp o h h') h := by
  rw [endRun, Tx.wp_bind, registry, Tx.wp_within]
  refine Tx.wp_mono ?_ (fun _ _ hfalse => hfalse.elim) (finishRun_frees now hname howned hold hb)
  intro finished db hf
  have hg : GivesUp o h { h with db := db } := ⟨db, h.contexts, rfl, hf⟩
  rw [Tx.wp_bind]
  exact Tx.wp_mono (fun _ _ hi => Tx.wp_pure.mpr (hg.idle hi)) (fun _ _ hi => hg.idle hi)
    (finalizeExpired_idle config finished now _)

theorem resetRun_givesUp (hname : isMindId o.sandbox = true) (howned : l.Owned)
    (hold : Holds h.db l o) :
    Tx.wp (resetRun config o now) (fun _ h' => GivesUp o h h') (fun _ h' => GivesUp o h h') h := by
  rw [resetRun, Tx.wp_bind, registry, Tx.wp_within]
  refine Tx.wp_mono ?_ (fun _ _ hfalse => hfalse.elim)
    (failRunAndReset_frees now hname howned hold)
  intro reset db hf
  have hg : GivesUp o h { h with db := db } := ⟨db, h.contexts, rfl, hf⟩
  have hrest : Tx.Along Idle (do
      dropContext o.sandbox
      let _ ← finalizeExpired config reset now
      pure ()) :=
    (dropContext_idle o.sandbox).bind (fun _ =>
      (finalizeExpired_idle config reset now).bind (fun _ => Tx.Along.pure ()))
  exact Tx.wp_mono (fun _ _ hi => hg.idle hi) (fun _ _ hi => hg.idle hi) (hrest _)

/-- The end of a future that has stopped gives up the sandbox of its run. -/
theorem settleDetached_sound (rejected : Bool) (hs : Sound (insert b S) h)
    (hstopped : ¬Running h.jobs b) :
    Tx.wp (settleDetached config b rejected now)
      (fun _ h' => Sound S h' ∧ Winds h h') (fun _ h' => Sound S h' ∧ Winds h h') h := by
  rw [settleDetached, Tx.wp_bind, Tx.wp_read]
  cases hget : h.detached.get? b with
  | none =>
      refine Tx.wp_pure.mpr ⟨hs.discharge (Or.inr ?_), refl_of Winds h⟩
      exact Table.get?_eq_none.mp hget
  | some d =>
      obtain ⟨hd, rfl⟩ := Table.get?_eq_some.mp hget
      obtain ⟨hname, hold, -⟩ := hs.registered d hd
      -- the registration goes first, then the registry is told
      have hmem : ∀ x, x ∈ h.detached.delete (fun e => decide (e.bgId = d.bgId)) ↔
          x ∈ h.detached ∧ x ≠ d := by
        intro x
        rw [Table.mem_delete, decide_eq_false_iff_not]
        refine and_congr_right (fun hx => not_congr ⟨?_, ?_⟩)
        · exact fun hkey => Table.eq_of_key hx hd hkey
        · exact fun heq => heq ▸ rfl
      have hafter : ∀ h', GivesUp d.owner
          { h with detached := h.detached.delete (fun e => decide (e.bgId = d.bgId)) } h' →
          Sound S h' ∧ Winds h h' := by
        rintro _ ⟨db, contexts, rfl, hf⟩
        have hbusy := hf.1 .busy (Or.inl rfl)
        have hdet := hf.1 .detached (Or.inr rfl)
        refine ⟨?_, fun _ => id, rfl⟩
        exact
          { hs with
            backed := hf.2 hs.backed
            flying := fun f hff => ⟨(hs.flying f hff).1,
              (hbusy _).mpr ⟨(hs.flying f hff).2, (hs.not_registered hff hd).symm⟩⟩
            registered := by
              intro x hx
              obtain ⟨hx, hne⟩ := (hmem x).mp hx
              obtain ⟨hxname, hxhold, hxoff⟩ := hs.registered x hx
              refine ⟨hxname, (hdet _).mpr ⟨hxhold, ?_⟩, hxoff⟩
              exact fun hsame => hne (hs.registered_eq hx hd hsame)
            alone := fun x hx y hy =>
              hs.alone x ((hmem x).mp hx).1 y ((hmem y).mp hy).1
            tracked := by
              intro b o hoff hrun
              rcases hs.tracked b o hoff hrun with ⟨x, hx, rfl, hxo⟩ | hflight
              · have hne : x ≠ d := fun heq => hstopped (heq ▸ hrun)
                exact Or.inl ⟨x, (hmem x).mpr ⟨hx, hne⟩, rfl, hxo⟩
              · exact Or.inr hflight
            held := by
              intro o ho
              obtain ⟨ho, hne⟩ := (hdet o).mp ho
              obtain ⟨x, hx, rfl, hrun⟩ := hs.held o ho
              have hxd : x ≠ d := fun heq => hne (heq ▸ rfl)
              refine ⟨x, (hmem x).mpr ⟨hx, hxd⟩, rfl, ?_⟩
              rcases hrun with hrun | hkey | hS
              · exact Or.inl hrun
              · exact absurd (Table.eq_of_key hx hd hkey) hxd
              · exact Or.inr hS }
      simp only [Tx.wp_bind, Tx.wp_write, Tx.wp_ite]
      constructor
      · intro _
        exact Tx.wp_mono (fun _ => hafter) (fun _ => hafter)
          (resetRun_givesUp config now hname (Or.inr rfl) hold)
      · intro _
        exact Tx.wp_mono (fun _ => hafter) (fun _ => hafter)
          (endRun_givesUp config now hname (Or.inr rfl) hold hs.backed)

/-! ## The background registry -/

/-- The records change, no known future starts to run and those in `S'` may stop. -/
theorem Sound.jobs {S' : Set ℕ} {jobs : AutoTable BgJob.id} (hs : Sound S h) (hS : S ⊆ S')
    (hseq : h.jobs.seq ≤ jobs.seq)
    (hold : ∀ j ∈ jobs, j.id ≤ h.jobs.seq → ∃ j₀ ∈ h.jobs, j₀.id = j.id ∧ j₀.kind = j.kind ∧
      (j.running = true → j₀.running = true))
    (hstop : ∀ b, Running h.jobs b → Running jobs b ∨ b ∈ S') :
    Sound S' { h with jobs := jobs } := by
  have hrun : ∀ b, b ≤ h.jobs.seq → Running jobs b → Running h.jobs b := by
    rintro b hb ⟨j, hj, rfl, hrunning⟩
    obtain ⟨j₀, hj₀, hid, -, hmono⟩ := hold j hj hb
    exact ⟨j₀, hj₀, hid, hmono hrunning⟩
  exact
    { hs with
      numbered := fun x hx => (hs.numbered x hx).trans hseq
      futures := by
        intro x hx j hj hid
        obtain ⟨j₀, hj₀, hid₀, hkind, -⟩ := hold j hj (hid ▸ hs.numbered x hx)
        exact hkind ▸ hs.futures x hx j₀ hj₀ (hid₀.trans hid)
      early := fun e he => ⟨(hs.early e he).1.trans hseq,
        fun hr => (hs.early e he).2 (hrun _ (hs.early e he).1 hr)⟩
      tracked := by
        intro b o hoff hr
        obtain ⟨x, hx, hxb, -⟩ := id hoff
        exact hs.tracked b o hoff (hrun b (hxb ▸ hs.numbered x hx) hr)
      held := by
        intro o ho
        obtain ⟨d, hd, hdo, hr | hmem⟩ := hs.held o ho
        · exact ⟨d, hd, hdo, hstop _ hr⟩
        · exact ⟨d, hd, hdo, Or.inr (hS hmem)⟩ }

theorem Sound.stop (hs : Sound S h) (b : ℕ) (f : BgJob → BgJob) (hf : ∀ j, (f j).id = j.id)
    (hkind : ∀ j, (f j).kind = j.kind) (hstops : ∀ j, (f j).running = false) :
    Sound (insert b S) { h with jobs := h.jobs.update (fun j => decide (j.id = b)) f hf } ∧
      ¬Running (h.jobs.update (fun j => decide (j.id = b)) f hf) b := by
  refine ⟨hs.jobs (Set.subset_insert b S) le_rfl ?_ ?_, ?_⟩
  · intro j hj _
    obtain ⟨j₀, hj₀, rfl⟩ := AutoTable.mem_update.mp hj
    refine ⟨j₀, hj₀, ?_⟩
    split
    · refine ⟨(hf j₀).symm, (hkind j₀).symm, fun hr => ?_⟩
      rw [hstops] at hr
      cases hr
    · exact ⟨rfl, rfl, id⟩
  · rintro c ⟨j, hj, rfl, hr⟩
    by_cases hjb : j.id = b
    · exact Or.inr (Or.inl hjb)
    · refine Or.inl ⟨j, AutoTable.mem_update.mpr ⟨j, hj, ?_⟩, rfl, hr⟩
      rw [if_neg (by simpa using hjb)]
  · rintro ⟨j, hj, hid, hr⟩
    obtain ⟨j₀, -, rfl⟩ := AutoTable.mem_update.mp hj
    by_cases hjb : j₀.id = b
    · rw [if_pos (by simpa using hjb), hstops] at hr
      cases hr
    · rw [if_neg (by simpa using hjb)] at hid
      exact hjb hid

theorem Winds.stop (h : Host) (b : ℕ) (f : BgJob → BgJob) (hf : ∀ j, (f j).id = j.id)
    (hstops : ∀ j, (f j).running = false) :
    Winds h { h with jobs := h.jobs.update (fun j => decide (j.id = b)) f hf } := by
  refine ⟨?_, rfl⟩
  rintro c ⟨j, hj, rfl, hr⟩
  obtain ⟨j₀, hj₀, rfl⟩ := AutoTable.mem_update.mp hj
  split at hr
  · rw [hstops] at hr
    cases hr
  · rename_i hne
    rw [if_neg hne]
    exact ⟨j₀, hj₀, rfl, hr⟩

theorem futureTerminal_sound (hs : Sound (insert b S) h) (hstopped : ¬Running h.jobs b) :
    Tx.wp (futureTerminal config b now)
      (fun _ h' => Sound S h' ∧ Winds h h') (fun _ h' => Sound S h' ∧ Winds h h') h := by
  rw [futureTerminal, Tx.wp_bind, Tx.wp_read, Tx.wp_when]
  refine ⟨fun _ => settleDetached_sound config now true hs hstopped, fun hnone => ?_⟩
  refine ⟨hs.discharge (Or.inr ?_), refl_of Winds h⟩
  exact Table.get?_eq_none.mp (by simpa using hnone)

theorem cancel_sound (hs : Sound S h) (id : ℕ) :
    Tx.wp (cancel config id now) (fun _ h' => Sound S h') (fun _ h' => Sound S h') h := by
  rw [cancel, Tx.wp_bind, Tx.wp_read]
  cases hget : h.jobs.get? id with
  | none => exact Tx.wp_pure.mpr hs
  | some j =>
      obtain ⟨hj, hid⟩ := Table.get?_eq_some.mp hget
      obtain ⟨hsound, hstopped⟩ := hs.stop id
        (fun j => { j with running := false, cancelled := true }) (fun _ => rfl) (fun _ => rfl)
        (fun _ => rfl)
      simp only [Tx.wp_ite, Tx.wp_bind, Tx.wp_pure, updateJob, Tx.wp_write, Tx.wp_attempt]
      refine ⟨fun hjob => ?_, fun _ => ⟨fun _ => ?_, fun _ => hs⟩⟩
      · -- the id of a job is no future's
        refine hsound.discharge (Or.inr ?_)
        rintro d hd rfl
        obtain ⟨x, hx, hxb, -⟩ := (hs.registered d hd).2.2
        have hkind := hs.futures x hx j hj (hid.trans hxb.symm)
        rw [hjob.1] at hkind
        cases hkind
      · exact Tx.wp_mono (fun _ _ hp => hp.1) (fun _ _ hp => hp.1)
          (futureTerminal_sound config now hsound hstopped)

theorem finishJob_sound (hs : Sound S h) {j : BgJob} (hj : j ∈ h.jobs) (hkind : j.kind = .job) :
    Sound S (h.exec (finishJob j.id)) := by
  refine (hs.stop j.id (fun j => { j with running := false }) (fun _ => rfl) (fun _ => rfl)
    (fun _ => rfl)).1.discharge (Or.inr ?_)
  intro d hd hdj
  obtain ⟨x, hx, hxb, -⟩ := (hs.registered d hd).2.2
  have hfuture := hs.futures x hx j hj (hdj.symm.trans hxb.symm)
  rw [hkind] at hfuture
  cases hfuture

theorem abandon_sound (hs : Sound S h) (b : ℕ) :
    Tx.wp (abandon config now b) (fun _ h' => Sound S h' ∧ Winds h h') (fun _ _ => False) h := by
  rw [abandon, Tx.wp_bind, Tx.wp_read, Tx.wp_when]
  refine ⟨fun _ => ?_, fun _ => ⟨hs, refl_of Winds h⟩⟩
  obtain ⟨hsound, hstopped⟩ := hs.stop b
    (fun j => { j with running := false, rejected := true }) (fun _ => rfl) (fun _ => rfl)
    (fun _ => rfl)
  have hwinds := Winds.stop h b
    (fun j => { j with running := false, rejected := true }) (fun _ => rfl) (fun _ => rfl)
  simp only [Tx.wp_bind, Tx.wp_pure, updateJob, Tx.wp_write, Tx.wp_attempt]
  exact Tx.wp_mono (fun _ _ hp => ⟨hp.1, trans_of Winds hwinds hp.2⟩)
    (fun _ _ hp => ⟨hp.1, trans_of Winds hwinds hp.2⟩)
    (futureTerminal_sound config now hsound hstopped)

/-- The cap evicts no record that runs. -/
theorem evicted_stopped {jobs : AutoTable BgJob.id} {j : BgJob} (hj : j ∈ jobs)
    (he : j.id ∈ evicted jobs) : j.running = false := by
  obtain ⟨x, hx, hid⟩ := List.mem_map.mp he
  have hmem := List.mem_mergeSort.mp (List.mem_of_mem_take hx)
  obtain ⟨hxj, hrun⟩ := List.mem_filter.mp hmem
  rw [← Table.eq_of_key hxj hj hid]
  simpa using hrun

theorem running_evict (jobs : AutoTable BgJob.id) (b : ℕ) :
    Running (jobs.delete (fun j => decide (j.id ∈ evicted jobs))) b ↔ Running jobs b := by
  constructor
  · rintro ⟨j, hj, hid, hr⟩
    exact ⟨j, (AutoTable.mem_delete.mp hj).1, hid, hr⟩
  · rintro ⟨j, hj, hid, hr⟩
    refine ⟨j, AutoTable.mem_delete.mpr ⟨hj, decide_eq_false ?_⟩, hid, hr⟩
    intro he
    rw [evicted_stopped hj he] at hr
    cases hr

theorem reapAbandoned_sound (hs : Sound S h) :
    Tx.wp (reapAbandoned config now) (fun _ h' => Sound S h' ∧ Winds h h') (fun _ _ => False)
      h := by
  rw [reapAbandoned, Tx.wp_bind, Tx.wp_read, Tx.wp_bind]
  refine Tx.wp_mono ?_ (fun _ _ hp => hp)
    (Tx.wp_forEach (I := fun h' => Sound S h' ∧ Winds h h') ?_ ⟨hs, refl_of Winds h⟩)
  · rintro _ h' ⟨hs', hwinds⟩
    rw [Tx.wp_write]
    refine ⟨hs'.jobs (Set.Subset.refl S) le_rfl ?_ ?_, ?_, hwinds.2⟩
    · intro j hj _
      exact ⟨j, (AutoTable.mem_delete.mp hj).1, rfl, rfl, id⟩
    · exact fun b hb => Or.inl ((running_evict h'.jobs b).mpr hb)
    · exact fun b hb => hwinds.1 b ((running_evict h'.jobs b).mp hb)
  · rintro b _ h' ⟨hs', hwinds⟩
    exact Tx.wp_mono (fun _ _ hp => ⟨hp.1, trans_of Winds hwinds hp.2⟩) (fun _ _ hp => hp)
      (abandon_sound config now hs' b)

/-- A settlement that is delivered has stopped the record; otherwise nothing happened. -/
theorem settleFuture_sound (hs : Sound S h) (b : ℕ) (rejected : Bool) :
    Tx.wp (settleFuture config b rejected now)
      (fun delivered h' => if delivered = true then
          Sound (insert b S) h' ∧ ¬Running h'.jobs b ∧ Winds h h'
        else h' = h) (fun _ _ => False) h := by
  rw [settleFuture, Tx.wp_bind, Tx.wp_read]
  cases h.jobs.get? b with
  | none => exact Tx.wp_pure.mpr rfl
  | some j =>
      obtain ⟨hsound, hstopped⟩ := hs.stop b
        (fun j => { j with running := false, rejected := rejected }) (fun _ => rfl)
        (fun _ => rfl) (fun _ => rfl)
      have hwinds := Winds.stop h b
        (fun j => { j with running := false, rejected := rejected }) (fun _ => rfl)
        (fun _ => rfl)
      simp only [Tx.wp_ite, Tx.wp_bind, Tx.wp_pure, updateJob, Tx.wp_write]
      refine ⟨fun _ => by simp, fun _ => ?_⟩
      refine Tx.wp_mono ?_ (fun _ _ hp => hp) (reapAbandoned_sound config now hsound)
      rintro _ h' ⟨hs', hwinds'⟩
      rw [if_pos trivial]
      exact ⟨hs', fun hrun => hstopped (hwinds'.1 b hrun), trans_of Winds hwinds hwinds'⟩

theorem futureSettled_sound (hs : Sound (insert b S) h) (hstopped : ¬Running h.jobs b)
    (hb : b ≤ h.jobs.seq) (rejected : Bool) :
    Tx.wp (futureSettled config b rejected now) (fun _ h' => Sound S h')
      (fun _ h' => Sound S h') h := by
  rw [futureSettled, Tx.wp_bind, Tx.wp_read, Tx.wp_ite]
  constructor
  · intro _
    exact Tx.wp_mono (fun _ _ hp => hp.1) (fun _ _ hp => hp.1)
      (settleDetached_sound config now rejected hs hstopped)
  · intro hnone
    rw [Tx.wp_write]
    have hs' := hs.discharge (Or.inr (Table.get?_eq_none.mp (by simpa using hnone)))
    exact
      { hs' with
        early := by
          intro e he
          rcases Table.mem_put.mp he with rfl | ⟨he, -⟩
          · exact ⟨hb, hstopped⟩
          · exact hs'.early e he }

/-- The record of a handoff that has settled is the record it had. -/
theorem Sound.settled {x : Handoff} (hs : Sound S h) (hx : x ∈ h.handoffs) :
    Sound S { h with handoffs := h.handoffs.put { x with settled := true } } := by
  have hmem : ∀ y, y ∈ h.handoffs.put { x with settled := true } →
      ∃ z ∈ h.handoffs, z.bgId = y.bgId ∧ z.owner = y.owner := by
    intro y hy
    rcases Table.mem_put.mp hy with rfl | ⟨hy, -⟩
    · exact ⟨x, hx, rfl, rfl⟩
    · exact ⟨y, hy, rfl, rfl⟩
  have hoff : ∀ b o, HandedOff h b o →
      HandedOff { h with handoffs := h.handoffs.put { x with settled := true } } b o := by
    rintro b o ⟨y, hy, hyb, hyo⟩
    by_cases hkey : y.bgId = x.bgId
    · have hyx : y = x := Table.eq_of_key hy hx hkey
      refine ⟨{ x with settled := true }, Table.mem_put.mpr (Or.inl rfl), ?_, ?_⟩
      · exact hyx ▸ hyb
      · exact hyx ▸ hyo
    · exact ⟨y, Table.mem_put.mpr (Or.inr ⟨hy, hkey⟩), hyb, hyo⟩
  exact
    { hs with
      carried := fun f hf b hb => hoff b f.owner (hs.carried f hf b hb)
      registered := fun d hd => ⟨(hs.registered d hd).1, (hs.registered d hd).2.1,
        hoff _ _ (hs.registered d hd).2.2⟩
      numbered := by
        intro y hy
        obtain ⟨z, hz, hid, -⟩ := hmem y hy
        exact hid ▸ hs.numbered z hz
      futures := by
        intro y hy j hj hid
        obtain ⟨z, hz, hzid, -⟩ := hmem y hy
        exact hs.futures z hz j hj (hid.trans hzid.symm)
      tracked := by
        rintro b o ⟨y, hy, hyb, hyo⟩ hrun
        obtain ⟨z, hz, hzid, hzo⟩ := hmem y hy
        exact hs.tracked b o ⟨z, hz, hzid.trans hyb, hzo.trans hyo⟩ hrun }

theorem promiseSettled_sound {x : Handoff} (hs : Sound S h) (hx : x ∈ h.handoffs)
    (rejected : Bool) :
    Tx.wp (promiseSettled config x rejected now) (fun _ h' => Sound S h')
      (fun _ h' => Sound S h') h := by
  rw [promiseSettled, Tx.wp_bind, Tx.wp_write, Tx.wp_bind]
  have hmem : { x with settled := true } ∈ h.handoffs.put { x with settled := true } :=
    Table.mem_put.mpr (Or.inl rfl)
  refine Tx.wp_mono ?_ (fun _ _ hfalse => hfalse.elim)
    (settleFuture_sound config now (hs.settled hx) x.bgId rejected)
  intro delivered h' hpost
  rw [Tx.wp_when]
  cases delivered with
  | false =>
      have hsame : h' = _ := hpost
      refine ⟨fun hd => Bool.noConfusion hd.1, fun _ => ?_⟩
      rw [hsame]
      exact hs.settled hx
  | true =>
      obtain ⟨hs', hstopped, hwinds⟩ := hpost
      have hmem' : { x with settled := true } ∈ h'.handoffs := hwinds.2 ▸ hmem
      refine ⟨fun _ => ?_, fun hno => hs'.discharge (Or.inr ?_)⟩
      · have hseq : x.bgId ≤ h'.jobs.seq := hs'.numbered { x with settled := true } hmem'
        exact futureSettled_sound config now hs' hstopped hseq rejected
      · -- an ephemeral run registers nothing
        rintro d hd hdb
        obtain ⟨y, hy, hyb, hyo⟩ := (hs'.registered d hd).2.2
        have hyx := Table.eq_of_key hy hmem' (hyb.trans hdb)
        rw [hyx] at hyo
        exact hno ⟨rfl, Option.isSome_iff_exists.mpr ⟨_, hyo⟩⟩

/-! ## Runs -/

theorem completeRun_sound {f : Flight} (hs : Sound S h) (hf : f ∈ h.flights)
    (hnone : f.future = none) (outcome : RunOutcome) :
    Tx.wp (completeRun config f.owner outcome now) (fun _ h' => Sound S h')
      (fun _ h' => Sound S h') { h with flights := h.flights.erase f } := by
  obtain ⟨hname, hold⟩ := hs.flying f hf
  have hsub : ∀ g ∈ h.flights.erase f, g ∈ h.flights := fun g hg => List.mem_of_mem_erase hg
  have hne : ∀ g ∈ h.flights.erase f, g ≠ f := by
    intro g hg
    exact (List.Nodup.mem_erase_iff (List.Nodup.of_map _ hs.apart)).mp hg |>.1
  -- the run handed nothing off, so nothing was tracked by its flight
  have hs' : Sound S { h with flights := h.flights.erase f } :=
    { hs with
      flying := fun g hg => hs.flying g (hsub g hg)
      apart := hs.apart.sublist (List.erase_sublist.map _)
      carried := fun g hg => hs.carried g (hsub g hg)
      tracked := by
        intro b o hoff hrun
        rcases hs.tracked b o hoff hrun with hreg | ⟨g, hg, hgo, hgb⟩
        · exact Or.inl hreg
        · refine Or.inr ⟨g, ?_, hgo, hgb⟩
          refine (List.mem_erase_of_ne ?_).mpr hg
          rintro rfl
          rw [hnone] at hgb
          cases hgb }
  have hafter : ∀ h', GivesUp f.owner { h with flights := h.flights.erase f } h' → Sound S h' := by
    intro h' hg
    refine hs'.givesUp hg ?_ (fun d hd => hs.not_registered hf hd)
    exact fun g hg hsame => hne g hg (hs.flight_eq (hsub g hg) hf hsame)
  rw [completeRun, Tx.wp_ite]
  constructor
  · intro _
    exact Tx.wp_mono (fun _ => hafter) (fun _ => hafter)
      (resetRun_givesUp config now hname (Or.inl rfl) hold)
  · intro _
    exact Tx.wp_mono (fun _ => hafter) (fun _ => hafter)
      (endRun_givesUp config now hname (Or.inl rfl) hold hs.backed)

end Programs

theorem Sound.push {mk : ℕ → BgJob} {hmk : ∀ n, (mk n).id = n} (hs : Sound S h) :
    Sound S { h with jobs := h.jobs.push mk hmk } := by
  refine hs.jobs (Set.Subset.refl S) (Nat.le_succ _) ?_ ?_
  · intro j hj hle
    rcases AutoTable.mem_push.mp hj with hj | rfl
    · exact ⟨j, hj, rfl, rfl, id⟩
    · rw [hmk] at hle
      exact absurd hle (Nat.not_succ_le_self _)
  · rintro b ⟨j, hj, hid, hr⟩
    exact Or.inl ⟨j, AutoTable.mem_push.mpr (Or.inl hj), hid, hr⟩

/-- A future is handed off; if a run in flight did it, its flight carries it. -/
theorem Sound.handOff {n : ℕ} {owner : Option Owner} {flights : List Flight} (hs : Sound S h)
    (hfresh : ∀ x ∈ h.handoffs, x.bgId ≠ n) (hn : n ≤ h.jobs.seq)
    (hkind : ∀ j ∈ h.jobs, j.id = n → j.kind = .future)
    (hflights : ∀ f ∈ flights, f ∈ h.flights ∨
      owner = some f.owner ∧ f.future = some n ∧ ∃ g ∈ h.flights, g.owner = f.owner)
    (hkeep : ∀ f ∈ h.flights, ∀ b, f.future = some b → f ∈ flights)
    (hnew : ∀ o, owner = some o → ⟨o, some n⟩ ∈ flights)
    (hapart : (flights.map Flight.owner).Nodup) :
    Sound S { h with flights := flights, handoffs := h.handoffs.put ⟨n, owner, false⟩ } := by
  have hoff : ∀ b o, HandedOff h b o → HandedOff
      { h with flights := flights, handoffs := h.handoffs.put ⟨n, owner, false⟩ } b o := by
    rintro b o ⟨x, hx, hxb, hxo⟩
    exact ⟨x, Table.mem_put.mpr (Or.inr ⟨hx, hfresh x hx⟩), hxb, hxo⟩
  exact
    { hs with
      flying := by
        intro f hf
        rcases hflights f hf with hold | ⟨-, -, g, hg, hgo⟩
        · exact hs.flying f hold
        · exact hgo ▸ hs.flying g hg
      apart := hapart
      carried := by
        intro f hf b hb
        rcases hflights f hf with hold | ⟨hfo, hfn, -⟩
        · exact hoff b f.owner (hs.carried f hold b hb)
        · rw [hfn] at hb
          refine ⟨⟨n, owner, false⟩, Table.mem_put.mpr (Or.inl rfl), ?_, hfo⟩
          exact Option.some.inj hb
      registered := fun d hd => ⟨(hs.registered d hd).1, (hs.registered d hd).2.1,
        hoff _ _ (hs.registered d hd).2.2⟩
      numbered := by
        intro x hx
        rcases Table.mem_put.mp hx with rfl | ⟨hx, -⟩
        · exact hn
        · exact hs.numbered x hx
      futures := by
        intro x hx j hj hid
        rcases Table.mem_put.mp hx with rfl | ⟨hx, -⟩
        · exact hkind j hj hid
        · exact hs.futures x hx j hj hid
      tracked := by
        rintro b o ⟨x, hx, hxb, hxo⟩ hrun
        rcases Table.mem_put.mp hx with rfl | ⟨hx, -⟩
        · exact Or.inr ⟨⟨o, some n⟩, hnew o hxo, rfl, congrArg some hxb⟩
        · rcases hs.tracked b o ⟨x, hx, hxb, hxo⟩ hrun with hreg | ⟨f, hf, hfo, hfb⟩
          · exact Or.inl hreg
          · exact Or.inr ⟨f, hkeep f hf b hfb, hfo, hfb⟩ }

section Register
variable (now : Time)

theorem future_id (id : ℕ) :
    (⟨id, .future, none, now, true, false, some (now + futureTtl), false⟩ : BgJob).id = id := rfl

/-- The process after `registerFuture`. -/
def registeredFuture (h : Host) : Host :=
  { h with jobs := h.jobs.push (fun id =>
      ⟨id, .future, none, now, true, false, some (now + futureTtl), false⟩) (future_id now) }

theorem registeredFuture_fresh (hs : Sound S h) :
    ∀ x ∈ (registeredFuture now h).handoffs, x.bgId ≠ h.jobs.next := by
  intro x hx heq
  have hle := hs.numbered x hx
  rw [heq] at hle
  exact Nat.not_succ_le_self _ hle

theorem registeredFuture_kind :
    ∀ j ∈ (registeredFuture now h).jobs, j.id = h.jobs.next → j.kind = .future := by
  intro j hj hid
  rcases AutoTable.mem_push.mp hj with hj | rfl
  · have hle := h.jobs.le_seq j hj
    rw [hid] at hle
    exact absurd hle (Nat.not_succ_le_self _)
  · rfl

theorem detachEphemeral_sound (hs : Sound S h) : Sound S (h.exec (detachEphemeral now)) := by
  show Sound S { registeredFuture now h with
    handoffs := h.handoffs.put ⟨h.jobs.next, none, false⟩ }
  have hs' : Sound S (registeredFuture now h) := hs.push
  exact hs'.handOff (registeredFuture_fresh now hs) le_rfl (registeredFuture_kind now)
    (fun f hf => Or.inl hf) (fun f hf _ _ => hf) nofun hs'.apart

theorem detachFlight_sound (hs : Sound S h) {f : Flight} (hf : f ∈ h.flights)
    (hnone : f.future = none) : Sound S (h.exec (detachFlight f now)) := by
  show Sound S { registeredFuture now h with
    flights := h.flights.erase f ++ [⟨f.owner, some h.jobs.next⟩]
    handoffs := h.handoffs.put ⟨h.jobs.next, some f.owner, false⟩ }
  have hs' : Sound S (registeredFuture now h) := hs.push
  refine hs'.handOff (registeredFuture_fresh now hs) le_rfl (registeredFuture_kind now)
    ?_ ?_ ?_ ?_
  · intro g hg
    rcases List.mem_append.mp hg with hg | hg
    · exact Or.inl (List.mem_of_mem_erase hg)
    · rw [List.mem_singleton] at hg
      rw [hg]
      exact Or.inr ⟨rfl, rfl, f, hf, rfl⟩
  · intro g hg b hb
    refine List.mem_append_left _ ((List.mem_erase_of_ne ?_).mpr hg)
    rintro rfl
    rw [hnone] at hb
    cases hb
  · rintro o ⟨⟩
    exact List.mem_append_right _ (List.mem_singleton_self _)
  · have hperm : ((h.flights.erase f ++ [(⟨f.owner, some h.jobs.next⟩ : Flight)]).map
        Flight.owner).Perm (h.flights.map Flight.owner) := by
      rw [List.map_append]
      refine List.perm_append_comm.trans ?_
      exact ((List.perm_cons_erase hf).map Flight.owner).symm
    exact hperm.nodup_iff.mpr hs.apart

end Register

section Resume
variable (config : ManagerConfig) (now : Time)

/-- The process once the manager has registered the future of `f`. -/
def withRegistered (h : Host) (f : Flight) (b : ℕ) (db : SandboxDb) : Host :=
  { h with
    db := db
    flights := h.flights.erase f
    detached := h.detached.put ⟨b, f.owner⟩ }

theorem Sound.register {f : Flight} {db : SandboxDb} (hs : Sound S h) (hf : f ∈ h.flights)
    (hb : f.future = some b) (hdet : Detaches f.owner h.db db) :
    Sound (insert b S) (withRegistered h f b db) := by
  have hsub : ∀ g ∈ h.flights.erase f, g ∈ h.flights := fun g hg => List.mem_of_mem_erase hg
  have hother : ∀ g ∈ h.flights.erase f, g.owner.sandbox ≠ f.owner.sandbox := by
    intro g hg hsame
    have hne := ((List.Nodup.of_map _ hs.apart).mem_erase_iff.mp hg).1
    exact hne (hs.flight_eq (hsub g hg) hf hsame)
  have hoff := hs.carried f hf b hb
  -- the future was not registered before
  have hnew : ∀ d ∈ h.detached, d.bgId ≠ b := by
    rintro d hd rfl
    have howner := (hs.registered d hd).2.2.unique hoff
    exact hs.not_registered hf hd (congrArg Owner.sandbox howner)
  have hmem : ∀ d, d ∈ h.detached.put ⟨b, f.owner⟩ ↔ d = ⟨b, f.owner⟩ ∨ d ∈ h.detached := by
    intro d
    rw [Table.mem_put]
    exact or_congr_right ⟨fun hd => hd.1, fun hd => ⟨hd, hnew d hd⟩⟩
  exact
    { hs with
      backed := hdet.backed hs.backed
      flying := by
        intro g hg
        refine ⟨(hs.flying g (hsub g hg)).1, (hdet.holds .busy (Or.inl rfl) _).mpr ?_⟩
        rw [if_neg (hother g hg)]
        exact (hs.flying g (hsub g hg)).2
      apart := hs.apart.sublist (List.erase_sublist.map _)
      carried := fun g hg => hs.carried g (hsub g hg)
      registered := by
        intro d hd
        rcases (hmem d).mp hd with rfl | hd
        · refine ⟨(hs.flying f hf).1, (hdet.holds .detached (Or.inr rfl) _).mpr ?_, hoff⟩
          rw [if_pos rfl]
          exact ⟨rfl, rfl⟩
        · obtain ⟨hname, hold, hdoff⟩ := hs.registered d hd
          refine ⟨hname, (hdet.holds .detached (Or.inr rfl) _).mpr ?_, hdoff⟩
          rw [if_neg (hs.not_registered hf hd)]
          exact hold
      alone := by
        intro d hd d' hd' howner
        rcases (hmem d).mp hd with rfl | hd
        · rcases (hmem d').mp hd' with rfl | hd'
          · rfl
          · exact absurd (congrArg Owner.sandbox howner.symm) (hs.not_registered hf hd')
        · rcases (hmem d').mp hd' with rfl | hd'
          · exact absurd (congrArg Owner.sandbox howner) (hs.not_registered hf hd)
          · exact hs.alone d hd d' hd' howner
      tracked := by
        intro c o hcoff hrun
        rcases hs.tracked c o hcoff hrun with ⟨d, hd, hdc, hdo⟩ | ⟨g, hg, hgo, hgc⟩
        · exact Or.inl ⟨d, (hmem d).mpr (Or.inr hd), hdc, hdo⟩
        · by_cases hgf : g = f
          · subst hgf
            refine Or.inl ⟨⟨b, g.owner⟩, (hmem _).mpr (Or.inl rfl), ?_, hgo⟩
            exact Option.some.inj (hb.symm.trans hgc)
          · exact Or.inr ⟨g, (List.mem_erase_of_ne hgf).mpr hg, hgo, hgc⟩
      held := by
        intro o ho
        have hcases := (hdet.holds .detached (Or.inr rfl) o).mp ho
        split at hcases
        · exact ⟨⟨b, f.owner⟩, (hmem _).mpr (Or.inl rfl), hcases.2.symm, Or.inr (Or.inl rfl)⟩
        · obtain ⟨d, hd, hdo, hrun⟩ := hs.held o hcases
          exact ⟨d, (hmem d).mpr (Or.inr hd), hdo, hrun.imp_right (fun hS => Or.inr hS)⟩ }

/-- What the manager does of a detached run: with the registration made, either an early
settlement is taken or the process is left as `register` says. -/
theorem resumeDetached_cases {f : Flight} (hs : Sound S h) (hf : f ∈ h.flights)
    (hb : f.future = some b) :
    Tx.wp (resumeDetached config f.owner b now)
      (fun _ h' => if (h.earlySettlements.get? b).isSome = true then Sound S h'
        else ∃ db, Detaches f.owner h.db db ∧ h' = withRegistered h f b db)
      (fun _ h' => (h.earlySettlements.get? b).isSome = true ∧ Sound S h')
      { h with flights := h.flights.erase f } := by
  obtain ⟨hname, hold⟩ := hs.flying f hf
  rw [resumeDetached, Tx.wp_bind, registry, Tx.wp_within]
  refine Tx.wp_mono ?_ (fun _ _ hfalse => hfalse.elim) (detachRun_detaches now hname hold)
  intro _ db hdet
  rw [Tx.wp_bind, Tx.wp_write, Tx.wp_bind, Tx.wp_read]
  have hreg := hs.register hf hb hdet
  cases hearly : h.earlySettlements.get? b with
  | none =>
      refine Tx.wp_pure.mpr ?_
      rw [if_neg (by simp)]
      exact ⟨db, hdet, rfl⟩
  | some settlement =>
      obtain ⟨he, rfl⟩ := Table.get?_eq_some.mp hearly
      rw [Tx.wp_bind, Tx.wp_write]
      have hdropped : Sound (insert settlement.bgId S)
        { withRegistered h f settlement.bgId db with
          earlySettlements := h.earlySettlements.delete
            (fun e => decide (e.bgId = settlement.bgId)) } :=
        { hreg with
          early := fun e he => hs.early e (Table.mem_delete.mp he).1 }
      exact Tx.wp_mono (fun _ _ hp => by simpa using hp.1) (fun _ _ hp => ⟨rfl, hp.1⟩)
        (settleDetached_sound config now settlement.rejected hdropped (hs.early _ he).2)

end Resume

/-- A run that holds its sandbox and has no flight yet. -/
structure Entered (S : Set ℕ) (o : Owner) (h : Host) : Prop where
  sound : Sound S h
  named : isMindId o.sandbox = true
  holds : Holds h.db .busy o
  fresh : ∀ f ∈ h.flights, f.owner.sandbox ≠ o.sandbox

theorem Entered.idle (he : Entered S o h) (hi : Idle h h') : Entered S o h' := by
  have hs := he.sound.idle hi
  obtain ⟨db, contexts, rfl, hk⟩ := hi
  exact ⟨hs, he.named, (hk.1 .busy (Or.inl rfl) o).mpr he.holds, he.fresh⟩

theorem Sound.begins {db : SandboxDb} (hs : Sound S h) (hb : Begins o h.db db) :
    Entered S o { h with db := db } where
  sound :=
    { hs with
      backed := hb.backed hs.backed
      flying := fun f hf => ⟨(hs.flying f hf).1,
        (hb.holds .busy (Or.inl rfl) _).mpr (Or.inl (hs.flying f hf).2)⟩
      registered := fun d hd => ⟨(hs.registered d hd).1,
        (hb.holds .detached (Or.inr rfl) _).mpr (Or.inl (hs.registered d hd).2.1),
        (hs.registered d hd).2.2⟩
      held := by
        intro p hp
        rcases (hb.holds .detached (Or.inr rfl) p).mp hp with hp | ⟨hl, -⟩
        · exact hs.held p hp
        · cases hl }
  named := hb.named
  holds := (hb.holds .busy (Or.inl rfl) o).mpr (Or.inr ⟨rfl, rfl⟩)
  fresh := fun f hf => hb.free .busy (Or.inl rfl) f.owner (hs.flying f hf).2

theorem Entered.fly (he : Entered S o h) :
    Sound S { h with flights := h.flights ++ [⟨o, none⟩] } :=
  { he.sound with
    flying := by
      intro f hf
      rcases List.mem_append.mp hf with hf | hf
      · exact he.sound.flying f hf
      · rw [List.mem_singleton.mp hf]
        exact ⟨he.named, he.holds⟩
    apart := by
      rw [List.map_append, List.nodup_append]
      refine ⟨he.sound.apart, List.nodup_singleton _, ?_⟩
      rintro p hp q hq rfl
      obtain ⟨f, hf, rfl⟩ := List.mem_map.mp hp
      exact he.fresh f hf (congrArg Owner.sandbox (List.mem_singleton.mp hq))
    carried := by
      intro f hf b hb
      rcases List.mem_append.mp hf with hf | hf
      · exact he.sound.carried f hf b hb
      · rw [List.mem_singleton.mp hf] at hb
        cases hb
    tracked := by
      intro b p hoff hrun
      rcases he.sound.tracked b p hoff hrun with hreg | ⟨f, hf, hfo, hfb⟩
      · exact Or.inl hreg
      · exact Or.inr ⟨f, List.mem_append_left _ hf, hfo, hfb⟩ }

section Run
variable {α : Type} (config : ManagerConfig) (now : Time)

theorem Sound.along {m : HostM α} (hs : Sound S h) (hm : Tx.Along Idle m) :
    Tx.wp m (fun _ h' => Sound S h') (fun _ h' => Sound S h') h :=
  Tx.wp_mono (fun _ _ hi => hs.idle hi) (fun _ _ hi => hs.idle hi) (hm h)

theorem Entered.along {m : HostM α} (he : Entered S o h) (hm : Tx.Along Idle m) :
    Tx.wp m (fun _ h' => Entered S o h') (fun _ h' => Sound S h') h :=
  Tx.wp_mono (fun _ _ hi => he.idle hi) (fun _ _ hi => he.sound.idle hi) (hm h)

/-- A run past its grace is refused, and gives its sandbox up. -/
theorem refuseExpired_sound {run : SandboxRun}
    (he : Entered S ⟨run.sandbox.id, run.runId⟩ h) :
    Tx.wp (refuseExpired config run now)
      (fun _ h' => Entered S ⟨run.sandbox.id, run.runId⟩ h') (fun _ h' => Sound S h') h := by
  rw [refuseExpired, Tx.wp_bind]
  refine Tx.wp_mono ?_ (fun _ _ hs => hs) (he.along (retirementDeadline_idle config run.sandbox))
  intro deadline h' he'
  rw [Tx.wp_when]
  refine ⟨fun _ => ?_, fun _ => he'⟩
  rw [Tx.wp_bind]
  have hafter : ∀ h'', GivesUp ⟨run.sandbox.id, run.runId⟩ h' h'' → Sound S h'' := by
    intro h'' hg
    refine he'.sound.givesUp hg he'.fresh ?_
    intro d hd hsame
    cases ((he'.sound.registered d hd).2.1.unique he'.holds hsame).1
  exact Tx.wp_mono (fun _ h'' hg => Tx.wp_throw.mpr (hafter h'' hg)) (fun _ => hafter)
    (endRun_givesUp config now he'.named (Or.inl rfl) he'.holds he'.sound.backed)

theorem runPersistent_sound (hs : Sound S h) (mindId : MindId) :
    Tx.wp (runPersistent config mindId now) (fun _ h' => Sound S h') (fun _ h' => Sound S h')
      h := by
  rw [runPersistent, Tx.wp_bind]
  refine Tx.wp_mono ?_ (fun _ _ hs => hs) (hs.along (registrationFor_idle config mindId now))
  intro before h₁ hs₁
  rw [Tx.wp_bind, Tx.wp_read, Tx.wp_bind, Tx.wp_ensure]
  refine ⟨fun _ => ?_, fun _ => hs₁⟩
  rw [Tx.wp_bind, Tx.wp_read, Tx.wp_bind, registry, Tx.wp_within, Tx.wp_iff]
  constructor
  · intro run db hrun
    obtain ⟨-, hbegun, -⟩ := beginRun_ok hrun
    have he := hs₁.begins (beginRun_begins hrun)
    have hid : run.sandbox.id = mindId := hbegun.id
    rw [← hid] at he ⊢
    rw [Tx.wp_bind]
    refine Tx.wp_mono ?_ (fun _ _ hs => hs) (refuseExpired_sound config now he)
    intro _ h₂ he₂
    rw [Tx.wp_bind]
    refine Tx.wp_mono ?_ (fun _ _ hs => hs) (he₂.along (takeNotices_idle run _ now))
    intro _ h₃ he₃
    rw [Tx.wp_bind]
    refine Tx.wp_mono ?_ (fun _ _ hs => hs) (he₃.along (context_idle run.sandbox))
    intro _ h₄ he₄
    exact Tx.wp_write.mpr he₄.fly
  · intro e db herr
    rw [beginRun_atomic mindId now _ e db herr]
    exact hs₁

theorem managerRun_sound (hs : Sound S h) (mindId : MindId) :
    Tx.wp (managerRun config mindId now) (fun _ h' => Sound S h') (fun _ h' => Sound S h') h := by
  rw [managerRun, Tx.wp_bind]
  refine Tx.wp_mono ?_ (fun _ _ hs => hs) (hs.along (collectGarbage_idle config now))
  intro _ h' hs'
  exact runPersistent_sound config now hs' mindId

end Run

theorem restart_sound (hs : Sound S h) (saved alive : List ℕ) (now : Time) :
    Tx.wp (restart saved alive now) (fun _ h' => Sound S h') (fun _ h' => Sound S h') h := by
  rw [restart, Tx.wp_bind, Tx.wp_write, Tx.wp_bind, registry, Tx.wp_within]
  refine Tx.wp_mono ?_ (fun _ _ hfalse => hfalse.elim) (coldResetAll_frees now _)
  rintro _ db ⟨hnone, hbacked⟩
  rw [Tx.wp_pure]
  have hjob : ∀ j ∈ (h.jobs.delete (fun j => !decide (j.id ∈ saved))).update (fun _ => true)
      (reloaded alive) (reloaded_id alive), ∃ j₀ ∈ h.jobs, j = reloaded alive j₀ := by
    intro j hj
    obtain ⟨j₀, hj₀, rfl⟩ := AutoTable.mem_update.mp hj
    exact ⟨j₀, (AutoTable.mem_delete.mp hj₀).1, rfl⟩
  have hhandoff : ∀ x ∈ h.handoffs.update (fun _ => true) (fun x => { x with settled := true })
      (fun _ => rfl), ∃ y ∈ h.handoffs, y.bgId = x.bgId := by
    intro x hx
    obtain ⟨y, hy, rfl⟩ := Table.mem_update.mp hx
    exact ⟨y, hy, rfl⟩
  have hkind : ∀ j, (reloaded alive j).kind = j.kind := by
    intro j
    unfold reloaded
    split
    · rfl
    · split
      · rfl
      · rfl
  exact
    { backed := hbacked hs.backed
      flying := nofun
      apart := List.nodup_nil
      carried := nofun
      registered := nofun
      alone := nofun
      numbered := by
        intro x hx
        obtain ⟨y, hy, hid⟩ := hhandoff x hx
        exact hid ▸ hs.numbered y hy
      futures := by
        intro x hx j hj hid
        obtain ⟨y, hy, hyid⟩ := hhandoff x hx
        obtain ⟨j₀, hj₀, rfl⟩ := hjob j hj
        rw [hkind]
        rw [reloaded_id, ← hyid] at hid
        exact hs.futures y hy j₀ hj₀ hid
      early := nofun
      tracked := by
        -- the futures of the last process are all lost
        rintro b o ⟨x, hx, hxb, -⟩ ⟨j, hj, hid, hrun⟩
        obtain ⟨y, hy, hyid⟩ := hhandoff x hx
        obtain ⟨j₀, hj₀, rfl⟩ := hjob j hj
        rw [reloaded_id] at hid
        have hfuture := hs.futures y hy j₀ hj₀ (hid.trans (hxb.symm.trans hyid.symm))
        unfold reloaded at hrun
        rw [hfuture] at hrun
        cases hr : j₀.running with
        | false => simp [hr] at hrun
        | true => simp [hr] at hrun
      held := fun o ho => absurd ho (hnone .detached (Or.inr rfl) o) }

end Elpis.Sandbox
