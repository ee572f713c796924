import Elpis.Bg.Registry
import Elpis.Sandbox.Manager

/-!
# The manager's futures in the background registry

The host of the manager keeps of each background record what decides who holds a sandbox, and
numbers the records as its tables do, from one. Up to that its futures are those of the registry.
-/

namespace Elpis.Sandbox

open Elpis.Lib

/-! ## Records -/

/-- A record as the host keeps it. -/
def kept (j : Bg.BgJob) : BgJob where
  id := j.id + 1
  kind := match j.kind with
    | .job => .job
    | .future => .future
  pid := j.pid
  startedAt := j.startedAt
  running := j.running
  rejected := j.rejected
  ttlAt := j.ttlAt
  cancelled := j.cancelled

/-- The host holds the records of the registry, in their order. -/
structure Mirrors (s : Bg.State) (h : Host) : Prop where
  rows : h.jobs.rows = s.jobs.rows.map kept
  next : h.jobs.seq = s.next

variable {s : Bg.State} {h : Host} (config : ManagerConfig) (cfg : Bg.Config)

theorem expired_kept (now : ℤ) (j : Bg.BgJob) : (kept j).expired now = j.expired now := by
  cases hkind : j.kind <;> simp [BgJob.expired, Bg.BgJob.expired, kept, hkind]

theorem Mirrors.get? (hm : Mirrors s h) (id : ℕ) : h.jobs.get? (id + 1) = (s.jobs.get? id).map kept := by
  unfold Table.get?
  rw [hm.rows, List.find?_map]
  congr 2
  funext j
  simp [kept]

theorem Mirrors.evicted (hm : Mirrors s h) : evicted h.jobs = (Bg.evicted s.jobs).map (· + 1) := by
  have hfilter : h.jobs.rows.filter (fun j => !j.running) =
      (s.jobs.rows.filter (fun j => !j.running)).map kept := by
    rw [hm.rows, List.filter_map]
    rfl
  have hsort := List.map_mergeSort (f := kept) (r := fun a b => decide (a.startedAt ≤ b.startedAt))
    (s := fun a b => decide (a.startedAt ≤ b.startedAt)) (l := s.jobs.rows.filter (fun j => !j.running))
    (fun _ _ _ _ => rfl)
  unfold Sandbox.evicted Bg.evicted
  dsimp only
  rw [hfilter, ← hsort, hm.rows, List.length_map, ← List.map_take, List.map_map, List.map_map]
  rfl

theorem rows_put_found {id : ℕ} {j j' : Bg.BgJob} (hj : s.jobs.get? id = some j) (hid : j'.id = id) :
    (s.jobs.put j').rows = s.jobs.rows.map (fun x => if x.id = id then j' else x) := by
  have hfound : ¬s.jobs.get? j'.id = none := by
    rw [hid, hj]
    exact nofun
  rw [Table.put, dif_neg hfound, ← hid]
  show s.jobs.rows.map _ = _
  simp

/-- One record is written on both sides. -/
theorem Mirrors.write (hm : Mirrors s h) {id : ℕ} {j : Bg.BgJob} (hj : s.jobs.get? id = some j)
    (j' : Bg.BgJob) (hid : j'.id = j.id) (f : BgJob → BgJob) (hf : ∀ j, (f j).id = j.id)
    (hsame : kept j' = f (kept j)) :
    Mirrors (s.put j') { h with jobs := h.jobs.update (fun j => decide (j.id = id + 1)) f hf } := by
  refine ⟨?_, hm.next⟩
  show h.jobs.rows.map _ = (s.jobs.put j').rows.map kept
  rw [hm.rows, rows_put_found hj (hid.trans (Table.key_of_get? hj)), List.map_map, List.map_map]
  refine List.map_congr_left (fun x hx => ?_)
  by_cases hx' : x.id = id
  · obtain rfl : x = j := Table.eq_of_key hx (Table.mem_of_get? hj) (hx'.trans (Table.key_of_get? hj).symm)
    rw [Function.comp_apply, Function.comp_apply, if_pos hx', hsame, if_pos (by simp [kept, hx'])]
  · simp [kept, hx']

/-! ## The listener writes no record -/

def SameJobs (h h' : Host) : Prop := h'.jobs = h.jobs

instance : IsPreorder Host SameJobs where
  refl _ := rfl
  trans _ _ _ h h' := Eq.trans h' h

theorem Mirrors.behind (hm : Mirrors s h) {s' : Bg.State} {h' : Host} (hs : s'.jobs = s.jobs ∧ s'.next = s.next)
    (hh : SameJobs h h') : Mirrors s' h' :=
  ⟨by rw [show h'.jobs = h.jobs from hh, hs.1, hm.rows], by rw [show h'.jobs = h.jobs from hh, hs.2, hm.next]⟩

theorem registry_sameJobs {α : Type} (m : RegistryM α) : Tx.Along SameJobs (registry m) := by
  intro h
  rw [registry, Tx.wp_within, Tx.wp_iff]
  exact ⟨fun _ _ _ => rfl, fun _ _ _ => rfl⟩

theorem dropContext_sameJobs (id : Mind.MindId) : Tx.Along SameJobs (dropContext id) := Tx.Along.write (fun _ => rfl)

theorem finalizeExpired_sameJobs (registration : SandboxRegistration) (now : Mind.Time) :
    Tx.Along SameJobs (finalizeExpired config registration now) := by
  have hdeadline : Tx.Along SameJobs (retirementDeadline config registration) := by
    refine Tx.Along.ite (Tx.Along.pure _) ?_
    cases registration.retireRequestedAt with
    | none => exact Tx.Along.throw _
    | some requestedAt => exact Tx.Along.pure _
  refine hdeadline.bind (fun deadline => Tx.Along.ite (Tx.Along.pure _) ?_)
  refine (registry_sameJobs _).bind (fun retired => Tx.Along.ite (Tx.Along.pure _) ?_)
  exact (dropContext_sameJobs _).bind (fun _ => Tx.Along.pure _)

theorem futureTerminal_sameJobs (b : ℕ) (now : Mind.Time) : Tx.Along SameJobs (futureTerminal config b now) := by
  refine (Tx.Along.read _).bind (fun _ => Tx.Along.when ((Tx.Along.read _).bind (fun entry => ?_)))
  cases entry with
  | none => exact Tx.Along.pure _
  | some d =>
      dsimp only
      have hexpired : Tx.Along SameJobs (resetRun config d.owner now) :=
        (registry_sameJobs _).bind (fun _ => (dropContext_sameJobs _).bind (fun _ =>
          (finalizeExpired_sameJobs config _ now).bind (fun _ => Tx.Along.pure _)))
      refine Tx.Along.bind ?_ (fun _ => ?_)
      · exact Tx.Along.write (fun _ => rfl)
      · exact hexpired

/-! ## Futures -/

theorem registerFuture_mirrors (now : ℤ) (hm : Mirrors s h) :
    Tx.wp (registerFuture now) (fun id h' => id = s.next + 1 ∧ Mirrors (Bg.registerFuture cfg none now s) h')
      (fun _ _ => False) h := by
  have hfree : s.jobs.get? s.next = none := by
    have hget := hm.get? s.next
    rw [← hm.next, show h.jobs.seq + 1 = h.jobs.next from rfl, AutoTable.get?_next, hm.next] at hget
    exact Option.map_eq_none_iff.mp hget.symm
  simp only [registerFuture, Tx.wp_bind, Tx.wp_read, Tx.wp_write, Tx.wp_pure]
  refine ⟨congrArg (· + 1) hm.next, ?_, congrArg (· + 1) hm.next⟩
  show h.jobs.rows ++ [_] = ((s.jobs.put _).rows).map kept
  rw [Table.rows_put_of_none hfree, List.map_append, hm.rows]
  simp [kept, AutoTable.next, hm.next, futureTtl]

theorem abandon_mirrors (now : ℤ) (id : ℕ) (hm : Mirrors s h) :
    Tx.wp (abandon config now (id + 1)) (fun _ h' => Mirrors (Bg.abandon now id s) h') (fun _ _ => False) h := by
  rw [abandon, Tx.wp_bind, Tx.wp_read, hm.get?, Bg.abandon, Tx.wp_when]
  cases hj : s.jobs.get? id with
  | none => exact ⟨nofun, fun _ => hm⟩
  | some j =>
      rw [Option.map_some, Option.any_some, expired_kept]
      refine ⟨fun hexpired => ?_, fun hexpired => ?_⟩
      · dsimp only
        rw [if_pos hexpired]
        have hwritten := hm.write hj
          { j with running := false, rejected := true, value := some "[abandoned after TTL]" } rfl
          (fun j => { j with running := false, rejected := true }) (fun _ => rfl) rfl
        simp only [Tx.wp_bind, Tx.wp_pure, updateJob, Tx.wp_write, Tx.wp_attempt]
        exact Tx.wp_mono (fun _ _ hp => hwritten.behind ⟨rfl, rfl⟩ hp)
          (fun _ _ hp => hwritten.behind ⟨rfl, rfl⟩ hp)
          (futureTerminal_sameJobs config (id + 1) now _)
      · dsimp only
        rw [if_neg hexpired]
        exact hm

theorem forEach_abandon_mirrors (now : ℤ) (ids : List ℕ) (hm : Mirrors s h) :
    Tx.wp (Tx.forEach (abandon config now) (ids.map (· + 1)))
      (fun _ h' => Mirrors (ids.foldl (fun s id => Bg.abandon now id s) s) h') (fun _ _ => False) h := by
  induction ids generalizing s h with
  | nil => exact Tx.wp_pure.mpr hm
  | cons id ids ih =>
      rw [List.map_cons, Tx.forEach, Tx.wp_bind]
      exact Tx.wp_mono (fun _ _ hp => ih hp) (fun _ _ hp => hp) (abandon_mirrors config now id hm)

/-- The expired futures are abandoned, and the same records are evicted. -/
theorem reapAbandoned_mirrors (now : ℤ) (hm : Mirrors s h) :
    Tx.wp (reapAbandoned config now) (fun _ h' => Mirrors (Bg.reapAbandoned cfg now s) h') (fun _ _ => False) h := by
  have hids : h.jobs.rows.map BgJob.id = (s.jobs.rows.map Bg.BgJob.id).map (· + 1) := by
    rw [hm.rows, List.map_map, List.map_map]
    rfl
  rw [reapAbandoned, Tx.wp_bind, Tx.wp_read, hids, Tx.wp_bind]
  refine Tx.wp_mono (fun _ h' hreaped => ?_) (fun _ _ hp => hp) (forEach_abandon_mirrors config now _ hm)
  rw [Tx.wp_write]
  have hcapped : Mirrors
      { Bg.forEachJob (Bg.abandon now) s with
        jobs := (Bg.forEachJob (Bg.abandon now) s).jobs.delete (fun j =>
          decide (j.id ∈ Bg.evicted (Bg.forEachJob (Bg.abandon now) s).jobs)) }
      { h' with jobs := h'.jobs.delete (fun j => decide (j.id ∈ evicted h'.jobs)) } := by
    refine ⟨?_, hreaped.next⟩
    show h'.jobs.rows.filter _ = (List.filter _ _).map kept
    rw [hreaped.evicted, hreaped.rows, List.filter_map]
    congr 1
    refine List.filter_congr (fun j _ => congrArg _ (decide_eq_decide.mpr ?_))
    simp [kept, Bg.forEachJob]
  unfold Bg.reapAbandoned
  dsimp only
  split
  · exact hcapped
  · exact ⟨hcapped.rows, hcapped.next⟩

theorem settleFuture_mirrors (id : ℕ) (value : String) (rejected : Bool) (now : ℤ) (hm : Mirrors s h) :
    Tx.wp (settleFuture config (id + 1) rejected now)
      (fun _ h' => Mirrors (Bg.settleFuture cfg id value rejected now s) h') (fun _ _ => False) h := by
  rw [settleFuture, Tx.wp_bind, Tx.wp_read, hm.get?, Bg.settleFuture]
  cases hj : s.jobs.get? id with
  | none => exact Tx.wp_pure.mpr hm
  | some j =>
      rw [Option.map_some]
      dsimp only
      rw [Tx.wp_ite]
      refine ⟨fun hcancelled => ?_, fun hcancelled => ?_⟩
      · rw [if_pos (show j.cancelled = true from hcancelled)]
        exact Tx.wp_pure.mpr hm
      · rw [if_neg (show ¬j.cancelled = true from hcancelled)]
        have hwritten := hm.write hj { j with running := false, value := some value, rejected } rfl
          (fun j => { j with running := false, rejected := rejected }) (fun _ => rfl) rfl
        have hsaved : Mirrors ((s.put { j with running := false, value := some value, rejected }).save cfg) _ :=
          ⟨hwritten.rows, hwritten.next⟩
        simp only [Tx.wp_bind, updateJob, Tx.wp_write, Tx.wp_pure]
        exact Tx.wp_mono (fun _ _ hp => ⟨hp.rows, hp.next⟩) (fun _ _ hp => hp)
          (reapAbandoned_mirrors config cfg now hsaved)

end Elpis.Sandbox
