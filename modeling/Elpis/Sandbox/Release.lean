import Elpis.Sandbox.Detach

/-!
# A detached sandbox is released when its futures end

Over every interleaving of the manager and the background registry. The registry keeps
a sandbox detached for a run that is over exactly if the manager resumed that run after
its future had been cancelled or abandoned: `earlySettlements` remembers a settlement
that came before the registration, and nothing remembers the other two ends.
-/

namespace Elpis.Sandbox

open Elpis.Lib Elpis.Mind

/-- No sandbox is kept detached for a run that has finished its own steps and whose
futures have all ended. -/
def Released (h : Host) : Prop :=
  ∀ o : Owner, (∀ f ∈ h.flights, f.owner ≠ o) →
    (∀ x ∈ h.handoffs, x.owner = some o → ¬Running h.jobs x.bgId) → ¬Holds h.db .detached o

/-- When the manager resumes a detached run, its future still runs or has settled: it was
neither cancelled nor abandoned since the sandbox registered it. -/
def ResumesLive (h : Host) : HostEvent → Prop
  | .resume f _ => f ∈ h.flights → ∀ b, f.future = some b →
      Running h.jobs b ∨ (h.earlySettlements.get? b).isSome = true
  | _ => True

variable {h : Host} {b : ℕ}

theorem Sound.released (hs : Sound ∅ h) : Released h := by
  intro o _ hended hheld
  obtain ⟨d, hd, rfl, hrun | hS⟩ := hs.held o hheld
  · obtain ⟨x, hx, hxb, hxo⟩ := (hs.registered d hd).2.2
    exact hended x hx hxo (hxb ▸ hrun)
  · exact hS

section Resume
variable (config : ManagerConfig) (now : Time) {f : Flight}

/-- The process after the manager resumed a detached run. -/
theorem resume_cases (hs : Sound ∅ h) (hf : f ∈ h.flights) (hb : f.future = some b) :
    ((h.earlySettlements.get? b).isSome = true → Sound ∅ (hostStep config h (.resume f now))) ∧
      ((h.earlySettlements.get? b).isSome = false → ∃ db, Detaches f.owner h.db db ∧
        hostStep config h (.resume f now) = withRegistered h f b db) := by
  have hstep : hostStep config h (.resume f now) =
      { h with flights := h.flights.erase f }.exec (resumeDetached config f.owner b now) := by
    simp only [hostStep, hb]
    rw [if_pos hf]
  rw [hstep]
  refine Tx.wp_final (P := fun h' => ((h.earlySettlements.get? b).isSome = true → Sound ∅ h') ∧
    ((h.earlySettlements.get? b).isSome = false →
      ∃ db, Detaches f.owner h.db db ∧ h' = withRegistered h f b db))
    (Tx.wp_mono ?_ ?_ (resumeDetached_cases config now hs hf hb))
  · intro _ h' hpost
    constructor
    · intro hearly
      rwa [if_pos hearly] at hpost
    · intro hearly
      rwa [if_neg (by simp [hearly])] at hpost
  · rintro _ h' ⟨hearly, hs'⟩
    exact ⟨fun _ => hs', fun hno => absurd hearly (by simp [hno])⟩

/-- A run resumed on a future that runs or has settled leaves the process sound. -/
theorem resume_sound (hs : Sound ∅ h) (hok : ResumesLive h (.resume f now)) :
    Sound ∅ (hostStep config h (.resume f now)) := by
  cases hb : f.future with
  | none =>
      simp only [hostStep, hb]
      exact hs
  | some b =>
      by_cases hf : f ∈ h.flights
      · obtain ⟨hearly, hlate⟩ := resume_cases config now hs hf hb
        cases he : (h.earlySettlements.get? b).isSome with
        | true => exact hearly he
        | false =>
            obtain ⟨db, hdet, heq⟩ := hlate he
            have hrun : Running h.jobs b := by
              rcases hok hf b hb with hrun | hsome
              · exact hrun
              · rw [he] at hsome
                cases hsome
            rw [heq]
            exact (hs.register hf hb hdet).discharge (Or.inl hrun)
      · simp only [hostStep, hb]
        rw [if_neg hf]
        exact hs

/-- A run resumed on a future that was cancelled or abandoned keeps its sandbox, and no
future of it is left to give it up. -/
theorem resume_not_released (hs : Sound ∅ h) (hok : ¬ResumesLive h (.resume f now)) :
    ¬Released (hostStep config h (.resume f now)) := by
  simp only [ResumesLive, not_forall, not_or] at hok
  obtain ⟨hf, b, hb, hstopped, he⟩ := hok
  obtain ⟨db, hdet, heq⟩ := (resume_cases config now hs hf hb).2 (by simpa using he)
  rw [heq]
  intro hrel
  refine hrel f.owner ?_ ?_ ?_
  · intro g hg howner
    have hne := ((List.Nodup.of_map _ hs.apart).mem_erase_iff.mp hg).1
    exact hne (hs.flight_eq (List.mem_of_mem_erase hg) hf (congrArg Owner.sandbox howner))
  · intro x hx hxo hrun
    rcases hs.tracked x.bgId f.owner ⟨x, hx, rfl, hxo⟩ hrun with ⟨d, hd, -, hdo⟩ | ⟨g, hg, hgo, hgb⟩
    · exact hs.not_registered hf hd (congrArg Owner.sandbox hdo)
    · rw [hs.flight_eq hg hf (congrArg Owner.sandbox hgo), hb] at hgb
      exact hstopped (Option.some.inj hgb ▸ hrun)
  · refine (hdet.holds .detached (Or.inr rfl) f.owner).mpr ?_
    rw [if_pos rfl]
    exact ⟨rfl, rfl⟩

end Resume

/-- Every other step leaves the process sound. -/
theorem hostStep_sound (config : ManagerConfig) (hs : Sound ∅ h) (e : HostEvent)
    (hok : ResumesLive h e) : Sound ∅ (hostStep config h e) := by
  cases e with
  | run mindId now => exact Tx.wp_final (managerRun_sound config now hs mindId)
  | complete f outcome now =>
      simp only [hostStep]
      split
      · rename_i hf
        exact Tx.wp_final (completeRun_sound config now hs hf.1 hf.2 outcome)
      · exact hs
  | detach f now =>
      simp only [hostStep]
      split
      · rename_i hf
        exact detachFlight_sound now hs hf.1 hf.2
      · exact hs
  | resume f now => exact resume_sound config now hs hok
  | detachEphemeral now => exact detachEphemeral_sound now hs
  | settle x rejected now =>
      simp only [hostStep]
      split
      · rename_i hx
        exact Tx.wp_final (promiseSettled_sound config now hs hx.1 rejected)
      · exact hs
  | cancel id now => exact Tx.wp_final (cancel_sound config now hs id)
  | reap now =>
      refine Tx.wp_final (Tx.wp_mono ?_ ?_ (reapAbandoned_sound config now hs))
      · exact fun _ _ hp => hp.1
      · exact fun _ _ hfalse => hfalse.elim
  | start pid now => exact hs.push
  | exit id =>
      simp only [hostStep]
      split
      · rename_i hjob
        cases hget : h.jobs.get? id with
        | none =>
            rw [hget] at hjob
            cases hjob
        | some j =>
            rw [hget] at hjob
            obtain ⟨hj, rfl⟩ := Table.get?_eq_some.mp hget
            exact finishJob_sound hs hj (of_decide_eq_true hjob)
      · exact hs
  | mindState mindId status archived now =>
      exact Tx.wp_final (hs.along (handleMindStateChange_idle config mindId status archived now))
  | collectGarbage now => exact Tx.wp_final (hs.along (collectGarbage_idle config now))
  | mindWrites minds =>
      simp only [hostStep]
      split
      · rename_i hrefs
        refine { hs with backed := ?_ }
        intro r hr
        have hsome := List.all_eq_true.mp hrefs r hr
        exact Option.isSome_iff_exists.mp hsome
      · exact hs
  | restart saved alive now => exact Tx.wp_final (restart_sound hs saved alive now)

theorem sound_empty : Sound ∅ Host.empty where
  backed := fun _ hr => absurd hr Table.not_mem_empty
  flying := fun _ hf => absurd hf List.not_mem_nil
  apart := List.nodup_nil
  carried := fun _ hf => absurd hf List.not_mem_nil
  registered := fun _ hd => absurd hd Table.not_mem_empty
  alone := fun _ hd => absurd hd Table.not_mem_empty
  numbered := fun _ hx => absurd hx Table.not_mem_empty
  futures := fun _ hx => absurd hx Table.not_mem_empty
  early := fun _ he => absurd he Table.not_mem_empty
  tracked := by
    rintro b o ⟨x, hx, -⟩
    exact absurd hx Table.not_mem_empty
  held := by
    rintro o ⟨r, hr, -⟩
    exact absurd hr Table.not_mem_empty

/-- One open task, whose sandbox begins its first run. -/
def firstRun : List HostEvent :=
  [.mindWrites ⟨[⟨"elm-00000001", "task", "", .task, .open, 2, none, none, "elpis", 0, 0, none,
      none⟩], by decide⟩,
    .run "elm-00000001" 1]

def firstOwner : Owner := ⟨"elm-00000001", "elm-00000001:g1:r1"⟩

end Elpis.Sandbox
