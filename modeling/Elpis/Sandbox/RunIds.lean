import Elpis.Sandbox.Lifecycle
import Mathlib.Data.Prod.Lex

/-!
# Run ids are never issued twice

The machine of a sandbox never moves its counters back: a run takes the next number of
its generation, and whatever starts a generation starts the numbers over. So the
counters of the runs begun for one sandbox increase strictly in the order of
`(generation, number)`, over every run of the registry, and a run id names one run.
-/

namespace Elpis.Sandbox

open Elpis.Lib Elpis.Mind

/-! ## The text of a run id -/

theorem toList_toString (n : ℕ) : (toString n).toList = Nat.toDigits 10 n := by
  rw [Nat.toString_eq_ofList_toDigits, String.toList_ofList]

theorem toDigits_injective {m n : ℕ} (h : Nat.toDigits 10 m = Nat.toDigits 10 n) : m = n := by
  have hread := congrArg (fun digits => Nat.ofDigitChars 10 digits 0) h
  simpa only [Nat.ofDigitChars_ten_toDigits] using hread

theorem colon_notMem_toDigits (n : ℕ) : ':' ∉ Nat.toDigits 10 n := by
  intro h
  have hdigit := Nat.isDigit_of_mem_toDigits (by decide) (by decide) h
  exact absurd hdigit (by decide)

/-- A run id of a sandbox determines its generation and its number. -/
theorem runIdOf_injective {id : MindId} {g g' n n' : ℕ}
    (h : runIdOf id g n = runIdOf id g' n') : g = g' ∧ n = n' := by
  have hlist := congrArg String.toList h
  simp only [runIdOf, String.toList_append, toList_toString, List.append_assoc] at hlist
  have hcut := List.append_cancel_left (List.append_cancel_left hlist)
  have hrest : ∀ k, ':' ∉ 'r' :: Nat.toDigits 10 k := by
    intro k hk
    rcases List.mem_cons.mp hk with hk | hk
    · exact absurd hk (by decide)
    · exact colon_notMem_toDigits k hk
  obtain ⟨hg, -, hn⟩ :=
    (List.append_cons_inj_of_notMem (colon_notMem_toDigits g) (hrest n)).mp hcut
  exact ⟨toDigits_injective hg, toDigits_injective (List.cons.inj hn).2⟩

/-! ## Counters -/

def Control.counters (k : Control) : ℕ ×ₗ ℕ := toLex (k.generation, k.nextRunSeq)

/-- The generation of a run and its number there. -/
def SandboxRun.counters (run : SandboxRun) : ℕ ×ₗ ℕ :=
  toLex (run.sandbox.generation, run.sandbox.nextRunSeq - 1)

theorem counters_lt_next_run (g n : ℕ) : toLex (g, n) < toLex (g, n + 1) :=
  Prod.Lex.toLex_lt_toLex.mpr (Or.inr ⟨rfl, Nat.lt_succ_self n⟩)

theorem counters_lt_next_generation (g n : ℕ) : toLex (g, n) < toLex (g + 1, 1) :=
  Prod.Lex.toLex_lt_toLex.mpr (Or.inl (Nat.lt_succ_self g))

variable {c : RegistryCall} {id : MindId} {k k' : Control}

/-- No call moves the counters of a sandbox back. -/
theorem ControlStep.counters_le (h : ControlStep c id k k') : k.counters ≤ k'.counters := by
  cases h with
  | keep => exact le_rfl
  | begin hc hl => exact (counters_lt_next_run _ _).le
  | detach hc hl ha => exact le_rfl
  | finish hc hl ha => exact le_rfl
  | fail hc hl ha => exact (counters_lt_next_generation _ _).le
  | interrupted hc hl => exact le_rfl
  | cold hc hl => exact (counters_lt_next_generation _ _).le
  | reset hc hl => exact (counters_lt_next_generation _ _).le
  | retire hc hl => exact le_rfl

/-- A run owns the sandbox exactly while it is busy or detached. -/
def Control.Sound (k : Control) : Prop := k.lifecycle.Owned ↔ k.activeRunId ≠ none

theorem Owned.not_ready {l : SandboxLifecycle} (h : l.Owned) : l ≠ .ready ∧ l ≠ .retired := by
  rcases h with rfl | rfl
  · exact ⟨by decide, by decide⟩
  · exact ⟨by decide, by decide⟩

theorem not_owned_ready : ¬SandboxLifecycle.ready.Owned := fun h => (Owned.not_ready h).1 rfl

theorem not_owned_retired : ¬SandboxLifecycle.retired.Owned := fun h => (Owned.not_ready h).2 rfl

theorem Control.Sound.idle (h : k.Sound) (hl : k.lifecycle = .ready) : k.activeRunId = none := by
  by_contra ha
  have howned := h.mpr ha
  rw [hl] at howned
  exact not_owned_ready howned

theorem Control.Sound.step (h : k.Sound) (hstep : ControlStep c id k k') : k'.Sound := by
  cases hstep with
  | keep => exact h
  | begin hc hl => exact ⟨fun _ => by simp, fun _ => Or.inl rfl⟩
  | detach hc hl ha => exact ⟨fun _ => by simp [ha], fun _ => Or.inr rfl⟩
  | finish hc hl ha => exact ⟨fun ho => absurd ho not_owned_ready, fun hn => absurd rfl hn⟩
  | fail hc hl ha => exact ⟨fun ho => absurd ho not_owned_ready, fun hn => absurd rfl hn⟩
  | interrupted hc hl => exact ⟨fun _ => h.mp (Or.inl hl), fun _ => Or.inr rfl⟩
  | cold hc hl => exact ⟨fun ho => absurd ho not_owned_ready, fun hn => absurd rfl hn⟩
  | reset hc hl => exact h
  | retire hc hl => exact ⟨fun ho => absurd ho not_owned_retired, fun hn => absurd (h.idle hl) hn⟩

theorem ControlStep.retired (h : ControlStep c id k k') (hk : k.lifecycle = .retired) :
    k' = k := by
  have hne : ∀ {l : SandboxLifecycle}, l ≠ .retired → k.lifecycle ≠ l := by
    intro l hl heq
    exact hl (heq.symm.trans hk)
  cases h with
  | keep => rfl
  | begin hc hl => exact absurd hl (hne (by decide))
  | detach hc hl ha => exact absurd hl (hne (by decide))
  | finish hc hl ha => exact absurd hk (Owned.not_ready hl).2
  | fail hc hl ha => exact absurd hk (Owned.not_ready hl).2
  | interrupted hc hl => exact absurd hl (hne (by decide))
  | cold hc hl => exact absurd hk hl
  | reset hc hl => exact absurd hl (hne (by decide))
  | retire hc hl => exact absurd hl (hne (by decide))

/-- The call presents the run `x` of the sandbox `id`. -/
def Presents (c : RegistryCall) (id : MindId) (x : String) : Prop :=
  ∃ now, c = .finishRun id x now ∨ c = .detachRun id x now ∨ c = .failRunAndReset id x now

/-- The two statements that take no run: they go over every sandbox. -/
def Sweep : RegistryCall → Control → Control → Prop
  | .markInterruptedRunsDetached _, k, k' =>
      k.lifecycle = .busy ∧ k' = { k with lifecycle := .detached }
  | .coldResetAll _, k, k' => k' = ⟨.ready, none, k.generation + 1, 1⟩
  | _, _, _ => False

/-- What ends or detaches a run: a call that presents it, or a sweep. -/
theorem ControlStep.owner (h : ControlStep c id k k') (hown : k.lifecycle.Owned)
    (hne : k'.lifecycle ≠ k.lifecycle ∨ k'.activeRunId ≠ k.activeRunId) :
    (∃ x, k.activeRunId = some x ∧ Presents c id x) ∨ Sweep c k k' := by
  obtain ⟨hready, -⟩ := Owned.not_ready hown
  cases h with
  | keep =>
      rcases hne with hne | hne
      · exact absurd rfl hne
      · exact absurd rfl hne
  | begin hc hl => exact absurd hl hready
  | detach hc hl ha => exact Or.inl ⟨_, ha, _, Or.inr (Or.inl hc)⟩
  | finish hc hl ha => exact Or.inl ⟨_, ha, _, Or.inl hc⟩
  | fail hc hl ha => exact Or.inl ⟨_, ha, _, Or.inr (Or.inr hc)⟩
  | interrupted hc hl =>
      rw [hc]
      exact Or.inr ⟨hl, rfl⟩
  | cold hc hl =>
      rw [hc]
      exact Or.inr rfl
  | reset hc hl => exact absurd hl hready
  | retire hc hl => exact absurd hl hready

/-! ## Whole runs -/

/-- What holds of a registry between any two calls. -/
structure Registry.Inv (s : Registry) : Prop where
  sound : ∀ r ∈ s.db.sandboxes, r.control.Sound
  named : ∀ run ∈ s.begun, run.runId =
    runIdOf run.sandbox.id run.sandbox.generation (run.sandbox.nextRunSeq - 1)
  behind : ∀ run ∈ s.begun, ∃ r ∈ s.db.sandboxes, r.id = run.sandbox.id ∧
    run.counters < r.control.counters
  ordered : s.begun.Pairwise
    (fun a b => a.sandbox.id = b.sandbox.id → a.counters < b.counters)

/-- The steps a call takes, and the run it began if it is a `beginRun` that returned. -/
theorem call_cases (s : Registry) (c : RegistryCall) :
    Moves c s.db (call s c).db ∧
      ((call s c).begun = s.begun ∨
        ∃ ref run, Begun ref s.db run ∧ run.sandbox ∈ (call s c).db.sandboxes ∧
          (call s c).begun = s.begun ++ [run]) := by
  have hsteps := Tx.wp_iff.mp (perform_steps c s.db)
  unfold call
  rcases hp : perform c s.db with ⟨e | result, db'⟩
  · exact ⟨hsteps.2 e db' hp, Or.inl rfl⟩
  · refine ⟨hsteps.1 result db' hp, ?_⟩
    cases result with
    | none => exact Or.inl (List.append_nil _)
    | some run =>
        -- only `beginRun` returns a run
        cases c with
        | beginRun ref now =>
            simp only [perform, Tx.bind_ok, Tx.pure_ok] at hp
            obtain ⟨_, _, hbegin, hrun, rfl⟩ := hp
            cases hrun
            obtain ⟨-, hbegun, hmem⟩ := beginRun_ok hbegin
            exact Or.inr ⟨ref, run, hbegun, hmem, rfl⟩
        | _ =>
            simp only [perform, noRun, Tx.bind_ok, Tx.pure_ok] at hp
            obtain ⟨_, _, -, hnone, -⟩ := hp
            cases hnone

/-- After a call, the row of a sandbox is the old row after a step. -/
theorem call_row {s : Registry} {r r' : SandboxRegistration} (hr : r ∈ s.db.sandboxes)
    (hr' : r' ∈ (call s c).db.sandboxes) (hid : r'.id = r.id) :
    ControlStep c r.id r.control r'.control := by
  obtain ⟨x, hx, hxid, hstep⟩ := (call_cases s c).1.old r hr
  rw [Table.eq_of_key hr' hx (hid.trans hxid.symm)]
  exact hstep

theorem Registry.Inv.call {s : Registry} (h : s.Inv) (c : RegistryCall) : (call s c).Inv := by
  obtain ⟨hmoves, hbegun⟩ := call_cases s c
  have hsound : ∀ r ∈ (Sandbox.call s c).db.sandboxes, r.control.Sound := by
    intro r' hr'
    rcases hmoves.new r' hr' with ⟨r, hr, -, hstep⟩ | ⟨-, hk⟩
    · exact (h.sound r hr).step hstep
    · rw [hk]
      exact ⟨fun ho => absurd ho not_owned_ready, fun hn => absurd rfl hn⟩
  have hbehind : ∀ run ∈ s.begun, ∃ r ∈ (Sandbox.call s c).db.sandboxes,
      r.id = run.sandbox.id ∧ run.counters < r.control.counters := by
    intro run hrun
    obtain ⟨r, hr, hid, hlt⟩ := h.behind run hrun
    obtain ⟨r', hr', hid', hstep⟩ := hmoves.old r hr
    exact ⟨r', hr', hid'.trans hid, hlt.trans_le hstep.counters_le⟩
  rcases hbegun with hsame | ⟨ref, run, hrun, hmem, hmore⟩
  · refine ⟨hsound, ?_, ?_, ?_⟩
    · rw [hsame]
      exact h.named
    · rw [hsame]
      exact hbehind
    · rw [hsame]
      exact h.ordered
  · obtain ⟨r, hr, hid, -, hgen, hseq⟩ := hrun.found
    have hcounters : run.counters = r.control.counters := by
      unfold SandboxRun.counters Control.counters
      rw [hgen, hseq]
      rfl
    refine ⟨hsound, ?_, ?_, ?_⟩
    · rw [hmore]
      intro x hx
      rcases List.mem_append.mp hx with hx | hx
      · exact h.named x hx
      · rw [List.mem_singleton.mp hx, hrun.id]
        exact hrun.runId
    · rw [hmore]
      intro x hx
      rcases List.mem_append.mp hx with hx | hx
      · exact hbehind x hx
      · rw [List.mem_singleton.mp hx]
        refine ⟨run.sandbox, hmem, rfl, ?_⟩
        unfold SandboxRun.counters Control.counters SandboxRegistration.control
        rw [hseq]
        exact counters_lt_next_run _ _
    · rw [hmore, List.pairwise_append]
      refine ⟨h.ordered, List.pairwise_singleton _ _, ?_⟩
      intro x hx y hy hxy
      rw [List.mem_singleton.mp hy, hrun.id] at hxy
      rw [List.mem_singleton.mp hy, hcounters]
      -- an earlier run is behind the row this one found
      obtain ⟨r₁, hr₁, hid₁, hlt⟩ := h.behind x hx
      have hsame : r₁ = r := Table.eq_of_key hr₁ hr ((hid₁.trans hxy).trans hid.symm)
      rw [← hsame]
      exact hlt

theorem Registry.inv_empty : Registry.empty.Inv :=
  ⟨fun _ hr => absurd hr Table.not_mem_empty, fun _ hr => absurd hr List.not_mem_nil,
    fun _ hr => absurd hr List.not_mem_nil, List.Pairwise.nil⟩

theorem reached_inv (calls : List RegistryCall) : (run call Registry.empty calls).Inv :=
  run_inv (fun _ c h => h.call c) calls Registry.inv_empty

/-- A retired sandbox stays retired, whatever is called later. -/
theorem run_retired {s : Registry} {r : SandboxRegistration} (hr : r ∈ s.db.sandboxes)
    (hl : r.lifecycle = .retired) :
    ∀ calls : List RegistryCall, ∃ r' ∈ (run call s calls).db.sandboxes,
      r'.id = r.id ∧ r'.lifecycle = .retired := by
  intro calls
  induction calls generalizing s r with
  | nil => exact ⟨r, hr, rfl, hl⟩
  | cons c calls ih =>
      obtain ⟨r₁, hr₁, hid₁, hstep⟩ := (call_cases s c).1.old r hr
      have hl₁ : r₁.lifecycle = .retired :=
        (congrArg Control.lifecycle (hstep.retired hl)).trans hl
      obtain ⟨r', hr', hid', hl'⟩ := ih hr₁ hl₁
      exact ⟨r', hr', hid'.trans hid₁, hl'⟩

/-- **Run ids name runs.** In every reachable registry a sandbox has an active run
exactly while it is busy or detached, a retired one stays retired, a run is ended or
detached by a call that presents it or by one of the two sweeps over all sandboxes,
and the runs begun for a sandbox have strictly increasing counters and distinct ids. -/
theorem registry_runs (calls : List RegistryCall) :
    let s := run call Registry.empty calls
    (∀ r ∈ s.db.sandboxes,
      (r.lifecycle = .ready → r.activeRunId = none) ∧
        (r.lifecycle = .busy ∨ r.lifecycle = .detached → ∃ x, r.activeRunId = some x)) ∧
      (∀ r ∈ s.db.sandboxes, r.lifecycle = .retired → ∀ later,
        ∃ r' ∈ (run call s later).db.sandboxes, r'.id = r.id ∧ r'.lifecycle = .retired) ∧
      (∀ c, ∀ r ∈ s.db.sandboxes, r.lifecycle = .busy ∨ r.lifecycle = .detached →
        ∀ r' ∈ (call s c).db.sandboxes, r'.id = r.id →
          r'.lifecycle ≠ r.lifecycle ∨ r'.activeRunId ≠ r.activeRunId →
          (∃ x, r.activeRunId = some x ∧ Presents c r.id x) ∨ Sweep c r.control r'.control) ∧
      s.begun.Pairwise (fun a b => a.sandbox.id = b.sandbox.id →
        a.counters < b.counters ∧ a.runId ≠ b.runId) := by
  intro s
  have hinv : s.Inv := reached_inv calls
  refine ⟨?_, ?_, ?_, ?_⟩
  · intro r hr
    refine ⟨(hinv.sound r hr).idle, ?_⟩
    intro howned
    exact Option.ne_none_iff_exists'.mp ((hinv.sound r hr).mp howned)
  · intro r hr hl later
    exact run_retired hr hl later
  · intro c r hr howned r' hr' hid hne
    exact (call_row hr hr' hid).owner howned hne
  · refine List.Pairwise.imp_of_mem ?_ hinv.ordered
    intro a b ha hb hlt hid
    refine ⟨hlt hid, ?_⟩
    intro hrun
    rw [hinv.named a ha, hinv.named b hb, hid] at hrun
    obtain ⟨hg, hn⟩ := runIdOf_injective hrun
    have heq : a.counters = b.counters := by
      unfold SandboxRun.counters
      rw [hg, hn]
    exact (hlt hid).ne heq

/-- An open task, the registration of its sandbox and the start of its first run. -/
def oneRun : List RegistryCall :=
  [.mindWrites ⟨[⟨"elm-00000001", "task", "", .task, .open, 2, none, none, "elpis", 0, 0, none,
      none⟩], List.nodup_singleton "elm-00000001"⟩,
    .ensureForMind "executor" "elm-00000001" 1,
    .beginRun "elm-00000001" 2]

/-- A sweep detaches a run that it does not present. -/
theorem interrupted_run_not_presented :
    ¬∀ (calls : List RegistryCall) (c : RegistryCall),
      ∀ r ∈ (run call Registry.empty calls).db.sandboxes,
        r.lifecycle = .busy ∨ r.lifecycle = .detached →
        ∀ r' ∈ (call (run call Registry.empty calls) c).db.sandboxes, r'.id = r.id →
          r'.lifecycle ≠ r.lifecycle ∨ r'.activeRunId ≠ r.activeRunId →
          ∃ x, r.activeRunId = some x ∧ Presents c r.id x := by
  intro h
  have hrow : ∃ r ∈ (run call Registry.empty oneRun).db.sandboxes.rows,
      r.lifecycle = .busy ∧
      ∃ r' ∈ (call (run call Registry.empty oneRun)
        (.markInterruptedRunsDetached 3)).db.sandboxes.rows,
        r'.id = r.id ∧ r'.lifecycle ≠ r.lifecycle := by decide
  obtain ⟨r, hr, hl, r', hr', hid, hne⟩ := hrow
  obtain ⟨x, -, now, hc | hc | hc⟩ :=
    h oneRun (.markInterruptedRunsDetached 3) r hr (Or.inl hl) r' hr' hid (Or.inl hne)
  · cases hc
  · cases hc
  · cases hc

end Elpis.Sandbox
