import Elpis.Context.GraphSteps
import Elpis.Lib.Run

/-!
# The continuation of the context graph

Over every sequence of calls the head, the advances, the coordinator, the branches, the root
receipts and the effects agree. The invariant comes in four parts, by the tables they read: the
chain of the advances, the running branch, the branches that advances name, and the receipts.
-/

namespace Elpis.Context

open Elpis.Js Elpis.Lib

variable {s s' : Store} {hash : String → String}

/-! ## Calls -/

/-- A call on the store. -/
inductive Call where
  | begin (input : BeginInput)
  | complete (input : ReturnInput)
  | recover (recoveredAt : ℤ)
  | prepare (input : EffectInput)
  | resolve (effectId : String) (resolution : Resolution) (resolvedAt : ℤ)
      (observation : Option (Option String))
  | recoverEffects (recoveredAt : ℤ)
  /-- The write of `createManifest`, without which no branch returns. -/
  | manifest (m : Manifest)

def Call.program (hash : String → String) : Call → Method Unit
  | .begin input => do
      let _ ← beginCoordinatedBranch input
      pure ()
  | .complete input => do
      let _ ← completeCoordinatedBranch input
      pure ()
  | .recover recoveredAt => do
      let _ ← recoverCoordinatedBranch recoveredAt
      pure ()
  | .prepare input => do
      let _ ← prepareEffect hash input
      pure ()
  | .resolve effectId resolution resolvedAt observation => do
      let _ ← resolveEffect effectId resolution resolvedAt observation
      pure ()
  | .recoverEffects recoveredAt => do
      let _ ← recoverPreparedEffects recoveredAt
      pure ()
  | .manifest m => insertManifest m

/-- A call, with the store it leaves whether it returns or throws. -/
def step (hash : String → String) (s : Store) (call : Call) : Store := (call.program hash s).2

theorem program_change {call : Call} {u : Unit} (h : call.program hash s = (.ok u, s')) :
    Change s s' := by
  cases call with
  | begin input =>
      obtain ⟨r, _, hm, -, rfl⟩ := by simpa only [Call.program, Tx.bind_ok, Tx.pure_ok] using h
      exact beginCoordinatedBranch_change hm
  | complete input =>
      obtain ⟨r, _, hm, -, rfl⟩ := by simpa only [Call.program, Tx.bind_ok, Tx.pure_ok] using h
      exact completeCoordinatedBranch_change hm
  | recover recoveredAt =>
      obtain ⟨r, _, hm, -, rfl⟩ := by simpa only [Call.program, Tx.bind_ok, Tx.pure_ok] using h
      exact recoverCoordinatedBranch_change hm
  | prepare input =>
      obtain ⟨r, _, hm, -, rfl⟩ := by simpa only [Call.program, Tx.bind_ok, Tx.pure_ok] using h
      exact prepareEffect_change hm
  | resolve effectId resolution resolvedAt observation =>
      obtain ⟨r, _, hm, -, rfl⟩ := by simpa only [Call.program, Tx.bind_ok, Tx.pure_ok] using h
      exact resolveEffect_change hm
  | recoverEffects recoveredAt =>
      obtain ⟨r, _, hm, -, rfl⟩ := by simpa only [Call.program, Tx.bind_ok, Tx.pure_ok] using h
      exact recoverPreparedEffects_change hm
  | manifest m =>
      rw [insertManifest_ok h]
      exact .manifested

/-! ## A call that throws -/

theorem timestamp_readOnly (label : String) (value : ℤ) : Tx.ReadOnly (timestamp label value) :=
  (Tx.readOnly_ensure _ _).bind (fun _ => Tx.readOnly_pure _)

theorem serialize_readOnly (value : Option String) : Tx.ReadOnly (serialize value) :=
  Tx.readOnly_require _ _

theorem boundedStrings_readOnly (label : String) (values : List String) :
    Tx.ReadOnly (boundedStrings label values) :=
  (Tx.readOnly_ensure _ _).bind (fun _ => (Tx.readOnly_ensure _ _).bind (fun _ => Tx.readOnly_pure _))

theorem atomic_write (f : Store → Store) : Tx.Atomic (Tx.write f : Method Unit) :=
  (Tx.total_write f).atomic

theorem insertManifest_atomic (m : Manifest) : Tx.Atomic (insertManifest m) :=
  (Tx.readOnly_read _).bind_atomic fun _ => (Tx.readOnly_ensure _ _).bind_atomic fun _ =>
    (Tx.readOnly_ensure _ _).bind_atomic fun _ => (Tx.readOnly_ensure _ _).bind_atomic fun _ =>
      (Tx.readOnly_ensure _ _).bind_atomic fun _ => atomic_write _

theorem insertEffect_atomic (e : Effect) : Tx.Atomic (insertEffect e) :=
  (Tx.readOnly_read _).bind_atomic fun _ => (Tx.readOnly_ensure _ _).bind_atomic fun _ =>
    (Tx.readOnly_ensure _ _).bind_atomic fun _ => (Tx.readOnly_ensure _ _).bind_atomic fun _ =>
      (Tx.readOnly_ensure _ _).bind_atomic fun _ => atomic_write _

theorem updateEffect_atomic (e : Effect) (status : EffectStatus) (resolvedAt : ℕ)
    (observationJson : Option String) : Tx.Atomic (updateEffect e status resolvedAt observationJson) :=
  (Tx.readOnly_ensure _ _).bind_atomic fun _ => atomic_write _

variable {effects : Table Effect.effectId}

/-- The read behind a write of the row finds it. -/
theorem requireEffect_of_put {e : Effect} {id : String}
    (hid : e.effectId = id) (h : s.effects = effects.put e) : requireEffect id s = (.ok e, s) := by
  have hget : s.effects.get? id = some e := by rw [h, Table.get?_put, if_pos hid.symm]
  exact Tx.bind_read_ok.mpr (Tx.require_ok.mpr ⟨hget, rfl⟩)

theorem prepareEffect_atomic (input : EffectInput) : Tx.Atomic (prepareEffect hash input) := by
  refine (serialize_readOnly _).bind_atomic fun _ => (timestamp_readOnly _ _).bind_atomic fun _ =>
    (timestamp_readOnly _ _).bind_atomic fun _ => (insertEffect_atomic _).bind_of_ok ?_
  intro s _ s' h
  obtain ⟨-, -, rfl⟩ := insertEffect_ok h
  exact ⟨_, _, requireEffect_of_put rfl rfl⟩

theorem resolveEffect_atomic (effectId : String) (resolution : Resolution) (resolvedAt : ℤ)
    (observation : Option (Option String)) :
    Tx.Atomic (resolveEffect effectId resolution resolvedAt observation) := by
  refine (Tx.readOnly_onSome serialize_readOnly).bind_atomic fun _ =>
    (timestamp_readOnly _ _).bind_atomic fun _ => (Tx.readOnly_read _).bind_atomic fun t => ?_
  cases he : t.effects.get? effectId with
  | none => exact fun _ _ _ h => by cases h; rfl
  | some e =>
      refine (Tx.readOnly_ensure _ _).bind_atomic fun _ => (updateEffect_atomic _ _ _ _).bind_of_ok ?_
      intro s _ s' h
      obtain rfl := updateEffect_ok h
      have hid : e.effectId = effectId := Table.key_of_get? he
      exact ⟨_, _, requireEffect_of_put (e := e.resolved _ _ _) hid rfl⟩

/-- A call that throws changes nothing. -/
theorem program_atomic (call : Call) : Tx.Atomic (call.program hash) := by
  cases call with
  | begin input => exact (Tx.atomic_transaction _).bind_total (fun _ => Tx.total_pure _)
  | complete input =>
      refine Tx.Atomic.bind_total ?_ (fun _ => Tx.total_pure _)
      exact (Tx.readOnly_ensure _ _).bind_atomic fun _ => (boundedStrings_readOnly _ _).bind_atomic fun _ =>
        (boundedStrings_readOnly _ _).bind_atomic fun _ => (boundedStrings_readOnly _ _).bind_atomic fun _ =>
          (timestamp_readOnly _ _).bind_atomic fun _ => Tx.atomic_transaction _
  | recover recoveredAt =>
      refine Tx.Atomic.bind_total ?_ (fun _ => Tx.total_pure _)
      exact (timestamp_readOnly _ _).bind_atomic fun _ => Tx.atomic_transaction _
  | prepare input => exact (prepareEffect_atomic input).bind_total (fun _ => Tx.total_pure _)
  | resolve effectId resolution resolvedAt observation =>
      exact (resolveEffect_atomic _ _ _ _).bind_total (fun _ => Tx.total_pure _)
  | recoverEffects recoveredAt =>
      refine Tx.Atomic.bind_total ?_ (fun _ => Tx.total_pure _)
      exact (timestamp_readOnly _ _).bind_atomic fun _ => Tx.atomic_transaction _
  | manifest m => exact insertManifest_atomic m

theorem step_change (s : Store) (call : Call) : Change s (step hash s call) := by
  unfold step
  rcases h : call.program hash s with ⟨e | u, s'⟩
  · rw [program_atomic call s e s' h]
    exact .same
  · exact program_change h

/-! ## What agrees -/

/-- The branch that the advance with this number moved to. -/
def Store.advancedTo (s : Store) (revision : ℕ) : Option BranchRef :=
  (s.advances.get? revision).map Advance.ref

/-- The branch has one root receipt, and it lists the effects of the branch. -/
def Store.HasReceipt (s : Store) (branchId : String) : Prop :=
  ∃ root ∈ s.capsules, (root.branchId = branchId ∧ root.kind = .rootReceipt) ∧
    (∀ c ∈ s.capsules, c.branchId = branchId → c.kind = .rootReceipt → c = root) ∧
      ∃ receipt, root.content = .rootReturn receipt ∧
        (s.effectsOf branchId).mapM effectReceipt = .ok receipt.effects

/-- What the tables say together. -/
structure Coherent (s : Store) : Prop where
  base : s.coordinator.baseRevision = s.head.revision ∧ s.coordinator.predecessor = s.head.branch
  numbered : ∀ n, (∃ a ∈ s.advances, a.revision = n) ↔ 1 ≤ n ∧ n ≤ s.head.revision
  /-- In front of the first advance there is no branch. -/
  linked : ∀ a ∈ s.advances, a.predecessor = s.advancedTo (a.revision - 1)
  last : s.head.branch = s.advancedTo s.head.revision
  active : ∀ ref ∈ s.coordinator.active, ∃ b ∈ s.branches, b.ref = ref ∧ b.status = .running ∧
    (∀ b' ∈ s.branches, b'.status = .running → b' = b) ∧
      ∃ start ∈ s.starts, start.branchId = b.branchId ∧ start.baseRevision = s.head.revision ∧
        start.predecessor = s.head.branch
  yielded : ∀ b ∈ s.branches, b.status = .yielded → ∃! a, a ∈ s.advances ∧ a.ref = b.ref
  crashed : ∀ b ∈ s.branches, b.status = .crashed → ∀ a ∈ s.advances, a.ref ≠ b.ref
  settled : ∀ b ∈ s.branches, b.status = .yielded → ∀ e ∈ s.effects, e.branchId = b.branchId →
    e.status ≠ .prepared
  receipt : ∀ b ∈ s.branches, b.status = .yielded → s.HasReceipt b.branchId

/-! ## The chain of the advances -/

/-- The advances lead to the head, and the coordinator stands there. -/
structure Chain (s : Store) : Prop where
  base : s.coordinator.baseRevision = s.head.revision ∧ s.coordinator.predecessor = s.head.branch
  numbered : ∀ n, (∃ a ∈ s.advances, a.revision = n) ↔ 1 ≤ n ∧ n ≤ s.head.revision
  linked : ∀ a ∈ s.advances, a.predecessor = s.advancedTo (a.revision - 1)
  last : s.head.branch = s.advancedTo s.head.revision

/-- A change that moves no head keeps the chain. -/
theorem Chain.congr (h : Chain s) (hhead : s'.head = s.head) (hadvances : s'.advances = s.advances)
    (hrevision : s'.coordinator.baseRevision = s.coordinator.baseRevision)
    (hpredecessor : s'.coordinator.predecessor = s.coordinator.predecessor) : Chain s' := by
  have hto : ∀ n, s'.advancedTo n = s.advancedTo n := fun n => by
    unfold Store.advancedTo
    rw [hadvances]
  constructor
  · rw [hrevision, hpredecessor, hhead]
    exact h.base
  · rw [hadvances, hhead]
    exact h.numbered
  · intro a ha
    rw [hto]
    exact h.linked a (hadvances ▸ ha)
  · rw [hhead, hto]
    exact h.last

theorem Chain.advance (h : Chain s) {a : Advance} (hadvances : s'.advances = s.advances.put a)
    (hrevision : a.revision = s.head.revision + 1) (hpredecessor : a.predecessor = s.head.branch)
    (hnew : s.advances.get? a.revision = none) (hbranch : s'.head.branch = some a.ref)
    (hmoved : s'.head.revision = a.revision) (hbase : s'.coordinator.baseRevision = a.revision)
    (hcoordinator : s'.coordinator.predecessor = some a.ref) : Chain s' := by
  have hto : ∀ n, s'.advancedTo n = if n = a.revision then some a.ref else s.advancedTo n := by
    intro n
    unfold Store.advancedTo
    rw [hadvances, Table.get?_put]
    split
    · rfl
    · rfl
  constructor
  · rw [hbase, hcoordinator, hmoved, hbranch]
    exact ⟨rfl, rfl⟩
  · intro n
    rw [hadvances, hmoved]
    constructor
    · rintro ⟨x, hx, rfl⟩
      rcases Table.mem_put.mp hx with rfl | ⟨hx, -⟩
      · exact ⟨by omega, le_rfl⟩
      · have hle := (h.numbered x.revision).mp ⟨x, hx, rfl⟩
        exact ⟨hle.1, by omega⟩
    · rintro ⟨hone, hle⟩
      by_cases hn : n = a.revision
      · exact ⟨a, Table.mem_put.mpr (Or.inl rfl), hn.symm⟩
      · obtain ⟨x, hx, rfl⟩ := (h.numbered n).mpr ⟨hone, by omega⟩
        exact ⟨x, Table.mem_put.mpr (Or.inr ⟨hx, hn⟩), rfl⟩
  · intro x hx
    rw [hto]
    rcases Table.mem_put.mp (hadvances ▸ hx) with rfl | ⟨hx, -⟩
    · rw [if_neg (by omega), hpredecessor, h.last, hrevision, Nat.add_sub_cancel]
    · have hle := (h.numbered x.revision).mp ⟨x, hx, rfl⟩
      rw [if_neg (by omega)]
      exact h.linked x hx
  · rw [hto, hbranch, hmoved, if_pos rfl]

/-! ## The running branch -/

/-- One branch runs at most, and the coordinator names it. -/
structure Running (s : Store) : Prop where
  alone : ∀ b ∈ s.branches, ∀ b' ∈ s.branches, b.status = .running → b'.status = .running → b' = b
  idle : s.coordinator.active = none → ∀ b ∈ s.branches, b.status ≠ .running
  active : ∀ ref ∈ s.coordinator.active, ∃ b ∈ s.branches, b.ref = ref ∧ b.status = .running ∧
    ∃ start ∈ s.starts, start.branchId = b.branchId ∧ start.baseRevision = s.head.revision ∧
      start.predecessor = s.head.branch

theorem Running.ended (h : Running s) {b b' : Branch} (hbranches : s'.branches = s.branches.put b')
    (hactive : s'.coordinator.active = none) (hb : b ∈ s.branches) (hrunning : b.status = .running)
    (hid : b'.branchId = b.branchId) (hend : b'.status ≠ .running) : Running s' := by
  have hnone : ∀ x ∈ s'.branches, x.status ≠ .running := by
    intro x hx hr
    rcases Table.mem_put.mp (hbranches ▸ hx) with rfl | ⟨hx, hne⟩
    · exact hend hr
    · obtain rfl := h.alone b hb x hx hrunning hr
      exact hne hid.symm
  constructor
  · intro x hx _ _ hr
    exact absurd hr (hnone x hx)
  · exact fun _ => hnone
  · intro ref href
    rw [hactive] at href
    cases href

theorem Running.congr (h : Running s) (hbranches : s'.branches = s.branches) (hstarts : s'.starts = s.starts)
    (hhead : s'.head = s.head) (hactive : s'.coordinator = s.coordinator) : Running s' := by
  constructor
  · rw [hbranches]
    exact h.alone
  · rw [hbranches, hactive]
    exact h.idle
  · rw [hbranches, hstarts, hhead, hactive]
    exact h.active

/-! ## The branches that advances name -/

structure Advanced (s : Store) : Prop where
  unique : ∀ a ∈ s.advances, ∀ a' ∈ s.advances, a.branchId = a'.branchId → a' = a
  yielded : ∀ b ∈ s.branches, b.status = .yielded → ∃ a ∈ s.advances, a.ref = b.ref
  ofBranch : ∀ a ∈ s.advances, ∃ b ∈ s.branches, b.ref = a.ref ∧ b.status = .yielded

theorem Advanced.congr (h : Advanced s) (hbranches : s'.branches = s.branches)
    (hadvances : s'.advances = s.advances) : Advanced s' := by
  constructor
  · rw [hadvances]
    exact h.unique
  · rw [hbranches, hadvances]
    exact h.yielded
  · rw [hbranches, hadvances]
    exact h.ofBranch

/-- No advance names a branch that is put in anew, or in the place of one that has not yielded. -/
theorem Advanced.put (h : Advanced s) {b : Branch} (hbranches : s'.branches = s.branches.put b)
    (hadvances : s'.advances = s.advances) (hb : b.status ≠ .yielded)
    (hold : ∀ b' ∈ s.branches, b'.branchId = b.branchId → b'.status ≠ .yielded) : Advanced s' := by
  constructor
  · rw [hadvances]
    exact h.unique
  · intro x hx hyielded
    rw [hadvances]
    rcases Table.mem_put.mp (hbranches ▸ hx) with rfl | ⟨hx, -⟩
    · exact absurd hyielded hb
    · exact h.yielded x hx hyielded
  · intro a ha
    obtain ⟨x, hx, href, hyielded⟩ := h.ofBranch a (hadvances ▸ ha)
    refine ⟨x, ?_, href, hyielded⟩
    rw [hbranches]
    exact Table.mem_put.mpr (Or.inr ⟨hx, fun hid => hold x hx hid hyielded⟩)

theorem Advanced.advance (h : Advanced s) {b b' : Branch} {a : Advance}
    (hbranches : s'.branches = s.branches.put b') (hadvances : s'.advances = s.advances.put a)
    (hb : b ∈ s.branches) (hrunning : b.status = .running) (href : b'.ref = b.ref)
    (hyielded : b'.status = .yielded) (ha : a.ref = b.ref)
    (hunique : ∀ a' ∈ s.advances, a'.branchId ≠ b.branchId) (hnew : s.advances.get? a.revision = none) :
    Advanced s' := by
  have hid : b'.branchId = b.branchId := congrArg BranchRef.branchId href
  have haid : a.branchId = b.branchId := congrArg BranchRef.branchId ha
  have hmem : ∀ x ∈ s.advances, x ∈ s'.advances := by
    intro x hx
    rw [hadvances]
    exact Table.mem_put.mpr (Or.inr ⟨hx, Table.get?_eq_none.mp hnew x hx⟩)
  constructor
  · intro x hx y hy hxy
    rcases Table.mem_put.mp (hadvances ▸ hx) with rfl | ⟨hx, -⟩
    · rcases Table.mem_put.mp (hadvances ▸ hy) with rfl | ⟨hy, -⟩
      · rfl
      · exact absurd (hxy.symm.trans haid) (hunique y hy)
    · rcases Table.mem_put.mp (hadvances ▸ hy) with rfl | ⟨hy, -⟩
      · exact absurd (hxy.trans haid) (hunique x hx)
      · exact h.unique x hx y hy hxy
  · intro x hx hy
    rcases Table.mem_put.mp (hbranches ▸ hx) with rfl | ⟨hx, -⟩
    · exact ⟨a, hadvances ▸ Table.mem_put.mpr (Or.inl rfl), ha.trans href.symm⟩
    · obtain ⟨a', ha', hr⟩ := h.yielded x hx hy
      exact ⟨a', hmem a' ha', hr⟩
  · intro x hx
    rcases Table.mem_put.mp (hadvances ▸ hx) with rfl | ⟨hx, -⟩
    · exact ⟨b', hbranches ▸ Table.mem_put.mpr (Or.inl rfl), href.trans ha.symm, hyielded⟩
    · obtain ⟨y, hy, hr, hst⟩ := h.ofBranch x hx
      refine ⟨y, hbranches ▸ Table.mem_put.mpr (Or.inr ⟨hy, ?_⟩), hr, hst⟩
      intro hk
      obtain rfl := Table.eq_of_key hy hb (hk.trans hid)
      rw [hrunning] at hst
      cases hst

/-! ## The receipts -/

theorem effectsOf_congr {branchId : String}
    (h : ∀ e, e.branchId = branchId → (e ∈ s'.effects ↔ e ∈ s.effects)) :
    s'.effectsOf branchId = s.effectsOf branchId := by
  have : Std.Total Effect.before := ⟨fun e e' => by
    rcases lt_trichotomy e.preparedAt e'.preparedAt with hlt | heq | hlt
    · exact Or.inl (Or.inl hlt)
    · rcases String.le_total e.effectId e'.effectId with hle | hle
      · exact Or.inl (Or.inr ⟨heq, hle⟩)
      · exact Or.inr (Or.inr ⟨heq.symm, hle⟩)
    · exact Or.inr (Or.inl hlt)⟩
  have : IsTrans Effect Effect.before := ⟨fun e e' e'' => by
    rintro (hlt | ⟨heq, hle⟩) (hlt' | ⟨heq', hle'⟩)
    · exact Or.inl (hlt.trans hlt')
    · exact Or.inl (heq' ▸ hlt)
    · exact Or.inl (heq ▸ hlt')
    · exact Or.inr ⟨heq.trans heq', String.le_trans hle hle'⟩⟩
  have hmem : ∀ {t : Store} {e : Effect}, e ∈ t.effectsOf branchId ↔ e ∈ t.effects ∧ e.branchId = branchId := by
    intro t e
    exact (List.mem_insertionSort _).trans (Table.mem_select.trans (and_congr_right' decide_eq_true_iff))
  have hperm : (s'.effectsOf branchId).Perm (s.effectsOf branchId) := by
    have hnodup : ∀ t : Store, (t.effectsOf branchId).Nodup := fun t =>
      (pairwise_select (List.perm_insertionSort _ _)).imp (fun hne heq => hne (congrArg _ heq).symm)
    refine (List.perm_ext_iff_of_nodup (hnodup s') (hnodup s)).mpr ?_
    intro e
    rw [hmem, hmem]
    exact and_congr_left (h e)
  refine hperm.eq_of_pairwise ?_ (List.pairwise_insertionSort _ _) (List.pairwise_insertionSort _ _)
  rintro e e' he he' (hlt | ⟨heq, hle⟩) (hlt' | ⟨heq', hle'⟩)
  · omega
  · omega
  · omega
  · have hin := (h e (hmem.mp he).2).mp (hmem.mp he).1
    exact Table.eq_of_key hin (hmem.mp he').1 (String.le_antisymm hle hle')

/-- What is prepared is of a running branch, and what was returned is of one that yielded. -/
structure Receipts (s : Store) : Prop where
  prepared : ∀ e ∈ s.effects, e.status = .prepared →
    ∃ b ∈ s.branches, b.branchId = e.branchId ∧ b.status = .running
  capsules : ∀ c ∈ s.capsules, ∃ b ∈ s.branches, b.branchId = c.branchId ∧ b.status = .yielded
  receipt : ∀ b ∈ s.branches, b.status = .yielded → s.HasReceipt b.branchId

/-- A branch that yielded has no prepared effect. -/
theorem Receipts.settled (h : Receipts s) {b : Branch} (hb : b ∈ s.branches) (hy : b.status = .yielded)
    {e : Effect} (he : e ∈ s.effects) (hid : e.branchId = b.branchId) : e.status ≠ .prepared := by
  intro hp
  obtain ⟨x, hx, hxid, hr⟩ := h.prepared e he hp
  obtain rfl := Table.eq_of_key hx hb (hxid.trans hid)
  rw [hr] at hy
  cases hy

/-- What resolves prepared effects leaves the effects of a branch that yielded alone. -/
theorem Receipts.resolves (h : Receipts s) {xs : List Effect}
    {status : EffectStatus} {at_ : ℕ} {observationJson : Option String}
    (hxs : ∀ x ∈ xs, x ∈ s.effects ∧ x.status = .prepared)
    (hres : Resolves s.effects effects xs status at_ observationJson) {b : Branch} (hb : b ∈ s.branches)
    (hy : b.status = .yielded) {e : Effect} (hid : e.branchId = b.branchId) :
    e ∈ effects ↔ e ∈ s.effects := by
  rw [hres e]
  constructor
  · rintro (⟨x, hx, rfl⟩ | ⟨he, -⟩)
    · exact absurd (hxs x hx).2 (h.settled hb hy (hxs x hx).1 hid)
    · exact he
  · intro he
    refine Or.inr ⟨he, ?_⟩
    intro x hx heq
    obtain rfl := Table.eq_of_key (hxs x hx).1 he heq
    exact h.settled hb hy he hid (hxs x hx).2

/-- A change that is about branches that have not yielded keeps the receipts. -/
theorem Receipts.frame (h : Receipts s) (hcapsules : s'.capsules = s.capsules)
    (hyielded : ∀ b, b.status = .yielded → (b ∈ s'.branches ↔ b ∈ s.branches))
    (heffects : ∀ b ∈ s.branches, b.status = .yielded → ∀ e, e.branchId = b.branchId →
      (e ∈ s'.effects ↔ e ∈ s.effects))
    (hprepared : ∀ e ∈ s'.effects, e.status = .prepared →
      ∃ b ∈ s'.branches, b.branchId = e.branchId ∧ b.status = .running) : Receipts s' := by
  constructor
  · exact hprepared
  · intro c hc
    obtain ⟨b, hb, hid, hy⟩ := h.capsules c (hcapsules ▸ hc)
    exact ⟨b, (hyielded b hy).mpr hb, hid, hy⟩
  · intro b hb hy
    have hold := (hyielded b hy).mp hb
    unfold Store.HasReceipt
    rw [hcapsules, effectsOf_congr (heffects b hold hy)]
    exact h.receipt b hold hy

theorem Receipts.returned (h : Receipts s) {b b' : Branch} {c root : Capsule} {receipt : RootReturnReceipt}
    (hbranches : s'.branches = s.branches.put b') (heffects : s'.effects = s.effects)
    (hcapsules : s'.capsules = (s.capsules.put c).put root) (hb : b ∈ s.branches) (hrunning : b.status = .running) (hid : b'.branchId = b.branchId)
    (hyielded : b'.status = .yielded)
    (hunprepared : ∀ e ∈ s.effects, e.branchId = b.branchId → e.status ≠ .prepared)
    (hnew : s.capsules.get? c.capsuleId = none) (hnewRoot : (s.capsules.put c).get? root.capsuleId = none)
    (hc : c.branchId = b.branchId) (hkind : c.kind = .ofWorld) (hroot : root.branchId = b.branchId)
    (hrootKind : root.kind = .rootReceipt) (hcontent : root.content = .rootReturn receipt)
    (hlist : (s.effectsOf b.branchId).mapM effectReceipt = .ok receipt.effects) : Receipts s' := by
  have hother : ∀ x ∈ s.branches, x.branchId ≠ b'.branchId → x ∈ s'.branches := fun x hx hne =>
    hbranches ▸ Table.mem_put.mpr (Or.inr ⟨hx, hne⟩)
  have hself : b' ∈ s'.branches := hbranches ▸ Table.mem_put.mpr (Or.inl rfl)
  -- a capsule is an earlier one of another branch, or one of the two
  have hcases : ∀ x, x ∈ s'.capsules ↔ x = root ∨ x = c ∨ x ∈ s.capsules := by
    intro x
    rw [hcapsules, Table.mem_put, Table.mem_put]
    have hrootNew := Table.get?_eq_none.mp hnewRoot
    constructor
    · rintro (rfl | ⟨rfl | ⟨hx, -⟩, -⟩)
      · exact Or.inl rfl
      · exact Or.inr (Or.inl rfl)
      · exact Or.inr (Or.inr hx)
    · rintro (rfl | rfl | hx)
      · exact Or.inl rfl
      · exact Or.inr ⟨Or.inl rfl, hrootNew _ (Table.mem_put.mpr (Or.inl rfl))⟩
      · have hne := Table.get?_eq_none.mp hnew x hx
        exact Or.inr ⟨Or.inr ⟨hx, hne⟩, hrootNew x (Table.mem_put.mpr (Or.inr ⟨hx, hne⟩))⟩
  have holdCapsule : ∀ x ∈ s.capsules, x.branchId ≠ b.branchId := by
    intro x hx heq
    obtain ⟨y, hy, hyid, hst⟩ := h.capsules x hx
    obtain rfl := Table.eq_of_key hy hb (hyid.trans heq)
    rw [hrunning] at hst
    cases hst
  constructor
  · intro e he hp
    rw [heffects] at he
    obtain ⟨x, hx, hxid, hr⟩ := h.prepared e he hp
    refine ⟨x, hother x hx ?_, hxid, hr⟩
    exact fun heq => hunprepared e he (hxid.symm.trans (heq.trans hid)) hp
  · intro x hx
    rcases (hcases x).mp hx with rfl | rfl | hx
    · exact ⟨b', hself, hid.trans hroot.symm, hyielded⟩
    · exact ⟨b', hself, hid.trans hc.symm, hyielded⟩
    · obtain ⟨y, hy, hyid, hst⟩ := h.capsules x hx
      refine ⟨y, hother y hy ?_, hyid, hst⟩
      exact fun heq => holdCapsule x hx (hyid.symm.trans (heq.trans hid))
  · intro x hx hy
    have heffectsOf : ∀ id, s'.effectsOf id = s.effectsOf id := fun id => by
      unfold Store.effectsOf
      rw [heffects]
    unfold Store.HasReceipt
    rw [heffectsOf]
    rcases Table.mem_put.mp (hbranches ▸ hx) with rfl | ⟨hx, hne⟩
    · rw [hid]
      refine ⟨root, (hcases root).mpr (Or.inl rfl), ⟨hroot, hrootKind⟩, ?_, receipt, hcontent, hlist⟩
      intro y hy hyid hk
      rcases (hcases y).mp hy with rfl | rfl | hy
      · rfl
      · rw [hkind] at hk
        cases hk
      · exact absurd hyid (holdCapsule y hy)
    · obtain ⟨r, hr, hrk, honly, hrest⟩ := h.receipt x hx hy
      refine ⟨r, (hcases r).mpr (Or.inr (Or.inr hr)), hrk, ?_, hrest⟩
      intro y hy hyid hk
      rw [hid] at hne
      rcases (hcases y).mp hy with rfl | rfl | hy
      · exact absurd (hyid.symm.trans hroot) hne
      · exact absurd (hyid.symm.trans hc) hne
      · exact honly y hy hyid hk

/-! ## The invariant -/

structure Inv (s : Store) : Prop where
  chain : Chain s
  running : Running s
  advanced : Advanced s
  receipts : Receipts s

theorem inv_init : Inv Store.init where
  chain := by
    constructor
    · exact ⟨rfl, rfl⟩
    · intro n
      constructor
      · rintro ⟨a, ha, -⟩
        cases ha
      · rintro ⟨hone, hle⟩
        exact absurd (hone.trans hle) (by decide)
    · exact fun a ha => by cases ha
    · rfl
  running := by
    constructor
    · exact fun b hb => by cases hb
    · exact fun _ b hb => by cases hb
    · exact fun ref href => by cases href
  advanced := by
    constructor
    · exact fun a ha => by cases ha
    · exact fun b hb => by cases hb
    · exact fun a ha => by cases ha
  receipts := by
    constructor
    · exact fun e he => by cases he
    · exact fun c hc => by cases hc
    · exact fun b hb => by cases hb

theorem Inv.coherent (h : Inv s) : Coherent s where
  base := h.chain.base
  numbered := h.chain.numbered
  linked := h.chain.linked
  last := h.chain.last
  active := by
    intro ref href
    obtain ⟨b, hb, hr, hrunning, hstart⟩ := h.running.active ref href
    exact ⟨b, hb, hr, hrunning, fun b' hb' hr' => h.running.alone b hb b' hb' hrunning hr', hstart⟩
  yielded := by
    intro b hb hy
    obtain ⟨a, ha, hr⟩ := h.advanced.yielded b hb hy
    refine ⟨a, ⟨ha, hr⟩, ?_⟩
    rintro a' ⟨ha', hr'⟩
    exact h.advanced.unique a ha a' ha' (congrArg BranchRef.branchId (hr.trans hr'.symm))
  crashed := by
    intro b hb hcrashed a ha href
    obtain ⟨x, hx, hr, hy⟩ := h.advanced.ofBranch a ha
    obtain rfl := Table.eq_of_key hx hb (congrArg BranchRef.branchId (hr.trans href))
    rw [hcrashed] at hy
    cases hy
  settled := fun _ hb hy _ he hid => h.receipts.settled hb hy he hid
  receipt := h.receipts.receipt

theorem exists_of_statusOf {branchId : String} {status : BranchStatus}
    (h : s.statusOf branchId = some status) :
    ∃ b ∈ s.branches, b.branchId = branchId ∧ b.status = status := by
  obtain ⟨b, hb, rfl⟩ := Option.map_eq_some_iff.mp h
  exact ⟨b, Table.mem_of_get? hb, Table.key_of_get? hb, rfl⟩

/-- A branch put in the place of one that has not yielded changes none that has. -/
theorem mem_put_of_yielded {branches : Table Branch.branchId} {b x : Branch} (hb : b.status ≠ .yielded)
    (hold : ∀ b' ∈ branches, b'.branchId = b.branchId → b'.status ≠ .yielded) (hx : x.status = .yielded) :
    x ∈ branches.put b ↔ x ∈ branches := by
  rw [Table.mem_put]
  constructor
  · rintro (rfl | ⟨hin, -⟩)
    · exact absurd hx hb
    · exact hin
  · intro hin
    exact Or.inr ⟨hin, fun hid => hold x hin hid hx⟩

theorem Inv.change (h : Inv s) (hc : Change s s') : Inv s' := by
  cases hc with
  | same => exact h
  | @begun b start at_ idle new running alone fresh branchId base predecessor =>
      have hnone : ∀ x ∈ s.branches, x.branchId ≠ b.branchId := Table.get?_eq_none.mp new
      have hb : b.status ≠ .yielded := by
        rw [running]
        exact BranchStatus.noConfusion
      have hold : ∀ x ∈ s.branches, x.branchId = b.branchId → x.status ≠ .yielded :=
        fun x hx hid => absurd hid (hnone x hx)
      constructor
      · exact h.chain.congr rfl rfl rfl rfl
      · constructor
        · intro x hx y hy hrx hry
          rcases Table.mem_put.mp hx with rfl | ⟨hx, -⟩
          · rcases Table.mem_put.mp hy with rfl | ⟨hy, -⟩
            · rfl
            · exact absurd hry (alone y hy)
          · exact absurd hrx (alone x hx)
        · exact fun hnone => by cases hnone
        · intro ref href
          obtain rfl := Option.some.inj href
          exact ⟨b, Table.mem_put.mpr (Or.inl rfl), rfl, running, start, Table.mem_put.mpr (Or.inl rfl),
            branchId, base, predecessor⟩
      · exact h.advanced.put rfl rfl hb hold
      · refine h.receipts.frame rfl (fun x hy => mem_put_of_yielded hb hold hy) (fun _ _ _ _ _ => Iff.rfl) ?_
        intro e he hp
        obtain ⟨x, hx, -, hr⟩ := h.receipts.prepared e he hp
        exact absurd hr (alone x hx)
  | returned active mem running revision predecessor ref new unique unprepared newPrivate newRoot ofBranch
      ofWorld rootOf isRoot content effects =>
      constructor
      · exact h.chain.advance rfl revision predecessor new (congrArg some ref).symm revision.symm
          revision.symm (congrArg some ref).symm
      · exact h.running.ended rfl rfl mem running rfl BranchStatus.noConfusion
      · exact h.advanced.advance rfl rfl mem running rfl rfl ref unique new
      · exact h.receipts.returned rfl rfl rfl mem running rfl rfl unprepared newPrivate newRoot ofBranch
          ofWorld rootOf isRoot content effects
  | @recovered b effects xs recoveries at_ active mem running prepared resolves =>
      have hold : ∀ x ∈ s.branches, x.branchId = b.branchId → x.status ≠ .yielded := by
        intro x hx hid
        obtain rfl := Table.eq_of_key hx mem hid
        rw [running]
        exact BranchStatus.noConfusion
      constructor
      · exact h.chain.congr rfl rfl rfl rfl
      · exact h.running.ended rfl rfl mem running rfl BranchStatus.noConfusion
      · exact h.advanced.put rfl rfl BranchStatus.noConfusion hold
      · refine h.receipts.frame rfl (fun x hy => mem_put_of_yielded BranchStatus.noConfusion hold hy) ?_ ?_
        · intro x hx hy e hid
          exact h.receipts.resolves (fun x hx => ⟨((prepared x).mp hx).1, ((prepared x).mp hx).2.2⟩) resolves
            hx hy hid
        · intro e he hp
          rcases (resolves e).mp he with ⟨x, -, rfl⟩ | ⟨hin, hnot⟩
          · cases hp
          · -- the branch that runs is the one recovered, so the effect was among the resolved
            obtain ⟨x, hx, hid, hr⟩ := h.receipts.prepared e hin hp
            obtain rfl := h.running.alone b mem x hx running hr
            exact absurd rfl (hnot e ((prepared e).mpr ⟨hin, hid.symm, hp⟩))
  | @prepared e new running =>
      obtain ⟨b, hb, hid, hr⟩ := exists_of_statusOf running
      have hne := Table.get?_eq_none.mp new
      constructor
      · exact h.chain.congr rfl rfl rfl rfl
      · exact h.running.congr rfl rfl rfl rfl
      · exact h.advanced.congr rfl rfl
      · refine h.receipts.frame rfl (fun _ _ => Iff.rfl) ?_ ?_
        · intro x hx hy e' he'
          refine Table.mem_put.trans ⟨?_, fun hin => Or.inr ⟨hin, hne e' hin⟩⟩
          rintro (rfl | ⟨hin, -⟩)
          · obtain rfl := Table.eq_of_key hx hb (he'.symm.trans hid.symm)
            rw [hr] at hy
            cases hy
          · exact hin
        · intro e' he' hp
          rcases Table.mem_put.mp he' with rfl | ⟨hin, -⟩
          · exact ⟨b, hb, hid, hr⟩
          · exact h.receipts.prepared e' hin hp
  | @resolved effects xs status at_ observationJson settled prepared resolves =>
      constructor
      · exact h.chain.congr rfl rfl rfl rfl
      · exact h.running.congr rfl rfl rfl rfl
      · exact h.advanced.congr rfl rfl
      · refine h.receipts.frame rfl (fun _ _ => Iff.rfl) ?_ ?_
        · exact fun x hx hy e hid => h.receipts.resolves prepared resolves hx hy hid
        · intro e he hp
          rcases (resolves e).mp he with ⟨x, -, rfl⟩ | ⟨he, -⟩
          · exact absurd hp settled
          · exact h.receipts.prepared e he hp
  | manifested =>
      constructor
      · exact h.chain.congr rfl rfl rfl rfl
      · exact h.running.congr rfl rfl rfl rfl
      · exact h.advanced.congr rfl rfl
      · exact h.receipts.frame rfl (fun _ _ => Iff.rfl) (fun _ _ _ _ _ => Iff.rfl) h.receipts.prepared

/-! ## Runs -/

/-- Every effect stays, and one that is no longer prepared stays as it is. -/
def Settles (s s' : Store) : Prop :=
  ∀ e ∈ s.effects, ∃ e' ∈ s'.effects, e'.effectId = e.effectId ∧ (e.status ≠ .prepared → e' = e)

theorem Settles.refl (s : Store) : Settles s s := fun e he => ⟨e, he, rfl, fun _ => rfl⟩

theorem Settles.trans {s₁ s₂ s₃ : Store} (h : Settles s₁ s₂) (h' : Settles s₂ s₃) : Settles s₁ s₃ := by
  intro e he
  obtain ⟨e', he', hid, hsame⟩ := h e he
  obtain ⟨e'', he'', hid', hsame'⟩ := h' e' he'
  refine ⟨e'', he'', hid'.trans hid, ?_⟩
  intro hne
  obtain rfl := hsame hne
  exact hsame' hne

theorem Resolves.settles {xs : List Effect} {status : EffectStatus}
    {at_ : ℕ} {observationJson : Option String} (hxs : ∀ x ∈ xs, x ∈ s.effects ∧ x.status = .prepared)
    (hres : Resolves s.effects effects xs status at_ observationJson) (h : s'.effects = effects) :
    Settles s s' := by
  intro e he
  rw [h]
  by_cases hx : ∃ x ∈ xs, x.effectId = e.effectId
  · obtain ⟨x, hx, hid⟩ := hx
    obtain rfl := Table.eq_of_key (hxs x hx).1 he hid
    exact ⟨_, (hres _).mpr (Or.inl ⟨x, hx, rfl⟩), rfl, fun hne => absurd (hxs x hx).2 hne⟩
  · exact ⟨e, (hres e).mpr (Or.inr ⟨he, fun x hin hid => hx ⟨x, hin, hid⟩⟩), rfl, fun _ => rfl⟩

theorem Change.settles (hc : Change s s') : Settles s s' := by
  cases hc with
  | same => exact Settles.refl s
  | begun => exact Settles.refl s
  | returned => exact Settles.refl s
  | manifested => exact Settles.refl s
  | recovered active mem running prepared resolves =>
      exact resolves.settles (fun x hx => ⟨((prepared x).mp hx).1, ((prepared x).mp hx).2.2⟩) rfl
  | resolved settled prepared resolves => exact resolves.settles prepared rfl
  | prepared new running =>
      intro e he
      exact ⟨e, Table.mem_put.mpr (Or.inr ⟨he, Table.get?_eq_none.mp new e he⟩), rfl, fun _ => rfl⟩

/-- From every state on, a run settles effects at most. -/
theorem run_settles (calls : List Call) (s : Store) : Settles s (run (step hash) s calls) := by
  induction calls generalizing s with
  | nil => exact Settles.refl s
  | cons call rest ih =>
      rw [run_cons]
      exact (step_change s call).settles.trans (ih _)

/-- Along every sequence of calls the tables agree, an effect leaves the prepared state at most
once, and a call that throws changes nothing. -/
theorem continuation_coherent (hash : String → String) (calls : List Call) :
    Throughout (step hash) Coherent Store.init calls ∧
      (∀ earlier later, calls = earlier ++ later →
        Settles (run (step hash) Store.init earlier) (run (step hash) Store.init calls)) ∧
      ∀ (call : Call) (e : String) (s' : Store),
        call.program hash (run (step hash) Store.init calls) = (.error e, s') →
          s' = run (step hash) Store.init calls := by
  refine ⟨?_, ?_, fun call => program_atomic call _⟩
  · exact throughout_of_inv (fun _ h => Inv.coherent h) (fun s call h => h.change (step_change s call)) calls inv_init
  · rintro earlier later rfl
    rw [run_append]
    exact run_settles later _

end Elpis.Context
