import Elpis.Context.Graph

/-!
# What a call can do to the context graph

A spec lemma for each statement that succeeds, and from them one for each method: every call
makes one of the changes of `Change`, or none.
-/

namespace Elpis.Context

open Elpis.Js Elpis.Lib

variable {s s' : Store}

/-! ## Statements -/

theorem timestamp_ok {label : String} {value : ℤ} {n : ℕ}
    (h : timestamp label value s = (.ok n, s')) : value.toNat = n ∧ s' = s := by
  simp only [timestamp, Tx.bind_ensure_ok, Tx.pure_ok] at h
  exact ⟨h.2.1, h.2.2.symm⟩

variable {u : Unit}

theorem insertBranch_ok {b : Branch} (h : insertBranch b s = (.ok u, s')) :
    s.branches.get? b.branchId = none ∧
      (∀ b' ∈ s.branches, ¬(b.status = .running ∧ b'.status = .running)) ∧
      s' = { s with branches := s.branches.put b } := by
  simp only [insertBranch, Tx.bind_read_ok, Tx.bind_ensure_ok, Tx.write_ok] at h
  obtain ⟨-, hnew, -, hsingle, rfl⟩ := h
  exact ⟨hnew, hsingle, rfl⟩

theorem requireBranch_ok {id : String} {b : Branch} (h : requireBranch id s = (.ok b, s')) :
    s.branches.get? id = some b ∧ s' = s := by
  simp only [requireBranch, Tx.bind_read_ok, Tx.require_ok] at h
  exact ⟨h.1, h.2.symm⟩

/-- What an `UPDATE` of one running branch did. -/
theorem updateBranch_ok {branchId : String} {status : BranchStatus} {endedAt n : ℕ}
    (h : updateBranch branchId status endedAt s = (.ok n, s')) (hn : n = 1) :
    ∃ b, s.branches.get? branchId = some b ∧ b.status = .running ∧
      (∀ e ∈ s.effects, e.branchId = branchId → e.status ≠ .prepared) ∧
      s' = { s with branches := s.branches.put { b with status, endedAt := some endedAt } } := by
  simp only [updateBranch, Tx.bind_read_ok] at h
  cases hb : s.branches.get? branchId with
  | none =>
      simp only [id, hb, Tx.pure_ok] at h
      omega
  | some b =>
      simp only [id, hb] at h
      by_cases hr : b.status = .running
      · rw [if_pos hr] at h
        simp only [↓Tx.bind_ensure_ok, Tx.bind_ok, Tx.write_ok, Tx.pure_ok] at h
        obtain ⟨-, hprepared, -, _, _, rfl, -, rfl⟩ := h
        exact ⟨b, rfl, hr, fun e he hid hs => hprepared e he ⟨hid, hs⟩, rfl⟩
      · simp only [hr, if_false, Tx.pure_ok] at h
        omega

theorem insertStart_ok {start : BranchStart} (h : insertStart start s = (.ok u, s')) :
    s.starts.get? start.branchId = none ∧ s' = { s with starts := s.starts.put start } := by
  simp only [insertStart, Tx.bind_read_ok, Tx.bind_ensure_ok, Tx.write_ok] at h
  exact ⟨h.1, h.2.2.2.symm⟩

theorem updateCoordinator_ok {new : RootCoordinatorState}
    (h : updateCoordinator new s = (.ok u, s')) : s' = { s with coordinator := new } := by
  simp only [updateCoordinator, Tx.bind_read_ok, Tx.bind_ensure_ok, Tx.write_ok] at h
  exact h.2.2.symm

theorem insertAdvance_ok {a : Advance} (h : insertAdvance a s = (.ok u, s')) :
    s.advances.get? a.revision = none ∧ (∀ a' ∈ s.advances, a'.branchId ≠ a.branchId) ∧
      s' = { s with advances := s.advances.put a } := by
  simp only [insertAdvance, Tx.bind_read_ok, Tx.bind_ensure_ok, Tx.write_ok] at h
  obtain ⟨-, hnew, -, -, rfl⟩ := h
  exact ⟨hnew.1, hnew.2, rfl⟩

theorem updateHead_ok {new : ContinuationHead} (h : updateHead new s = (.ok u, s')) :
    s' = { s with head := new } := by
  simp only [updateHead, Tx.bind_read_ok, Tx.bind_ensure_ok, Tx.write_ok] at h
  exact h.2.2.2.symm

theorem insertRecovery_ok {r : BranchRecovery} (h : insertRecovery r s = (.ok u, s')) :
    s' = { s with recoveries := s.recoveries.put r } := by
  simp only [insertRecovery, Tx.bind_read_ok, Tx.bind_ensure_ok, Tx.write_ok] at h
  exact h.2.2.2.symm

theorem insertManifest_ok {m : Manifest} (h : insertManifest m s = (.ok u, s')) :
    s' = { s with manifests := s.manifests.put m } := by
  simp only [insertManifest, Tx.bind_read_ok, Tx.bind_ensure_ok, Tx.write_ok] at h
  exact h.2.2.2.2.symm

theorem insertCapsule_ok {c : Capsule} (h : insertCapsule c s = (.ok u, s')) :
    s.capsules.get? c.capsuleId = none ∧ s' = { s with capsules := s.capsules.put c } := by
  simp only [insertCapsule, Tx.bind_read_ok, Tx.bind_ensure_ok, Tx.write_ok] at h
  obtain ⟨-, hnew, -, -, -, rfl⟩ := h
  exact ⟨hnew, rfl⟩

theorem insertEffect_ok {e : Effect} (h : insertEffect e s = (.ok u, s')) :
    s.effects.get? e.effectId = none ∧ s.statusOf e.branchId = some .running ∧
      s' = { s with effects := s.effects.put e } := by
  simp only [insertEffect, Tx.bind_read_ok, Tx.bind_ensure_ok, Tx.write_ok] at h
  obtain ⟨-, hnew, -, hrunning, rfl⟩ := h
  exact ⟨hnew.1, hrunning, rfl⟩

/-- An effect as it is resolved. -/
def Effect.resolved (e : Effect) (status : EffectStatus) (resolvedAt : ℕ)
    (observationJson : Option String) : Effect :=
  { e with status, resolvedAt := some resolvedAt, observationJson }

variable {observationJson : Option String}

theorem updateEffect_ok {e : Effect} {status : EffectStatus} {resolvedAt : ℕ}
    (h : updateEffect e status resolvedAt observationJson s = (.ok u, s')) :
    s' = { s with effects := s.effects.put (e.resolved status resolvedAt observationJson) } := by
  simp only [updateEffect, Tx.bind_ensure_ok, Tx.write_ok] at h
  exact h.2.symm

/-- The table `t` where the rows `xs` are resolved. -/
def Resolves (t t' : Table Effect.effectId) (xs : List Effect) (status : EffectStatus)
    (resolvedAt : ℕ) (observationJson : Option String) : Prop :=
  ∀ e, e ∈ t' ↔ (∃ x ∈ xs, e = x.resolved status resolvedAt observationJson) ∨
    (e ∈ t ∧ ∀ x ∈ xs, x.effectId ≠ e.effectId)

theorem resolves_nil (t : Table Effect.effectId) (status : EffectStatus) (resolvedAt : ℕ)
    (observationJson : Option String) : Resolves t t [] status resolvedAt observationJson := by
  intro e
  simp

theorem Resolves.cons {t t' : Table Effect.effectId} {x : Effect} {xs : List Effect}
    {status : EffectStatus} {resolvedAt : ℕ}
    (hx : ∀ y ∈ xs, y.effectId ≠ x.effectId)
    (h : Resolves (t.put (x.resolved status resolvedAt observationJson)) t' xs status resolvedAt
      observationJson) : Resolves t t' (x :: xs) status resolvedAt observationJson := by
  intro e
  rw [h e, Table.mem_put, List.exists_mem_cons_iff, List.forall_mem_cons]
  constructor
  · rintro (hin | ⟨rfl | ⟨he, hne⟩, hrest⟩)
    · exact Or.inl (Or.inr hin)
    · exact Or.inl (Or.inl rfl)
    · exact Or.inr ⟨he, fun heq => hne heq.symm, hrest⟩
  · rintro ((rfl | hin) | ⟨he, hne, hrest⟩)
    · exact Or.inr ⟨Or.inl rfl, hx⟩
    · exact Or.inl hin
    · exact Or.inr ⟨Or.inr ⟨he, fun heq => hne heq.symm⟩, hrest⟩

theorem resolveAll_ok {status : EffectStatus} {resolvedAt : ℕ}
    {xs : List Effect} (hxs : xs.Pairwise (fun x y => y.effectId ≠ x.effectId))
    (h : Tx.forEach (fun e => updateEffect e status resolvedAt observationJson) xs s = (.ok u, s')) :
    ∃ effects, s' = { s with effects := effects } ∧
      Resolves s.effects effects xs status resolvedAt observationJson := by
  induction xs generalizing s with
  | nil =>
      rw [Tx.forEach_nil, Tx.pure_ok] at h
      obtain ⟨-, rfl⟩ := h
      exact ⟨s.effects, rfl, resolves_nil _ _ _ _⟩
  | cons x xs ih =>
      rw [Tx.forEach_cons, Tx.bind_ok] at h
      obtain ⟨_, s₁, hx, hrest⟩ := h
      obtain ⟨hhead, htail⟩ := List.pairwise_cons.mp hxs
      obtain rfl := updateEffect_ok hx
      obtain ⟨effects, rfl, hres⟩ := ih htail hrest
      exact ⟨effects, rfl, hres.cons hhead⟩

theorem insertEdge_ok {edge : CapsuleEdge} (h : insertEdge edge s = (.ok u, s')) :
    ∃ edges, s' = { s with edges := edges } := by
  simp only [insertEdge, Tx.bind_read_ok, Tx.bind_ensure_ok, Tx.write_ok] at h
  exact ⟨_, h.2.2.2.2.symm⟩

theorem insertCapsuleInTransaction_ok {c d : Capsule} {parents : List String}
    (h : insertCapsuleInTransaction c parents s = (.ok d, s')) :
    d = c ∧ s.capsules.get? c.capsuleId = none ∧
      ∃ edges, s' = { s with capsules := s.capsules.put c, edges := edges } := by
  simp only [insertCapsuleInTransaction, Tx.bind_ok, Tx.pure_ok] at h
  obtain ⟨_, s₁, hinsert, _, s₂, hedges, rfl, rfl⟩ := h
  obtain ⟨hnew, rfl⟩ := insertCapsule_ok hinsert
  refine ⟨rfl, hnew, ?_⟩
  refine Tx.forEach_inv
    (I := fun t => ∃ edges, t = { s with capsules := s.capsules.put c, edges := edges }) ?_
    ⟨s.edges, rfl⟩ hedges
  rintro x - t t' _ ⟨edges, rfl⟩ hx
  obtain ⟨edges', rfl⟩ := insertEdge_ok hx
  exact ⟨edges', rfl⟩

/-! ## Changes -/

/-- What a call can do to the store. -/
inductive Change (s : Store) : Store → Prop
  | same : Change s s
  /-- A branch is begun from the head. -/
  | begun {b : Branch} {start : BranchStart} {at_ : ℕ} (idle : s.coordinator.active = none)
      (new : s.branches.get? b.branchId = none) (running : b.status = .running)
      (alone : ∀ b' ∈ s.branches, b'.status ≠ .running)
      (fresh : s.starts.get? start.branchId = none) (branchId : start.branchId = b.branchId)
      (base : start.baseRevision = s.head.revision) (predecessor : start.predecessor = s.head.branch) :
      Change s
        { s with
          branches := s.branches.put b
          starts := s.starts.put start
          coordinator := { s.coordinator with active := some b.ref, updatedAt := at_ } }
  /-- The active branch returns, and the head advances to it. -/
  | returned {b : Branch} {a : Advance} {c root : Capsule} {receipt : RootReturnReceipt}
      {edges : List CapsuleEdge} {at_ : ℕ} (active : s.coordinator.active = some b.ref)
      (mem : b ∈ s.branches) (running : b.status = .running)
      (revision : a.revision = s.head.revision + 1) (predecessor : a.predecessor = s.head.branch)
      (ref : a.ref = b.ref) (new : s.advances.get? a.revision = none)
      (unique : ∀ a' ∈ s.advances, a'.branchId ≠ b.branchId)
      (unprepared : ∀ e ∈ s.effects, e.branchId = b.branchId → e.status ≠ .prepared)
      (newPrivate : s.capsules.get? c.capsuleId = none)
      (newRoot : (s.capsules.put c).get? root.capsuleId = none)
      (ofBranch : c.branchId = b.branchId) (ofWorld : c.kind = .ofWorld)
      (rootOf : root.branchId = b.branchId) (isRoot : root.kind = .rootReceipt)
      (content : root.content = .rootReturn receipt)
      (effects : (s.effectsOf b.branchId).mapM effectReceipt = .ok receipt.effects) :
      Change s
        { s with
          branches := s.branches.put { b with status := .yielded, endedAt := some at_ }
          head := ⟨some b.ref, s.head.revision + 1, at_⟩
          advances := s.advances.put a
          coordinator := ⟨none, s.head.revision + 1, some b.ref, at_⟩
          capsules := (s.capsules.put c).put root
          edges := edges }
  /-- The active branch is recovered as crashed. -/
  | recovered {b : Branch} {effects : Table Effect.effectId} {xs : List Effect}
      {recoveries : Table BranchRecovery.branchId} {at_ : ℕ}
      (active : s.coordinator.active = some b.ref) (mem : b ∈ s.branches)
      (running : b.status = .running)
      (prepared : ∀ x, x ∈ xs ↔ x ∈ s.effects ∧ x.branchId = b.branchId ∧ x.status = .prepared)
      (resolves : Resolves s.effects effects xs .uncertain at_ none) :
      Change s
        { s with
          branches := s.branches.put { b with status := .crashed, endedAt := some at_ }
          coordinator := { s.coordinator with active := none, updatedAt := at_ }
          recoveries := recoveries
          effects := effects }
  | prepared {e : Effect} (new : s.effects.get? e.effectId = none)
      (running : s.statusOf e.branchId = some .running) :
      Change s { s with effects := s.effects.put e }
  /-- Prepared effects are resolved. -/
  | resolved {effects : Table Effect.effectId} {xs : List Effect} {status : EffectStatus} {at_ : ℕ}
      {observationJson : Option String} (settled : status ≠ .prepared)
      (prepared : ∀ x ∈ xs, x ∈ s.effects ∧ x.status = .prepared)
      (resolves : Resolves s.effects effects xs status at_ observationJson) :
      Change s { s with effects := effects }
  | manifested {m : Manifest} : Change s { s with manifests := s.manifests.put m }

/-! ## Methods -/

theorem pairwise_select {t : Table Effect.effectId} {p : Effect → Bool} {xs : List Effect}
    (h : xs.Perm (t.select p)) : xs.Pairwise (fun x y => y.effectId ≠ x.effectId) := by
  have hnodup : (xs.map Effect.effectId).Nodup :=
    (h.map _).nodup_iff.mpr (t.nodup.sublist (List.filter_sublist.map _))
  exact (List.pairwise_map.mp hnodup).imp (fun hne => hne.symm)

theorem createBranch_ok {branchId worldId : String} {parent : Option String} {epoch startedAt : ℤ}
    {b : Branch} (h : createBranch branchId worldId parent epoch startedAt s = (.ok b, s')) :
    b.branchId = branchId ∧ b.status = .running ∧ s.branches.get? b.branchId = none ∧
      (∀ b' ∈ s.branches, b'.status ≠ .running) ∧ s' = { s with branches := s.branches.put b } := by
  simp only [createBranch, Tx.bind_ok] at h
  obtain ⟨_, _, hepoch, _, _, hstarted, _, _, hinsert, hbranch⟩ := h
  obtain ⟨-, rfl⟩ := timestamp_ok hepoch
  obtain ⟨-, rfl⟩ := timestamp_ok hstarted
  obtain ⟨hnew, halone, rfl⟩ := insertBranch_ok hinsert
  obtain ⟨hget, rfl⟩ := requireBranch_ok hbranch
  rw [Table.get?_put, if_pos rfl] at hget
  obtain rfl := Option.some.inj hget
  exact ⟨rfl, rfl, hnew, fun b' hb' hr => halone b' hb' ⟨rfl, hr⟩, rfl⟩

theorem beginCoordinatedBranch_change {input : BeginInput}
    {r : Branch × BranchStart × RootCoordinatorState}
    (h : beginCoordinatedBranch input s = (.ok r, s')) : Change s s' := by
  rw [beginCoordinatedBranch, Tx.transaction_ok, beginCoordinatedBranchInTransaction] at h
  simp only [↓Tx.bind_read_ok, ↓Tx.bind_ensure_ok, ↓Tx.bind_require_ok, Tx.bind_ok, Tx.pure_ok] at h
  obtain ⟨_, _, hrev, _, _, hepoch, -, _, _, hstarted, -, hidle, -, branch, _, hbranch, _, _, hstart,
    -, _, _, hupdate, start, -, -, rfl⟩ := h
  obtain ⟨-, rfl⟩ := timestamp_ok hrev
  obtain ⟨-, rfl⟩ := timestamp_ok hepoch
  obtain ⟨-, rfl⟩ := timestamp_ok hstarted
  obtain ⟨-, hrunning, hnew, halone, rfl⟩ := createBranch_ok hbranch
  obtain ⟨hfresh, rfl⟩ := insertStart_ok hstart
  rw [updateCoordinator_ok hupdate]
  exact .begun hidle hnew hrunning halone hfresh rfl rfl rfl

theorem recoverCoordinatedBranch_change {recoveredAt : ℤ} {r : Option BranchRecovery}
    (h : recoverCoordinatedBranch recoveredAt s = (.ok r, s')) : Change s s' := by
  unfold recoverCoordinatedBranch at h
  simp only [↓Tx.bind_read_ok, Tx.bind_ok, Tx.transaction_ok] at h
  obtain ⟨at_, t, hat, h⟩ := h
  obtain ⟨-, rfl⟩ := timestamp_ok hat
  cases hactive : t.coordinator.active with
  | none =>
      rw [hactive] at h
      obtain ⟨-, rfl⟩ := Tx.pure_ok.mp h
      exact .same
  | some active =>
      rw [hactive] at h
      simp only [↓Tx.bind_read_ok, ↓Tx.bind_ensure_ok, ↓Tx.bind_require_ok, Tx.bind_ok, Tx.pure_ok] at h
      obtain ⟨-, start, -, -, branch, _, hbranch, hrunning, _, _, hall, n, _, hcrash, hn, _, _,
        hrecovery, hcurrent, _, _, hupdate, -, rfl⟩ := h
      obtain ⟨hget, rfl⟩ := requireBranch_ok hbranch
      obtain ⟨effects, rfl, hres⟩ := resolveAll_ok (pairwise_select (.refl _)) hall
      obtain ⟨b, hb, -, -, rfl⟩ := updateBranch_ok hcrash hn
      obtain rfl := insertRecovery_ok hrecovery
      obtain rfl := updateCoordinator_ok hupdate
      have hkey := Table.key_of_get? hget
      rw [hkey] at hb
      obtain rfl := Option.some.inj (hb.symm.trans hget)
      refine .recovered hcurrent.1 (Table.mem_of_get? hget) hrunning ?_ hres
      intro x
      exact Table.mem_select.trans (and_congr_right' (decide_eq_true_iff))

/-- The head and the coordinator move on to a branch that has yielded. -/
theorem advanceContinuationHead_ok {expectedRevision updatedAt : ℕ} {targetBranchId : String}
    {head : ContinuationHead}
    (h : advanceContinuationHeadInTransaction expectedRevision targetBranchId updatedAt s =
      (.ok head, s')) :
    ∃ b a, s.branches.get? targetBranchId = some b ∧ expectedRevision = s.head.revision ∧
      a.revision = s.head.revision + 1 ∧ a.predecessor = s.head.branch ∧ a.ref = b.ref ∧
      s.advances.get? a.revision = none ∧ (∀ a' ∈ s.advances, a'.branchId ≠ b.branchId) ∧
      s' = { s with
        advances := s.advances.put a
        head := ⟨some b.ref, s.head.revision + 1, updatedAt⟩
        coordinator := ⟨none, s.head.revision + 1, some b.ref, updatedAt⟩ } := by
  unfold advanceContinuationHeadInTransaction at h
  simp only [↓Tx.bind_read_ok, ↓Tx.bind_ensure_ok, Tx.bind_ok,
    Tx.read_ok] at h
  obtain ⟨rfl, b, _, hbranch, -, _, _, hadvance, _, _, hhead, -, _, _, hupdate, -, rfl⟩ := h
  obtain ⟨hget, rfl⟩ := requireBranch_ok hbranch
  obtain ⟨hnew, hunique, rfl⟩ := insertAdvance_ok hadvance
  obtain rfl := updateHead_ok hhead
  obtain rfl := updateCoordinator_ok hupdate
  exact ⟨b, _, hget, rfl, rfl, rfl, rfl, hnew, hunique, rfl⟩

theorem boundedStrings_ok {label : String} {values values' : List String}
    (h : boundedStrings label values s = (.ok values', s')) : s' = s := by
  simp only [boundedStrings, Tx.bind_ensure_ok, Tx.pure_ok] at h
  exact h.2.2.2.symm

theorem completeCoordinatedBranch_change {input : ReturnInput} {r : CoordinatedBranchReturn}
    (h : completeCoordinatedBranch input s = (.ok r, s')) : Change s s' := by
  unfold completeCoordinatedBranch serialize at h
  simp only [Tx.transaction_ok, ↓Tx.bind_read_ok, ↓Tx.bind_ensure_ok,
    ↓Tx.bind_require_ok, ↓Tx.bind_ofExcept_ok, Tx.bind_ok, Tx.pure_ok] at h
  obtain ⟨-, _, _, hcommitments, _, _, hblockers, _, _, hartifacts, at_, _, hat, branch, _, hbranch,
    hactive, hrunning, start, -, -, manifest, -, -, effects, heffects, privateJson, -, c, _, hprivate,
    root, _, hroot, n, _, hfinish, hn, branch', _, hbranch', head, _, hadvance, -, rfl⟩ := h
  obtain rfl := boundedStrings_ok hcommitments
  obtain rfl := boundedStrings_ok hblockers
  obtain rfl := boundedStrings_ok hartifacts
  obtain ⟨-, rfl⟩ := timestamp_ok hat
  obtain ⟨hget, rfl⟩ := requireBranch_ok hbranch
  obtain ⟨rfl, hnewPrivate, edges, rfl⟩ := insertCapsuleInTransaction_ok hprivate
  obtain ⟨rfl, hnewRoot, edges', rfl⟩ := insertCapsuleInTransaction_ok hroot
  obtain ⟨b, hb, -, hunprepared, rfl⟩ := updateBranch_ok hfinish hn
  have hkey := Table.key_of_get? hget
  rw [hkey] at hb
  obtain rfl := Option.some.inj (hb.symm.trans hget)
  obtain ⟨hyielded, rfl⟩ := requireBranch_ok hbranch'
  rw [Table.get?_put, if_pos rfl] at hyielded
  obtain rfl := Option.some.inj hyielded
  obtain ⟨target, a, htarget, -, hrevision, hpredecessor, href, hnew, hunique, rfl⟩ :=
    advanceContinuationHead_ok hadvance
  rw [Table.get?_put, if_pos rfl] at htarget
  obtain rfl := Option.some.inj htarget
  exact .returned hactive (Table.mem_of_get? hget) hrunning hrevision hpredecessor href hnew hunique
    hunprepared hnewPrivate hnewRoot rfl rfl rfl rfl rfl heffects

theorem requireEffect_ok {id : String} {e : Effect} (h : requireEffect id s = (.ok e, s')) :
    s' = s := by
  simp only [requireEffect, Tx.bind_read_ok, Tx.require_ok] at h
  exact h.2.symm

theorem prepareEffect_change {hash : String → String} {input : EffectInput} {e : Effect}
    (h : prepareEffect hash input s = (.ok e, s')) : Change s s' := by
  unfold prepareEffect serialize at h
  simp only [↓Tx.bind_require_ok, Tx.bind_ok] at h
  obtain ⟨payloadJson, -, epoch, _, hepoch, at_, _, hat, _, _, hinsert, hread⟩ := h
  obtain ⟨-, rfl⟩ := timestamp_ok hepoch
  obtain ⟨-, rfl⟩ := timestamp_ok hat
  obtain ⟨hnew, hrunning, rfl⟩ := insertEffect_ok hinsert
  obtain rfl := requireEffect_ok hread
  exact .prepared hnew hrunning

theorem resolveEffect_change {effectId : String} {resolution : Resolution} {resolvedAt : ℤ}
    {observation : Option (Option String)} {e : Effect}
    (h : resolveEffect effectId resolution resolvedAt observation s = (.ok e, s')) : Change s s' := by
  unfold resolveEffect at h
  simp only [↓Tx.bind_read_ok, ↓Tx.bind_require_ok, ↓Tx.bind_ensure_ok, Tx.bind_ok] at h
  obtain ⟨json, t, hjson, at_, _, hat, e', he, hprepared, _, _, hupdate, hread⟩ := h
  obtain rfl : t = s := by
    rcases Tx.onSome_ok.mp hjson with ⟨-, -, rfl⟩ | ⟨_, _, -, -, hs⟩
    · rfl
    · exact (Tx.require_ok.mp hs).2.symm
  obtain ⟨-, hat⟩ := timestamp_ok hat
  rw [hat] at he hupdate
  obtain rfl := updateEffect_ok hupdate
  obtain rfl := requireEffect_ok hread
  have hone : ∀ x ∈ [e'], x ∈ t.effects ∧ x.status = .prepared := by
    intro x hx
    obtain rfl := List.mem_singleton.mp hx
    exact ⟨Table.mem_of_get? he, hprepared⟩
  refine .resolved ?_ hone (Resolves.cons (by simp) (resolves_nil _ _ _ _))
  cases resolution <;> exact EffectStatus.noConfusion

theorem recoverPreparedEffects_change {recoveredAt : ℤ} {rows : List Effect}
    (h : recoverPreparedEffects recoveredAt s = (.ok rows, s')) : Change s s' := by
  unfold recoverPreparedEffects at h
  simp only [Tx.transaction_ok, ↓Tx.bind_read_ok, Tx.bind_ok, Tx.pure_ok] at h
  obtain ⟨at_, _, hat, _, _, hall, -, rfl⟩ := h
  obtain ⟨-, rfl⟩ := timestamp_ok hat
  obtain ⟨effects, rfl, hres⟩ := resolveAll_ok (pairwise_select (List.perm_insertionSort _ _)) hall
  refine .resolved EffectStatus.noConfusion ?_ hres
  intro x hx
  obtain ⟨hmem, hsel⟩ := Table.mem_select.mp ((List.mem_insertionSort _).mp hx)
  exact ⟨hmem, of_decide_eq_true hsel⟩

end Elpis.Context
