import Mathlib.Logic.Relation
import Mathlib.Data.List.Dedup
import Mathlib.Data.List.Nodup
import Mathlib.Tactic

/-!
# Acyclic relations and the recursive union query

A relation is acyclic when no element reaches itself in one or more steps. An
edge may be added to an acyclic relation exactly when its target does not
already reach its source. The test for that is the recursive query

`WITH RECURSIVE r(x) AS (SELECT … UNION SELECT … JOIN r) SELECT …`

which keeps a queue of rows it has not expanded and a set of rows it has seen.
`recursiveUnion` is that loop over a successor function, and
`mem_recursiveUnion` says that over finitely many edges it returns exactly the
elements reached from the start in one or more steps.
-/

namespace Elpis.Lib

open Relation

variable {α : Type*}

/-! ## Acyclic relations -/

def Acyclic (r : α → α → Prop) : Prop := ∀ a, ¬ TransGen r a a

theorem Acyclic.irrefl {r : α → α → Prop} (h : Acyclic r) (a : α) : ¬ r a a :=
  fun ha => h a (TransGen.single ha)

theorem Acyclic.mono {r r' : α → α → Prop} (h : Acyclic r)
    (hle : ∀ a b, r' a b → r a b) : Acyclic r' :=
  fun a ha => h a (ha.lift id hle)

/-- A path over `r` and one more edge is a path over `r`, or uses the edge. -/
theorem transGen_or_edge {r r' : α → α → Prop} {a b : α}
    (hle : ∀ x y, r' x y → r x y ∨ (x = a ∧ y = b)) {x y : α}
    (h : TransGen r' x y) :
    TransGen r x y ∨ (ReflTransGen r x a ∧ ReflTransGen r b y) := by
  induction h with
  | single hxy =>
      rcases hle _ _ hxy with hr | ⟨rfl, rfl⟩
      · exact Or.inl (TransGen.single hr)
      · exact Or.inr ⟨ReflTransGen.refl, ReflTransGen.refl⟩
  | tail _ hyz ih =>
      rcases hle _ _ hyz with hr | ⟨rfl, rfl⟩
      · rcases ih with ih | ⟨hxa, hby⟩
        · exact Or.inl (ih.tail hr)
        · exact Or.inr ⟨hxa, hby.tail hr⟩
      · rcases ih with ih | ⟨hxa, _⟩
        · exact Or.inr ⟨ih.to_reflTransGen, ReflTransGen.refl⟩
        · exact Or.inr ⟨hxa, ReflTransGen.refl⟩

/-- **Adding an edge.** An edge whose ends differ and whose target does not
reach its source closes no cycle. -/
theorem Acyclic.insert {r r' : α → α → Prop} {a b : α} (h : Acyclic r)
    (hle : ∀ x y, r' x y → r x y ∨ (x = a ∧ y = b))
    (hne : a ≠ b) (hback : ¬ TransGen r b a) : Acyclic r' := by
  intro x hx
  rcases transGen_or_edge hle hx with hr | ⟨hxa, hbx⟩
  · exact h x hr
  · rcases reflTransGen_iff_eq_or_transGen.mp (hbx.trans hxa) with hba | hba
    · exact hne hba
    · exact hback hba

/-! ## The recursive union query -/

section Query
variable [DecidableEq α]

/-- One row leaves the queue; its successors not seen before join the result
and the queue. `fuel` bounds the number of rows expanded. -/
def unionLoop (succ : α → List α) : ℕ → List α → List α → List α
  | 0, _, seen => seen
  | _ + 1, [], seen => seen
  | fuel + 1, x :: queue, seen =>
      let new := (succ x).dedup.filter (fun y => decide (y ∉ seen))
      unionLoop succ fuel (queue ++ new) (seen ++ new)

/-- The rows of the recursive union that starts with the successors of `x`. -/
def recursiveUnion (succ : α → List α) (fuel : ℕ) (x : α) : List α :=
  unionLoop succ fuel (succ x).dedup (succ x).dedup

variable {succ : α → List α}

/-- What the loop keeps true: the queue is part of the result, the result is
reached from the start, and what has left the queue has been expanded. -/
structure UnionInv (succ : α → List α) (start : α) (queue seen : List α) :
    Prop where
  nodup : seen.Nodup
  queue_nodup : queue.Nodup
  queue_seen : ∀ y ∈ queue, y ∈ seen
  first : ∀ y ∈ succ start, y ∈ seen
  reached : ∀ y ∈ seen, TransGen (fun u v => v ∈ succ u) start y
  expanded : ∀ y ∈ seen, y ∉ queue → ∀ z ∈ succ y, z ∈ seen

theorem unionInv_init (start : α) :
    UnionInv succ start (succ start).dedup (succ start).dedup where
  nodup := List.nodup_dedup _
  queue_nodup := List.nodup_dedup _
  queue_seen _ hy := hy
  first _ hy := List.mem_dedup.mpr hy
  reached _ hy := TransGen.single (List.mem_dedup.mp hy)
  expanded _ hy hn := absurd hy hn

theorem unionInv_step {start x : α} {queue seen : List α}
    (h : UnionInv succ start (x :: queue) seen) :
    UnionInv succ start
      (queue ++ (succ x).dedup.filter (fun y => decide (y ∉ seen)))
      (seen ++ (succ x).dedup.filter (fun y => decide (y ∉ seen))) := by
  have hmem : ∀ y, y ∈ (succ x).dedup.filter (fun y => decide (y ∉ seen)) ↔
      y ∈ succ x ∧ y ∉ seen := by
    intro y
    simp
  have hx : x ∈ seen := h.queue_seen x List.mem_cons_self
  have hnew : ((succ x).dedup.filter (fun y => decide (y ∉ seen))).Nodup :=
    (List.nodup_dedup _).filter _
  refine ⟨?_, ?_, ?_, ?_, ?_, ?_⟩
  · refine h.nodup.append hnew ?_
    intro y hy hy'
    exact ((hmem y).mp hy').2 hy
  · refine (List.nodup_cons.mp h.queue_nodup).2.append hnew ?_
    intro y hy hy'
    exact ((hmem y).mp hy').2 (h.queue_seen y (List.mem_cons_of_mem _ hy))
  · intro y hy
    rcases List.mem_append.mp hy with hy | hy
    · exact List.mem_append_left _ (h.queue_seen y (List.mem_cons_of_mem _ hy))
    · exact List.mem_append_right _ hy
  · intro y hy
    exact List.mem_append_left _ (h.first y hy)
  · intro y hy
    rcases List.mem_append.mp hy with hy | hy
    · exact h.reached y hy
    · exact (h.reached x hx).tail ((hmem y).mp hy).1
  · intro y hy hq z hz
    rw [List.mem_append, not_or] at hq
    by_cases hzs : z ∈ seen
    · exact List.mem_append_left _ hzs
    · rcases List.mem_append.mp hy with hy | hy
      · by_cases hyx : y = x
        · exact List.mem_append_right _ ((hmem z).mpr ⟨hyx ▸ hz, hzs⟩)
        · have hyq : y ∉ x :: queue := by
            rw [List.mem_cons, not_or]
            exact ⟨hyx, hq.1⟩
          exact absurd (h.expanded y hy hyq z hz) hzs
      · exact absurd hy hq.2

/-- With one unit of fuel for each element that can still be expanded, the loop
stops on an empty queue: its result is closed and reached from the start. -/
theorem unionLoop_spec {start : α} {nodes : List α}
    (hnodes : ∀ u, ∀ v ∈ succ u, v ∈ nodes) :
    ∀ (fuel : ℕ) (queue seen : List α), UnionInv succ start queue seen →
      nodes.length + queue.length ≤ fuel + seen.length →
      (∀ y ∈ unionLoop succ fuel queue seen,
        TransGen (fun u v => v ∈ succ u) start y) ∧
      (∀ y ∈ succ start, y ∈ unionLoop succ fuel queue seen) ∧
      ∀ y ∈ unionLoop succ fuel queue seen, ∀ z ∈ succ y,
        z ∈ unionLoop succ fuel queue seen := by
  intro fuel
  induction fuel with
  | zero =>
      intro queue seen h hfuel
      -- every element seen is the end of an edge, so the bound empties the queue
      have hsub : ∀ y ∈ seen, y ∈ nodes := by
        intro y hy
        obtain ⟨u, _, huy⟩ := TransGen.tail'_iff.mp (h.reached y hy)
        exact hnodes u y huy
      have hlen := (List.Nodup.subperm h.nodup hsub).length_le
      have hq : queue = [] := List.length_eq_zero_iff.mp (by omega)
      subst hq
      exact ⟨h.reached, h.first, fun y hy => h.expanded y hy List.not_mem_nil⟩
  | succ fuel ih =>
      intro queue seen h hfuel
      cases queue with
      | nil => exact ⟨h.reached, h.first, fun y hy => h.expanded y hy List.not_mem_nil⟩
      | cons x queue =>
          refine ih _ _ (unionInv_step h) ?_
          simp only [List.length_cons, List.length_append] at hfuel ⊢
          omega

/-- **The query is the transitive closure.** With at least one unit of fuel for
each element that has an incoming edge, the recursive union from `x` holds
exactly what `x` reaches in one or more steps. -/
theorem mem_recursiveUnion {nodes : List α} {fuel : ℕ} {x y : α}
    (hnodes : ∀ u, ∀ v ∈ succ u, v ∈ nodes) (hfuel : nodes.length ≤ fuel) :
    y ∈ recursiveUnion succ fuel x ↔ TransGen (fun u v => v ∈ succ u) x y := by
  obtain ⟨hreach, hfirst, hclosed⟩ := unionLoop_spec hnodes fuel _ _
    (unionInv_init x) (Nat.add_le_add_right hfuel _)
  refine ⟨hreach y, ?_⟩
  intro h
  induction h with
  | single hxy => exact hfirst _ hxy
  | tail _ hyz ih => exact hclosed _ ih _ hyz

end Query

end Elpis.Lib
