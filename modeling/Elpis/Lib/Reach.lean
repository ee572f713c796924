import Mathlib.Data.List.Nodup
import Mathlib.Data.List.Perm.Subperm
import Mathlib.Tactic

/-!
# Breadth-first walks of bounded depth

A walk keeps a queue of nodes with the depth they were met at, the nodes it has seen, and the edges
it has gone along. A node at the greatest depth is not expanded. Because the queue is first in,
first out, its depths never fall and span two levels at most; so a node is met at the least depth it
can be met at, and none is missed at the boundary.
-/

namespace Elpis.Lib

variable {α ε : Type*}

/-- `Within r a n b`: `b` is reached from `a` in at most `n` steps. -/
inductive Within (r : α → α → Prop) (a : α) : ℕ → α → Prop
  | start (n : ℕ) : Within r a n a
  | step {n : ℕ} {b c : α} (reach : Within r a n b) (edge : r b c) : Within r a (n + 1) c

theorem Within.mono {r : α → α → Prop} {a b : α} {m n : ℕ} (h : Within r a m b) (hle : m ≤ n) :
    Within r a n b := by
  induction h generalizing n with
  | start => exact .start n
  | step _ edge ih =>
      obtain ⟨k, rfl⟩ := Nat.exists_eq_add_of_lt hle
      exact (ih (by omega)).step edge

/-- What holds of the start and of the end of every edge holds of what is reached. -/
theorem Within.holds {r : α → α → Prop} {a b : α} {n : ℕ} (h : Within r a n b) {P : α → Prop} (hstart : P a)
    (hedge : ∀ x y, r x y → P y) : P b := by
  cases h with
  | start => exact hstart
  | step _ edge => exact hedge _ _ edge

/-! ## The walk -/

structure Walk (α ε : Type*) where
  seen : List α
  queue : List (α × ℕ)
  edges : List ε

section Walk
variable [DecidableEq α] (out : α → List (ε × α)) (maxDepth : ℕ)

/-- An edge is noted, and a node that was not seen before joins the queue. -/
def visit (depth : ℕ) (w : Walk α ε) (next : ε × α) : Walk α ε :=
  if next.2 ∈ w.seen then { w with edges := w.edges ++ [next.1] }
  else ⟨w.seen ++ [next.2], w.queue ++ [(next.2, depth)], w.edges ++ [next.1]⟩

/-- The nodes leave the queue in their order, for at most `fuel` rounds. -/
def walkLoop : ℕ → Walk α ε → Walk α ε
  | 0, w => w
  | fuel + 1, w =>
      match w.queue with
      | [] => w
      | (x, depth) :: queue =>
          walkLoop fuel (if maxDepth ≤ depth then { w with queue }
            else (out x).foldl (visit (depth + 1)) { w with queue })

def walkFrom (fuel : ℕ) (start : α) : Walk α ε := walkLoop out maxDepth fuel ⟨[start], [(start, 0)], []⟩

end Walk

section Expand
variable [DecidableEq α]

/-- What a round adds: the nodes that are new, each once. -/
theorem foldl_visit (depth : ℕ) (steps : List (ε × α)) (w : Walk α ε) :
    ∃ new : List α, new.Nodup ∧ (∀ y, y ∈ new ↔ y ∈ steps.map Prod.snd ∧ y ∉ w.seen) ∧
      steps.foldl (visit depth) w =
        ⟨w.seen ++ new, w.queue ++ new.map (fun y => (y, depth)), w.edges ++ steps.map Prod.fst⟩ := by
  induction steps generalizing w with
  | nil => exact ⟨[], List.nodup_nil, by simp, by simp⟩
  | cons next steps ih =>
      rw [List.foldl_cons, visit]
      by_cases hseen : next.2 ∈ w.seen
      · rw [if_pos hseen]
        obtain ⟨new, hnodup, hmem, heq⟩ := ih { w with edges := w.edges ++ [next.1] }
        refine ⟨new, hnodup, ?_, ?_⟩
        · intro y
          rw [hmem, List.map_cons, List.mem_cons]
          constructor
          · rintro ⟨hy, hnot⟩
            exact ⟨Or.inr hy, hnot⟩
          · rintro ⟨rfl | hy, hnot⟩
            · exact absurd hseen hnot
            · exact ⟨hy, hnot⟩
        · rw [heq]
          simp
      · rw [if_neg hseen]
        obtain ⟨new, hnodup, hmem, heq⟩ :=
          ih ⟨w.seen ++ [next.2], w.queue ++ [(next.2, depth)], w.edges ++ [next.1]⟩
        refine ⟨next.2 :: new, ?_, ?_, ?_⟩
        · refine List.nodup_cons.mpr ⟨?_, hnodup⟩
          rw [hmem]
          simp
        · intro y
          rw [List.mem_cons, hmem, List.map_cons, List.mem_cons, List.mem_append, List.mem_singleton, not_or]
          constructor
          · rintro (rfl | ⟨hy, hnot, -⟩)
            · exact ⟨Or.inl rfl, hseen⟩
            · exact ⟨Or.inr hy, hnot⟩
          · rintro ⟨hy, hnot⟩
            by_cases heq : y = next.2
            · exact Or.inl heq
            · exact Or.inr ⟨hy.resolve_left heq, hnot, heq⟩
        · rw [heq]
          simp

end Expand

/-! ## The invariant -/

section Invariant
variable {out : α → List (ε × α)} {maxDepth : ℕ} {start : α}

/-- `y` is at the end of an edge of `x`. -/
def Leads (out : α → List (ε × α)) (x y : α) : Prop := ∃ e, (e, y) ∈ out x

/-- What the loop keeps true of the walk and of the nodes `done` that have left the queue. -/
structure WalkInv (out : α → List (ε × α)) (maxDepth : ℕ) (start : α) (done : List (α × ℕ)) (w : Walk α ε) :
    Prop where
  seen : w.seen = (done ++ w.queue).map Prod.fst
  nodup : w.seen.Nodup
  first : (start, 0) ∈ done ++ w.queue
  sorted : w.queue.Pairwise (fun p q => p.2 ≤ q.2)
  /-- Nothing has been met more than one level below what is still to be expanded. -/
  narrow : ∀ p ∈ done ++ w.queue, ∀ q ∈ w.queue, p.2 ≤ q.2 + 1
  reached : ∀ p ∈ done ++ w.queue, Within (Leads out) start p.2 p.1 ∧ p.2 ≤ maxDepth
  expanded : ∀ p ∈ done, p.2 < maxDepth → ∀ y, Leads out p.1 y → ∃ d ≤ p.2 + 1, (y, d) ∈ done ++ w.queue
  edges : ∀ e, e ∈ w.edges ↔ ∃ p ∈ done, p.2 < maxDepth ∧ ∃ y, (e, y) ∈ out p.1

theorem walkInv_init (out : α → List (ε × α)) (maxDepth : ℕ) (start : α) :
    WalkInv out maxDepth start [] ⟨[start], [(start, 0)], []⟩ where
  seen := rfl
  nodup := List.nodup_singleton start
  first := List.mem_singleton_self _
  sorted := List.pairwise_singleton _ _
  narrow := by simp
  reached := by
    intro p hp
    rw [List.nil_append, List.mem_singleton] at hp
    rw [hp]
    exact ⟨.start 0, Nat.zero_le _⟩
  expanded := by simp
  edges := by simp

/-- A node at the greatest depth is let go. -/
theorem WalkInv.skip {done queue : List (α × ℕ)} {w : Walk α ε} {x : α} {depth : ℕ}
    (h : WalkInv out maxDepth start done w) (hqueue : w.queue = (x, depth) :: queue) (hdepth : maxDepth ≤ depth) :
    WalkInv out maxDepth start (done ++ [(x, depth)]) { w with queue } := by
  have hall : done ++ [(x, depth)] ++ queue = done ++ w.queue := by rw [hqueue, List.append_assoc]; rfl
  have hsorted := h.sorted
  rw [hqueue] at hsorted
  refine ⟨by rw [hall]; exact h.seen, h.nodup, by rw [hall]; exact h.first, (List.pairwise_cons.mp hsorted).2,
    ?_, by rw [hall]; exact h.reached, ?_, ?_⟩
  · rw [hall]
    intro p hp q hq
    exact h.narrow p hp q (by rw [hqueue]; exact List.mem_cons_of_mem _ hq)
  · rw [hall]
    intro p hp hlt
    rcases List.mem_append.mp hp with hp | hp
    · exact h.expanded p hp hlt
    · rw [List.mem_singleton.mp hp] at hlt
      exact absurd hlt (not_lt.mpr hdepth)
  · intro e
    rw [h.edges e]
    constructor
    · rintro ⟨p, hp, hlt, hy⟩
      exact ⟨p, List.mem_append_left _ hp, hlt, hy⟩
    · rintro ⟨p, hp, hlt, hy⟩
      rcases List.mem_append.mp hp with hp | hp
      · exact ⟨p, hp, hlt, hy⟩
      · rw [List.mem_singleton.mp hp] at hlt
        exact absurd hlt (not_lt.mpr hdepth)

/-- A node is expanded: its new neighbours go to the end of the queue, one level further down. -/
theorem WalkInv.expand {done queue : List (α × ℕ)} {w : Walk α ε} {x : α} {depth : ℕ}
    (h : WalkInv out maxDepth start done w) (hqueue : w.queue = (x, depth) :: queue) (hdepth : depth < maxDepth)
    {new : List α} (hnew : new.Nodup) (hmem : ∀ y, y ∈ new ↔ y ∈ (out x).map Prod.snd ∧ y ∉ w.seen) :
    WalkInv out maxDepth start (done ++ [(x, depth)])
      ⟨w.seen ++ new, queue ++ new.map (fun y => (y, depth + 1)), w.edges ++ (out x).map Prod.fst⟩ := by
  have hall : done ++ [(x, depth)] ++ (queue ++ new.map (fun y => (y, depth + 1))) =
      done ++ w.queue ++ new.map (fun y => (y, depth + 1)) := by
    rw [hqueue]
    simp
  have hx : (x, depth) ∈ done ++ w.queue := by
    rw [hqueue]
    simp
  have hhead : (x, depth) ∈ w.queue := by
    rw [hqueue]
    exact List.mem_cons_self
  have hsorted := h.sorted
  rw [hqueue, List.pairwise_cons] at hsorted
  have hleads : ∀ y, Leads out x y ↔ y ∈ (out x).map Prod.snd := by
    intro y
    simp [Leads]
  have hfresh : ∀ p ∈ new.map (fun y => (y, depth + 1)), p.2 = depth + 1 ∧ p.1 ∈ new := by
    intro p hp
    obtain ⟨y, hy, rfl⟩ := List.mem_map.mp hp
    exact ⟨rfl, hy⟩
  refine ⟨?_, ?_, ?_, ?_, ?_, ?_, ?_, ?_⟩
  · show w.seen ++ new = (done ++ [(x, depth)] ++ (queue ++ new.map (fun y => (y, depth + 1)))).map Prod.fst
    rw [hall, List.map_append, ← h.seen, List.map_map]
    congr 1
    exact (List.map_id new).symm
  · refine h.nodup.append hnew ?_
    intro y hy hy'
    exact ((hmem y).mp hy').2 hy
  · rw [hall]
    exact List.mem_append_left _ h.first
  · refine List.pairwise_append.mpr ⟨hsorted.2, ?_, ?_⟩
    · rw [List.pairwise_map]
      exact List.pairwise_of_forall (fun _ _ => le_rfl)
    · intro p hp q hq
      rw [(hfresh q hq).1]
      exact h.narrow p (by rw [hqueue]; simp [hp]) _ hhead
  · rw [hall]
    intro p hp q hq
    have hple : p.2 ≤ depth + 1 := by
      rcases List.mem_append.mp hp with hp | hp
      · exact h.narrow p hp _ hhead
      · exact (hfresh p hp).1.le
    rcases List.mem_append.mp hq with hq | hq
    · exact hple.trans (Nat.add_le_add_right (hsorted.1 q hq) 1)
    · rw [(hfresh q hq).1]
      omega
  · rw [hall]
    intro p hp
    rcases List.mem_append.mp hp with hp | hp
    · exact h.reached p hp
    · obtain ⟨hp2, hp1⟩ := hfresh p hp
      rw [hp2]
      exact ⟨(h.reached _ hx).1.step ((hleads _).mpr ((hmem _).mp hp1).1), hdepth⟩
  · rw [hall]
    intro p hp hlt y hy
    rcases List.mem_append.mp hp with hp | hp
    · obtain ⟨d, hd, hmem'⟩ := h.expanded p hp hlt y hy
      exact ⟨d, hd, List.mem_append_left _ hmem'⟩
    · obtain rfl := List.mem_singleton.mp hp
      by_cases hseen : y ∈ w.seen
      · -- met before, and so not below the next level
        rw [h.seen] at hseen
        obtain ⟨q, hq, rfl⟩ := List.mem_map.mp hseen
        exact ⟨q.2, h.narrow q hq _ hhead, List.mem_append_left _ hq⟩
      · have hynew : y ∈ new := (hmem y).mpr ⟨(hleads y).mp hy, hseen⟩
        exact ⟨depth + 1, le_rfl, List.mem_append_right _ (List.mem_map.mpr ⟨y, hynew, rfl⟩)⟩
  · intro e
    rw [List.mem_append, h.edges e]
    constructor
    · rintro (⟨p, hp, hlt, hy⟩ | he)
      · exact ⟨p, List.mem_append_left _ hp, hlt, hy⟩
      · obtain ⟨⟨e', y⟩, hstep, rfl⟩ := List.mem_map.mp he
        exact ⟨(x, depth), by simp, hdepth, y, hstep⟩
    · rintro ⟨p, hp, hlt, y, hy⟩
      rcases List.mem_append.mp hp with hp | hp
      · exact Or.inl ⟨p, hp, hlt, y, hy⟩
      · obtain rfl := List.mem_singleton.mp hp
        exact Or.inr (List.mem_map.mpr ⟨(e, y), hy, rfl⟩)

end Invariant

/-! ## The result -/

section Result
variable [DecidableEq α] {out : α → List (ε × α)} {maxDepth : ℕ} {start : α}

/-- With a round for each node there is, the loop ends on an empty queue. -/
theorem walkLoop_spec {nodes : List α} (hnodes : ∀ x, ∀ p ∈ out x, p.2 ∈ nodes) (hstart : start ∈ nodes) :
    ∀ (fuel : ℕ) (done : List (α × ℕ)) (w : Walk α ε), WalkInv out maxDepth start done w →
      nodes.length + w.queue.length ≤ fuel + w.seen.length →
      ∃ done', WalkInv out maxDepth start done' (walkLoop out maxDepth fuel w) ∧
        (walkLoop out maxDepth fuel w).queue = [] := by
  intro fuel
  induction fuel with
  | zero =>
      intro done w h hfuel
      refine ⟨done, h, List.length_eq_zero_iff.mp ?_⟩
      -- what has been seen are nodes, so the bound leaves nothing in the queue
      have hsub : ∀ y ∈ w.seen, y ∈ nodes := by
        intro y hy
        rw [h.seen] at hy
        obtain ⟨p, hp, rfl⟩ := List.mem_map.mp hy
        refine (h.reached p hp).1.holds hstart ?_
        rintro x y ⟨e, he⟩
        exact hnodes x _ he
      have hlen := (List.Nodup.subperm h.nodup hsub).length_le
      rw [walkLoop]
      omega
  | succ fuel ih =>
      intro done w h hfuel
      rw [walkLoop]
      cases hqueue : w.queue with
      | nil => exact ⟨done, h, hqueue⟩
      | cons p queue =>
          obtain ⟨x, depth⟩ := p
          rw [hqueue, List.length_cons] at hfuel
          by_cases hdepth : maxDepth ≤ depth
          · simp only [if_pos hdepth]
            exact ih _ _ (h.skip hqueue hdepth) (by simpa using by omega)
          · obtain ⟨new, hnew, hmem, heq⟩ := foldl_visit (depth + 1) (out x) { w with queue }
            simp only [if_neg hdepth, heq]
            refine ih _ _ (h.expand hqueue (not_le.mp hdepth) hnew hmem) ?_
            simp only [List.length_append, List.length_map]
            omega

/-- **A bounded walk is exact.** It sees each node within the depth once and no other, and goes along
exactly the edges that leave a node of less than the depth. -/
theorem walkFrom_spec (out : α → List (ε × α)) (maxDepth : ℕ) {nodes : List α} (hnodes : ∀ x, ∀ p ∈ out x, p.2 ∈ nodes) (hstart : start ∈ nodes) {fuel : ℕ}
    (hfuel : nodes.length ≤ fuel) :
    (walkFrom out maxDepth fuel start).seen.Nodup ∧
      (∀ y, y ∈ (walkFrom out maxDepth fuel start).seen ↔ Within (Leads out) start maxDepth y) ∧
      ∀ e, e ∈ (walkFrom out maxDepth fuel start).edges ↔
        ∃ n < maxDepth, ∃ x y, Within (Leads out) start n x ∧ (e, y) ∈ out x := by
  obtain ⟨done, h, hqueue⟩ := walkLoop_spec hnodes hstart fuel [] _ (walkInv_init out maxDepth start)
    (by simpa using hfuel)
  have hall : done ++ (walkLoop out maxDepth fuel ⟨[start], [(start, 0)], []⟩).queue = done := by
    rw [hqueue, List.append_nil]
  have hseen := h.seen
  have hreached := h.reached
  have hfirst := h.first
  have hexpanded := h.expanded
  rw [hall] at hseen hreached hfirst hexpanded
  -- a node within the depth has been met at that depth at most
  have hmet : ∀ n y, Within (Leads out) start n y → n ≤ maxDepth → ∃ d ≤ n, (y, d) ∈ done := by
    intro n y hy
    induction hy with
    | start n => exact fun _ => ⟨0, Nat.zero_le n, hfirst⟩
    | @step n b c _ edge ih =>
        intro hle
        obtain ⟨d, hd, hb⟩ := ih (by omega)
        obtain ⟨d', hd', hc⟩ := hexpanded _ hb (by show d < maxDepth; omega) _ edge
        exact ⟨d', hd'.trans (Nat.add_le_add_right hd 1), hc⟩
  refine ⟨h.nodup, ?_, ?_⟩
  · intro y
    rw [walkFrom, hseen]
    constructor
    · intro hy
      obtain ⟨p, hp, rfl⟩ := List.mem_map.mp hy
      exact (hreached p hp).1.mono (hreached p hp).2
    · intro hy
      obtain ⟨d, -, hd⟩ := hmet _ _ hy le_rfl
      exact List.mem_map.mpr ⟨_, hd, rfl⟩
  · intro e
    rw [walkFrom, h.edges e]
    constructor
    · rintro ⟨p, hp, hlt, y, hy⟩
      exact ⟨p.2, hlt, p.1, y, (hreached p hp).1, hy⟩
    · rintro ⟨n, hn, x, y, hx, hy⟩
      obtain ⟨d, hd, hmem⟩ := hmet n x hx hn.le
      exact ⟨_, hmem, by show d < maxDepth; omega, y, hy⟩

end Result

end Elpis.Lib
