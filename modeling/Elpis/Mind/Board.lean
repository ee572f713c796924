import Elpis.Mind.Schema
import Elpis.Lib.Digraph
import Mathlib.Data.Set.Basic
import Mathlib.Logic.Function.Basic

/-!
# The board: what the Mind store is for

An abstract reading of the store. A board has cards, each with a status, a
parent and the marks the rules look at; a set of leased cards; a relation of
what waits for what; and the set of cards somebody will be reminded of. Rows,
times, texts and logs are gone.

`Step` lists the moves of the game. `Valid` collects the rules no move may
break: a leased card is a task in progress, closing a card and its status agree,
a proposal is not yet work, and neither waiting nor nesting goes in a circle.
-/

namespace Elpis.Mind

open Elpis.Lib Relation

/-- What the rules look at on a card. -/
@[ext] structure Card (ι : Type) where
  task : Bool
  status : MindStatus
  parent : Option ι
  due : Bool
  closed : Bool
  archived : Bool

@[ext] structure Board (ι : Type) where
  card : ι → Option (Card ι)
  leased : Set ι
  dep : ι → ι → Prop
  reminded : Set ι

/-- The statuses that may follow `s`: a proposal is taken up or turned down, and
nothing becomes a proposal again. -/
def MindStatus.MayBecome (s s' : MindStatus) : Prop :=
  if s = .proposal then s' ∈ [.proposal, .inbox, .open, .cancelled]
  else s' ≠ .proposal

/-- A change of status that neither makes nor ends a proposal. -/
def MindStatus.Tame (s s' : MindStatus) : Prop := s = .proposal ↔ s' = .proposal

theorem MindStatus.Tame.mayBecome {s s' : MindStatus} (h : s.Tame s') : s.MayBecome s' := by
  unfold MayBecome
  split
  · next hs =>
      rw [h.mp hs]
      exact List.mem_cons_self
  · next hs =>
      exact fun hs' => hs (h.mpr hs')

/-- A card agrees with itself and with its lease. -/
structure Card.Fits {ι : Type} (c : Card ι) (leased : Prop) : Prop where
  closed : c.closed = c.status.closed
  due : c.status = .proposal → c.due = false
  leased : leased → c.task = true ∧ c.status = .inProgress ∧ c.archived = false

namespace Board

variable {ι : Type}

/-- `p` is the parent of `a`. -/
def parentOf (b : Board ι) (a p : ι) : Prop :=
  ∃ c, b.card a = some c ∧ c.parent = some p

/-- No cards at all. -/
def blank : Board ι := ⟨fun _ => none, ∅, fun _ _ => False, ∅⟩

/-! ## Moves -/

section Moves
variable [DecidableEq ι]

/-- Put the card `c` at `a`, leased exactly when `l`. -/
def put (b : Board ι) (a : ι) (c : Card ι) (l : Prop) : Board ι :=
  { b with
    card := Function.update b.card a (some c)
    leased := fun x => if x = a then l else x ∈ b.leased }

inductive Step (b : Board ι) : Board ι → Prop
  | add (a : ι) (c : Card ι) (hnew : b.card a = none) (hfits : c.Fits False)
      (hparent : ∀ p, c.parent = some p → (b.card p).isSome) :
      Step b (b.put a c False)
  | edit (a : ι) (c₀ c : Card ι) (l : Prop) (hold : b.card a = some c₀)
      (hfits : c.Fits l) (hstatus : c₀.status.MayBecome c.status)
      (hparent : ∀ p, c.parent = some p → c₀.parent = some p ∨
        (a ≠ p ∧ (b.card p).isSome ∧ ¬ TransGen b.parentOf p a)) :
      Step b (b.put a c l)
  | link (a d : ι) (ca cd : Card ι) (ha : b.card a = some ca) (hd : b.card d = some cd)
      (hpa : ca.status ≠ .proposal) (hpd : cd.status ≠ .proposal) (hne : a ≠ d)
      (hback : ¬ TransGen b.dep d a) :
      Step b { b with dep := fun x y => b.dep x y ∨ (x = a ∧ y = d) }
  | unlink (dep' : ι → ι → Prop) (hle : ∀ x y, dep' x y → b.dep x y) :
      Step b { b with dep := dep' }
  | remind (a : ι) (c : Card ι) (ha : b.card a = some c) (hp : c.status ≠ .proposal) :
      Step b { b with reminded := insert a b.reminded }
  | unremind (reminded' : Set ι) (hle : reminded' ⊆ b.reminded) :
      Step b { b with reminded := reminded' }

/-- No card becomes or stops being a proposal, and none is lost. -/
def Tame (b b' : Board ι) : Prop :=
  ∀ a c, b.card a = some c → ∃ c', b'.card a = some c' ∧ c.status.Tame c'.status

/-- Every card is still there with a status that may follow the one it had. -/
def Lawful (b b' : Board ι) : Prop :=
  ∀ a c, b.card a = some c → ∃ c', b'.card a = some c' ∧ c.status.MayBecome c'.status

/-- What one call may do: one move, or several that leave proposals alone. -/
def Call (b b' : Board ι) : Prop :=
  Step b b' ∨ ReflTransGen (fun b b' => Step b b' ∧ Tame b b') b b'

end Moves

/-! ## Rules -/

structure Valid (b : Board ι) : Prop where
  fits : ∀ a c, b.card a = some c → c.Fits (a ∈ b.leased)
  leased_known : ∀ a ∈ b.leased, (b.card a).isSome
  reminded_known : ∀ a ∈ b.reminded, (b.card a).isSome
  dep_known : ∀ x y, b.dep x y → (b.card x).isSome ∧ (b.card y).isSome
  parent_known : ∀ x y, b.parentOf x y → (b.card y).isSome
  dep_acyclic : Acyclic b.dep
  parent_acyclic : Acyclic b.parentOf
  proposal_idle : ∀ a c, b.card a = some c → c.status = .proposal →
    a ∉ b.reminded ∧ ∀ x, ¬ b.dep a x ∧ ¬ b.dep x a

theorem valid_blank : (blank : Board ι).Valid where
  fits _ _ h := by cases h
  leased_known _ h := by cases h
  reminded_known _ h := by cases h
  dep_known _ _ h := by cases h
  parent_known _ _ h := by
    obtain ⟨_, h, _⟩ := h
    cases h
  dep_acyclic a h := by
    obtain ⟨_, _, h⟩ := TransGen.tail'_iff.mp h
    exact h
  parent_acyclic a h := by
    obtain ⟨_, _, _, h, _⟩ := TransGen.tail'_iff.mp h
    cases h
  proposal_idle _ _ h := by cases h

section Preservation
variable {b b' : Board ι}

/-- A card that is not there has no child, no edge and no reminder. -/
theorem Valid.unknown (h : b.Valid) {a : ι} (ha : b.card a = none) :
    (∀ x, ¬ b.parentOf x a) ∧ a ∉ b.reminded ∧ ∀ x, ¬ b.dep a x ∧ ¬ b.dep x a := by
  refine ⟨?_, ?_, ?_⟩
  · intro x hx
    have := h.parent_known x a hx
    rw [ha] at this
    cases this
  · intro hr
    have := h.reminded_known a hr
    rw [ha] at this
    cases this
  · intro x
    refine ⟨?_, ?_⟩
    · intro hd
      have := (h.dep_known a x hd).1
      rw [ha] at this
      cases this
    · intro hd
      have := (h.dep_known x a hd).2
      rw [ha] at this
      cases this

theorem Tame.of_card (h : b'.card = b.card) : Tame b b' := by
  intro a c hc
  rw [h]
  exact ⟨c, hc, Iff.rfl⟩

theorem Tame.trans {b'' : Board ι} (h : Tame b b') (h' : Tame b' b'') : Tame b b'' := by
  intro a c hc
  obtain ⟨c', hc', hs⟩ := h a c hc
  obtain ⟨c'', hc'', hs'⟩ := h' a c' hc'
  exact ⟨c'', hc'', hs.trans hs'⟩

theorem Tame.lawful (h : Tame b b') : Lawful b b' := by
  intro a c hc
  obtain ⟨c', hc', hs⟩ := h a c hc
  exact ⟨c', hc', hs.mayBecome⟩

variable [DecidableEq ι]

@[simp] theorem put_card_self (b : Board ι) (a : ι) (c : Card ι) (l : Prop) :
    (b.put a c l).card a = some c := Function.update_self ..

theorem put_card_of_ne (b : Board ι) {a x : ι} (c : Card ι) (l : Prop) (h : x ≠ a) :
    (b.put a c l).card x = b.card x := Function.update_of_ne h ..

variable {c : Card ι} {l : Prop}

theorem put_card_isSome {a x : ι} (h : (b.card x).isSome) :
    ((b.put a c l).card x).isSome := by
  by_cases hx : x = a
  · rw [hx, put_card_self]
    rfl
  · rw [put_card_of_ne _ _ _ hx]
    exact h

theorem mem_put_leased_self {a : ι} :
    a ∈ (b.put a c l).leased ↔ l := by
  show (if a = a then l else a ∈ b.leased) ↔ l
  rw [if_pos rfl]

theorem mem_put_leased_of_ne {a x : ι} (h : x ≠ a) :
    x ∈ (b.put a c l).leased ↔ x ∈ b.leased := by
  show (if x = a then l else x ∈ b.leased) ↔ _
  rw [if_neg h]

/-- The parent edges after `put` are the old ones of the other cards and the
one of the new card. -/
theorem parentOf_put {a x p : ι}
    (h : (b.put a c l).parentOf x p) :
    (x ≠ a ∧ b.parentOf x p) ∨ (x = a ∧ c.parent = some p) := by
  obtain ⟨cx, hcx, hp⟩ := h
  by_cases hx : x = a
  · subst hx
    rw [put_card_self] at hcx
    cases hcx
    exact Or.inr ⟨rfl, hp⟩
  · rw [put_card_of_ne _ _ _ hx] at hcx
    exact Or.inl ⟨hx, cx, hcx, hp⟩

/-- Putting a card keeps the rules when the card fits, its parent is sound, and
it is a proposal only if nobody waits for or is reminded of it. -/
theorem Valid.put (h : b.Valid) {a : ι} (hfits : c.Fits l)
    (hparent : ∀ p, c.parent = some p → b.parentOf a p ∨
      (a ≠ p ∧ (b.card p).isSome ∧ ¬ TransGen b.parentOf p a))
    (hidle : c.status = .proposal → a ∉ b.reminded ∧ ∀ x, ¬ b.dep a x ∧ ¬ b.dep x a) :
    (b.put a c l).Valid where
  fits := by
    intro x cx hcx
    by_cases hx : x = a
    · subst hx
      rw [put_card_self] at hcx
      cases hcx
      exact ⟨hfits.closed, hfits.due, fun hl => hfits.leased (mem_put_leased_self.mp hl)⟩
    · rw [put_card_of_ne _ _ _ hx] at hcx
      have hold := h.fits x cx hcx
      exact ⟨hold.closed, hold.due, fun hl => hold.leased ((mem_put_leased_of_ne hx).mp hl)⟩
  leased_known := by
    intro x hx
    by_cases hxa : x = a
    · rw [hxa, put_card_self]
      rfl
    · exact put_card_isSome (h.leased_known x ((mem_put_leased_of_ne hxa).mp hx))
  reminded_known x hx := put_card_isSome (h.reminded_known x hx)
  dep_known x y hxy :=
    ⟨put_card_isSome (h.dep_known x y hxy).1, put_card_isSome (h.dep_known x y hxy).2⟩
  parent_known := by
    intro x p hp
    rcases parentOf_put hp with ⟨_, hp⟩ | ⟨_, hp⟩
    · exact put_card_isSome (h.parent_known x p hp)
    · rcases hparent p hp with hp | ⟨_, hp, _⟩
      · exact put_card_isSome (h.parent_known a p hp)
      · exact put_card_isSome hp
  dep_acyclic := h.dep_acyclic
  parent_acyclic := by
    cases hcp : c.parent with
    | none =>
        refine h.parent_acyclic.mono ?_
        intro x p hp
        rcases parentOf_put hp with ⟨_, hp⟩ | ⟨_, hp⟩
        · exact hp
        · rw [hcp] at hp
          cases hp
    | some q =>
        have hedge : ∀ x p, (b.put a c l).parentOf x p →
            b.parentOf x p ∨ (x = a ∧ p = q) := by
          intro x p hp
          rcases parentOf_put hp with ⟨_, hp⟩ | ⟨hx, hp⟩
          · exact Or.inl hp
          · rw [hcp, Option.some.injEq] at hp
            exact Or.inr ⟨hx, hp.symm⟩
        rcases hparent q hcp with hq | ⟨hne, _, hback⟩
        · refine h.parent_acyclic.mono ?_
          intro x p hp
          rcases hedge x p hp with hp | ⟨rfl, rfl⟩
          · exact hp
          · exact hq
        · exact h.parent_acyclic.insert hedge hne hback
  proposal_idle := by
    intro x cx hcx hs
    by_cases hx : x = a
    · subst hx
      rw [put_card_self] at hcx
      cases hcx
      exact hidle hs
    · rw [put_card_of_ne _ _ _ hx] at hcx
      exact h.proposal_idle x cx hcx hs

/-- **Every move keeps the rules.** -/
theorem Step.valid (hs : Step b b') (h : b.Valid) : b'.Valid := by
  cases hs with
  | add a c hnew hfits hparent =>
      obtain ⟨hchild, hidle⟩ := h.unknown hnew
      refine h.put hfits ?_ (fun _ => hidle)
      intro p hp
      have hknown := hparent p hp
      refine Or.inr ⟨?_, hknown, ?_⟩
      · rintro rfl
        rw [hnew] at hknown
        cases hknown
      · intro hpath
        obtain ⟨x, _, hx⟩ := TransGen.tail'_iff.mp hpath
        exact hchild x hx
  | edit a c₀ c l hold hfits hstatus hparent =>
      refine h.put hfits ?_ ?_
      · intro p hp
        rcases hparent p hp with hp | hp
        · exact Or.inl ⟨c₀, hold, hp⟩
        · exact Or.inr hp
      · intro hs
        have hs₀ : c₀.status = .proposal := by
          by_contra hne
          rw [MindStatus.MayBecome, if_neg hne] at hstatus
          exact hstatus hs
        exact h.proposal_idle a c₀ hold hs₀
  | link a d ca cd ha hd hpa hpd hne hback =>
      refine ⟨h.fits, h.leased_known, h.reminded_known, ?_, h.parent_known, ?_,
        h.parent_acyclic, ?_⟩
      · rintro x y (hxy | ⟨rfl, rfl⟩)
        · exact h.dep_known x y hxy
        · rw [ha, hd]
          exact ⟨rfl, rfl⟩
      · exact h.dep_acyclic.insert (fun _ _ hxy => hxy) hne hback
      · intro x cx hcx hs
        obtain ⟨hr, hdep⟩ := h.proposal_idle x cx hcx hs
        refine ⟨hr, fun y => ⟨?_, ?_⟩⟩
        · rintro (hxy | ⟨rfl, rfl⟩)
          · exact (hdep y).1 hxy
          · rw [ha] at hcx
            cases hcx
            exact hpa hs
        · rintro (hxy | ⟨rfl, rfl⟩)
          · exact (hdep y).2 hxy
          · rw [hd] at hcx
            cases hcx
            exact hpd hs
  | unlink dep' hle =>
      refine ⟨h.fits, h.leased_known, h.reminded_known,
        fun x y hxy => h.dep_known x y (hle x y hxy), h.parent_known,
        h.dep_acyclic.mono hle, h.parent_acyclic, ?_⟩
      intro x cx hcx hs
      obtain ⟨hr, hdep⟩ := h.proposal_idle x cx hcx hs
      exact ⟨hr, fun y => ⟨fun hxy => (hdep y).1 (hle _ _ hxy),
        fun hxy => (hdep y).2 (hle _ _ hxy)⟩⟩
  | remind a c ha hp =>
      refine ⟨h.fits, h.leased_known, ?_, h.dep_known, h.parent_known, h.dep_acyclic,
        h.parent_acyclic, ?_⟩
      · rintro x (rfl | hx)
        · rw [ha]
          rfl
        · exact h.reminded_known x hx
      · intro x cx hcx hs
        obtain ⟨hr, hdep⟩ := h.proposal_idle x cx hcx hs
        refine ⟨?_, hdep⟩
        rintro (rfl | hx)
        · rw [ha] at hcx
          cases hcx
          exact hp hs
        · exact hr hx
  | unremind reminded' hle =>
      refine ⟨h.fits, h.leased_known, fun x hx => h.reminded_known x (hle hx), h.dep_known,
        h.parent_known, h.dep_acyclic, h.parent_acyclic, ?_⟩
      intro x cx hcx hs
      obtain ⟨hr, hdep⟩ := h.proposal_idle x cx hcx hs
      exact ⟨fun hx => hr (hle hx), hdep⟩

/-! ## Statuses over a move and over a call -/

theorem Tame.put_new {a : ι} (ha : b.card a = none) :
    Tame b (b.put a c l) := by
  intro x cx hx
  have hne : x ≠ a := by
    rintro rfl
    rw [ha] at hx
    cases hx
  rw [put_card_of_ne _ _ _ hne]
  exact ⟨cx, hx, Iff.rfl⟩

theorem Tame.put_old {a : ι} {c₀ c : Card ι} (ha : b.card a = some c₀)
    (hs : c₀.status.Tame c.status) : Tame b (b.put a c l) := by
  intro x cx hx
  by_cases hxa : x = a
  · subst hxa
    rw [ha] at hx
    cases hx
    exact ⟨c, put_card_self .., hs⟩
  · rw [put_card_of_ne _ _ _ hxa]
    exact ⟨cx, hx, Iff.rfl⟩

theorem Step.lawful (hs : Step b b') : Lawful b b' := by
  cases hs with
  | add a c hnew _ _ => exact (Tame.put_new hnew).lawful
  | edit a c₀ c l hold _ hstatus _ =>
      intro x cx hx
      by_cases hxa : x = a
      · subst hxa
        rw [hold] at hx
        cases hx
        exact ⟨c, put_card_self .., hstatus⟩
      · rw [put_card_of_ne _ _ _ hxa]
        exact ⟨cx, hx, MindStatus.Tame.mayBecome Iff.rfl⟩
  | link => exact (Tame.of_card rfl).lawful
  | unlink => exact (Tame.of_card rfl).lawful
  | remind => exact (Tame.of_card rfl).lawful
  | unremind => exact (Tame.of_card rfl).lawful

theorem Call.refl (b : Board ι) : Call b b := Or.inr ReflTransGen.refl

/-- **A call keeps the rules.** -/
theorem Call.valid (hc : Call b b') (h : b.Valid) : b'.Valid := by
  rcases hc with hs | hs
  · exact hs.valid h
  · induction hs with
    | refl => exact h
    | tail _ hstep ih => exact hstep.1.valid ih

/-- **A call changes statuses only as the rules allow.** -/
theorem Call.lawful (hc : Call b b') : Lawful b b' := by
  rcases hc with hs | hs
  · exact hs.lawful
  · have htame : Tame b b' := by
      induction hs with
      | refl => exact Tame.of_card rfl
      | tail _ hstep ih => exact ih.trans hstep.2
    exact htame.lawful

end Preservation

end Board

end Elpis.Mind
