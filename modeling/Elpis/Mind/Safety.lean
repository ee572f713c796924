import Elpis.Mind.Refinement
import Elpis.Lib.Run

/-!
# The Mind store: what holds in every reachable state

A run is any list of calls, in any order, with any arguments and clock readings,
from the empty store. The board's rules hold along all of it. Read back on the
tables they say: no circle of dependencies or parents, claims only on work in
progress, `closed_at` in step with the status, and proposals that are not work.
-/

namespace Elpis.Mind

open Elpis.Lib

variable (u : Js.Unicode)

/-- The store after the calls, from an empty one. -/
def MindDb.reached (calls : List MindCall) : MindDb := run (MindDb.after u) MindDb.empty calls

theorem after_valid (db : MindDb) (call : MindCall) (hv : db.board.Valid) :
    (db.after u call).board.Valid :=
  (after_call u call hv).valid hv

theorem reached_valid (calls : List MindCall) : (MindDb.reached u calls).board.Valid := by
  refine run_inv (I := fun db : MindDb => db.board.Valid) (after_valid u) calls ?_
  rw [board_empty]
  exact Board.valid_blank

/-! ## No circles -/

/-- **Dependencies and parents never form a circle**, and no item depends on
itself or is its own parent. -/
theorem reached_acyclic (calls : List MindCall) :
    (Acyclic (MindDb.reached u calls).DependsOn ∧
      ∀ a, ¬ (MindDb.reached u calls).DependsOn a a) ∧
    Acyclic (MindDb.reached u calls).ParentOf ∧
      ∀ a, ¬ (MindDb.reached u calls).ParentOf a a := by
  have hv := reached_valid u calls
  have hparent : Acyclic (MindDb.reached u calls).ParentOf :=
    hv.parent_acyclic.mono (fun _ _ => parentOf_board.mpr)
  exact ⟨⟨hv.dep_acyclic, hv.dep_acyclic.irrefl⟩, hparent, hparent.irrefl⟩

/-! ## Claims and closing -/

/-- **A claim is on a task in progress that is not archived, and an item has a
`closed_at` exactly when it is done or cancelled.** -/
theorem reached_claims_and_closing (calls : List MindCall) :
    (∀ claim ∈ (MindDb.reached u calls).claims,
      ∃ row, (MindDb.reached u calls).items.get? claim.itemId = some row ∧
        row.kind = .task ∧ row.status = .inProgress ∧ row.archivedAt = none) ∧
    ∀ row ∈ (MindDb.reached u calls).items,
      row.closedAt ≠ none ↔ row.status = .done ∨ row.status = .cancelled := by
  have hv := reached_valid u calls
  refine ⟨?_, ?_⟩
  · intro claim hclaim
    have hleased : claim.itemId ∈ (MindDb.reached u calls).board.leased := by
      show ((MindDb.reached u calls).claims.get? claim.itemId).isSome = true
      rw [Table.get?_key hclaim]
      rfl
    obtain ⟨c, hc⟩ := Option.isSome_iff_exists.mp (hv.leased_known _ hleased)
    obtain ⟨row, hrow, rfl⟩ := Option.map_eq_some_iff.mp hc
    obtain ⟨htask, hstatus, harch⟩ := (hv.fits _ _ hc).leased hleased
    refine ⟨row, hrow, of_decide_eq_true htask, hstatus, ?_⟩
    exact Option.isNone_iff_eq_none.mp (Option.isSome_eq_false_iff.mp harch)
  · intro row hrow
    have hclosed : row.closedAt.isSome = row.status.closed :=
      (hv.fits _ _ (card_of_get? (Table.get?_key hrow))).closed
    rw [← Option.isSome_iff_ne_none, hclosed]
    cases row.status <;> simp [MindStatus.closed]

/-! ## Proposals -/

/-- An item that is not a proposal stays on the board and stays no proposal. -/
theorem stays_no_proposal {db : MindDb} (hv : db.board.Valid) (later : List MindCall)
    {id : MindId} {row : MindRow} (hrow : db.items.get? id = some row)
    (hs : row.status ≠ .proposal) :
    ∃ row', (run (MindDb.after u) db later).items.get? id = some row' ∧
      row'.status ≠ .proposal := by
  -- the invariant: the rules hold, and the item is there and is no proposal
  have hstep : ∀ (s : MindDb) (call : MindCall),
      (s.board.Valid ∧ ∃ r, s.items.get? id = some r ∧ r.status ≠ .proposal) →
      (s.after u call).board.Valid ∧
        ∃ r, (s.after u call).items.get? id = some r ∧ r.status ≠ .proposal := by
    rintro s call ⟨hvs, r, hr, hrs⟩
    refine ⟨after_valid u s call hvs, ?_⟩
    obtain ⟨c', hc', hmay⟩ := (after_call u call hvs).lawful id r.card (card_of_get? hr)
    obtain ⟨r', hr', rfl⟩ := Option.map_eq_some_iff.mp hc'
    refine ⟨r', hr', ?_⟩
    have hmay : r.status.MayBecome r'.status := hmay
    rw [MindStatus.MayBecome, if_neg hrs] at hmay
    exact hmay
  exact (run_inv hstep later ⟨hv, row, hrow, hs⟩).2

/-- **Proposals are not work.** In every reachable state a proposal has no due
date, no claim, no pending reminder and no edge either way; an item that is no
proposal never is one again; and a call takes a proposal only to inbox, open or
cancelled. -/
theorem reached_proposals (calls : List MindCall) :
    (∀ row ∈ (MindDb.reached u calls).items, row.status = .proposal →
      row.dueAt = none ∧ (MindDb.reached u calls).claims.get? row.id = none ∧
      (∀ r ∈ (MindDb.reached u calls).reminders, r.itemId = row.id → r.pending = false) ∧
      ∀ d ∈ (MindDb.reached u calls).dependencies,
        d.itemId ≠ row.id ∧ d.dependsOnId ≠ row.id) ∧
    (∀ id row later, (MindDb.reached u calls).items.get? id = some row →
      row.status ≠ .proposal →
      ∃ row', (MindDb.reached u (calls ++ later)).items.get? id = some row' ∧
        row'.status ≠ .proposal) ∧
    ∀ id row call, (MindDb.reached u calls).items.get? id = some row →
      row.status = .proposal →
      ∃ row', (MindDb.reached u (calls ++ [call])).items.get? id = some row' ∧
        (row'.status ≠ .proposal →
          row'.status = .inbox ∨ row'.status = .open ∨ row'.status = .cancelled) := by
  have hv := reached_valid u calls
  refine ⟨?_, ?_, ?_⟩
  · intro row hrow hs
    have hcard := card_of_get? (Table.get?_key hrow)
    have hfits := hv.fits _ _ hcard
    obtain ⟨hreminded, hdep⟩ := hv.proposal_idle _ _ hcard hs
    refine ⟨?_, ?_, ?_, ?_⟩
    · exact Option.isNone_iff_eq_none.mp (Option.isSome_eq_false_iff.mp (hfits.due hs))
    · by_contra hclaim
      have hstatus := (hfits.leased (Option.isSome_iff_ne_none.mpr hclaim)).2.1
      have hs' : row.card.status = .proposal := hs
      rw [hs'] at hstatus
      cases hstatus
    · intro r hr hid
      by_contra hp
      exact hreminded ⟨r, hr, hid, Bool.not_eq_false _ ▸ hp⟩
    · intro d hd
      refine ⟨?_, ?_⟩
      · intro hid
        exact (hdep d.dependsOnId).1 ⟨d, hd, hid, rfl⟩
      · intro hid
        exact (hdep d.itemId).2 ⟨d, hd, rfl, hid⟩
  · intro id row later hrow hs
    have happ : MindDb.reached u (calls ++ later) =
        run (MindDb.after u) (MindDb.reached u calls) later := run_append ..
    rw [happ]
    exact stays_no_proposal u hv later hrow hs
  · intro id row call hrow hs
    have happ : MindDb.reached u (calls ++ [call]) = (MindDb.reached u calls).after u call :=
      run_append ..
    obtain ⟨c', hc', hmay⟩ := (after_call u call hv).lawful id row.card (card_of_get? hrow)
    obtain ⟨row', hrow', rfl⟩ := Option.map_eq_some_iff.mp hc'
    rw [happ]
    refine ⟨row', hrow', ?_⟩
    intro hne
    have hmay : row.status.MayBecome row'.status := hmay
    rw [MindStatus.MayBecome, if_pos hs] at hmay
    simpa [hne] using hmay

end Elpis.Mind
