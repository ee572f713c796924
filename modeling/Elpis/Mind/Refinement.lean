import Elpis.Mind.Specs
import Elpis.Mind.Board
import Elpis.Mind.Rollback

/-!
# The store plays the board's game

`MindDb.board` forgets what the rules do not look at. Every successful call is
then one move of the board, or several moves that leave proposals alone, and a
failed call leaves the database as it was.
-/

namespace Elpis.Mind

open Elpis.Lib Relation

/-- What the rules look at on an item. -/
def MindRow.card (r : MindRow) : Card MindId where
  task := decide (r.kind = .task)
  status := r.status
  parent := r.parentId
  due := r.dueAt.isSome
  closed := r.closedAt.isSome
  archived := r.archivedAt.isSome

def MindDb.board (db : MindDb) : Board MindId where
  card a := (db.items.get? a).map MindRow.card
  leased := { a | (db.claims.get? a).isSome = true }
  dep := db.DependsOn
  reminded := { a | ∃ r ∈ db.reminders, r.itemId = a ∧ r.pending = true }

variable {db db' : MindDb} {id : MindId} {v : Unit} {clock : Readings} {now : Time} {actor : String}
  {row : MindRow} {d : Option MindDetail} {ttl : ℤ} {changed : ChangedFields} {u : Js.Unicode} {n : ℕ}

theorem board_empty : MindDb.empty.board = Board.blank := by
  refine Board.ext rfl ?_ ?_ ?_
  · ext a
    simp [MindDb.board, MindDb.empty, Board.blank]
  · funext x y
    simp [MindDb.board, MindDb.DependsOn, MindDb.empty, Board.blank]
  · ext a
    simp only [MindDb.board, Board.blank, Set.mem_ofPred_eq, Set.mem_empty_iff_false, iff_false]
    rintro ⟨r, hr, _⟩
    exact Table.not_mem_empty hr

theorem card_of_get? (h : db.items.get? id = some row) :
    db.board.card id = some row.card := by
  show (db.items.get? id).map MindRow.card = _
  rw [h]
  rfl

theorem isSome_card : (db.board.card id).isSome = db.exists id := by
  show ((db.items.get? id).map MindRow.card).isSome = (db.items.get? id).isSome
  rw [Option.isSome_map]

theorem parentOf_board {a p : MindId} : db.board.parentOf a p ↔ db.ParentOf a p := by
  constructor
  · rintro ⟨c, hc, hp⟩
    obtain ⟨row, hrow, rfl⟩ := Option.map_eq_some_iff.mp hc
    exact ⟨row, Table.mem_of_get? hrow, Table.key_of_get? hrow, hp⟩
  · rintro ⟨row, hrow, rfl, hp⟩
    exact ⟨row.card, card_of_get? (Table.get?_key hrow), hp⟩

/-! ## Writes the board does not see -/

theorem board_touch (db : MindDb) (id : MindId) (now : Time) :
    (db.touch id now).board = db.board := by
  refine Board.ext ?_ rfl rfl rfl
  funext a
  show ((db.items.update _ (fun r => { r with updatedAt := now }) (fun _ => rfl)).get? a).map
    MindRow.card = (db.items.get? a).map MindRow.card
  rw [Table.get?_update, Option.map_map]
  congr 1
  funext r
  show MindRow.card (if _ then _ else _) = r.card
  split
  · rfl
  · rfl

theorem board_commented (db : MindDb) (id : MindId) (body author : String) (now : Time)
    (replyToId : Option ℕ) : (db.commented id body author now replyToId).board = db.board :=
  board_touch (db.addComment id author (Js.trim body) replyToId now) id now

/-! ## The board after a call on one item -/

variable {c : Option ClaimRow}

/-- A call on one item puts one card. -/
theorem Rewrites.board {row row' : MindRow}
    (h : Rewrites id db db' row row' c) :
    db'.board = db.board.put id row'.card (c.isSome = true) := by
  refine Board.ext ?_ ?_ ?_ ?_
  · funext a
    by_cases ha : a = id
    · subst ha
      rw [card_of_get? h.after, Board.put_card_self]
    · rw [Board.put_card_of_ne _ _ _ ha]
      show (db'.items.get? a).map _ = (db.items.get? a).map _
      rw [h.frame.items a ha]
  · ext a
    by_cases ha : a = id
    · subst ha
      rw [Board.mem_put_leased_self, ← h.claim]
      rfl
    · rw [Board.mem_put_leased_of_ne ha]
      show (db'.claims.get? a).isSome = true ↔ (db.claims.get? a).isSome = true
      rw [h.frame.claims a ha]
  · show db'.DependsOn = db.DependsOn
    unfold MindDb.DependsOn
    rw [h.frame.dependencies]
  · show { a | ∃ r ∈ db'.reminders, _ } = { a | ∃ r ∈ db.reminders, _ }
    rw [h.frame.reminders]

theorem Rewrites.board_eq {row row' : MindRow}
    (h : Rewrites id db db' row row' c) (hcard : row'.card = row.card)
    (hclaim : c.isSome = (db.claims.get? id).isSome) : db'.board = db.board := by
  rw [h.board]
  refine Board.ext ?_ ?_ rfl rfl
  · funext a
    by_cases ha : a = id
    · subst ha
      rw [Board.put_card_self, hcard, card_of_get? h.before]
    · rw [Board.put_card_of_ne _ _ _ ha]
  · ext a
    by_cases ha : a = id
    · subst ha
      rw [Board.mem_put_leased_self, hclaim]
      rfl
    · rw [Board.mem_put_leased_of_ne ha]

/-- A call on one item that keeps its parent is one move, if the new card fits
and the status may follow. -/
theorem Rewrites.step {row row' : MindRow}
    (h : Rewrites id db db' row row' c) (hfits : row'.card.Fits (c.isSome = true))
    (hstatus : row.status.MayBecome row'.status) (hparent : row'.parentId = row.parentId) :
    Board.Step db.board db'.board := by
  rw [h.board]
  refine Board.Step.edit id row.card row'.card _ (card_of_get? h.before) hfits hstatus ?_
  intro p hp
  refine Or.inl ?_
  show row.parentId = some p
  rw [← hparent]
  exact hp

/-- What the board's rules say about the row a call found. -/
theorem Rewrites.fits {row row' : MindRow}
    (h : Rewrites id db db' row row' c) (hv : db.board.Valid) :
    row.card.Fits ((db.claims.get? id).isSome = true) :=
  hv.fits id row.card (card_of_get? h.before)

theorem mayBecome_of_ne {s s' : MindStatus} (h : s ≠ .proposal) (h' : s' ≠ .proposal) :
    s.MayBecome s' := by
  unfold MindStatus.MayBecome
  rw [if_neg h]
  exact h'

/-! ## Claims -/

/-- Taking up a task is a move: it is leased and in progress, and no longer closed. -/
theorem Rewrites.start {opts : MindClaimOptions}
    (hex : db.executable id row) (hs : row.status ≠ .proposal)
    (h : Rewrites id db db' row
      { row with status := .inProgress, closedAt := none, updatedAt := now }
      (some (freshClaim id opts ttl now))) :
    Board.Step db.board db'.board := by
  refine h.step ⟨rfl, ?_, ?_⟩ (mayBecome_of_ne hs ?_) rfl
  · intro hp
    cases hp
  · intro _
    refine ⟨decide_eq_true hex.2.2, rfl, ?_⟩
    show row.archivedAt.isSome = false
    rw [hex.2.1]
    rfl
  · intro hp
    cases hp

theorem claimBody_call {opts : MindClaimOptions}
    (h : claimBody id opts ttl now db = (.ok v, db')) :
    Board.Call db.board db'.board := by
  obtain ⟨row, ⟨hex, hs, _⟩, ⟨held, hheld, _, _, hr⟩ | ⟨_, hr⟩⟩ := claimBody_ok h
  · rw [hr.board_eq rfl (by rw [hheld]; rfl)]
    exact Board.Call.refl _
  · refine Or.inl (hr.start hex ?_)
    rcases hs with hs | hs
    · rw [hs]
      exact fun hp => by cases hp
    · rw [hs]
      exact fun hp => by cases hp

theorem resumeClaimBody_call {opts : MindClaimOptions}
    (h : resumeClaimBody id opts ttl now db = (.ok v, db')) :
    Board.Call db.board db'.board := by
  obtain ⟨row, hex, hs, _, _, hr⟩ := resumeClaimBody_ok h
  refine Or.inl (hr.start hex ?_)
  rw [hs]
  exact fun hp => by cases hp

theorem renewClaimBody_call {principal : String}
    (h : renewClaimBody id principal ttl now db = (.ok v, db')) :
    Board.Call db.board db'.board := by
  obtain ⟨row, held, _, hheld, hr⟩ := renewClaimBody_ok h
  rw [hr.board_eq rfl (by rw [hheld.1]; rfl)]
  exact Board.Call.refl _

theorem logClaimBody_call {principal owner body : String} {kind : MindLogKind} (h : logClaimBody id principal owner kind body ttl now db = (.ok v, db')) :
    Board.Call db.board db'.board := by
  obtain ⟨row, held, _, hheld, hr⟩ := logClaimBody_ok h
  rw [hr.board_eq rfl (by rw [hheld.1]; rfl)]
  exact Board.Call.refl _

/-- Giving a claim up is a move when the claimed item was work in progress. -/
theorem Rewrites.giveUp {row row' : MindRow} {held : ClaimRow} (hv : db.board.Valid)
    (hheld : db.claims.get? id = some held) (h : Rewrites id db db' row row' none)
    (hclosed : row'.closedAt.isSome = row'.status.closed) (hs : row'.status ≠ .proposal)
    (hparent : row'.parentId = row.parentId) : Board.Step db.board db'.board := by
  have hold : row.status = .inProgress := ((h.fits hv).leased (by rw [hheld]; rfl)).2.1
  refine h.step ⟨hclosed, fun hp => absurd hp hs, fun hl => by cases hl⟩ ?_ hparent
  refine mayBecome_of_ne ?_ hs
  rw [hold]
  exact fun hp => by cases hp

theorem releaseClaimBody_call {principal note : String} {status : ReleaseStatus}
    (hv : db.board.Valid)
    (h : releaseClaimBody id principal status note now db = (.ok v, db')) :
    Board.Call db.board db'.board := by
  obtain ⟨row, held, _, hheld, _, hr⟩ := releaseClaimBody_ok h
  refine Or.inl (hr.giveUp hv hheld ?_ ?_ rfl)
  · cases status with
    | «open» => rfl
    | waiting => rfl
  · cases status with
    | «open» => exact fun hp => by cases hp
    | waiting => exact fun hp => by cases hp

theorem finishClaimBody_call {principal owner body : String}
    (hv : db.board.Valid)
    (h : finishClaimBody id principal owner body now db = (.ok v, db')) :
    Board.Call db.board db'.board := by
  obtain ⟨row, held, _, hheld, _, hr⟩ := finishClaimBody_ok h
  exact Or.inl (hr.giveUp hv hheld.1 rfl (fun hp => by cases hp) rfl)

/-- One expired claim: a move that leaves proposals alone. -/
theorem expireOne_step {claim : ClaimRow} (hv : db.board.Valid)
    (hrow : db.items.get? claim.itemId = some row)
    (h : expireOne now claim db = (.ok v, db')) :
    Board.Step db.board db'.board ∧ Board.Tame db.board db'.board := by
  have hr := expireOne_ok hrow h
  have hfits := hr.fits hv
  have htame : row.status.Tame
      (if row.status = .inProgress then .open else row.status) := by
    unfold MindStatus.Tame
    by_cases hs : row.status = .inProgress
    · rw [if_pos hs, hs]
      decide
    · rw [if_neg hs]
  refine ⟨hr.step ⟨?_, ?_, fun hl => by cases hl⟩ htame.mayBecome rfl, ?_⟩
  · have hclosed : row.closedAt.isSome = row.status.closed := hfits.closed
    show row.closedAt.isSome =
      MindStatus.closed (if row.status = .inProgress then .open else row.status)
    rw [hclosed]
    by_cases hs : row.status = .inProgress
    · rw [if_pos hs, hs]
      rfl
    · rw [if_neg hs]
  · intro hp
    exact hfits.due (htame.mpr hp)
  · rw [hr.board]
    exact Board.Tame.put_old (card_of_get? hrow) htame

theorem expireClaims_call {ids : List MindId} (hv : db.board.Valid)
    (h : expireClaims now db = (.ok ids, db')) : Board.Call db.board db'.board := by
  have hloop := expireClaims_ok h
  -- the loop keeps the rules and leaves proposals alone, so every claimed item is still there
  have hinv := Tx.forEach_inv (I := fun s : MindDb => s.board.Valid ∧
    ReflTransGen (fun b b' => Board.Step b b' ∧ Board.Tame b b') db.board s.board ∧
    Board.Tame db.board s.board) ?_ ⟨hv, ReflTransGen.refl, Board.Tame.of_card rfl⟩ hloop
  · exact Or.inr hinv.2.1
  · rintro claim hclaim s s' _ ⟨hvs, hsteps, htame⟩ hone
    have hmem := (mem_expiredClaims.mp hclaim).1
    have hleased : claim.itemId ∈ db.board.leased := by
      show (db.claims.get? claim.itemId).isSome = true
      rw [Table.get?_key hmem]
      rfl
    obtain ⟨c, hc⟩ := Option.isSome_iff_exists.mp (hv.leased_known _ hleased)
    obtain ⟨c', hc', _⟩ := htame _ c hc
    obtain ⟨row, hrow, _⟩ := Option.map_eq_some_iff.mp hc'
    have hstep := expireOne_step hvs hrow hone
    exact ⟨hstep.1.valid hvs, hsteps.tail hstep, htame.trans hstep.2⟩

/-! ## Updating, archiving, restoring -/

theorem mayBecome_of_transitionGuard {old new : MindRow}
    (h : transitionGuard old new = false) : old.status.MayBecome new.status := by
  unfold transitionGuard at h
  unfold MindStatus.MayBecome
  rw [Bool.or_eq_false_iff, Bool.and_eq_false_imp, Bool.and_eq_false_imp, decide_eq_true_eq,
    decide_eq_false_iff_not, not_not, decide_eq_true_eq, decide_eq_false_iff_not] at h
  split
  · next hp => exact h.1 hp
  · next hp => exact h.2 hp

/-- What a patched row has for a status, and whether it is closed, agree if they
did before. -/
theorem patched_closed
    (h : row.closedAt.isSome = row.status.closed) :
    (row.patched changed clock).closedAt.isSome = (row.patched changed clock).status.closed := by
  unfold MindRow.patched
  cases changed.status with
  | none => exact h
  | some s => cases s <;> rfl

/-- A claim that survives a patch is on a task that is still in progress. -/
theorem patched_leased
    (hends : changed.endsClaim = false) (hkind : row.kind = .task)
    (hstatus : row.status = .inProgress) :
    (row.patched changed clock).kind = .task ∧
      (row.patched changed clock).status = .inProgress := by
  unfold ChangedFields.endsClaim at hends
  rw [Bool.or_eq_false_iff] at hends
  obtain ⟨hs, hk⟩ := hends
  refine ⟨?_, ?_⟩
  · show changed.kind.getD row.kind = .task
    cases hc : changed.kind with
    | none => exact hkind
    | some k =>
        rw [hc] at hk
        simpa using hk
  · show changed.status.getD row.status = .inProgress
    cases hc : changed.status with
    | none => exact hstatus
    | some s =>
        rw [hc] at hs
        simpa using hs

theorem patched_due {columns : SetColumns} (hcols : columns.status = changed.status.isSome ∧
      columns.dueAt = changed.dueAt.isSome)
    (hacc : changed.setsColumn = true → db.accepts columns row (row.patched changed clock))
    (h : row.status = .proposal → row.dueAt.isSome = false)
    (hp : (row.patched changed clock).status = .proposal) :
    (row.patched changed clock).dueAt.isSome = false := by
  by_cases hset : changed.status.isSome = true ∨ changed.dueAt.isSome = true
  · have hcol : changed.setsColumn = true := by
      unfold ChangedFields.setsColumn
      rcases hset with hset | hset
      · simp [hset]
      · simp [hset]
    have hguard := (hacc hcol).2.1 (by rw [hcols.1, hcols.2]; exact hset)
    unfold dueGuard at hguard
    simpa [hp] using hguard
  · rw [not_or, Bool.not_eq_true, Bool.not_eq_true, Option.isSome_eq_false_iff,
      Option.isSome_eq_false_iff, Option.isNone_iff_eq_none, Option.isNone_iff_eq_none] at hset
    unfold MindRow.patched at hp ⊢
    rw [hset.1] at hp
    rw [hset.2]
    exact h hp

theorem patched_status {columns : SetColumns} (hcols : columns.status = changed.status.isSome)
    (hacc : changed.setsColumn = true → db.accepts columns row (row.patched changed clock)) :
    row.status.MayBecome (row.patched changed clock).status := by
  cases hs : changed.status with
  | none =>
      have heq : (row.patched changed clock).status = row.status := by
        unfold MindRow.patched
        rw [hs]
        rfl
      rw [heq]
      exact MindStatus.Tame.mayBecome Iff.rfl
  | some s =>
      have hcol : changed.setsColumn = true := by
        unfold ChangedFields.setsColumn
        simp [hs]
      exact mayBecome_of_transitionGuard ((hacc hcol).1 (by rw [hcols, hs]; rfl))

theorem updateBody_step {before : ItemSnapshot} (hv : db.board.Valid)
    (hrow : db.items.get? id = some row) (hcheck : Checked db id row.status changed)
    (h : updateBody id actor before changed clock db = (.ok v, db')) :
    Board.Step db.board db'.board := by
  obtain ⟨hacc, t, hr⟩ := updateBody_ok hrow h
  have hfits := hr.fits hv
  rw [hr.board]
  refine Board.Step.edit id row.card _ _ (card_of_get? hrow) ⟨?_, ?_, ?_⟩ ?_ ?_
  · exact patched_closed hfits.closed
  · exact patched_due ⟨rfl, rfl⟩ hacc hfits.due
  · intro hl
    cases hends : changed.endsClaim with
    | true =>
        rw [hends] at hl
        cases hl
    | false =>
        rw [hends] at hl
        obtain ⟨htask, hstatus, harch⟩ := hfits.leased hl
        have hkept : (row.patched changed clock).kind = .task ∧
            (row.patched changed clock).status = .inProgress :=
          patched_leased hends (of_decide_eq_true htask) hstatus
        exact ⟨decide_eq_true hkept.1, hkept.2, harch⟩
  · exact patched_status rfl hacc
  · intro p hp
    have hp : changed.parentId.getD row.parentId = some p := hp
    cases hc : changed.parentId with
    | none =>
        rw [hc] at hp
        exact Or.inl hp
    | some q =>
        rw [hc] at hp
        have hq : q = some p := hp
        rw [hq] at hc
        obtain ⟨hne, hex, hcycle⟩ := hcheck.parentId p hc
        refine Or.inr ⟨hne, ?_, ?_⟩
        · rw [isSome_card]
          exact hex
        · intro hpath
          have hpath' : TransGen db.ParentOf p id :=
            hpath.lift (fun x => x) (fun _ _ => parentOf_board.mp)
          rw [MindDb.parentCycle_iff.mpr hpath'] at hcycle
          cases hcycle

theorem update_call {patch : UpdateMindItem} (hv : db.board.Valid)
    (h : update u id patch actor clock db = (.ok d, db')) :
    Board.Call db.board db'.board := by
  simp only [update, Tx.bind_ok, requireId_ok, requireItem_ok, Tx.read_ok,
    Tx.transaction_ok] at h
  obtain ⟨_, _, ⟨_, rfl⟩, row, _, ⟨hrow, rfl⟩, _, _, ⟨rfl, rfl⟩, changed, db₁, hcheck, _, _, hbody,
    _, rfl⟩ := h
  obtain ⟨rfl, hchecked⟩ := checkPatch_ok hcheck
  exact Or.inl (updateBody_step hv hrow hchecked hbody)

theorem archive_call
    (hv : db.board.Valid) (h : archive id actor clock db = (.ok d, db')) :
    Board.Call db.board db'.board := by
  simp only [archive, Tx.bind_ok, requireId_ok, Tx.transaction_ok, updateItem_ok, event_ok,
    Tx.read_ok] at h
  obtain ⟨_, _, ⟨⟨_, hex⟩, rfl⟩, _, _, ⟨_, _, ⟨_, rfl⟩, _, _, hrevoke, rfl⟩, _, rfl⟩ := h
  obtain ⟨row, hrow⟩ := Option.isSome_iff_exists.mp hex
  have hr := (revokeClaim_ok ((Rewrites.refl hrow).setItem _ _) hrevoke).addEvent actor
    .itemArchived clock.now
  have hfits := hr.fits hv
  exact Or.inl (hr.step ⟨hfits.closed, hfits.due, fun hl => by cases hl⟩
    (MindStatus.Tame.mayBecome Iff.rfl) rfl)

theorem restore_call
    (hv : db.board.Valid) (h : restore id actor clock db = (.ok d, db')) :
    Board.Call db.board db'.board := by
  simp only [restore, Tx.bind_ok, requireId_ok, updateItem_ok, event_ok, Tx.read_ok] at h
  obtain ⟨_, _, ⟨⟨_, hex⟩, rfl⟩, _, _, ⟨_, rfl⟩, _, _, rfl, _, rfl⟩ := h
  obtain ⟨row, hrow⟩ := Option.isSome_iff_exists.mp hex
  have hr := ((Rewrites.refl hrow).setItem
    (fun r => { r with archivedAt := none, updatedAt := clock.now }) (fun _ => rfl)).addEvent
    actor .itemRestored clock.now
  have hfits := hr.fits hv
  refine Or.inl (hr.step ⟨hfits.closed, hfits.due, ?_⟩ (MindStatus.Tame.mayBecome Iff.rfl) rfl)
  intro hl
  obtain ⟨htask, hstatus, _⟩ := hfits.leased hl
  exact ⟨htask, hstatus, rfl⟩

/-! ## Dependencies -/

theorem card_of_linkable {a : MindId} (hex : db.exists a = true)
    (hp : db.isProposal a = false) :
    ∃ c, db.board.card a = some c ∧ c.status ≠ .proposal := by
  obtain ⟨row, hrow⟩ := Option.isSome_iff_exists.mp hex
  refine ⟨row.card, card_of_get? hrow, ?_⟩
  show row.status ≠ .proposal
  unfold MindDb.isProposal at hp
  rw [hrow] at hp
  simpa using hp

/-- A new edge is a move: the query that ran before it found no way back. -/
theorem addDependencyInternal_step {dependsOnId : MindId}
    (h : addDependencyInternal actor now id dependsOnId db = (.ok v, db')) :
    db'.board = db.board ∨
      (Board.Step db.board db'.board ∧ Board.Tame db.board db'.board) := by
  obtain ⟨⟨⟨hp, hp'⟩, hex, hex'⟩, hne, hcycle, rfl | ⟨fresh, rfl⟩⟩ := addDependencyInternal_ok h
  · exact Or.inl rfl
  · refine Or.inr ⟨?_, Board.Tame.of_card rfl⟩
    obtain ⟨ca, hca, hpa⟩ := card_of_linkable hex hp
    obtain ⟨cd, hcd, hpd⟩ := card_of_linkable hex' hp'
    have hback : ¬ TransGen db.board.dep dependsOnId id := by
      intro hpath
      have hfound := MindDb.dependencyCycle_iff.mpr hpath
      rw [hcycle] at hfound
      cases hfound
    have hboard := Board.Step.link id dependsOnId ca cd hca hcd hpa hpd hne hback
    have hdep : ∀ x y, (∃ d ∈ db.dependencies.insert ⟨id, dependsOnId, actor, now⟩ fresh,
        d.itemId = x ∧ d.dependsOnId = y) ↔
        (db.DependsOn x y ∨ (x = id ∧ y = dependsOnId)) := by
      intro x y
      constructor
      · rintro ⟨d, hd, rfl, rfl⟩
        rcases Table.mem_insert.mp hd with hd | rfl
        · exact Or.inl ⟨d, hd, rfl, rfl⟩
        · exact Or.inr ⟨rfl, rfl⟩
      · rintro (⟨d, hd, rfl, rfl⟩ | ⟨rfl, rfl⟩)
        · exact ⟨d, Table.mem_insert.mpr (Or.inl hd), rfl, rfl⟩
        · exact ⟨_, Table.mem_insert.mpr (Or.inr rfl), rfl, rfl⟩
    convert hboard using 1
    refine Board.ext rfl rfl ?_ rfl
    funext x y
    exact propext (hdep x y)

theorem addDependency_call {dependsOnId : MindId} (h : addDependency id dependsOnId actor clock db = (.ok d, db')) :
    Board.Call db.board db'.board := by
  simp only [addDependency, Tx.bind_ok, requireId_ok, Tx.transaction_ok, Tx.write_ok,
    Tx.read_ok] at h
  obtain ⟨_, _, ⟨_, rfl⟩, _, _, ⟨_, rfl⟩, _, _, ⟨_, _, hadd, rfl⟩, _, rfl⟩ := h
  rw [board_touch]
  rcases addDependencyInternal_step hadd with heq | ⟨hstep, _⟩
  · rw [heq]
    exact Board.Call.refl _
  · exact Or.inl hstep

theorem removeDependency_call {dependsOnId : MindId}
    (h : removeDependency id dependsOnId actor clock db = (.ok d, db')) :
    Board.Call db.board db'.board := by
  simp only [removeDependency, Tx.bind_ok, requireId_ok, Tx.read_ok, Tx.write_ok, Tx.when_ok,
    event_ok] at h
  obtain ⟨_, _, ⟨_, rfl⟩, _, _, ⟨rfl, rfl⟩, _, _, rfl, _, _, h, _, rfl⟩ := h
  have hstep : Board.Step db.board (db.dropDependency id dependsOnId).board := by
    refine Board.Step.unlink (db.dropDependency id dependsOnId).DependsOn ?_
    rintro x y ⟨r, hr, hx, hy⟩
    exact ⟨r, (Table.mem_delete.mp hr).1, hx, hy⟩
  rcases h with ⟨_, _, _, rfl, rfl⟩ | ⟨_, rfl⟩
  · refine Or.inl ?_
    show Board.Step db.board ((db.dropDependency id dependsOnId).touch id clock.now).board
    rw [board_touch]
    exact hstep
  · exact Or.inl hstep

/-! ## New items -/

theorem board_insertItem {fresh : ∀ x ∈ db.items, x.id ≠ row.id}
    {tags : Table TagRow.key} (hv : db.board.Valid) (hnew : db.exists row.id = false) :
    ({ db with items := db.items.insert row fresh, tags := tags } : MindDb).board =
      db.board.put row.id row.card False := by
  refine Board.ext ?_ ?_ rfl rfl
  · funext a
    show ((db.items.insert row fresh).get? a).map MindRow.card = _
    rw [Table.get?_insert]
    by_cases ha : a = row.id
    · subst ha
      rw [if_pos rfl, Board.put_card_self]
      rfl
    · rw [if_neg ha, Board.put_card_of_ne _ _ _ ha]
      rfl
  · ext a
    by_cases ha : a = row.id
    · subst ha
      rw [Board.mem_put_leased_self, iff_false]
      intro hl
      have hknown := hv.leased_known row.id hl
      rw [isSome_card, hnew] at hknown
      cases hknown
    · rw [Board.mem_put_leased_of_ne ha]
      rfl

/-- The new item is a card of its own; its edges are further moves. -/
theorem createBody_call {row : MindId → MindRow} {tags : List String}
    {dependsOn : List MindId} {draws : List ℕ} {data : MindEventData} {newId : MindId} (hid : ∀ a, (row a).id = a)
    (hclosed : ∀ a, (row a).closedAt.isSome = (row a).status.closed) (hv : db.board.Valid)
    (h : createBody row tags dependsOn actor draws data now db = (.ok newId, db')) :
    Board.Call db.board db'.board := by
  obtain ⟨hnew, hdue, hparent, fresh, ts, db₁, w, hloop, rfl⟩ := createBody_ok h
  have hnone : db.board.card newId = none := by
    rw [← Option.isSome_eq_false_iff.trans Option.isNone_iff_eq_none, isSome_card]
    exact hnew
  have hboard : ({ db with items := db.items.insert (row newId) fresh, tags := ts } : MindDb).board =
      db.board.put newId (row newId).card False := by
    have hnew' : db.exists (row newId).id = false := by
      rw [hid]
      exact hnew
    rw [board_insertItem hv hnew', hid]
  have hadd : Board.Step db.board (db.board.put newId (row newId).card False) := by
    refine Board.Step.add newId _ hnone ⟨hclosed newId, ?_, False.elim⟩ ?_
    · intro hp
      have hp : (row newId).status = .proposal := hp
      show (row newId).dueAt.isSome = false
      unfold dueGuard at hdue
      simpa [hp] using hdue
    · intro p hp
      have hp : (row newId).parentId = some p := hp
      rw [hp] at hparent
      rw [isSome_card]
      exact hparent
  have hfirst : ReflTransGen (fun b b' => Board.Step b b' ∧ Board.Tame b b') db.board
      (db.board.put newId (row newId).card False) :=
    ReflTransGen.single ⟨hadd, Board.Tame.put_new hnone⟩
  rw [← hboard] at hfirst
  refine Or.inr ?_
  show ReflTransGen (fun b b' => Board.Step b b' ∧ Board.Tame b b') db.board db₁.board
  refine Tx.forEach_inv (I := fun s : MindDb =>
    ReflTransGen (fun b b' => Board.Step b b' ∧ Board.Tame b b') db.board s.board) ?_ hfirst
    hloop
  intro dep _ s s' _ hsteps hdep
  rcases addDependencyInternal_step hdep with heq | hstep
  · rw [heq]
    exact hsteps
  · exact hsteps.tail hstep

theorem create_call {opts : CreateMindItem} {draws : List ℕ} (hv : db.board.Valid)
    (h : create u opts draws clock db = (.ok d, db')) : Board.Call db.board db'.board := by
  simp only [create, Tx.bind_ok, assertText_ok, Tx.ofExcept_ok, Tx.onSome_ok, requireId_ok,
    Tx.ensure_ok, Tx.transaction_ok, Tx.read_ok] at h
  obtain ⟨_, _, ⟨_, rfl⟩, kind, _, ⟨_, rfl⟩, status, _, ⟨_, rfl⟩, priority, _, ⟨_, rfl⟩, _, _,
    ⟨_, rfl⟩, dueAt, _, ⟨_, rfl⟩, _, db₁, hparent, _, db₂, hdeps, _, _, ⟨_, rfl⟩, _, _, ⟨_, rfl⟩, _,
    _, ⟨_, rfl⟩, tags, _, ⟨_, rfl⟩, newId, _, hbody, _, rfl⟩ := h
  obtain rfl : db = db₁ := by
    rcases hparent with ⟨_, _, hdb⟩ | ⟨_, _, _, _, _, hdb⟩
    · exact hdb
    · exact hdb
  obtain rfl : db = db₂ := by
    refine Tx.forEach_inv (I := fun s : MindDb => db = s) ?_ rfl hdeps
    rintro dep _ s s' _ rfl hdep
    exact (requireId_ok.mp hdep).2
  refine createBody_call (fun _ => rfl) ?_ hv hbody
  intro _
  show Option.isSome (if status.closed = true then some clock.now else none) = status.closed
  cases status.closed with
  | true => rfl
  | false => rfl

/-! ## Comments and tags -/

theorem addComment_board {body author : String}
    (h : addComment id body author clock db = (.ok n, db')) : db'.board = db.board := by
  simp only [addComment, Tx.bind_ok, requireId_ok, assertText_ok, addCommentInternal_ok] at h
  obtain ⟨_, _, ⟨_, rfl⟩, _, _, ⟨_, rfl⟩, _, rfl⟩ := h
  exact board_commented ..

theorem addReply_board {replyToId : ℕ} {body author : String}
    (h : addReply id replyToId body author clock db = (.ok n, db')) :
    db'.board = db.board := by
  simp only [addReply, requireComment, Tx.bind_ok, requireId_ok, assertText_ok, Tx.read_ok,
    Tx.require_ok, Tx.ensure_ok, addCommentInternal_ok] at h
  obtain ⟨_, _, ⟨_, rfl⟩, _, _, ⟨_, rfl⟩, _, _, ⟨_, _, ⟨_, rfl⟩, _, rfl⟩, _, _, ⟨_, rfl⟩, _,
    rfl⟩ := h
  exact board_commented ..

theorem updateComment_board {commentId : ℕ} {body author : String}
    {r : CommentRow} (h : updateComment commentId body author clock db = (.ok r, db')) :
    db'.board = db.board := by
  simp only [updateComment, requireComment, Tx.bind_ok, assertText_ok, Tx.read_ok,
    Tx.require_ok, Tx.write_ok, event_ok, Tx.pure_ok] at h
  obtain ⟨_, _, ⟨_, rfl⟩, _, _, ⟨_, _, ⟨_, rfl⟩, _, rfl⟩, _, _, rfl, _, _, rfl, _, _, rfl, _,
    rfl⟩ := h
  exact board_touch (db.setComment commentId _ (fun _ => rfl)) _ _

theorem deleteComment_board {commentId : ℕ} {deleted : Bool}
    (h : deleteComment commentId actor clock db = (.ok deleted, db')) :
    db'.board = db.board := by
  simp only [deleteComment, Tx.bind_ok, Tx.read_ok] at h
  obtain ⟨row, _, ⟨_, rfl⟩, h⟩ := h
  cases row with
  | none =>
      rw [Tx.pure_ok] at h
      rw [h.2]
  | some row =>
      simp only [Tx.bind_ok, Tx.write_ok, event_ok, Tx.pure_ok] at h
      obtain ⟨_, _, rfl, _, _, rfl, _, _, rfl, _, rfl⟩ := h
      exact board_touch (db.setComment commentId _ (fun _ => rfl)) _ _

theorem addTag_board {tag actor : String} (h : addTag u id tag actor clock db = (.ok d, db')) :
    db'.board = db.board := by
  simp only [addTag, Tx.bind_ok, requireId_ok, Tx.ofExcept_ok, Tx.read_ok, Tx.onSome_ok,
    Tx.write_ok, event_ok] at h
  obtain ⟨_, _, ⟨_, rfl⟩, _, _, ⟨_, rfl⟩, _, _, ⟨_, rfl⟩, _, _, h, _, rfl⟩ := h
  rcases h with ⟨_, _, rfl⟩ | ⟨_, _, _, _, _, _, rfl, rfl⟩
  · rfl
  · rfl

theorem removeTag_board {tag actor : String} (h : removeTag u id tag actor clock db = (.ok d, db')) :
    db'.board = db.board := by
  simp only [removeTag, Tx.bind_ok, requireId_ok, Tx.ofExcept_ok, Tx.read_ok, Tx.when_ok,
    Tx.write_ok, event_ok] at h
  obtain ⟨_, _, ⟨_, rfl⟩, _, _, ⟨_, rfl⟩, _, _, ⟨_, rfl⟩, _, _, rfl, _, _, h, _, rfl⟩ := h
  rcases h with ⟨_, rfl⟩ | ⟨_, rfl⟩
  · rfl
  · rfl

/-! ## Reminders -/

theorem insertReminder_ok {scheduledTaskId n : ℕ} {fireAt : ℚ} {channelId : Option String}
    {createdBy : String}
    (h : insertReminder id scheduledTaskId fireAt channelId createdBy now db = (.ok n, db')) :
    db.exists id = true ∧ db.isProposal id = false ∧
      db' = db.addReminder id scheduledTaskId fireAt channelId createdBy now := by
  simp only [insertReminder, Tx.bind_ok, Tx.read_ok, Tx.ensure_ok, Tx.write_ok,
    Tx.pure_ok] at h
  obtain ⟨_, _, ⟨rfl, rfl⟩, _, _, ⟨rfl, rfl⟩, _, _, ⟨_, rfl⟩, _, _, ⟨hp, rfl⟩, _, _, ⟨hex, rfl⟩, _,
    _, ⟨_, rfl⟩, _, _, ⟨_, rfl⟩, _, _, rfl, _, rfl⟩ := h
  exact ⟨hex, hp, rfl⟩

theorem createReminderRecord_call {scheduledTaskId : ℕ} {fireAt : ℚ}
    {channelId : Option String} {createdBy : String} {r : Option ReminderRow}
    (h : createReminderRecord id scheduledTaskId fireAt channelId createdBy clock db =
      (.ok r, db')) : Board.Call db.board db'.board := by
  simp only [createReminderRecord, Tx.bind_ok, requireItem_ok, Tx.ensure_ok, event_ok,
    Tx.read_ok] at h
  obtain ⟨_, _, ⟨_, rfl⟩, _, _, ⟨_, rfl⟩, n, _, hins, _, _, rfl, _, rfl⟩ := h
  obtain ⟨hex, hp, rfl⟩ := insertReminder_ok hins
  obtain ⟨c, hc, hs⟩ := card_of_linkable hex hp
  have hstep := Board.Step.remind id c hc hs
  refine Or.inl ?_
  convert hstep using 1
  refine Board.ext rfl rfl rfl ?_
  ext a
  constructor
  · rintro ⟨row, hrow, rfl, hpending⟩
    rcases AutoTable.mem_push.mp hrow with hrow | rfl
    · exact Or.inr ⟨row, hrow, rfl, hpending⟩
    · exact Or.inl rfl
  · rintro (rfl | ⟨row, hrow, rfl, hpending⟩)
    · exact ⟨_, AutoTable.mem_push.mpr (Or.inr rfl), rfl, rfl⟩
    · exact ⟨row, AutoTable.mem_push.mpr (Or.inl hrow), rfl, hpending⟩

/-- A change to a reminder that does not make it pending again is a move. -/
theorem setReminder_step {f : ReminderRow → ReminderRow} {hf : ∀ r, (f r).id = r.id}
    (hitem : ∀ r, (f r).itemId = r.itemId)
    (hpending : ∀ r, (f r).pending = true → r.pending = true) :
    Board.Step db.board (db.setReminder n f hf).board := by
  refine Board.Step.unremind _ ?_
  rintro a ⟨r', hr', rfl, hp⟩
  obtain ⟨r, hr, rfl⟩ := AutoTable.mem_update.mp hr'
  split at hp
  · next hn =>
      rw [if_pos hn]
      exact ⟨r, hr, (hitem r).symm, hpending r hp⟩
  · next hn =>
      rw [if_neg hn]
      exact ⟨r, hr, rfl, hp⟩

theorem markReminderFiredByTask_call {scheduledTaskId : ℕ}
    (h : markReminderFiredByTask scheduledTaskId clock db = (.ok v, db')) :
    Board.Call db.board db'.board := by
  simp only [markReminderFiredByTask, Tx.bind_ok, Tx.read_ok, Tx.onSome_ok, Tx.write_ok,
    event_ok, Tx.pure_ok] at h
  obtain ⟨_, _, ⟨_, rfl⟩, _, _, h, _, rfl⟩ := h
  rcases h with ⟨_, _, rfl⟩ | ⟨r, _, _, _, _, _, rfl, rfl⟩
  · exact Board.Call.refl _
  · refine Or.inl (setReminder_step (fun _ => rfl) ?_)
    intro _ hp
    cases hp

theorem cancelReminderRecord_call
    {r : Option ReminderRow} (h : cancelReminderRecord n actor clock db = (.ok r, db')) :
    Board.Call db.board db'.board := by
  simp only [cancelReminderRecord, Tx.bind_ok, Tx.read_ok, Tx.onSome_ok, Tx.write_ok,
    event_ok] at h
  obtain ⟨_, _, ⟨_, rfl⟩, _, _, h, _, rfl⟩ := h
  rcases h with ⟨_, _, rfl⟩ | ⟨r, _, _, _, _, _, rfl, rfl⟩
  · exact Board.Call.refl _
  · refine Or.inl (setReminder_step (fun _ => rfl) ?_)
    intro r hp
    have hnone : (r.firedAt.isNone && false) = true := hp
    rw [Bool.and_false] at hnone
    cases hnone

theorem updateReminderRecord_call {fireAt : ℚ}
    {r : Option ReminderRow}
    (h : updateReminderRecord n fireAt actor clock db = (.ok r, db')) :
    Board.Call db.board db'.board := by
  simp only [updateReminderRecord, Tx.bind_ok, Tx.read_ok, Tx.require_ok, Tx.write_ok,
    event_ok] at h
  obtain ⟨_, _, ⟨_, rfl⟩, _, _, ⟨_, rfl⟩, _, _, rfl, _, _, rfl, _, rfl⟩ := h
  exact Or.inl (setReminder_step (fun _ => rfl) (fun _ hp => hp))

/-! ## Any call -/

theorem call_of_board_eq (h : db'.board = db.board) : Board.Call db.board db'.board := by
  rw [h]
  exact Board.Call.refl _

/-- **Every call that returns is a call of the board.** -/
theorem exec_call {call : MindCall} (hv : db.board.Valid)
    (h : call.exec u db = (.ok v, db')) : Board.Call db.board db'.board := by
  cases call with
  | create =>
      obtain ⟨_, h⟩ := effect_ok.mp h
      exact create_call hv h
  | claim =>
      obtain ⟨_, h⟩ := effect_ok.mp h
      obtain ⟨_, _, h⟩ := claim_ok h
      exact claimBody_call h
  | resumeClaim =>
      obtain ⟨_, h⟩ := effect_ok.mp h
      obtain ⟨_, _, h⟩ := resumeClaim_ok h
      exact resumeClaimBody_call h
  | renewClaim =>
      obtain ⟨_, h⟩ := effect_ok.mp h
      obtain ⟨_, _, h⟩ := renewClaim_ok h
      exact renewClaimBody_call h
  | releaseClaim =>
      obtain ⟨_, h⟩ := effect_ok.mp h
      exact releaseClaimBody_call hv (releaseClaim_ok h)
  | logClaim =>
      obtain ⟨_, h⟩ := effect_ok.mp h
      obtain ⟨_, _, _, _, h⟩ := logClaim_ok h
      exact logClaimBody_call h
  | finishClaim =>
      obtain ⟨_, h⟩ := effect_ok.mp h
      exact finishClaimBody_call hv (finishClaim_ok h)
  | expireClaims =>
      obtain ⟨_, h⟩ := effect_ok.mp h
      exact expireClaims_call hv h
  | update =>
      obtain ⟨_, h⟩ := effect_ok.mp h
      exact update_call hv h
  | setStatus =>
      obtain ⟨_, h⟩ := effect_ok.mp h
      exact update_call hv h
  | archive =>
      obtain ⟨_, h⟩ := effect_ok.mp h
      exact archive_call hv h
  | restore =>
      obtain ⟨_, h⟩ := effect_ok.mp h
      exact restore_call hv h
  | addDependency =>
      obtain ⟨_, h⟩ := effect_ok.mp h
      exact addDependency_call h
  | removeDependency =>
      obtain ⟨_, h⟩ := effect_ok.mp h
      exact removeDependency_call h
  | addComment =>
      obtain ⟨_, h⟩ := effect_ok.mp h
      exact call_of_board_eq (addComment_board h)
  | addReply =>
      obtain ⟨_, h⟩ := effect_ok.mp h
      exact call_of_board_eq (addReply_board h)
  | updateComment =>
      obtain ⟨_, h⟩ := effect_ok.mp h
      exact call_of_board_eq (updateComment_board h)
  | deleteComment =>
      obtain ⟨_, h⟩ := effect_ok.mp h
      exact call_of_board_eq (deleteComment_board h)
  | addTag =>
      obtain ⟨_, h⟩ := effect_ok.mp h
      exact call_of_board_eq (addTag_board h)
  | removeTag =>
      obtain ⟨_, h⟩ := effect_ok.mp h
      exact call_of_board_eq (removeTag_board h)
  | createReminderRecord =>
      obtain ⟨_, h⟩ := effect_ok.mp h
      exact createReminderRecord_call h
  | markReminderFiredByTask =>
      obtain ⟨_, h⟩ := effect_ok.mp h
      exact markReminderFiredByTask_call h
  | cancelReminderRecord =>
      obtain ⟨_, h⟩ := effect_ok.mp h
      exact cancelReminderRecord_call h
  | updateReminderRecord =>
      obtain ⟨_, h⟩ := effect_ok.mp h
      exact updateReminderRecord_call h

/-- **Any call**, whether it returns or throws, is a call of the board. -/
theorem after_call (u : Js.Unicode) (call : MindCall) (hv : db.board.Valid) :
    Board.Call db.board (db.after u call).board := by
  rcases after_cases u db call with h | h
  · exact call_of_board_eq (by rw [h])
  · exact exec_call hv h

end Elpis.Mind
