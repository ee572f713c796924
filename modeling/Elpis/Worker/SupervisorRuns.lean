import Elpis.Worker.Supervisor

/-!
# What the supervisor owes

A request is lost when the loop is left before its test sees it, or between that and `finally`. A
callback of an older notice takes the claim of the newer one. Without these, a claim stands for
exactly one outstanding notice, the last of its session.
-/

namespace Elpis.Worker.Supervisor

open Elpis.Lib Elpis.Mind

variable {w : World} {before : Table SessionRow.id} {attempt : Attempt}

/-! ## Passes -/

/-- Requests wait only while a pass runs that will test the flag. -/
structure Lane.Ok (l : Lane) (disposed : Bool) : Prop where
  dirty : l.dirty = true ↔ l.waiting ≠ 0
  pass : l.phase ≠ .pass → l.waiting = 0
  gone : disposed = true → l.waiting = 0

namespace Lane
variable {l : Lane} {disposed : Bool}

theorem start_ok (h : disposed = false) : Ok start disposed where
  dirty := by simp [start]
  pass hphase := absurd rfl hphase
  gone hgone := absurd hgone (by simp [h])

theorem Ok.request (h : l.Ok disposed) (hleft : disposed = false → l.phase ≠ .left) :
    (l.request disposed).Ok disposed := by
  unfold Lane.request
  by_cases hgone : disposed = true
  · rw [if_pos hgone]
    exact h
  · have hlive : disposed = false := by simpa using hgone
    rw [if_neg hgone]
    by_cases hidle : l.phase = .idle
    · rw [if_pos hidle]
      exact start_ok hlive
    · rw [if_neg hidle]
      have hpass : l.phase = .pass := by
        cases hphase : l.phase with
        | idle => exact absurd hphase hidle
        | pass => rfl
        | left => exact absurd hphase (hleft hlive)
      exact ⟨by simp, fun hno => absurd hpass hno, fun hno => absurd hno hgone⟩

theorem Ok.leave (h : l.Ok disposed) (hclean : l.dirty = false) : l.leave.Ok disposed where
  dirty := h.dirty
  pass _ := by
    by_contra hwaiting
    rw [h.dirty.mpr hwaiting] at hclean
    cases hclean
  gone := h.gone

theorem Ok.again (h : l.Ok disposed) : (l.again disposed).Ok disposed := by
  unfold Lane.again
  by_cases hclean : l.dirty = false
  · rw [if_pos hclean]
    exact h.leave hclean
  · rw [if_neg hclean]
    by_cases hgone : disposed = true
    · exact absurd (h.gone hgone) (h.dirty.mp (by simpa using hclean))
    · rw [if_neg hgone]
      exact start_ok (by simpa using hgone)

theorem Ok.clear (h : l.Ok disposed) : l.clear.Ok disposed := by
  unfold Lane.clear
  by_cases hleft : l.phase = .left
  · rw [if_pos hleft]
    exact ⟨h.dirty, fun _ => h.pass (by rw [hleft]; decide), h.gone⟩
  · rw [if_neg hleft]
    exact h

theorem Ok.dispose (h : l.Ok disposed) (hclean : l.dirty = false) :
    ({ l with dirty := false } : Lane).Ok true := by
  have hnone : l.waiting = 0 := by
    by_contra hwaiting
    rw [h.dirty.mpr hwaiting] at hclean
    cases hclean
  exact ⟨by simp [hnone], fun _ => hnone, fun _ => hnone⟩

/-- A pass that succeeds while requests wait is followed by the next. -/
theorem again_of_dirty (h : l.dirty = true) : l.again false = start := by
  simp [Lane.again, h]

end Lane

/-! ## Notices -/

/-- No notice of the session came later. -/
def Latest (w : World) (i : Issued) : Prop :=
  ∀ j ∈ w.issued, j.notice.id = i.notice.id → j.serial ≤ i.serial

/-- The claims and the outstanding notices agree, as long as there is something to deliver. -/
structure Notices (w : World) : Prop where
  only : w.disposed = false → ∀ i ∈ w.issued, i.outstanding = true →
    w.claimed i.notice.id = true ∧ Latest w i
  one : ∀ id, w.claimed id = true → ∃ i ∈ w.issued, i.notice.id = id ∧ i.outstanding = true
  gone : w.disposed = true → ∀ id, w.claimed id = false

variable {i : Issued} {serial : ℕ}

theorem get?_issued (h : w.issued.get? serial = some i) :
    i ∈ w.issued ∧ i.serial = serial :=
  Table.get?_eq_some.mp h

theorem mem_close :
    i ∈ (w.close serial).issued ↔
      ∃ j ∈ w.issued, (if j.serial = serial then { j with outstanding := false } else j) = i := by
  show i ∈ w.issued.update _ _ _ ↔ _
  rw [AutoTable.mem_update]
  simp only [decide_eq_true_eq]

/-- A closed notice is still there with its number and text. -/
theorem exists_of_mem_close (h : i ∈ (w.close serial).issued) :
    ∃ j ∈ w.issued, j.serial = i.serial ∧ j.notice = i.notice ∧
      (i.outstanding = true → j.serial ≠ serial ∧ j = i) := by
  obtain ⟨j, hj, rfl⟩ := mem_close.mp h
  refine ⟨j, hj, ?_⟩
  by_cases hserial : j.serial = serial
  · rw [if_pos hserial]
    exact ⟨rfl, rfl, fun hno => absurd hno (by simp)⟩
  · rw [if_neg hserial]
    exact ⟨rfl, rfl, fun _ => ⟨hserial, rfl⟩⟩

theorem Latest.close (h : Latest w i) : Latest (w.close serial) i := by
  intro j hj hid
  obtain ⟨k, hk, hserial, hnotice, -⟩ := exists_of_mem_close hj
  rw [← hserial]
  exact h k hk (by rw [hnotice, hid])

/-- The claim of a session goes with its last notice. -/
theorem Notices.close (h : Notices w) (hi : w.issued.get? serial = some i)
    (hlatest : w.claimed i.notice.id = true → Latest w i) :
    Notices ((w.close serial).claim i.notice.id false) := by
  obtain ⟨hmem, hserial⟩ := get?_issued hi
  refine ⟨fun hlive j hj hout => ?_, fun id hclaimed => ?_, fun hgone id => ?_⟩
  · obtain ⟨k, hk, -, -, hsame⟩ := exists_of_mem_close hj
    obtain ⟨hne, rfl⟩ := hsame hout
    obtain ⟨hclaimed, hk'⟩ := h.only hlive k hk hout
    have hid : k.notice.id ≠ i.notice.id := by
      intro hid
      have hle := hlatest (hid ▸ hclaimed) k hk hid
      have hge := hk' i hmem hid.symm
      exact hne ((Nat.le_antisymm hle hge).trans hserial)
    exact ⟨(Function.update_of_ne hid _ _).trans hclaimed, hk'.close⟩
  · have hne : id ≠ i.notice.id := by
      rintro rfl
      rw [show ((w.close serial).claim i.notice.id false).claimed i.notice.id = false from
        Function.update_self ..] at hclaimed
      cases hclaimed
    obtain ⟨k, hk, hkid, hkout⟩ := h.one id ((Function.update_of_ne hne _ _).symm.trans hclaimed)
    have hkserial : k.serial ≠ serial := by
      intro heq
      have hki : k = i := Table.eq_of_key hk hmem (heq.trans hserial.symm)
      exact hne (by rw [← hkid, hki])
    exact ⟨k, mem_close.mpr ⟨k, hk, if_neg hkserial⟩, hkid, hkout⟩
  · by_cases hid : id = i.notice.id
    · rw [hid]
      exact Function.update_self ..
    · exact (Function.update_of_ne hid _ _).trans (h.gone hgone id)

theorem mem_issue {row : SessionRow} {finish : Option ℕ} :
    i ∈ (w.issue row finish).issued ↔ i ∈ w.issued ∨
      i = ⟨w.issued.next, ⟨row.id, row.worker, row.mindId, row.status, row.updatedAt, finish⟩, true⟩ := by
  show i ∈ w.issued.push _ _ ↔ _
  exact AutoTable.mem_push

theorem serial_lt_next (h : i ∈ w.issued) : i.serial < w.issued.next :=
  Nat.lt_succ_of_le (w.issued.le_seq i h)

/-- A session without a claim gets one with its notice. -/
theorem Notices.issue (h : Notices w) {row : SessionRow} (hfree : w.claimed row.id = false)
    (hlive : w.disposed = false) (finish : Option ℕ) : Notices (w.issue row finish) := by
  refine ⟨fun _ i hi hout => ?_, fun id hclaimed => ?_, fun hgone => ?_⟩
  · rcases mem_issue.mp hi with hold | rfl
    · obtain ⟨hclaimed, hlatest⟩ := h.only hlive i hold hout
      have hid : i.notice.id ≠ row.id := by
        intro hid
        rw [hid, hfree] at hclaimed
        cases hclaimed
      refine ⟨(Function.update_of_ne hid _ _).trans hclaimed, fun j hj hsame => ?_⟩
      rcases mem_issue.mp hj with hj | rfl
      · exact hlatest j hj hsame
      · exact absurd hsame.symm hid
    · refine ⟨Function.update_self .., fun j hj _ => ?_⟩
      rcases mem_issue.mp hj with hj | rfl
      · exact (serial_lt_next hj).le
      · exact le_rfl
  · by_cases hid : id = row.id
    · exact ⟨_, mem_issue.mpr (Or.inr rfl), hid.symm, rfl⟩
    · obtain ⟨i, hi, hiid, hiout⟩ := h.one id ((Function.update_of_ne hid _ _).symm.trans hclaimed)
      exact ⟨i, mem_issue.mpr (Or.inl hi), hiid, hiout⟩
  · exact absurd (hlive.symm.trans hgone) (by decide)

/-- With a claim, the last notice is the outstanding one. -/
theorem Notices.outstanding (h : Notices w) (hlive : w.disposed = false) (hi : i ∈ w.issued)
    (hclaimed : w.claimed i.notice.id = true) (hlatest : Latest w i) :
    i.outstanding = true ∧ w.outstanding i.notice.id = [i.serial] := by
  obtain ⟨k, hk, hkid, hkout⟩ := h.one _ hclaimed
  have hki : k = i :=
    Table.eq_of_key hk hi (Nat.le_antisymm (hlatest k hk hkid) ((h.only hlive k hk hkout).2 i hi hkid.symm))
  subst hki
  have hselected : ∀ j ∈ w.issued, (decide (j.notice.id = k.notice.id) && j.outstanding) = true → j = k := by
    intro j hj hp
    rw [Bool.and_eq_true, decide_eq_true_eq] at hp
    exact Table.eq_of_key hj hk
      (Nat.le_antisymm (hlatest j hj hp.1) ((h.only hlive j hj hp.2).2 k hk hp.1.symm))
  have hmem : k ∈ w.issued.select (fun j => decide (j.notice.id = k.notice.id) && j.outstanding) :=
    Table.mem_select.mpr ⟨hk, by simp [hkout]⟩
  have hone : (w.issued.select (fun j => decide (j.notice.id = k.notice.id) && j.outstanding)).length ≤ 1 :=
    Table.length_select_le_one (fun r hr r' hr' hp hp' =>
      (hselected r hr hp).trans (hselected r' hr' hp').symm)
  refine ⟨hkout, ?_⟩
  unfold World.outstanding
  match hs : w.issued.select (fun j => decide (j.notice.id = k.notice.id) && j.outstanding), hone with
  | [], _ =>
      rw [hs] at hmem
      cases hmem
  | [j], _ =>
      rw [hs, List.mem_singleton] at hmem
      rw [hmem]
      rfl

/-! ## Marks -/

/-- Why a session is marked: it was before, or a callback did it. -/
def Known (before : Table SessionRow.id) (marks : List Mark) (id : String) : Prop :=
  (∃ row ∈ before, row.id = id ∧ row.completionNotifiedAt ≠ none) ∨ ∃ mark ∈ marks, mark.sessionId = id

structure Marked (before : Table SessionRow.id) (w : World) : Prop where
  latest : ∀ mark ∈ w.marks, mark.outstanding = [mark.serial]
  known : ∀ row ∈ w.sessions, row.completionNotifiedAt ≠ none → Known before w.marks row.id

theorem Known.append {marks : List Mark} {id : String} (h : Known before marks id) (mark : Mark) :
    Known before (marks ++ [mark]) id := by
  rcases h with h | ⟨m, hm, hid⟩
  · exact Or.inl h
  · exact Or.inr ⟨m, List.mem_append_left _ hm, hid⟩

theorem Marked.mark (h : Marked before w) {sessionId : String} {now : Time} {outstanding : List ℕ}
    (hout : outstanding = [serial]) : Marked before (w.mark sessionId serial now outstanding) := by
  unfold World.mark
  constructor
  · intro mark hmark
    dsimp only at hmark
    split at hmark
    · rcases List.mem_append.mp hmark with hmark | hmark
      · exact h.latest mark hmark
      · rw [List.mem_singleton.mp hmark]
        exact hout
    · exact h.latest mark hmark
  · intro row hrow hnotified
    dsimp only at hrow ⊢
    obtain ⟨old, hold, rfl⟩ := Table.mem_update.mp hrow
    by_cases hnull : old.completionNotifiedAt = none
    · by_cases hcompleted : (decide (old.id = sessionId) && World.isCompleted old) = true
      · rw [if_pos hcompleted]
        rw [Bool.and_eq_true, decide_eq_true_eq] at hcompleted
        obtain ⟨rfl, hcompleted⟩ := hcompleted
        have hfound : w.sessions.get? old.id = some old := Table.get?_key hold
        rw [if_pos (by rw [hfound]; simp [hcompleted, hnull])]
        exact Or.inr ⟨_, List.mem_append_right _ List.mem_cons_self, rfl⟩
      · rw [if_neg hcompleted] at hnotified
        exact absurd hnull hnotified
    · have hkept : Known before (w.mark sessionId serial now outstanding).marks old.id := by
        unfold World.mark
        dsimp only
        split
        · exact (h.known old hold hnull).append _
        · exact h.known old hold hnull
      by_cases hcompleted : (decide (old.id = sessionId) && World.isCompleted old) = true
      · rw [if_pos hcompleted]
        exact hkept
      · rw [if_neg hcompleted]
        exact hkept

theorem Marked.putSession (h : Marked before w) (row : SessionRow) (keep : Bool) :
    Marked before (w.putSession row keep) := by
  refine ⟨h.latest, fun r hr hnotified => ?_⟩
  rcases Table.mem_put.mp hr with rfl | ⟨hr, -⟩
  · dsimp only at hnotified ⊢
    by_cases hkeep : keep = true
    · rw [if_pos hkeep] at hnotified
      cases hfound : w.sessions.get? row.id with
      | none =>
          rw [hfound] at hnotified
          exact absurd rfl hnotified
      | some old =>
          rw [hfound] at hnotified
          obtain ⟨hold, hid⟩ := Table.get?_eq_some.mp hfound
          exact hid ▸ h.known old hold hnotified
    · rw [if_neg hkeep] at hnotified
      exact absurd rfl hnotified
  · exact h.known r hr hnotified

/-! ## What keeps the books -/

structure Inv (before : Table SessionRow.id) (w : World) : Prop where
  reconcile : w.reconcile.Ok w.disposed
  cleanup : w.cleanup.Ok w.disposed
  notices : Notices w
  marked : Marked before w

/-- No callback of an older notice finds the claim of a newer one, and no request comes between
the end of a loop and its `finally`. -/
def CallFair (w : World) : Callback → Prop
  | .delivered serial _ _ => ∀ i ∈ w.issued.get? serial, w.claimed i.notice.id = true → Latest w i
  | .dropped serial => ∀ i ∈ w.issued.get? serial, w.claimed i.notice.id = true → Latest w i
  | .reconcile => w.disposed = false → w.reconcile.phase ≠ .left

theorem Inv.close (h : Inv before w) (hi : w.issued.get? serial = some i)
    (hlatest : w.claimed i.notice.id = true → Latest w i) :
    Inv before ((w.close serial).claim i.notice.id false) :=
  ⟨h.reconcile, h.cleanup, h.notices.close hi hlatest, ⟨h.marked.latest, h.marked.known⟩⟩

theorem Inv.delivered (h : Inv before w) {now : Time} {fails : Bool}
    (hfair : CallFair w (.delivered serial now fails)) : Inv before (w.delivered serial now fails) := by
  unfold World.delivered
  cases hi : w.issued.get? serial with
  | none => exact h
  | some i =>
      have hclosed := h.close hi (hfair i hi)
      by_cases hclaimed : w.claimed i.notice.id = false
      · simp only [if_pos hclaimed]
        have hsame : (w.close serial).claim i.notice.id false = w.close serial := by
          unfold World.claim
          rw [Function.update_eq_self_iff.mpr hclaimed.symm]
        exact hsame ▸ hclosed
      · simp only [if_neg hclaimed]
        by_cases hfails : fails = true
        · rw [if_pos hfails]
          exact hclosed
        · rw [if_neg hfails]
          have hyes : w.claimed i.notice.id = true := by simpa using hclaimed
          have hlive : w.disposed = false := by
            by_contra hgone
            exact hclaimed (h.notices.gone (by simpa using hgone) _)
          obtain ⟨hmem, hserial⟩ := get?_issued hi
          have hout := (h.notices.outstanding hlive hmem hyes (hfair i hi hyes)).2
          rw [hserial] at hout
          obtain ⟨honly, hone, hgone⟩ := hclosed.notices
          exact ⟨h.reconcile, h.cleanup, ⟨honly, hone, hgone⟩, hclosed.marked.mark hout⟩

theorem Inv.dropped (h : Inv before w) (hfair : CallFair w (.dropped serial)) :
    Inv before (w.dropped serial) := by
  unfold World.dropped
  cases hi : w.issued.get? serial with
  | none => exact h
  | some i => exact h.close hi (hfair i hi)

theorem Inv.requestReconcile (h : Inv before w) (hfair : CallFair w .reconcile) :
    Inv before w.requestReconcile :=
  ⟨h.reconcile.request hfair, h.cleanup, ⟨h.notices.only, h.notices.one, h.notices.gone⟩,
    ⟨h.marked.latest, h.marked.known⟩⟩

theorem Inv.call (h : Inv before w) {callback : Callback} (hfair : CallFair w callback) :
    Inv before (w.call callback) := by
  cases callback with
  | delivered serial now fails => exact h.delivered hfair
  | dropped serial => exact h.dropped hfair
  | reconcile => exact h.requestReconcile hfair

theorem Inv.calls (h : Inv before w) {callbacks : List Callback}
    (hfair : EachStep World.call CallFair w callbacks) : Inv before (run World.call w callbacks) :=
  (throughout_of_eachStep (fun _ h => h) (fun _ _ h hfair => h.call hfair) callbacks h hfair).last

/-! ## Delivering -/

/-- What the callbacks leave as it is. -/
structure Frame (w v : World) : Prop where
  disposed : v.disposed = w.disposed
  back : ∀ i ∈ v.issued, ∃ j ∈ w.issued, j.serial = i.serial ∧ j.notice = i.notice
  kept : ∀ j ∈ w.issued, ∃ i ∈ v.issued, i.serial = j.serial ∧ i.notice = j.notice

theorem Frame.refl (w : World) : Frame w w :=
  ⟨rfl, fun i hi => ⟨i, hi, rfl, rfl⟩, fun i hi => ⟨i, hi, rfl, rfl⟩⟩

theorem Frame.trans {v u : World} (h : Frame w v) (h' : Frame v u) : Frame w u where
  disposed := h'.disposed.trans h.disposed
  back i hi := by
    obtain ⟨j, hj, hserial, hnotice⟩ := h'.back i hi
    obtain ⟨k, hk, hserial', hnotice'⟩ := h.back j hj
    exact ⟨k, hk, hserial'.trans hserial, hnotice'.trans hnotice⟩
  kept k hk := by
    obtain ⟨j, hj, hserial', hnotice'⟩ := h.kept k hk
    obtain ⟨i, hi, hserial, hnotice⟩ := h'.kept j hj
    exact ⟨i, hi, hserial.trans hserial', hnotice.trans hnotice'⟩

theorem frame_close (w : World) (serial : ℕ) : Frame w (w.close serial) where
  disposed := rfl
  back i hi := by
    obtain ⟨j, hj, hserial, hnotice, -⟩ := exists_of_mem_close hi
    exact ⟨j, hj, hserial, hnotice⟩
  kept j hj := by
    refine ⟨_, mem_close.mpr ⟨j, hj, rfl⟩, ?_⟩
    by_cases hserial : j.serial = serial
    · rw [if_pos hserial]
      exact ⟨rfl, rfl⟩
    · rw [if_neg hserial]
      exact ⟨rfl, rfl⟩

/-- What else a callback writes, the frame does not speak of. -/
theorem Frame.of_issued {v u : World} (h : Frame w v) (hissued : u.issued = v.issued)
    (hdisposed : u.disposed = v.disposed) : Frame w u where
  disposed := hdisposed.trans h.disposed
  back := by
    rw [hissued]
    exact h.back
  kept := by
    rw [hissued]
    exact h.kept

theorem frame_call (w : World) (callback : Callback) : Frame w (w.call callback) := by
  cases callback with
  | delivered serial now fails =>
      show Frame w (w.delivered serial now fails)
      unfold World.delivered
      split
      · exact Frame.refl w
      · split_ifs
        · exact frame_close w serial
        · exact (frame_close w serial).of_issued rfl rfl
        · exact (frame_close w serial).of_issued rfl rfl
  | dropped serial =>
      show Frame w (w.dropped serial)
      unfold World.dropped
      split
      · exact Frame.refl w
      · exact (frame_close w serial).of_issued rfl rfl
  | reconcile => exact (Frame.refl w).of_issued rfl rfl

theorem frame_calls (w : World) (callbacks : List Callback) : Frame w (run World.call w callbacks) :=
  run_rel (I := fun _ => True) (fun _ _ _ => trivial) Frame.refl Frame.trans (fun u c _ => frame_call u c)
    callbacks trivial

/-- The deliverer's callbacks in the turn of one row. -/
def RowFair (attempt : Attempt) (s : World × Bool) (row : SessionRow) : Prop :=
  s.2 = false → s.1.claimed row.id = false → attempt.breaks row.id = false →
    ∀ record ∈ s.1.sessions.get? row.id,
      EachStep World.call CallFair (s.1.issue record (attempt.finish row.id)) (attempt.calls s.1.issued.next)

def DeliverFair (attempt : Attempt) (w : World) : Prop :=
  w.disposed = false → w.active = true →
    EachStep (deliverRow attempt) (RowFair attempt) (w, false) w.pending

theorem Inv.issue (h : Inv before w) {row : SessionRow} (hfree : w.claimed row.id = false)
    (hlive : w.disposed = false) (finish : Option ℕ) : Inv before (w.issue row finish) :=
  ⟨h.reconcile, h.cleanup, h.notices.issue hfree hlive finish, ⟨h.marked.latest, h.marked.known⟩⟩

theorem Inv.row {s : World × Bool} (h : Inv before s.1) (hlive : s.1.disposed = false) {row : SessionRow}
    (hfair : RowFair attempt s row) :
    Inv before (deliverRow attempt s row).1 ∧ (deliverRow attempt s row).1.disposed = false := by
  unfold deliverRow
  by_cases hskip : s.2 = true ∨ s.1.claimed row.id = true
  · rw [if_pos hskip]
    exact ⟨h, hlive⟩
  · rw [if_neg hskip]
    rw [not_or, Bool.not_eq_true, Bool.not_eq_true] at hskip
    by_cases hbreaks : attempt.breaks row.id = true
    · rw [if_pos hbreaks]
      exact ⟨h, hlive⟩
    · rw [if_neg hbreaks]
      cases hrecord : s.1.sessions.get? row.id with
      | none => exact ⟨h, hlive⟩
      | some record =>
          have hid : record.id = row.id := Table.key_of_get? hrecord
          have hissued : Inv before (s.1.issue record (attempt.finish row.id)) :=
            h.issue (by rw [hid]; exact hskip.2) hlive _
          have hcalls := hissued.calls (hfair hskip.1 hskip.2 (by simpa using hbreaks) record hrecord)
          have hframe := frame_calls (s.1.issue record (attempt.finish row.id)) (attempt.calls s.1.issued.next)
          dsimp only
          by_cases hthrows : attempt.throws s.1.issued.next = true
          · rw [if_pos hthrows]
            refine ⟨?_, hframe.disposed.trans hlive⟩
            -- the notice of this row is still the last of its session
            obtain ⟨i, hi, hserial, hnotice⟩ := hframe.kept _ (mem_issue.mpr (Or.inr rfl))
            have hget := Table.get?_key hi
            rw [hserial] at hget
            have hlatest : Latest (run World.call (s.1.issue record (attempt.finish row.id))
                (attempt.calls s.1.issued.next)) i := by
              intro j hj _
              obtain ⟨k, hk, hkserial, -⟩ := hframe.back j hj
              rw [← hkserial, hserial]
              rcases mem_issue.mp hk with hk | rfl
              · exact (serial_lt_next hk).le
              · exact le_rfl
            have hclosed := hcalls.close hget (fun _ => hlatest)
            rw [hnotice] at hclosed
            dsimp only at hclosed
            rw [hid] at hclosed
            exact hclosed
          · rw [if_neg hthrows]
            exact ⟨hcalls, hframe.disposed.trans hlive⟩

theorem Inv.deliver (h : Inv before w) (hfair : DeliverFair attempt w) :
    Inv before (deliverPending attempt w).1 ∧ (deliverPending attempt w).1.disposed = w.disposed := by
  unfold deliverPending
  by_cases hidle : w.disposed = true ∨ w.active = false
  · rw [if_pos hidle]
    exact ⟨h, rfl⟩
  · rw [if_neg hidle]
    rw [not_or, Bool.not_eq_true, Bool.not_eq_false] at hidle
    have hrows : Throughout (deliverRow attempt) (fun s => Inv before s.1 ∧ s.1.disposed = false) (w, false) w.pending :=
      throughout_of_eachStep (fun _ hs => hs) (fun _ _ hs hrow => hs.1.row hs.2 hrow) w.pending
        ⟨h, hidle.1⟩ (hfair hidle.1 hidle.2)
    exact ⟨hrows.last.1, hrows.last.2.trans hidle.1.symm⟩

/-! ## Steps -/

/-- What a step may be without a request or a claim being lost: no pass fails with requests
waiting, and so on. -/
def Fair (w : World) : Event → Prop
  | .session _ _ => True
  | .call callback => CallFair w callback
  | .kickCleanup => w.disposed = false → w.cleanup.phase ≠ .left
  | .activate attempt => w.disposed = false → w.active = false →
      DeliverFair attempt { w with active := true } ∧
        ((deliverPending attempt { w with active := true }).2 = false →
          CallFair (deliverPending attempt { w with active := true }).1 .reconcile)
  | .finish attempt => w.disposed = false →
      DeliverFair attempt w ∧ CallFair (deliverPending attempt w).1 .reconcile
  | .provisioned => CallFair w .reconcile
  | .recovered ok attempt => w.reconcile.phase = .pass → w.disposed = false →
      if ok = false then w.reconcile.dirty = false
      else DeliverFair attempt w ∧
        if (deliverPending attempt w).2 = true then (deliverPending attempt w).1.reconcile.dirty = false
        else (deliverPending attempt w).1.cleanup.phase ≠ .left
  | .reconcileCleared => True
  | .cleaned ok => w.cleanup.phase = .pass → ok = false → w.cleanup.dirty = false
  | .cleanupCleared => True
  | .dispose => w.disposed = false → w.reconcile.dirty = false ∧ w.cleanup.dirty = false

theorem Lane.Ok.clean {l : Lane} (h : l.Ok true) : l.dirty = false := by
  by_contra hdirty
  exact h.dirty.mp (by simpa using hdirty) (h.gone rfl)

theorem Inv.kickCleanup (h : Inv before w) (hfair : w.disposed = false → w.cleanup.phase ≠ .left) :
    Inv before w.kickCleanup :=
  ⟨h.reconcile, h.cleanup.request hfair, ⟨h.notices.only, h.notices.one, h.notices.gone⟩,
    ⟨h.marked.latest, h.marked.known⟩⟩

/-- The variables of the reconciliation, and who delivers, are no part of the other books. -/
theorem Inv.withReconcile (h : Inv before w) {l : Lane} (hl : l.Ok w.disposed) (active : Bool) :
    Inv before { w with reconcile := l, active := active } :=
  ⟨hl, h.cleanup, ⟨h.notices.only, h.notices.one, h.notices.gone⟩, ⟨h.marked.latest, h.marked.known⟩⟩

theorem Inv.withCleanup (h : Inv before w) {l : Lane} (hl : l.Ok w.disposed) :
    Inv before { w with cleanup := l } :=
  ⟨h.reconcile, hl, ⟨h.notices.only, h.notices.one, h.notices.gone⟩, ⟨h.marked.latest, h.marked.known⟩⟩

theorem Inv.putSession (h : Inv before w) (row : SessionRow) (keep : Bool) :
    Inv before (w.putSession row keep) :=
  ⟨h.reconcile, h.cleanup, ⟨h.notices.only, h.notices.one, h.notices.gone⟩, h.marked.putSession row keep⟩

theorem Inv.activate (h : Inv before w) (hfair : Fair w (.activate attempt)) :
    Inv before (w.activate attempt) := by
  unfold World.activate
  by_cases hno : w.disposed = true ∨ w.active = true
  · rw [if_pos hno]
    exact h
  · rw [if_neg hno]
    rw [not_or, Bool.not_eq_true, Bool.not_eq_true] at hno
    obtain ⟨hdeliver, hrequest⟩ := hfair hno.1 hno.2
    obtain ⟨hinv, -⟩ := (h.withReconcile h.reconcile true).deliver hdeliver
    by_cases hthrown : (deliverPending attempt { w with active := true }).2 = true
    · simp only [if_pos hthrown]
      exact hinv.withReconcile hinv.reconcile false
    · simp only [if_neg hthrown]
      exact hinv.requestReconcile (hrequest (by simpa using hthrown))

theorem Inv.finish (h : Inv before w) (hfair : Fair w (.finish attempt)) : Inv before (w.finish attempt) := by
  unfold World.finish
  by_cases hgone : w.disposed = true
  · rw [if_pos hgone]
    exact h
  · rw [if_neg hgone]
    obtain ⟨hdeliver, hrequest⟩ := hfair (by simpa using hgone)
    exact (h.deliver hdeliver).1.requestReconcile hrequest

theorem Inv.recovered (h : Inv before w) {ok : Bool} (hfair : Fair w (.recovered ok attempt)) :
    Inv before (w.recovered ok attempt) := by
  unfold World.recovered
  by_cases hpass : w.reconcile.phase ≠ .pass
  · rw [if_pos hpass]
    exact h
  · rw [if_neg hpass]
    have hfair' := hfair (not_not.mp hpass)
    by_cases hleave : ok = false ∨ w.disposed = true
    · rw [if_pos hleave]
      have hclean : w.reconcile.dirty = false := by
        by_cases hgone : w.disposed = true
        · exact (hgone ▸ h.reconcile).clean
        · have hfalse := hfair' (by simpa using hgone)
          rwa [if_pos (hleave.resolve_right hgone)] at hfalse
      exact h.withReconcile (h.reconcile.leave hclean) w.active
    · rw [if_neg hleave]
      rw [not_or, Bool.not_eq_true] at hleave
      have hrest := hfair' hleave.2
      rw [if_neg hleave.1] at hrest
      obtain ⟨hdeliver, hrest⟩ := hrest
      obtain ⟨hinv, -⟩ := h.deliver hdeliver
      by_cases hthrown : (deliverPending attempt w).2 = true
      · rw [if_pos hthrown] at hrest
        simp only [if_pos hthrown]
        exact hinv.withReconcile (hinv.reconcile.leave hrest) _
      · rw [if_neg hthrown] at hrest
        simp only [if_neg hthrown]
        exact (hinv.kickCleanup (fun _ => hrest)).withReconcile hinv.reconcile.again _

theorem Inv.cleaned (h : Inv before w) {ok : Bool} (hfair : Fair w (.cleaned ok)) :
    Inv before (w.cleaned ok) := by
  unfold World.cleaned
  by_cases hpass : w.cleanup.phase ≠ .pass
  · rw [if_pos hpass]
    exact h
  · rw [if_neg hpass]
    by_cases hok : ok = false
    · rw [if_pos hok]
      exact h.withCleanup (h.cleanup.leave (hfair (not_not.mp hpass) hok))
    · rw [if_neg hok]
      exact h.withCleanup h.cleanup.again

theorem Inv.dispose (h : Inv before w) (hfair : Fair w .dispose) : Inv before w.dispose := by
  unfold World.dispose
  by_cases hgone : w.disposed = true
  · rw [if_pos hgone]
    exact h
  · rw [if_neg hgone]
    obtain ⟨hreconcile, hcleanup⟩ := hfair (by simpa using hgone)
    exact ⟨h.reconcile.dispose hreconcile, h.cleanup.dispose hcleanup,
      ⟨fun hlive => absurd hlive (by simp), fun _ hclaimed => absurd hclaimed (by simp), fun _ _ => rfl⟩,
      ⟨h.marked.latest, h.marked.known⟩⟩

theorem Inv.step (h : Inv before w) {event : Event} (hfair : Fair w event) : Inv before (step w event) := by
  cases event with
  | session row keep => exact h.putSession row keep
  | call callback => exact h.call hfair
  | kickCleanup => exact h.kickCleanup hfair
  | activate attempt => exact h.activate hfair
  | finish attempt => exact h.finish hfair
  | provisioned => exact h.requestReconcile hfair
  | recovered ok attempt => exact h.recovered hfair
  | reconcileCleared => exact h.withReconcile h.reconcile.clear w.active
  | cleaned ok => exact h.cleaned hfair
  | cleanupCleared => exact h.withCleanup h.cleanup.clear
  | dispose => exact h.dispose hfair

theorem inv_started (sessions : Table SessionRow.id) : Inv sessions (World.started sessions) where
  reconcile := ⟨by simp [World.started], fun _ => rfl, fun _ => rfl⟩
  cleanup := ⟨by simp [World.started], fun _ => rfl, fun _ => rfl⟩
  notices := ⟨fun _ _ hi => absurd hi Table.not_mem_empty, fun _ h => absurd h (by simp [World.started]), fun _ _ => rfl⟩
  marked := ⟨fun _ h => absurd h List.not_mem_nil, fun row hrow h => Or.inl ⟨row, hrow, rfl, h⟩⟩

/-! ## Runs -/

/-- What is owed to the requests and to the completed sessions, of which `before` were there. -/
structure Held (before : Table SessionRow.id) (w : World) : Prop where
  /-- A request that no pass has followed has a pass running, whose loop will go on. -/
  reconcile : w.reconcile.waiting ≠ 0 →
    w.disposed = false ∧ w.reconcile.phase = .pass ∧ w.reconcile.again w.disposed = Lane.start
  cleanup : w.cleanup.waiting ≠ 0 →
    w.disposed = false ∧ w.cleanup.phase = .pass ∧ w.cleanup.again w.disposed = Lane.start
  notices : ∀ row ∈ w.sessions, World.isCompleted row = true → row.completionNotifiedAt = none →
    (row ∈ w.pending ∧ w.claimed row.id = false) ∨
      ∃! i, i ∈ w.issued ∧ i.notice.id = row.id ∧ i.outstanding = true
  free : w.disposed = false → ∀ row ∈ w.sessions, w.claimed row.id = false →
    ∀ i ∈ w.issued, i.notice.id = row.id → i.outstanding = false
  marks : ∀ mark ∈ w.marks, mark.outstanding = [mark.serial]
  known : ∀ row ∈ w.sessions, row.completionNotifiedAt ≠ none → Known before w.marks row.id

theorem Lane.Ok.owed {l : Lane} {disposed : Bool} (h : l.Ok disposed) (hwaiting : l.waiting ≠ 0) :
    disposed = false ∧ l.phase = .pass ∧ l.again disposed = Lane.start := by
  have hlive : disposed = false := by
    by_contra hgone
    exact hwaiting (h.gone (by simpa using hgone))
  refine ⟨hlive, ?_, ?_⟩
  · by_contra hphase
    exact hwaiting (h.pass hphase)
  · rw [hlive]
    exact Lane.again_of_dirty (h.dirty.mpr hwaiting)

theorem mem_pending {row : SessionRow} (hrow : row ∈ w.sessions) (hcompleted : World.isCompleted row = true)
    (hnull : row.completionNotifiedAt = none) : row ∈ w.pending := by
  apply (List.mem_insertionSort _).mpr
  exact Table.mem_select.mpr ⟨hrow, by simp [hcompleted, hnull]⟩

theorem Inv.held (h : Inv before w) : Held before w where
  reconcile := h.reconcile.owed
  cleanup := h.cleanup.owed
  notices row hrow hcompleted hnull := by
    by_cases hclaimed : w.claimed row.id = true
    · right
      have hlive : w.disposed = false := by
        by_contra hgone
        rw [h.notices.gone (by simpa using hgone)] at hclaimed
        cases hclaimed
      obtain ⟨i, hi, hid, hout⟩ := h.notices.one _ hclaimed
      refine ⟨i, ⟨hi, hid, hout⟩, ?_⟩
      rintro j ⟨hj, hjid, hjout⟩
      have hle := (h.notices.only hlive i hi hout).2 j hj (hjid.trans hid.symm)
      have hge := (h.notices.only hlive j hj hjout).2 i hi (hid.trans hjid.symm)
      exact Table.eq_of_key hj hi (Nat.le_antisymm hle hge)
    · exact Or.inl ⟨mem_pending hrow hcompleted hnull, by simpa using hclaimed⟩
  free hlive row _ hfree i hi hid := by
    by_contra hout
    have hclaimed := (h.notices.only hlive i hi (by simpa using hout)).1
    rw [hid, hfree] at hclaimed
    cases hclaimed
  marks := h.marked.latest
  known := h.marked.known

theorem held_throughout (sessions : Table SessionRow.id) (events : List Event)
    (h : EachStep step Fair (World.started sessions) events) :
    Throughout step (Held sessions) (World.started sessions) events :=
  throughout_of_eachStep (fun _ => Inv.held) (fun _ _ hi hfair => hi.step hfair) events (inv_started sessions) h

/-! ## Runs of one session -/

instance (w : World) (i : Issued) : Decidable (Latest w i) :=
  inferInstanceAs (Decidable (∀ j ∈ w.issued.rows, j.notice.id = i.notice.id → j.serial ≤ i.serial))

instance (w : World) : (callback : Callback) → Decidable (CallFair w callback)
  | .delivered serial _ _ => inferInstanceAs (Decidable (∀ i ∈ w.issued.get? serial, _ → Latest w i))
  | .dropped serial => inferInstanceAs (Decidable (∀ i ∈ w.issued.get? serial, _ → Latest w i))
  | .reconcile => inferInstanceAs (Decidable (_ → _ ≠ _))

instance (attempt : Attempt) (s : World × Bool) (row : SessionRow) : Decidable (RowFair attempt s row) :=
  inferInstanceAs (Decidable (_ → _ → _ → ∀ record ∈ s.1.sessions.get? row.id, EachStep _ _ _ _))

instance (attempt : Attempt) (w : World) : Decidable (DeliverFair attempt w) :=
  inferInstanceAs (Decidable (_ → _ → EachStep _ _ _ _))

instance (w : World) : (event : Event) → Decidable (Fair w event)
  | .session _ _ => inferInstanceAs (Decidable True)
  | .call callback => inferInstanceAs (Decidable (CallFair w callback))
  | .kickCleanup => inferInstanceAs (Decidable (w.disposed = false → w.cleanup.phase ≠ .left))
  | .activate attempt => inferInstanceAs (Decidable (w.disposed = false → w.active = false →
      DeliverFair attempt { w with active := true } ∧
        ((deliverPending attempt { w with active := true }).2 = false →
          CallFair (deliverPending attempt { w with active := true }).1 .reconcile)))
  | .finish attempt => inferInstanceAs (Decidable (w.disposed = false →
      DeliverFair attempt w ∧ CallFair (deliverPending attempt w).1 .reconcile))
  | .provisioned => inferInstanceAs (Decidable (CallFair w .reconcile))
  | .recovered ok attempt => inferInstanceAs (Decidable (w.reconcile.phase = .pass → w.disposed = false →
      if ok = false then w.reconcile.dirty = false
      else DeliverFair attempt w ∧
        if (deliverPending attempt w).2 = true then (deliverPending attempt w).1.reconcile.dirty = false
        else (deliverPending attempt w).1.cleanup.phase ≠ .left))
  | .reconcileCleared => inferInstanceAs (Decidable True)
  | .cleaned ok => inferInstanceAs (Decidable (w.cleanup.phase = .pass → ok = false → w.cleanup.dirty = false))
  | .cleanupCleared => inferInstanceAs (Decidable True)
  | .dispose => inferInstanceAs (Decidable (w.disposed = false → w.reconcile.dirty = false ∧ w.cleanup.dirty = false))

/-- Nothing throws, and the deliverer calls nothing back. -/
def quiet : Attempt := ⟨fun _ => false, fun _ => none, fun _ => [], fun _ => false⟩

def finishedRow : SessionRow where
  id := "wrk-aaaaaaaa"
  slug := "a"
  status := .finished
  modelRef := "m"
  mindId := "elm-aaaaaaaa"
  runtime := .kubernetes
  controlTokenDigest := ""
  podName := none
  podUid := none
  workspaceRef := none
  source := none
  createdAt := 1
  updatedAt := 2
  lastError := none
  completionNotifiedAt := none
  runtimeCleanupCompletedAt := none
  runtimeCleanupError := none
  canonical := by decide

def oneSession : Table SessionRow.id := Table.empty.insert finishedRow (fun _ h => absurd h Table.not_mem_empty)

theorem held_throughout_delivered : Throughout step (Held oneSession) (World.started oneSession)
    [.activate quiet, .call (.delivered 1 5 false), .call .reconcile, .recovered true quiet, .cleaned true] :=
  held_throughout oneSession
    [.activate quiet, .call (.delivered 1 5 false), .call .reconcile, .recovered true quiet, .cleaned true]
    (by decide)

/-- The second request comes while a pass runs that fails. The callback of a notice that was
dropped marks the session, whose newer notice is outstanding. -/
theorem request_lost_and_marked_stale :
    ¬Held oneSession (run step (World.started oneSession)
      [.call .reconcile, .call .reconcile, .recovered false quiet, .reconcileCleared]) ∧
    ¬Held oneSession (run step (World.started oneSession)
      [.activate quiet, .call (.dropped 1), .finish quiet, .call (.delivered 1 5 false)]) := by
  constructor
  · intro h
    have hphase := (h.reconcile (by decide)).2.1
    revert hphase
    decide
  · intro h
    have hmarks := h.marks
    revert hmarks
    decide

end Elpis.Worker.Supervisor
