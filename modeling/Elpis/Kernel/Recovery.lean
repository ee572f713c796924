import Elpis.Kernel.Protocol
import Elpis.Worker.Safety

/-!
# What holds across crashes

The results about whole histories of an episode, any number of processes over one
file: each tool call reaches the sandbox at most once, guidance is acknowledged only
once it is in the file, one finish is posted, and when the list of messages a new
process sends to the model is well formed. All are read off the protocol.
-/

namespace Elpis.Kernel

open Elpis.Lib WorkerJournalState

variable {cfg : EpisodeConfig} {t t' : Trail} {e : EpisodeEvent} {es pre mid post : List EpisodeEvent}

/-- An event of an accepted list, with the trail before it. -/
theorem accepts_at (h : Accepts (Move cfg) t (pre ++ e :: post) t') :
    ∃ u v, Accepts (Move cfg) t pre u ∧ Move cfg u e v ∧ Accepts (Move cfg) v post t' := by
  obtain ⟨u, hpre, v, hmove, hpost⟩ := accepts_append.mp h
  exact ⟨u, v, hpre, hmove, hpost⟩

theorem Trail.reopen_phase (t : Trail) : t.reopen.phase = .turn [] ∨ t.reopen.phase = .refused := by
  unfold Trail.reopen
  simp only
  split
  · exact Or.inl rfl
  · exact Or.inr rfl

/-! ## The file -/

/-- A move leaves the file, or appends a record that the state allows. -/
theorem Move.file (h : Move cfg t e t') :
    (∃ r, e = .wrote r ∧ t.held.Allows r ∧ t'.records = t.records ++ [r]) ∨
      ((∀ r, e ≠ .wrote r) ∧ t'.records = t.records) := by
  cases h with
  | assistant | result => exact Or.inl ⟨_, rfl, trivial, rfl⟩
  | initialized _ _ hallows | guidance _ _ hallows | prepare _ hallows | completeTool _ _ hallows
    | prepareFinish _ hallows | finished _ hallows => exact Or.inl ⟨_, rfl, hallows, rfl⟩
  | heard => exact Or.inr ⟨fun _ hr => (by cases hr), (t.hear_keeps _ _).1⟩
  | opened | idle | acknowledge | complete | run | ran | finish =>
      exact Or.inr ⟨fun _ hr => (by cases hr), rfl⟩

theorem Trail.held_append {r : WorkerJournalRecord} (h : t'.records = t.records ++ [r]) :
    t'.held = t.held.take r := by
  unfold Trail.held
  rw [h, replay_append]

theorem Move.journalled (h : Move cfg t e t') (hj : Journalled t.records t.held) :
    Journalled t'.records t'.held := by
  rcases h.file with ⟨r, _, hallows, hrecords⟩ | ⟨_, hrecords⟩
  · rw [Trail.held_append hrecords, hrecords]
    exact hj.take hallows
  · unfold Trail.held
    rw [hrecords]
    exact hj

theorem accepted_journalled (h : Accepts (Move cfg) Trail.start es t) :
    Journalled t.records t.held := by
  have hstep : ∀ e u v, Journalled u.records u.held → Move cfg u e v →
      Journalled v.records v.held := fun _ _ _ hj hmove => hmove.journalled hj
  exact accepts_keeps (P := fun t => Journalled t.records t.held) hstep journalled_empty h

theorem accepted_wrote {r : WorkerJournalRecord} (h : Accepts (Move cfg) Trail.start es t)
    (hr : r ∈ t.records) : .wrote r ∈ es := by
  rw [accepts_records h] at hr
  obtain ⟨e, he, hwrote⟩ := List.mem_filterMap.mp hr
  cases e with
  | wrote r' =>
      cases hwrote
      exact he
  | opened | asked | replied => cases hwrote

/-! ## The sandbox -/

/-- The code the sandbox is asked to run. -/
def runCodes (es : List EpisodeEvent) : List String :=
  es.filterMap (fun
    | .asked (.run code) => some code
    | _ => none)

/-- The calls of the last assistant message that the sandbox may still get. -/
def Phase.upcoming : Phase → List ToolCall
  | .turn calls => calls
  | .prepared call rest => call :: rest
  | .running _ rest => rest
  | .refused => []

/-- These calls were run, in this order. -/
def Ran (cfg : EpisodeConfig) (calls : List ToolCall) (codes : List String) : Prop :=
  calls.map (fun call => runArguments cfg call.arguments) = codes.map Except.ok

theorem Move.of_prepared {call : ToolCall} {rest : List ToolCall} (h : Move cfg t e t')
    (hphase : t'.phase = .prepared call rest) : ∃ at', e = .wrote (.toolPrepared call at') := by
  cases h with
  | prepare hturn _ =>
      cases hphase
      exact ⟨_, rfl⟩
  | opened =>
      rcases t.reopen_phase with hreopen | hreopen
      · rw [hreopen] at hphase
        cases hphase
      · rw [hreopen] at hphase
        cases hphase
  | heard hturn =>
      rw [(t.hear_keeps _ _).2, hturn] at hphase
      cases hphase
  | idle hturn | acknowledge hturn | complete hturn | finish hturn | ran hturn =>
      rw [hturn] at hphase
      cases hphase
  | initialized | guidance | assistant | result | run | completeTool | prepareFinish
    | finished => cases hphase

/-- The record that prepared a call is the last event. -/
theorem accepted_prepared {call : ToolCall} {rest : List ToolCall}
    (h : Accepts (Move cfg) Trail.start es t) (hphase : t.phase = .prepared call rest) :
    ∃ before at', es = before ++ [.wrote (.toolPrepared call at')] := by
  cases es using List.reverseRecOn with
  | nil =>
      cases h
      cases hphase
  | append_singleton before e =>
      obtain ⟨u, v, _, hmove, hv⟩ := accepts_at h
      cases hv
      obtain ⟨at', rfl⟩ := hmove.of_prepared hphase
      exact ⟨before, at', rfl⟩

theorem Trail.reopen_upcoming (t : Trail) : t.reopen.phase.upcoming = [] := by
  rcases t.reopen_phase with hreopen | hreopen
  · rw [hreopen]
    rfl
  · rw [hreopen]
    rfl

/-- Until the next assistant message, what is run are calls of the last one, in order
and none twice. A process that starts in between runs none of them again. -/
theorem accepted_ran (h : Accepts (Move cfg) t mid t')
    (hmid : ∀ m, .wrote (.message m) ∈ mid → m.role ≠ .assistant) :
    ∃ calls, calls.Sublist t.phase.upcoming ∧ Ran cfg calls (runCodes mid) := by
  induction mid generalizing t with
  | nil => exact ⟨[], List.nil_sublist _, rfl⟩
  | cons e mid ih =>
      obtain ⟨u, hmove, hrest⟩ := h
      obtain ⟨calls, hsub, hran⟩ := ih hrest (fun m hm => hmid m (List.mem_cons_of_mem _ hm))
      cases hmove with
      | opened =>
          rw [t.reopen_upcoming] at hsub
          exact ⟨calls, hsub.trans (List.nil_sublist _), hran⟩
      | heard _ =>
          rw [(t.hear_keeps _ _).2] at hsub
          exact ⟨calls, hsub, hran⟩
      | assistant _ hrole => exact absurd hrole (hmid _ List.mem_cons_self)
      | run hphase hcode =>
          refine ⟨_ :: calls, ?_, congrArg₂ List.cons hcode hran⟩
          rw [hphase]
          exact List.Sublist.cons_cons _ hsub
      | result hphase _ =>
          refine ⟨calls, ?_, hran⟩
          rw [hphase]
          exact hsub.trans (List.sublist_cons_self _ _)
      | prepare hphase _ | completeTool hphase _ _ | initialized hphase _ _ | guidance hphase _ _
        | prepareFinish hphase _ | finished hphase _ =>
          refine ⟨calls, ?_, hran⟩
          rw [hphase]
          exact hsub
      | idle _ hq =>
          refine ⟨calls, hsub, ?_⟩
          cases ‹Request› with
          | run code => cases hq
          | _ => exact hran
      | acknowledge | complete | ran | finish => exact ⟨calls, hsub, hran⟩

/-! ## Guidance -/

/-- All the guidance that was pulled. -/
def Heard (es : List EpisodeEvent) (entry : WorkerGuidance) : Prop :=
  ∃ entries, .replied .pullGuidance (.ok entries) ∈ es ∧ entry ∈ entries

/-- What was pulled last was pulled. -/
theorem accepted_pulled (h : Accepts (Move cfg) Trail.start es t) : ∀ entry ∈ t.pulled, Heard es entry := by
  let P : List EpisodeEvent → Trail → Prop := fun es t => ∀ entry ∈ t.pulled, Heard es entry
  have hstep : ∀ es e u v, P es u → Move cfg u e v → P (es ++ [e]) v := by
    intro es e u v hP hmove entry hentry
    have hold : ∀ {entry}, entry ∈ u.pulled → Heard (es ++ [e]) entry := by
      intro entry hentry
      obtain ⟨entries, hmem, hin⟩ := hP entry hentry
      exact ⟨entries, List.mem_append_left _ hmem, hin⟩
    cases hmove with
    | opened => cases hentry
    | @heard _ q x _ =>
        cases q with
        | pullGuidance =>
            cases x with
            | error e => exact hold hentry
            | ok entries => exact ⟨entries, List.mem_append_right _ (List.mem_singleton_self _), hentry⟩
        | aborted | now | getMandate | acknowledgeGuidance | complete | run | beforeFinish | finish =>
            exact hold hentry
    | idle | initialized | guidance | acknowledge | complete | assistant | result | prepare | run
      | ran | completeTool | prepareFinish | finish | finished => exact hold hentry
  have hinit : P [] Trail.start := fun entry hentry => absurd hentry List.not_mem_nil
  exact accepts_inv hstep hinit h

/-- A guidance record holds a message that was pulled before. -/
theorem accepted_guidance {id : ℤ} {m : ChatMessage} (h : Accepts (Move cfg) Trail.start es t)
    (hwrote : .wrote (.guidance id m) ∈ es) :
    ∃ entry, Heard es entry ∧ entry.id = id ∧ m = guidanceMessage entry := by
  obtain ⟨pre, post, rfl⟩ := List.append_of_mem hwrote
  obtain ⟨u, v, hpre, hmove, _⟩ := accepts_at h
  cases hmove with
  | @guidance entry _ hpulled _ =>
      obtain ⟨entries, hmem, hin⟩ := accepted_pulled hpre entry hpulled
      exact ⟨entry, ⟨entries, List.mem_append_left _ hmem, hin⟩, rfl, rfl⟩

theorem accepted_guidanceIds {id : ℤ} (h : Accepts (Move cfg) Trail.start es t)
    (hid : id ∈ t.held.guidanceIds) : ∃ m, .wrote (.guidance id m) ∈ es := by
  rw [(accepted_journalled h).guidance] at hid
  obtain ⟨r, hr, hguidance⟩ := List.mem_filterMap.mp hid
  cases r with
  | guidance id' m =>
      cases hguidance
      exact ⟨m, accepted_wrote h hr⟩
  | initialized | message | toolPrepared | toolCompleted | finishPrepared | finished | unknown =>
      cases hguidance

/-! ## The finish -/

/-- The finish of an episode is in the file. -/
def WorkerJournalState.Ends (st : WorkerJournalState) (fin : Finish) : Prop :=
  st.pendingFinish = some fin ∨ st.finished = some fin

theorem Journalled.ends_unique {rs : List WorkerJournalRecord} {st : WorkerJournalState}
    {fin fin' : Finish} (hj : Journalled rs st) (h : st.Ends fin) (h' : st.Ends fin') : fin = fin' := by
  have hboth : ∀ {f f'}, st.pendingFinish = some f → st.finished = some f' → False := by
    intro f f' hp hf
    have hnone : st.finished = none := by
      apply hj.finish
      rw [hp]
      exact Option.some_ne_none f
    rw [hnone] at hf
    cases hf
  rcases h with h | h
  · rcases h' with h' | h'
    · exact Option.some.inj (h.symm.trans h')
    · exact (hboth h h').elim
  · rcases h' with h' | h'
    · exact (hboth h' h).elim
    · exact Option.some.inj (h.symm.trans h')

theorem Journalled.ends_take {rs : List WorkerJournalRecord} {st : WorkerJournalState}
    {r : WorkerJournalRecord} {fin : Finish} (hj : Journalled rs st) (hr : st.Allows r)
    (h : st.Ends fin) : (st.take r).Ends fin := by
  cases r with
  | guidance id m =>
      rw [take_guidance hr]
      exact h
  | finishPrepared key body =>
      rcases h with h | h
      · rw [hr.1] at h
        cases h
      · rw [hr.2] at h
        cases h
  | finished key body =>
      have hpending : st.Ends ⟨key, body⟩ := Or.inl hr
      rw [hj.ends_unique h hpending]
      exact Or.inr rfl
  | initialized | message | toolPrepared | toolCompleted => exact h
  | unknown => exact h

/-- What was posted is in the file. -/
theorem accepted_finish {key body : String} (h : Accepts (Move cfg) Trail.start es t)
    (hfin : .asked (.finish key body) ∈ es) : t.held.Ends ⟨key, body⟩ := by
  obtain ⟨pre, post, rfl⟩ := List.append_of_mem hfin
  obtain ⟨u, v, hpre, hmove, hpost⟩ := accepts_at h
  have hstep : ∀ e u v, Journalled u.records u.held ∧ u.held.Ends ⟨key, body⟩ → Move cfg u e v →
      Journalled v.records v.held ∧ v.held.Ends ⟨key, body⟩ := by
    rintro e u v ⟨hj, hends⟩ hmove
    refine ⟨hmove.journalled hj, ?_⟩
    rcases hmove.file with ⟨r, _, hallows, hrecords⟩ | ⟨_, hrecords⟩
    · rw [Trail.held_append hrecords]
      exact hj.ends_take hallows hends
    · unfold Trail.held
      rw [hrecords]
      exact hends
  have hv : Journalled v.records v.held ∧ v.held.Ends ⟨key, body⟩ := by
    refine ⟨hmove.journalled (accepted_journalled hpre), ?_⟩
    cases hmove with
    | idle _ hq => cases hq
    | finish _ hpending => exact Or.inl hpending
  exact (accepts_keeps (P := fun t => Journalled t.records t.held ∧ t.held.Ends ⟨key, body⟩) hstep hv
    hpost).2

/-! ## Every effect of every history -/

/-- **At most once, and in order.** Over any processes that follow each other on one
file, each ended at any point: the sandbox gets a call only right after the record of
its preparation, and of the calls of an assistant message each at most once, however
often the episode is resumed; what is acknowledged is in the file; all posts of a
finish carry one key and one body, and a mailbox keeps at most one finish message
for a session. -/
theorem history_effects (cfg : EpisodeConfig) (ps : List Incarnation) :
    (∀ pre code post, history cfg ps = pre ++ .asked (.run code) :: post →
      ∃ before call at', pre = before ++ [.wrote (.toolPrepared call at')] ∧
        runArguments cfg call.arguments = .ok code) ∧
    (∀ pre m mid post, history cfg ps = pre ++ .wrote (.message m) :: (mid ++ post) →
      m.role = .assistant → (∀ m', .wrote (.message m') ∈ mid → m'.role ≠ .assistant) →
      ∃ calls, calls.Sublist m.toolCalls ∧ Ran cfg calls (runCodes mid)) ∧
    (∀ pre post, history cfg ps = pre ++ post →
      (∀ m, .wrote (.message m) ∈ pre → m.role ≠ .assistant) → runCodes pre = []) ∧
    (∀ pre ids post, history cfg ps = pre ++ .asked (.acknowledgeGuidance ids) :: post →
      ∀ id ∈ ids, ∃ entry, Heard pre entry ∧ entry.id = id ∧
        .wrote (.guidance id (guidanceMessage entry)) ∈ pre) ∧
    (∀ key body key' body', .asked (.finish key body) ∈ history cfg ps →
      .asked (.finish key' body') ∈ history cfg ps → key = key' ∧ body = body') ∧
    ∀ sha scfg acts id, ((Worker.World.reached sha scfg acts).db.messages.select
      (·.isFinishOf id)).length ≤ 1 := by
  have hhistory : ∃ t, Accepts (Move cfg) Trail.start (history cfg ps) t := accepted_history ps
  obtain ⟨t, ht⟩ := hhistory
  refine ⟨?_, ?_, ?_, ?_, ?_, ?_⟩
  · intro pre code post hes
    rw [hes] at ht
    obtain ⟨u, v, hpre, hmove, _⟩ := accepts_at ht
    cases hmove with
    | idle _ hq => cases hq
    | run hphase hcode =>
        obtain ⟨before, at', hbefore⟩ := accepted_prepared hpre hphase
        exact ⟨before, _, at', hbefore, hcode⟩
  · intro pre m mid post hes hrole hmid
    rw [hes] at ht
    obtain ⟨u, v, _, hmove, hrest⟩ := accepts_at ht
    obtain ⟨w, hw, _⟩ := accepts_append.mp hrest
    have hran := accepted_ran hw hmid
    cases hmove with
    | assistant => exact hran
    | result _ hm =>
        rw [hm.1] at hrole
        cases hrole
  · intro pre post hes hpre
    rw [hes] at ht
    obtain ⟨w, hw, _⟩ := accepts_append.mp ht
    obtain ⟨calls, hsub, hran⟩ := accepted_ran hw hpre
    cases List.sublist_nil.mp hsub
    exact List.map_eq_nil_iff.mp hran.symm
  · intro pre ids post hes id hid
    rw [hes] at ht
    obtain ⟨u, v, hpre, hmove, _⟩ := accepts_at ht
    cases hmove with
    | idle _ hq => cases hq
    | acknowledge _ hids =>
        obtain ⟨m, hm⟩ := accepted_guidanceIds hpre (hids id hid)
        obtain ⟨entry, hheard, hentry, rfl⟩ := accepted_guidance hpre hm
        exact ⟨entry, hheard, hentry, hm⟩
  · intro key body key' body' h h'
    have hsame := (accepted_journalled ht).ends_unique (accepted_finish ht h) (accepted_finish ht h')
    cases hsame
    exact ⟨rfl, rfl⟩
  · intro sha scfg acts id
    have hvalid := (Worker.sound_reached sha scfg acts).valid
    exact Table.length_select_le_one (hvalid.agrees.once id)

end Elpis.Kernel
