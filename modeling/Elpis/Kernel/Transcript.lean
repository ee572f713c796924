import Elpis.Kernel.Recovery

/-!
# The messages a resumed episode sends

A model takes a list of messages only if every tool call has its result. The journal
writes the assistant message and each result as records of their own, and a process
that ends in between leaves calls without a result. The next process looks at the
prepared tools only: where one is pending it refuses, and in every other case it
sends the messages as they are. `completions_wellFormed` says exactly when these are
well formed.
-/

namespace Elpis.Kernel

open Elpis.Lib WorkerJournalState

/-! ## Well-formed lists of messages -/

/-- The calls that wait for a result after one more message, by their ids. A result
answers a call that waits, and no other message may come before the last result. -/
def answer (waiting : List String) (m : ChatMessage) : Option (List String) :=
  match m.role with
  | .tool =>
      match m.toolCallId with
      | some id => if id ∈ waiting then some (waiting.erase id) else none
      | none => none
  | .assistant => if waiting = [] then some (m.toolCalls.map ToolCall.id) else none
  | .system | .user => if waiting = [] then some [] else none

/-- The calls that wait at the end, `none` when a message came out of place. -/
def waits (ms : List ChatMessage) : Option (List String) := ms.foldlM answer []

/-- Every call has exactly one result before the next message that is none, and every
result has its call. -/
def WellFormed (ms : List ChatMessage) : Prop := waits ms = some []

instance (ms : List ChatMessage) : Decidable (WellFormed ms) :=
  inferInstanceAs (Decidable (waits ms = some []))

theorem waits_append (ms ms' : List ChatMessage) :
    waits (ms ++ ms') = (waits ms).bind (fun w => ms'.foldlM answer w) := List.foldlM_append

theorem answers_told {ms : List ChatMessage}
    (hms : ∀ m ∈ ms, m.role = .system ∨ m.role = .user) : ms.foldlM answer [] = some [] := by
  induction ms with
  | nil => rfl
  | cons m ms ih =>
      have hm : answer [] m = some [] := by
        unfold answer
        rcases hms m List.mem_cons_self with hrole | hrole
        · rw [hrole]
          rfl
        · rw [hrole]
          rfl
      rw [List.foldlM_cons, hm]
      exact ih (fun m' hm' => hms m' (List.mem_cons_of_mem _ hm'))

theorem answer_assistant {m : ChatMessage} (hrole : m.role = .assistant) :
    answer [] m = some (m.toolCalls.map ToolCall.id) := by
  unfold answer
  rw [hrole]
  rfl

theorem answer_result {m : ChatMessage} {call : ToolCall} {waiting : List String}
    (hm : m.answers call) : answer (call.id :: waiting) m = some waiting := by
  unfold answer
  rw [hm.1, hm.2]
  simp

theorem answer_blocked {m : ChatMessage} {waiting : List String} (hw : waiting ≠ [])
    (hrole : m.role ≠ .tool) : answer waiting m = none := by
  unfold answer
  cases hr : m.role with
  | tool => exact absurd hr hrole
  | assistant => exact if_neg hw
  | system => exact if_neg hw
  | user => exact if_neg hw

/-! ## Open calls -/

/-- The calls without a result after one more record, counted. -/
def countCalls (n : ℕ) : WorkerJournalRecord → ℕ
  | .message m =>
      match m.role with
      | .assistant => m.toolCalls.length
      | .tool => n - 1
      | .system | .user => n
  | .toolCompleted _ _ => n - 1
  | _ => n

/-- The calls of the last assistant record, less the results after it. -/
def openCalls (rs : List WorkerJournalRecord) : ℕ := rs.foldl countCalls 0

theorem openCalls_append {rs : List WorkerJournalRecord} {r : WorkerJournalRecord} :
    openCalls (rs ++ [r]) = countCalls (openCalls rs) r := by
  unfold openCalls
  rw [List.foldl_append]
  rfl

/-- The file does not end inside a batch of calls, or a call is prepared in it. -/
def Settled (rs : List WorkerJournalRecord) : Prop :=
  openCalls rs = 0 ∨ (replay rs).pendingTools ≠ []

instance (rs : List WorkerJournalRecord) : Decidable (Settled rs) :=
  inferInstanceAs (Decidable (_ ∨ _))

/-- Every process finds a settled file. -/
def SettledRun (cfg : EpisodeConfig) (ps : List Incarnation) : Prop :=
  ∀ before p after, ps = before ++ p :: after → Settled (recordsOf (history cfg before))

/-- The lists of messages sent to the model. -/
def completions (es : List EpisodeEvent) : List (List ChatMessage) :=
  es.filterMap (fun
    | .asked (.complete ms) => some ms
    | _ => none)

variable {cfg : EpisodeConfig} {t t' : Trail} {e : EpisodeEvent} {es : List EpisodeEvent}
  {r : WorkerJournalRecord}

/-! ## Along a process that found a settled file -/

/-- The calls of the last assistant message that have no result yet. -/
def Phase.owed : Phase → List ToolCall
  | .turn calls => calls
  | .prepared call rest | .running call rest => call :: rest
  | .refused => []

/-- The messages, the records and the place in the turn agree on the open calls. -/
structure Aligned (t : Trail) : Prop where
  counted : ∃ w, waits t.held.messages = some w ∧ openCalls t.records = w.length
  owed : t.phase ≠ .refused → waits t.held.messages = some (t.phase.owed.map ToolCall.id)

theorem aligned_start : Aligned Trail.start := ⟨⟨[], rfl, rfl⟩, fun _ => rfl⟩

theorem Aligned.openCalls (h : Aligned t) (hphase : t.phase ≠ .refused) :
    openCalls t.records = t.phase.owed.length := by
  obtain ⟨w, hw, hlen⟩ := h.counted
  rw [h.owed hphase] at hw
  cases hw
  rw [hlen, List.length_map]

theorem Aligned.write {phase : Phase} (h : Aligned t) (hphase : t.phase ≠ .refused)
    (hallows : t.held.Allows r)
    (hw : r.messages.foldlM answer (t.phase.owed.map ToolCall.id) = some (phase.owed.map ToolCall.id))
    (hn : countCalls t.phase.owed.length r = phase.owed.length) : Aligned (t.write r phase) := by
  have hwaits : waits (t.write r phase).held.messages = some (phase.owed.map ToolCall.id) := by
    rw [Trail.write_held, take_messages hallows, waits_append, h.owed hphase]
    exact hw
  refine ⟨⟨_, hwaits, ?_⟩, fun _ => hwaits⟩
  rw [Trail.write_records, openCalls_append, h.openCalls hphase, hn, List.length_map]

theorem Aligned.reopen (h : Aligned t) (hset : Settled t.records) : Aligned t.reopen := by
  obtain ⟨w, hw, hlen⟩ := h.counted
  refine ⟨⟨w, hw, hlen⟩, ?_⟩
  intro hphase
  have hnone : t.held.pendingTools = [] := by
    by_contra hsome
    exact hphase (if_neg hsome)
  have hzero : Elpis.Kernel.openCalls t.records = 0 := by
    rcases hset with hzero | hsome
    · exact hzero
    · exact absurd hnone hsome
  have hturn : t.reopen.phase = .turn [] := if_pos hnone
  rw [hlen] at hzero
  rw [hturn]
  show waits t.held.messages = some []
  rw [hw, List.length_eq_zero_iff.mp hzero]

theorem Phase.ne_refused {phase : Phase} {calls : List ToolCall} (h : phase = .turn calls) :
    phase ≠ .refused := by
  rw [h]
  exact Phase.noConfusion

theorem Move.aligned (h : Move cfg t e t') (ha : Aligned t) (hopened : e ≠ .opened) :
    Aligned t' := by
  cases h with
  | opened => exact absurd rfl hopened
  | idle | acknowledge | complete | ran | finish => exact ha
  | heard _ =>
      obtain ⟨hrecords, hphase⟩ := t.hear_keeps _ _
      refine ⟨?_, ?_⟩
      · unfold Trail.held
        rw [hrecords]
        exact ha.counted
      · unfold Trail.held
        rw [hrecords, hphase]
        exact ha.owed
  | initialized hphase hroles hallows =>
      refine ha.write (Phase.ne_refused hphase) hallows ?_ ?_
      · rw [hphase]
        exact answers_told hroles
      · rw [hphase]
        rfl
  | guidance hphase _ hallows =>
      refine ha.write (Phase.ne_refused hphase) hallows ?_ ?_
      · rw [hphase]
        rfl
      · rw [hphase]
        rfl
  | @assistant m hphase hrole =>
      refine ha.write (Phase.ne_refused hphase) trivial ?_ ?_
      · rw [hphase]
        show [m].foldlM answer [] = _
        rw [List.foldlM_cons, answer_assistant hrole]
        rfl
      · unfold countCalls
        simp only [hrole]
        rfl
  | @result m call rest hphase hm =>
      refine ha.write (Phase.ne_refused hphase) trivial ?_ ?_
      · rw [hphase]
        show [m].foldlM answer (call.id :: rest.map ToolCall.id) = _
        rw [List.foldlM_cons, answer_result hm]
        rfl
      · unfold countCalls
        simp only [hm.1, hphase]
        rfl
  | prepare hphase hallows =>
      refine ha.write (Phase.ne_refused hphase) hallows ?_ ?_
      · rw [hphase]
        rfl
      · rw [hphase]
        rfl
  | run hphase _ =>
      refine ⟨ha.counted, fun _ => ?_⟩
      have howed := ha.owed (by rw [hphase]; exact Phase.noConfusion)
      rw [hphase] at howed
      exact howed
  | @completeTool m call rest hphase hm hallows =>
      refine ha.write (by rw [hphase]; exact Phase.noConfusion) hallows ?_ ?_
      · rw [hphase]
        show [m].foldlM answer (call.id :: rest.map ToolCall.id) = _
        rw [List.foldlM_cons, answer_result hm]
        rfl
      · rw [hphase]
        rfl
  | prepareFinish hphase hallows | finished hphase hallows =>
      refine ha.write (Phase.ne_refused hphase) hallows ?_ ?_
      · rw [hphase]
        rfl
      · rw [hphase]
        rfl

/-- What such a process sends is well formed. -/
theorem accepts_aligned (h : Accepts (Move cfg) t es t') (hopened : .opened ∉ es)
    (ha : Aligned t) : Aligned t' ∧ ∀ ms ∈ completions es, WellFormed ms := by
  induction es generalizing t with
  | nil =>
      cases h
      exact ⟨ha, fun _ hms => absurd hms List.not_mem_nil⟩
  | cons e es ih =>
      obtain ⟨u, hmove, hrest⟩ := h
      have hne : e ≠ .opened := fun he => hopened (he ▸ List.mem_cons_self)
      obtain ⟨hend, hall⟩ :=
        ih hrest (fun hmem => hopened (List.mem_cons_of_mem _ hmem)) (hmove.aligned ha hne)
      refine ⟨hend, ?_⟩
      cases hmove with
      | complete hphase _ =>
          intro ms hms
          rcases List.mem_cons.mp hms with rfl | hms
          · have howed := ha.owed (Phase.ne_refused hphase)
            rw [hphase] at howed
            exact howed
          · exact hall ms hms
      | idle _ hq =>
          cases ‹Request› with
          | complete ms => cases hq
          | _ => exact hall
      | opened | heard | initialized | guidance | acknowledge | assistant | result | prepare | run
        | ran | completeTool | prepareFinish | finish | finished => exact hall

/-! ## Along a process that found open calls -/

/-- A message came out of place, or calls wait that no process will answer. -/
def Stuck (t : Trail) : Prop :=
  waits t.held.messages = none ∨
    ∃ w, w ≠ [] ∧ waits t.held.messages = some w ∧ (t.phase = .turn [] ∨ t.phase = .refused)

theorem stuck_reopen {w : List String} (hw : waits t.held.messages = some w) (hne : w ≠ []) :
    Stuck t.reopen :=
  Or.inr ⟨w, hne, hw, t.reopen_phase⟩

theorem Stuck.not_wellFormed (h : Stuck t) : ¬WellFormed t.held.messages := by
  intro hwf
  unfold WellFormed at hwf
  rcases h with hnone | ⟨w, hne, hw, _⟩
  · rw [hwf] at hnone
    cases hnone
  · rw [hwf] at hw
    cases hw
    exact hne rfl

/-- A message that is no result, while calls wait. -/
theorem stuck_write {m : ChatMessage} {phase : Phase} {w : List String} (hne : w ≠ [])
    (hw : waits t.held.messages = some w) (hrole : m.role ≠ .tool) (hallows : t.held.Allows r)
    (hr : r.messages = [m]) : Stuck (t.write r phase) := by
  left
  rw [Trail.write_held, take_messages hallows, hr, waits_append, hw]
  show [m].foldlM answer w = none
  rw [List.foldlM_cons, answer_blocked hne hrole]
  rfl

theorem Move.stuck (h : Move cfg t e t') (hs : Stuck t) : Stuck t' := by
  rcases hs with hnone | ⟨w, hne, hw, hplace⟩
  · left
    rcases h.file with ⟨r, _, hallows, hrecords⟩ | ⟨_, hrecords⟩
    · rw [Trail.held_append hrecords, take_messages hallows, waits_append, hnone]
      rfl
    · unfold Trail.held
      rw [hrecords]
      exact hnone
  · have hturn : ∀ {phase}, t.phase = phase → phase = .turn [] ∨ phase = .refused := by
      rintro phase rfl
      exact hplace
    cases h with
    | opened => exact stuck_reopen hw hne
    | idle | acknowledge | complete | ran | finish => exact Or.inr ⟨w, hne, hw, hplace⟩
    | heard _ =>
        obtain ⟨hrecords, hphase⟩ := t.hear_keeps _ _
        right
        refine ⟨w, hne, ?_, ?_⟩
        · unfold Trail.held
          rw [hrecords]
          exact hw
        · rw [hphase]
          exact hplace
    | initialized _ _ hallows =>
        -- the list has messages, so it was not opened now
        rw [hallows.1] at hw
        cases hw
        exact absurd rfl hne
    | guidance _ _ hallows => exact stuck_write hne hw Role.noConfusion hallows rfl
    | assistant _ hrole =>
        refine stuck_write hne hw ?_ trivial rfl
        rw [hrole]
        exact Role.noConfusion
    | prepareFinish | finished =>
        refine Or.inr ⟨w, hne, ?_, Or.inl rfl⟩
        rw [Trail.write_held]
        exact hw
    | result hphase | prepare hphase | run hphase | completeTool hphase =>
        rcases hturn hphase with hno | hno
        · cases hno
        · cases hno

/-- Nothing that such a process sends is well formed. -/
theorem accepts_stuck (h : Accepts (Move cfg) t es t') (hs : Stuck t) :
    ∀ ms ∈ completions es, ¬WellFormed ms := by
  induction es generalizing t with
  | nil => exact fun _ hms => absurd hms List.not_mem_nil
  | cons e es ih =>
      obtain ⟨u, hmove, hrest⟩ := h
      have hall := ih hrest (hmove.stuck hs)
      cases hmove with
      | complete _ _ =>
          intro ms hms
          rcases List.mem_cons.mp hms with rfl | hms
          · exact hs.not_wellFormed
          · exact hall ms hms
      | idle _ hq =>
          cases ‹Request› with
          | complete ms => cases hq
          | _ => exact hall
      | opened | heard | initialized | guidance | acknowledge | assistant | result | prepare | run
        | ran | completeTool | prepareFinish | finish | finished => exact hall

/-! ## Every history -/

/-- A process does nothing, or begins once. -/
theorem incarnation_opened (cfg : EpisodeConfig) (es : List EpisodeEvent) (p : Incarnation) :
    incarnation cfg es p = [] ∨
      ∃ rest, incarnation cfg es p = .opened :: rest ∧ .opened ∉ rest := by
  unfold incarnation
  split
  · exact Or.inl rfl
  · refine Or.inr ⟨_, rfl, ?_⟩
    intro hmem
    exact Prog.opened_not_mem_trace _ _ _ (List.mem_of_mem_take hmem)

theorem completions_append (es fs : List EpisodeEvent) :
    completions (es ++ fs) = completions es ++ completions fs := List.filterMap_append

/-- A process over a settled file. -/
theorem aligned_incarnation (p : Incarnation) (hrecords : t.records = recordsOf es)
    (ha : Aligned t) (hset : Settled t.records) :
    ∃ t', Accepts (Move cfg) t (incarnation cfg es p) t' ∧ Aligned t' ∧
      ∀ ms ∈ completions (incarnation cfg es p), WellFormed ms := by
  have hp : ∃ t', Accepts (Move cfg) t (incarnation cfg es p) t' := accepted_incarnation hrecords p
  obtain ⟨t', ht'⟩ := hp
  refine ⟨t', ht', ?_⟩
  rcases incarnation_opened cfg es p with hnil | ⟨rest, hrest, hopened⟩
  · rw [hnil] at ht' ⊢
    cases ht'
    exact ⟨ha, fun _ hms => absurd hms List.not_mem_nil⟩
  · rw [hrest] at ht' ⊢
    obtain ⟨u, hmove, hu⟩ := ht'
    cases hmove
    -- `opened` sends nothing
    have hrun := accepts_aligned hu hopened (ha.reopen hset)
    exact hrun

theorem aligned_history (ps : List Incarnation) (hset : SettledRun cfg ps) :
    ∃ t, Accepts (Move cfg) Trail.start (history cfg ps) t ∧ Aligned t ∧
      ∀ ms ∈ completions (history cfg ps), WellFormed ms := by
  induction ps using List.reverseRecOn with
  | nil => exact ⟨Trail.start, rfl, aligned_start, fun _ hms => absurd hms List.not_mem_nil⟩
  | append_singleton ps p ih =>
      have hbefore : SettledRun cfg ps := by
        intro before q after hps
        refine hset before q (after ++ [p]) ?_
        rw [hps, List.append_assoc]
        rfl
      obtain ⟨t, ht, ha, hall⟩ := ih hbefore
      have hrecords : t.records = recordsOf (history cfg ps) := accepts_records ht
      have hsettled : Settled t.records := by
        rw [hrecords]
        exact hset ps p [] rfl
      obtain ⟨t', ht', ha', hall'⟩ := aligned_incarnation p hrecords ha hsettled
      refine ⟨t', ?_, ha', ?_⟩
      · rw [history_append]
        exact accepts_append.mpr ⟨t, ht, ht'⟩
      · rw [history_append, completions_append]
        intro ms hms
        rcases List.mem_append.mp hms with hms | hms
        · exact hall ms hms
        · exact hall' ms hms

/-- **When a resumed episode sends well-formed messages.** In every history whose
processes all found a settled file, all lists of messages sent to the model are well
formed; and what one more process sends is well formed exactly when the file it finds
has no open call. -/
theorem completions_wellFormed (cfg : EpisodeConfig) (ps : List Incarnation)
    (hset : SettledRun cfg ps) :
    (∀ ms ∈ completions (history cfg ps), WellFormed ms) ∧
    ∀ p, ∀ ms ∈ completions (incarnation cfg (history cfg ps) p),
      (WellFormed ms ↔ openCalls (recordsOf (history cfg ps)) = 0) := by
  obtain ⟨t, ht, ha, hall⟩ := aligned_history ps hset
  refine ⟨hall, ?_⟩
  intro p ms hms
  have hrecords : t.records = recordsOf (history cfg ps) := accepts_records ht
  rw [← hrecords]
  by_cases hzero : openCalls t.records = 0
  · have hsettled : Settled t.records := Or.inl hzero
    have hp : ∃ t', Accepts (Move cfg) t (incarnation cfg (history cfg ps) p) t' ∧ Aligned t' ∧
        ∀ ms ∈ completions (incarnation cfg (history cfg ps) p), WellFormed ms :=
      aligned_incarnation p hrecords ha hsettled
    obtain ⟨_, _, _, hall'⟩ := hp
    exact iff_of_true (hall' ms hms) hzero
  · refine iff_of_false ?_ hzero
    obtain ⟨w, hw, hlen⟩ := ha.counted
    have hne : w ≠ [] := by
      rintro rfl
      exact hzero hlen
    have hp : ∃ t', Accepts (Move cfg) t (incarnation cfg (history cfg ps) p) t' :=
      accepted_incarnation hrecords p
    obtain ⟨t', ht'⟩ := hp
    rcases incarnation_opened cfg (history cfg ps) p with hnil | ⟨rest, hrest, _⟩
    · rw [hnil] at hms
      cases hms
    · rw [hrest] at ht' hms
      obtain ⟨u, hmove, hu⟩ := ht'
      cases hmove
      exact accepts_stuck hu (stuck_reopen hw hne) ms hms

/-! ## A crash inside a batch -/

/-- `JSON.parse` on the arguments below. -/
def thoughtParse (_ : String) : Except String Json := .ok (.object [("thoughts", .text "Plan")])

def thoughtConfig : EpisodeConfig := ⟨thoughtParse, id, false, 64, 128⟩

/-- A model that thinks in every turn. -/
def thoughtOracle : Oracle Reply := fun _ q =>
  match q with
  | .aborted => false
  | .now => (0 : ℤ)
  | .getMandate => .ok ⟨"item-1", "Title", "Body", "open", "[]", "[]"⟩
  | .pullGuidance => .ok []
  | .complete _ => .ok ⟨.assistant, "", [⟨"c1", "think", "\x7b\"thoughts\":\"Plan\"\x7d"⟩], none⟩
  | .run _ => .ok ⟨false, "\x7b\x7d"⟩
  | .acknowledgeGuidance _ | .beforeFinish _ _ | .finish _ _ => .ok ()

/-- The first process ends right after the assistant record, and the next one sends
the model a call without a result. -/
theorem thought_lost :
    completions (history thoughtConfig [⟨thoughtOracle, 12⟩]) ≠ [] ∧
      ∃ ms ∈ completions (incarnation thoughtConfig (history thoughtConfig [⟨thoughtOracle, 12⟩])
        ⟨thoughtOracle, 5⟩), ¬WellFormed ms := by
  decide

/-- One record later the file is settled, and the next process goes on. -/
theorem completions_wellFormed_thought :
    SettledRun thoughtConfig [⟨thoughtOracle, 13⟩, ⟨thoughtOracle, 5⟩] ∧
      (completions (history thoughtConfig [⟨thoughtOracle, 13⟩, ⟨thoughtOracle, 5⟩])).length = 2 ∧
      ∀ ms ∈ completions (history thoughtConfig [⟨thoughtOracle, 13⟩, ⟨thoughtOracle, 5⟩]),
        WellFormed ms := by
  have hset : SettledRun thoughtConfig [⟨thoughtOracle, 13⟩, ⟨thoughtOracle, 5⟩] := by
    rintro (_ | ⟨b, _ | ⟨b', before⟩⟩) p after h
    · exact Or.inl rfl
    · cases h
      decide
    · simp at h
  exact ⟨hset, by decide, (completions_wellFormed _ _ hset).1⟩

end Elpis.Kernel
