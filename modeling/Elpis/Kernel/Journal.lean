import Elpis.Lib.Run
import Mathlib.Tactic

/-!
# The worker journal

`src/kernel/worker-journal.ts`. An episode keeps its messages and its effects in a
file of records, one line each, synced before the next statement runs. `reduce`
reads such a file from scratch; the methods of `WorkerJournal` append a record and
change a state in memory. `reached_journal` says that the two never differ.
-/

namespace Elpis.Kernel

open Elpis.Lib

/-! ## Messages -/

inductive Role where
  | system | user | assistant | tool
deriving DecidableEq, Repr

structure ToolCall where
  id : String
  name : String
  arguments : String
deriving DecidableEq, Repr

/-- A missing `tool_calls` is the empty list. -/
structure ChatMessage where
  role : Role
  content : String
  toolCalls : List ToolCall
  toolCallId : Option String
deriving DecidableEq, Repr

/-! ## State and records -/

structure PreparedTool where
  call : ToolCall
  preparedAt : ℤ
deriving DecidableEq, Repr

structure Finish where
  key : String
  body : String
deriving DecidableEq, Repr

/-- `guidanceIds` is a set and `pendingTools` a map, both in insertion order. -/
structure WorkerJournalState where
  messages : List ChatMessage
  guidanceIds : List ℤ
  pendingTools : List (String × PreparedTool)
  pendingFinish : Option Finish
  finished : Option Finish
deriving DecidableEq, Repr

inductive WorkerJournalRecord where
  | initialized (messages : List ChatMessage)
  | message (message : ChatMessage)
  | guidance (id : ℤ) (message : ChatMessage)
  | toolPrepared (call : ToolCall) (preparedAt : ℤ)
  | toolCompleted (callId : String) (message : ChatMessage)
  | finishPrepared (key body : String)
  | finished (key body : String)
  /-- A line of another type, which only another program can have written. -/
  | unknown (type : String)
deriving DecidableEq, Repr

namespace WorkerJournalState

def empty : WorkerJournalState := ⟨[], [], [], none, none⟩

/-- `pendingTools.has`. -/
def hasTool (st : WorkerJournalState) (id : String) : Bool :=
  st.pendingTools.any (fun entry => decide (entry.1 = id))

/-- `pendingTools.set` of a key the map does not have. -/
def addTool (st : WorkerJournalState) (call : ToolCall) (preparedAt : ℤ) : WorkerJournalState :=
  { st with pendingTools := st.pendingTools ++ [(call.id, ⟨call, preparedAt⟩)] }

/-- `pendingTools.delete`. -/
def dropTool (st : WorkerJournalState) (id : String) : WorkerJournalState :=
  { st with pendingTools := st.pendingTools.filter (fun entry => decide (entry.1 ≠ id)) }

def push (st : WorkerJournalState) (messages : List ChatMessage) : WorkerJournalState :=
  { st with messages := st.messages ++ messages }

def addGuidance (st : WorkerJournalState) (id : ℤ) : WorkerJournalState :=
  { st with guidanceIds := st.guidanceIds ++ [id] }

end WorkerJournalState

open WorkerJournalState

/-- `Number.isSafeInteger(id) && id > 0`. -/
def isGuidanceId (id : ℤ) : Bool := decide (0 < id) && decide (id < 2 ^ 53)

/-! ## Reading a file -/

/-- The body of the loop of `reduce`. -/
def reduceEntry (st : WorkerJournalState) : WorkerJournalRecord → Except String WorkerJournalState
  | .initialized messages =>
      if st.messages ≠ [] ∨ messages = [] then
        .error "worker journal contains invalid initialization"
      else .ok (st.push messages)
  | .message message => .ok (st.push [message])
  | .guidance id message =>
      if isGuidanceId id = false then .error "worker journal contains an invalid guidance id"
      else if id ∈ st.guidanceIds then .ok st
      else .ok ((st.addGuidance id).push [message])
  | .toolPrepared call preparedAt =>
      if st.hasTool call.id then
        .error ("worker journal prepared tool " ++ call.id ++ " twice")
      else .ok (st.addTool call preparedAt)
  | .toolCompleted callId message =>
      if st.hasTool callId then .ok ((st.dropTool callId).push [message])
      else .error ("worker journal completed unprepared tool " ++ callId)
  | .finishPrepared key body =>
      match st.pendingFinish with
      | some pending =>
          if pending.key ≠ key ∨ pending.body ≠ body then
            .error "worker journal contains conflicting prepared finishes"
          else .ok { st with pendingFinish := some ⟨key, body⟩ }
      | none => .ok { st with pendingFinish := some ⟨key, body⟩ }
  | .finished key body =>
      match st.pendingFinish with
      | none => .error "worker journal completed an unprepared finish"
      | some pending =>
          if pending.key ≠ key ∨ pending.body ≠ body then
            .error "worker journal completed an unprepared finish"
          else
            match st.finished with
            | some done =>
                if done.key ≠ key ∨ done.body ≠ body then
                  .error "worker journal contains conflicting finish records"
                else .ok { st with pendingFinish := none, finished := some ⟨key, body⟩ }
            | none => .ok { st with pendingFinish := none, finished := some ⟨key, body⟩ }
  | .unknown type => .error ("worker journal contains unknown record type " ++ type)

def reduce (records : List WorkerJournalRecord) : Except String WorkerJournalState :=
  records.foldlM reduceEntry WorkerJournalState.empty

/-! ## Methods of the journal -/

/-- What a method does: the record it appends, if any, the state it leaves in memory
once that is durable, and what it returns. -/
structure Written (α : Type) where
  entry : Option WorkerJournalRecord
  next : WorkerJournalState
  result : α

namespace WorkerJournal

/-- `initialize`, whose name is a keyword here. -/
def initializeWith (st : WorkerJournalState) (messages : List ChatMessage) :
    Except String (Written Unit) :=
  if st.messages ≠ [] ∨ messages = [] then .error "worker journal is already initialized"
  else .ok ⟨some (.initialized messages), st.push messages, ()⟩

def appendMessage (st : WorkerJournalState) (message : ChatMessage) :
    Except String (Written Unit) :=
  .ok ⟨some (.message message), st.push [message], ()⟩

def appendGuidance (st : WorkerJournalState) (id : ℤ) (message : ChatMessage) :
    Except String (Written Bool) :=
  if id ∈ st.guidanceIds then .ok ⟨none, st, false⟩
  else .ok ⟨some (.guidance id message), (st.addGuidance id).push [message], true⟩

def prepareTool (st : WorkerJournalState) (call : ToolCall) (preparedAt : ℤ) :
    Except String (Written Unit) :=
  if st.hasTool call.id then .error ("worker tool " ++ call.id ++ " is already prepared")
  else .ok ⟨some (.toolPrepared call preparedAt), st.addTool call preparedAt, ()⟩

def completeTool (st : WorkerJournalState) (callId : String) (message : ChatMessage) :
    Except String (Written Unit) :=
  if st.hasTool callId then
    .ok ⟨some (.toolCompleted callId message), (st.dropTool callId).push [message], ()⟩
  else .error ("worker tool " ++ callId ++ " was not prepared")

def prepareFinish (st : WorkerJournalState) (key body : String) : Except String (Written Unit) :=
  match st.finished with
  | some done =>
      if done.key ≠ key ∨ done.body ≠ body then
        .error "worker episode already finished differently"
      else .ok ⟨none, st, ()⟩
  | none =>
      match st.pendingFinish with
      | some pending =>
          if pending.key ≠ key ∨ pending.body ≠ body then
            .error "worker episode has a different prepared finish"
          else .ok ⟨none, st, ()⟩
      | none =>
          .ok ⟨some (.finishPrepared key body), { st with pendingFinish := some ⟨key, body⟩ }, ()⟩

def completeFinish (st : WorkerJournalState) (key body : String) : Except String (Written Unit) :=
  match st.pendingFinish with
  | none => .error "worker finish was not prepared"
  | some pending =>
      if pending.key ≠ key ∨ pending.body ≠ body then .error "worker finish was not prepared"
      else .ok ⟨some (.finished key body),
        { st with pendingFinish := none, finished := some ⟨key, body⟩ }, ()⟩

end WorkerJournal

/-! ## A journal over any sequence of calls -/

/-- The file and the object that holds it open. -/
structure WorkerJournal where
  records : List WorkerJournalRecord
  current : WorkerJournalState

def WorkerJournal.empty : WorkerJournal := ⟨[], WorkerJournalState.empty⟩

/-- A method that threw has written nothing. -/
def WorkerJournal.commit {α : Type} (j : WorkerJournal) :
    Except String (Written α) → WorkerJournal
  | .ok w => ⟨j.records ++ w.entry.toList, w.next⟩
  | .error _ => j

inductive JournalCall where
  | initializeWith (messages : List ChatMessage)
  | appendMessage (message : ChatMessage)
  | appendGuidance (id : ℤ) (message : ChatMessage)
  | prepareTool (call : ToolCall) (preparedAt : ℤ)
  | completeTool (callId : String) (message : ChatMessage)
  | prepareFinish (key body : String)
  | completeFinish (key body : String)
  /-- A new process opens the file. -/
  | reopen

def WorkerJournal.step (j : WorkerJournal) : JournalCall → WorkerJournal
  | .initializeWith messages => j.commit (initializeWith j.current messages)
  | .appendMessage message => j.commit (appendMessage j.current message)
  | .appendGuidance id message => j.commit (appendGuidance j.current id message)
  | .prepareTool call preparedAt => j.commit (prepareTool j.current call preparedAt)
  | .completeTool callId message => j.commit (completeTool j.current callId message)
  | .prepareFinish key body => j.commit (prepareFinish j.current key body)
  | .completeFinish key body => j.commit (completeFinish j.current key body)
  | .reopen =>
      match reduce j.records with
      | .ok st => { j with current := st }
      | .error _ => j

/-- The journal after some calls on a new file. -/
def WorkerJournal.reached (calls : List JournalCall) : WorkerJournal :=
  run WorkerJournal.step WorkerJournal.empty calls

/-- The ids that `pullGuidance` hands over: positive safe integers. -/
def JournalCall.validId : JournalCall → Bool
  | .appendGuidance id _ => isGuidanceId id
  | _ => true

/-! ## What a record does -/

/-- The state a record leaves, its checks aside. -/
def WorkerJournalState.take (st : WorkerJournalState) : WorkerJournalRecord → WorkerJournalState
  | .initialized messages => st.push messages
  | .message message => st.push [message]
  | .guidance id message =>
      if id ∈ st.guidanceIds then st else (st.addGuidance id).push [message]
  | .toolPrepared call preparedAt => st.addTool call preparedAt
  | .toolCompleted callId message => (st.dropTool callId).push [message]
  | .finishPrepared key body => { st with pendingFinish := some ⟨key, body⟩ }
  | .finished key body => { st with pendingFinish := none, finished := some ⟨key, body⟩ }
  | .unknown _ => st

theorem take_guidance {st : WorkerJournalState} {id : ℤ} {m : ChatMessage}
    (h : id ∉ st.guidanceIds) : st.take (.guidance id m) = (st.addGuidance id).push [m] :=
  if_neg h

/-- What a method has checked before it appends a record. -/
def WorkerJournalState.Allows (st : WorkerJournalState) : WorkerJournalRecord → Prop
  | .initialized messages => st.messages = [] ∧ messages ≠ []
  | .message _ => True
  | .guidance id _ => id ∉ st.guidanceIds
  | .toolPrepared call _ => st.hasTool call.id = false
  | .toolCompleted callId _ => st.hasTool callId = true
  | .finishPrepared _ _ => st.pendingFinish = none ∧ st.finished = none
  | .finished key body => st.pendingFinish = some ⟨key, body⟩
  | .unknown _ => False

variable {st st' : WorkerJournalState} {r : WorkerJournalRecord} {rs : List WorkerJournalRecord}

/-- A line that is read changes the state as its record does. -/
theorem reduceEntry_take (h : reduceEntry st r = .ok st') : st' = st.take r := by
  cases r with
  | initialized messages =>
      simp only [reduceEntry] at h
      split at h
      · cases h
      · cases h
        rfl
  | message message =>
      cases h
      rfl
  | guidance id message =>
      simp only [reduceEntry] at h
      split at h
      · cases h
      · simp only [take]
        split at h
        · next hmem =>
            cases h
            rw [if_pos hmem]
        · next hmem =>
            cases h
            rw [if_neg hmem]
  | toolPrepared call preparedAt =>
      simp only [reduceEntry] at h
      split at h
      · cases h
      · cases h
        rfl
  | toolCompleted callId message =>
      simp only [reduceEntry] at h
      split at h
      · cases h
        rfl
      · cases h
  | finishPrepared key body =>
      simp only [reduceEntry] at h
      split at h
      · split at h
        · cases h
        · cases h
          rfl
      · cases h
        rfl
  | finished key body =>
      simp only [reduceEntry] at h
      split at h
      · cases h
      · split at h
        · cases h
        · split at h
          · split at h
            · cases h
            · cases h
              rfl
          · cases h
            rfl
  | unknown type => cases h

/-- The state of a file whose lines are taken as they are. -/
def replay (rs : List WorkerJournalRecord) : WorkerJournalState :=
  rs.foldl WorkerJournalState.take WorkerJournalState.empty

theorem replay_append : replay (rs ++ [r]) = (replay rs).take r := by
  unfold replay
  rw [List.foldl_append]
  rfl

theorem reduce_append :
    reduce (rs ++ [r]) = reduce rs >>= fun st => reduceEntry st r := by
  unfold reduce
  rw [List.foldlM_append]
  congr 1
  funext st
  rw [List.foldlM_cons]
  cases reduceEntry st r with
  | error e => rfl
  | ok st' => rfl

/-- What `reduce` accepts, it replays. -/
theorem reduce_replay (h : reduce rs = .ok st) : st = replay rs := by
  induction rs using List.reverseRecOn generalizing st with
  | nil =>
      cases h
      rfl
  | append_singleton rs r ih =>
      rw [reduce_append] at h
      cases hr : reduce rs with
      | error e =>
          rw [hr] at h
          cases h
      | ok st₀ =>
          rw [hr] at h
          rw [replay_append, ← ih hr]
          exact reduceEntry_take h

/-- A record that was allowed is read again, unless its id is no guidance id. -/
theorem reduceEntry_of_allows (h : st.Allows r) (hid : ∀ id m, r = .guidance id m → isGuidanceId id = true)
    (hfin : st.pendingFinish ≠ none → st.finished = none) :
    reduceEntry st r = .ok (st.take r) := by
  cases r with
  | initialized messages =>
      obtain ⟨hempty, hne⟩ := h
      simp only [reduceEntry, take]
      rw [if_neg]
      rintro (hm | hm)
      · exact hm hempty
      · exact hne hm
  | message message => rfl
  | guidance id message =>
      rw [take_guidance h]
      simp only [reduceEntry]
      rw [hid id message rfl, if_neg (by decide), if_neg h]
  | toolPrepared call preparedAt =>
      have hno : st.hasTool call.id = false := h
      simp only [reduceEntry, take]
      rw [hno, if_neg (by decide)]
  | toolCompleted callId message =>
      have hyes : st.hasTool callId = true := h
      simp only [reduceEntry, take]
      rw [hyes, if_pos rfl]
  | finishPrepared key body =>
      simp only [reduceEntry, take]
      rw [h.1]
  | finished key body =>
      have hpending : st.pendingFinish = some ⟨key, body⟩ := h
      have hnone : st.finished = none := by
        apply hfin
        rw [hpending]
        exact Option.some_ne_none _
      simp only [reduceEntry, take]
      rw [hpending, hnone]
      simp
  | unknown type => cases h

/-! ## What a record says -/

namespace WorkerJournalRecord

/-- The messages a record adds. -/
def messages : WorkerJournalRecord → List ChatMessage
  | .initialized ms => ms
  | .message m | .guidance _ m | .toolCompleted _ m => [m]
  | _ => []

def guidanceId : WorkerJournalRecord → Option ℤ
  | .guidance id _ => some id
  | _ => none

def prepares (id : String) : WorkerJournalRecord → Bool
  | .toolPrepared call _ => decide (call.id = id)
  | _ => false

def completes (id : String) : WorkerJournalRecord → Bool
  | .toolCompleted callId _ => decide (callId = id)
  | _ => false

end WorkerJournalRecord

/-! ## What every method does -/

/-- A method changes nothing, or appends a record it has checked and takes it. The
record is one of guidance under the id `gid`, or of none. -/
def Written.Follows {α : Type} (gid : Option ℤ) (w : Written α) (st : WorkerJournalState) : Prop :=
  (w.entry = none ∧ w.next = st) ∨
    ∃ r, w.entry = some r ∧ r.guidanceId = gid ∧ st.Allows r ∧ w.next = st.take r

namespace WorkerJournal

variable {w : Written Unit}

theorem initializeWith_follows {messages : List ChatMessage}
    (h : initializeWith st messages = .ok w) : w.Follows none st := by
  unfold initializeWith at h
  split at h
  · cases h
  · next hc =>
      rw [not_or, not_not] at hc
      cases h
      exact Or.inr ⟨_, rfl, rfl, hc, rfl⟩

theorem appendMessage_follows {message : ChatMessage}
    (h : appendMessage st message = .ok w) : w.Follows none st := by
  cases h
  exact Or.inr ⟨_, rfl, rfl, trivial, rfl⟩

theorem appendGuidance_follows {id : ℤ} {message : ChatMessage} {w : Written Bool}
    (h : appendGuidance st id message = .ok w) : w.Follows (some id) st := by
  unfold appendGuidance at h
  split at h
  · cases h
    exact Or.inl ⟨rfl, rfl⟩
  · next hnew =>
      cases h
      exact Or.inr ⟨_, rfl, rfl, hnew, (take_guidance hnew).symm⟩

theorem prepareTool_follows {call : ToolCall} {preparedAt : ℤ}
    (h : prepareTool st call preparedAt = .ok w) : w.Follows none st := by
  unfold prepareTool at h
  split at h
  · cases h
  · next hno =>
      cases h
      exact Or.inr ⟨_, rfl, rfl, Bool.eq_false_iff.mpr hno, rfl⟩

theorem completeTool_follows {callId : String} {message : ChatMessage}
    (h : completeTool st callId message = .ok w) : w.Follows none st := by
  unfold completeTool at h
  split at h
  · next hyes =>
      cases h
      exact Or.inr ⟨_, rfl, rfl, hyes, rfl⟩
  · cases h

theorem prepareFinish_follows {key body : String}
    (h : prepareFinish st key body = .ok w) : w.Follows none st := by
  unfold prepareFinish at h
  split at h
  · split at h
    · cases h
    · cases h
      exact Or.inl ⟨rfl, rfl⟩
  · next hfinished =>
      split at h
      · split at h
        · cases h
        · cases h
          exact Or.inl ⟨rfl, rfl⟩
      · next hpending =>
          cases h
          exact Or.inr ⟨_, rfl, rfl, ⟨hpending, hfinished⟩, rfl⟩

theorem completeFinish_follows {key body : String}
    (h : completeFinish st key body = .ok w) : w.Follows none st := by
  unfold completeFinish at h
  split at h
  · cases h
  · next pending hpending =>
      split at h
      · cases h
      · next hsame =>
          rw [not_or, not_not, not_not] at hsame
          obtain ⟨rfl, rfl⟩ := hsame
          cases h
          exact Or.inr ⟨_, rfl, rfl, hpending, rfl⟩

end WorkerJournal

/-! ## Records and state agree -/

theorem take_messages (h : st.Allows r) : (st.take r).messages = st.messages ++ r.messages := by
  cases r with
  | guidance id m =>
      rw [take_guidance h]
      rfl
  | initialized | message | toolCompleted => rfl
  | toolPrepared | finishPrepared | finished | unknown => exact (List.append_nil _).symm

theorem take_guidanceIds (h : st.Allows r) :
    (st.take r).guidanceIds = st.guidanceIds ++ r.guidanceId.toList := by
  cases r with
  | guidance id m =>
      rw [take_guidance h]
      rfl
  | initialized | message | toolCompleted | toolPrepared | finishPrepared | finished | unknown =>
      exact (List.append_nil _).symm

theorem hasTool_addTool {call : ToolCall} {preparedAt : ℤ} {id : String} :
    (st.addTool call preparedAt).hasTool id = (st.hasTool id || decide (call.id = id)) := by
  simp [hasTool, addTool]

theorem hasTool_dropTool {callId id : String} :
    (st.dropTool callId).hasTool id = (st.hasTool id && decide (callId ≠ id)) := by
  unfold hasTool dropTool
  rw [List.any_filter, Bool.eq_iff_iff]
  simp only [List.any_eq_true, Bool.and_eq_true, decide_eq_true_eq]
  constructor
  · rintro ⟨entry, hmem, hne, rfl⟩
    exact ⟨⟨entry, hmem, rfl⟩, hne.symm⟩
  · rintro ⟨⟨entry, hmem, rfl⟩, hne⟩
    exact ⟨entry, hmem, hne.symm, rfl⟩

/-- A record opens or closes at most the tool it names. -/
theorem take_hasTool (h : st.Allows r) (id : String) :
    (if (st.take r).hasTool id then 1 else 0) + (if r.completes id then 1 else 0) =
      (if st.hasTool id then 1 else 0) + if r.prepares id then 1 else 0 := by
  cases r with
  | toolPrepared call preparedAt =>
      have hno : st.hasTool call.id = false := h
      have htake : (st.take (.toolPrepared call preparedAt)).hasTool id =
          (st.hasTool id || decide (call.id = id)) := hasTool_addTool
      rw [htake]
      by_cases hc : call.id = id
      · subst hc
        simp [hno, WorkerJournalRecord.prepares, WorkerJournalRecord.completes]
      · simp [hc, WorkerJournalRecord.prepares, WorkerJournalRecord.completes]
  | toolCompleted callId message =>
      have hyes : st.hasTool callId = true := h
      have htake : (st.take (.toolCompleted callId message)).hasTool id =
          (st.hasTool id && decide (callId ≠ id)) := hasTool_dropTool
      rw [htake]
      by_cases hc : callId = id
      · subst hc
        simp [hyes, WorkerJournalRecord.prepares, WorkerJournalRecord.completes]
      · simp [hc, WorkerJournalRecord.prepares, WorkerJournalRecord.completes]
  | guidance gid m =>
      rw [take_guidance h]
      rfl
  | initialized | message | finishPrepared | finished | unknown => rfl

/-- What the records say of the state. -/
structure Journalled (rs : List WorkerJournalRecord) (st : WorkerJournalState) : Prop where
  messages : st.messages = rs.flatMap WorkerJournalRecord.messages
  guidance : st.guidanceIds = rs.filterMap WorkerJournalRecord.guidanceId
  distinct : st.guidanceIds.Nodup
  tools : ∀ id, rs.countP (·.prepares id) =
    rs.countP (·.completes id) + if st.hasTool id then 1 else 0
  finish : st.pendingFinish ≠ none → st.finished = none

theorem journalled_empty : Journalled [] WorkerJournalState.empty where
  messages := rfl
  guidance := rfl
  distinct := List.nodup_nil
  tools _ := rfl
  finish h := absurd rfl h

theorem Journalled.take (h : Journalled rs st) (hr : st.Allows r) :
    Journalled (rs ++ [r]) (st.take r) where
  messages := by
    rw [take_messages hr, h.messages, List.flatMap_append, List.flatMap_singleton]
  guidance := by
    rw [take_guidanceIds hr, h.guidance, List.filterMap_append]
    cases hg : r.guidanceId <;> simp [hg]
  distinct := by
    rw [take_guidanceIds hr]
    cases r with
    | guidance id m =>
        refine h.distinct.append (List.nodup_singleton id) ?_
        intro x hx hx'
        cases List.mem_singleton.mp hx'
        exact hr hx
    | initialized | message | toolCompleted | toolPrepared | finishPrepared | finished | unknown =>
        rw [show Option.toList (WorkerJournalRecord.guidanceId _) = [] from rfl, List.append_nil]
        exact h.distinct
  tools := by
    intro id
    have hid := h.tools id
    have hstep := take_hasTool hr id
    rw [List.countP_append, List.countP_append, List.countP_singleton, List.countP_singleton]
    omega
  finish := by
    cases r with
    | guidance id m =>
        rw [take_guidance hr]
        exact h.finish
    | finishPrepared key body => exact fun _ => hr.2
    | finished key body => exact fun hne => absurd rfl hne
    | unknown type => exact absurd hr id
    | initialized | message | toolCompleted | toolPrepared => exact h.finish

/-! ## Every run of a journal -/

/-- The file reads back as the state in memory. -/
structure WorkerJournal.Faithful (j : WorkerJournal) : Prop where
  reduced : reduce j.records = .ok j.current
  journalled : Journalled j.records j.current

theorem faithful_commit {α : Type} {j : WorkerJournal} {result : Except String (Written α)}
    {gid : Option ℤ} (h : j.Faithful) (hf : ∀ w, result = .ok w → w.Follows gid j.current)
    (hid : ∀ id, gid = some id → isGuidanceId id = true) : (j.commit result).Faithful := by
  cases result with
  | error e => exact h
  | ok w =>
      rcases hf w rfl with ⟨hnone, hnext⟩ | ⟨r, hr, hgid, hallow, hnext⟩
      · simp only [WorkerJournal.commit, hnone, hnext, Option.toList_none, List.append_nil]
        exact h
      · simp only [WorkerJournal.commit, hr, hnext, Option.toList_some]
        refine ⟨?_, h.journalled.take hallow⟩
        rw [reduce_append, h.reduced]
        refine reduceEntry_of_allows hallow ?_ h.journalled.finish
        rintro id m rfl
        exact hid id hgid.symm

theorem faithful_step {j : WorkerJournal} {call : JournalCall} (h : j.Faithful)
    (hcall : call.validId = true) : (j.step call).Faithful := by
  have hnone : ∀ id : ℤ, none = some id → isGuidanceId id = true := fun _ hid => by cases hid
  cases call with
  | initializeWith =>
      exact faithful_commit h (fun _ => WorkerJournal.initializeWith_follows) hnone
  | appendMessage =>
      exact faithful_commit h (fun _ => WorkerJournal.appendMessage_follows) hnone
  | appendGuidance gid message =>
      refine faithful_commit h (fun _ => WorkerJournal.appendGuidance_follows) ?_
      intro id hid
      cases hid
      exact hcall
  | prepareTool => exact faithful_commit h (fun _ => WorkerJournal.prepareTool_follows) hnone
  | completeTool => exact faithful_commit h (fun _ => WorkerJournal.completeTool_follows) hnone
  | prepareFinish => exact faithful_commit h (fun _ => WorkerJournal.prepareFinish_follows) hnone
  | completeFinish =>
      exact faithful_commit h (fun _ => WorkerJournal.completeFinish_follows) hnone
  | reopen =>
      simp only [WorkerJournal.step, h.reduced]
      exact h

theorem faithful_reached (calls : List JournalCall) (hcalls : ∀ call ∈ calls, call.validId = true) :
    (WorkerJournal.reached calls).Faithful := by
  unfold WorkerJournal.reached
  induction calls using List.reverseRecOn with
  | nil => exact ⟨rfl, journalled_empty⟩
  | append_singleton calls call ih =>
      rw [run_append]
      refine faithful_step (ih ?_) (hcalls call ?_)
      · intro c hc
        exact hcalls c (List.mem_append_left _ hc)
      · exact List.mem_append_right _ (List.mem_singleton_self call)

/-- A call appends at most one record. -/
theorem records_step (j : WorkerJournal) (call : JournalCall) :
    ∃ entry : Option WorkerJournalRecord, (j.step call).records = j.records ++ entry.toList := by
  have hcommit : ∀ {α : Type} (result : Except String (Written α)),
      ∃ entry : Option WorkerJournalRecord, (j.commit result).records = j.records ++ entry.toList := by
    intro α result
    cases result with
    | error e => exact ⟨none, (List.append_nil _).symm⟩
    | ok w => exact ⟨w.entry, rfl⟩
  cases call with
  | reopen =>
      refine ⟨none, ?_⟩
      simp only [WorkerJournal.step, Option.toList_none, List.append_nil]
      split
      · rfl
      · rfl
  | initializeWith | appendMessage | appendGuidance | prepareTool | completeTool | prepareFinish
    | completeFinish => exact hcommit _

/-- Every prefix of the file is the whole file after a prefix of the calls. -/
theorem prefix_reached (calls : List JournalCall) {rs : List WorkerJournalRecord}
    (h : rs <+: (WorkerJournal.reached calls).records) :
    ∃ before, before <+: calls ∧ (WorkerJournal.reached before).records = rs := by
  induction calls using List.reverseRecOn with
  | nil => exact ⟨[], List.prefix_rfl, (List.prefix_nil.mp h).symm⟩
  | append_singleton calls call ih =>
      have hstep : WorkerJournal.reached (calls ++ [call]) =
          (WorkerJournal.reached calls).step call := run_append ..
      obtain ⟨entry, hentry⟩ := records_step (WorkerJournal.reached calls) call
      by_cases hfull : rs = (WorkerJournal.reached (calls ++ [call])).records
      · exact ⟨calls ++ [call], List.prefix_rfl, hfull.symm⟩
      · -- a proper prefix leaves the last record out
        have hshort : rs <+: (WorkerJournal.reached calls).records := by
          rw [hstep, hentry] at h hfull
          cases entry with
          | none => simpa using h
          | some r =>
              rcases List.prefix_concat_iff.mp h with hall | hpre
              · exact absurd hall hfull
              · exact hpre
        obtain ⟨before, hbefore, hrs⟩ := ih hshort
        exact ⟨before, hbefore.trans (List.prefix_append _ _), hrs⟩

/-- **The journal is its file.** After any calls, every prefix of the file, read from
scratch, is the state the journal held when the file ended there. In that state each
guidance id stands for one message, and a tool is pending exactly while it has one
more preparation than results. -/
theorem reached_journal (calls : List JournalCall)
    (hcalls : ∀ call ∈ calls, call.validId = true) :
    reduce (WorkerJournal.reached calls).records = .ok (WorkerJournal.reached calls).current ∧
    (∀ rs, rs <+: (WorkerJournal.reached calls).records → ∃ before, before <+: calls ∧
      (WorkerJournal.reached before).records = rs ∧
      reduce rs = .ok (WorkerJournal.reached before).current) ∧
    (WorkerJournal.reached calls).current.messages =
      (WorkerJournal.reached calls).records.flatMap WorkerJournalRecord.messages ∧
    ((WorkerJournal.reached calls).records.filterMap WorkerJournalRecord.guidanceId).Nodup ∧
    ∀ id, (WorkerJournal.reached calls).records.countP (·.prepares id) =
      (WorkerJournal.reached calls).records.countP (·.completes id) +
        if (WorkerJournal.reached calls).current.hasTool id then 1 else 0 := by
  have h := faithful_reached calls hcalls
  refine ⟨h.reduced, ?_, h.journalled.messages, ?_, h.journalled.tools⟩
  · intro rs hrs
    obtain ⟨before, hbefore, rfl⟩ := prefix_reached calls hrs
    refine ⟨before, hbefore, rfl, ?_⟩
    exact (faithful_reached before (fun c hc => hcalls c (hbefore.subset hc))).reduced
  · rw [← h.journalled.guidance]
    exact h.journalled.distinct

/-- An episode that is told the same thing twice and runs one tool. -/
def guidedCalls : List JournalCall :=
  [.initializeWith [⟨.user, "Do it", [], none⟩], .appendGuidance 5 ⟨.user, "Look here", [], none⟩,
    .appendGuidance 5 ⟨.user, "Look here", [], none⟩, .prepareTool ⟨"c1", "run", "1"⟩ 7,
    .completeTool "c1" ⟨.tool, "2", [], some "c1"⟩, .prepareFinish "key" "Done",
    .completeFinish "key" "Done"]

theorem reached_journal_guided :
    (∀ call ∈ guidedCalls, call.validId = true) ∧
      reduce (WorkerJournal.reached guidedCalls).records =
        .ok (WorkerJournal.reached guidedCalls).current ∧
      (WorkerJournal.reached guidedCalls).records.length = 6 :=
  ⟨by decide, (reached_journal guidedCalls (by decide)).1, by decide⟩

end Elpis.Kernel
