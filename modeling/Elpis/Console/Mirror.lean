import Elpis.Lib.Ordered

/-!
# The console hub's mirror of the Thread

`src/console/hub.ts` and `src/console/history.ts`: the entries the hub retains, the snapshot
and the backfill it answers from them, and the reader of the history before the process.
Entry ids count up from 0 for what the process appended. The archived history has the negative
ids up to -1.

`present` stands for what `serializeMessage` shows of a message, the id apart: the kind and the
other fields.
-/

namespace Elpis.Console

open Elpis.Lib

variable {α β : Type}

structure ToolCall where
  id : String
  name : String
deriving DecidableEq, Repr

structure ChatMessage (α : Type) where
  role : String
  toolCallId : Option String
  toolCalls : List ToolCall
  rest : α

structure StreamEntry (β : Type) where
  id : ℤ
  kind : String
  rest : β
deriving DecidableEq, Repr

/-! ## Serialization -/

section Serialize

variable (present : ChatMessage α → Option ℕ → String × β)

def serializeMessage (msg : ChatMessage α) (id : ℤ) (ts : Option ℕ) : StreamEntry β :=
  ⟨id, (present msg ts).1, (present msg ts).2⟩

/-- `serialize`: the fixed result of a `think` call is no entry of its own kind. -/
def serialize (thinkCallIds : Finset String) (msg : ChatMessage α) (id : ℤ) (ts : Option ℕ) :
    StreamEntry β × Finset String :=
  let entry := serializeMessage present msg id ts
  let ids := msg.toolCalls.foldl
    (fun ids call => if call.name = "think" then insert call.id ids else ids) thinkCallIds
  match msg.toolCallId with
  | some callId =>
      let result := { entry with kind := "think-result" }
      if msg.role = "tool" ∧ callId ≠ "" ∧ callId ∈ ids then (result, ids.erase callId)
      else (entry, ids)
  | none => (entry, ids)

theorem serialize_id (thinkCallIds : Finset String) (msg : ChatMessage α) (id : ℤ) (ts : Option ℕ) :
    (serialize present thinkCallIds msg id ts).1.id = id := by
  unfold serialize
  cases msg.toolCallId with
  | none => rfl
  | some callId =>
      dsimp only
      split
      · rfl
      · rfl

/-! ## The archived reader -/

/-- The loop of `read` over the pool, from index `i`: entries from index `lo` on are returned. -/
def readLoop (total lo : ℕ) : ℕ → Finset String → List (ChatMessage α) → List (StreamEntry β)
  | _, _, [] => []
  | i, thinkCallIds, message :: rest =>
      let (entry, thinkCallIds) := serialize present thinkCallIds message ((i : ℤ) - total) none
      if lo ≤ i then entry :: readLoop total lo (i + 1) thinkCallIds rest
      else readLoop total lo (i + 1) thinkCallIds rest

/-- `read` of the reader that `createArchivedReader` returns. -/
def readArchived (pool : List (ChatMessage α)) (beforeId : ℤ) (limit : ℕ) : List (StreamEntry β) :=
  if pool.length = 0 then []
  else
    let endIndex : ℤ := if beforeId ≥ 0 then pool.length else beforeId + pool.length
    let hi := (min (pool.length : ℤ) (max 0 endIndex)).toNat
    let lo := hi - limit
    readLoop present pool.length lo 0 ∅ (pool.take hi)

end Serialize

/-! ## The hub -/

def snapshotMessages : ℕ := 60

def backfillPage : ℕ := 40

def mirrorCap : ℕ := 5000

/-- The hub, with what it keeps for one client object. -/
structure Hub (β : Type) where
  mirror : List (StreamEntry β)
  nextId : ℕ
  thinkCallIds : Finset String
  /-- `clientGenerations`: the client's attachment. -/
  generation : Option ℕ
  /-- `clientSnapshotRequests`. -/
  snapshotRequest : Option ℕ
  /-- `clientState` has the client: a snapshot was sent since it was attached. -/
  hasState : Bool
  nextClientGeneration : ℕ
  nextSnapshotRequest : ℕ

namespace Hub

def new : Hub β := ⟨[], 0, ∅, none, none, false, 1, 1⟩

def pushEntry (hub : Hub β) (entry : StreamEntry β) : StreamEntry β × Hub β :=
  let entry := { entry with id := (hub.nextId : ℤ) }
  let mirror := hub.mirror ++ [entry]
  let pushed := { hub with
    nextId := hub.nextId + 1
    mirror := if mirror.length > mirrorCap then mirror.tail else mirror }
  (entry, pushed)

def mirrorBase (hub : Hub β) : ℤ :=
  match hub.mirror with
  | entry :: _ => entry.id
  | [] => hub.nextId

section Sources

variable (present : ChatMessage α → Option ℕ → String × β) (pool : List (ChatMessage α))

def archivedAny : Bool := decide ((readArchived present pool 0 1).length > 0)

structure Page (β : Type) where
  messages : List (StreamEntry β)
  oldestId : ℤ
  hasMore : Bool
deriving DecidableEq, Repr

def oldestOf (messages : List (StreamEntry β)) (otherwise : ℤ) : ℤ :=
  match messages with
  | entry :: _ => entry.id
  | [] => otherwise

/-- The messages of a snapshot, as `sendSnapshot` captures them behind its awaits. -/
def snapshotPage (hub : Hub β) : Page β :=
  let start := hub.mirror.length - snapshotMessages
  let messages := hub.mirror.drop start
  ⟨messages, oldestOf messages hub.nextId, decide (start > 0) || archivedAny present pool⟩

/-- What `sendBackfill` answers. -/
def backfill (hub : Hub β) (beforeId : ℤ) : Page β :=
  let base := hub.mirrorBase
  if beforeId > base then
    let endIndex := (min (beforeId - base) hub.mirror.length).toNat
    let start := endIndex - backfillPage
    let messages := (hub.mirror.take endIndex).drop start
    ⟨messages, oldestOf messages beforeId, decide (start > 0) || archivedAny present pool⟩
  else
    let archBefore := if beforeId ≤ 0 then beforeId else 0
    let messages := readArchived present pool archBefore backfillPage
    ⟨messages, oldestOf messages beforeId, decide (messages.length = backfillPage)⟩

end Sources

def detachClient (hub : Hub β) : Hub β :=
  { hub with generation := none, snapshotRequest := none, hasState := false }

end Hub

/-! ## Numbered entries -/

/-- The entries have the ids from `n` on. -/
def Numbered : ℤ → List (StreamEntry β) → Prop
  | _, [] => True
  | n, entry :: rest => entry.id = n ∧ Numbered (n + 1) rest

variable {n : ℤ}

namespace Numbered

theorem append {l l' : List (StreamEntry β)} :
    Numbered n (l ++ l') ↔ Numbered n l ∧ Numbered (n + l.length) l' := by
  induction l generalizing n with
  | nil => simp [Numbered]
  | cons e rest ih =>
      rw [List.cons_append, Numbered, Numbered, ih, List.length_cons, and_assoc]
      push_cast
      rw [add_assoc, add_comm (1 : ℤ)]

variable {l : List (StreamEntry β)}

theorem drop (h : Numbered n l) {k : ℕ} (hk : k ≤ l.length) :
    Numbered (n + k) (l.drop k) := by
  rw [← List.take_append_drop k l, append] at h
  have htake := h.2
  rwa [List.length_take, min_eq_left hk] at htake

theorem take (h : Numbered n l) (k : ℕ) :
    Numbered n (l.take k) := by
  rw [← List.take_append_drop k l, append] at h
  exact h.1

theorem exists_iff (h : Numbered n l) (m : ℤ) :
    (∃ e ∈ l, e.id = m) ↔ n ≤ m ∧ m < n + l.length := by
  induction l generalizing n with
  | nil => simp
  | cons e rest ih =>
      rw [List.exists_mem_cons_iff, ih h.2, h.1, List.length_cons]
      push_cast
      omega

theorem range (h : Numbered n l) {e : StreamEntry β}
    (he : e ∈ l) : n ≤ e.id ∧ e.id < n + l.length :=
  (exists_iff h e.id).mp ⟨e, he, rfl⟩

theorem pairwise (h : Numbered n l) :
    l.Pairwise (fun e e' => e.id < e'.id) := by
  induction l generalizing n with
  | nil => exact List.Pairwise.nil
  | cons e rest ih =>
      refine List.pairwise_cons.mpr ⟨?_, ih h.2⟩
      intro e' he'
      have hrange := range h.2 he'
      have hid := h.1
      omega

theorem eq_of_id (h : Numbered n l) {e e' : StreamEntry β}
    (he : e ∈ l) (he' : e' ∈ l) (hid : e.id = e'.id) : e = e' := by
  have hnodup : (l.map StreamEntry.id).Nodup :=
    List.pairwise_map.mpr ((pairwise h).imp (fun hlt => hlt.ne))
  exact List.inj_on_of_nodup_map hnodup he he' hid

end Numbered

/-! ## What the reader answers -/

section Archive

variable (present : ChatMessage α → Option ℕ → String × β) (pool : List (ChatMessage α))

/-- The whole archived history, newest last. -/
def archivedEntries : List (StreamEntry β) := readLoop present pool.length 0 0 ∅ pool

variable {present}

theorem readLoop_drop (total lo i : ℕ) (ids : Finset String) (l : List (ChatMessage α)) :
    readLoop present total lo i ids l = (readLoop present total 0 i ids l).drop (lo - i) := by
  induction l generalizing i ids with
  | nil => simp [readLoop]
  | cons m rest ih =>
      simp only [readLoop, Nat.zero_le, if_true]
      by_cases h : lo ≤ i
      · rw [if_pos h, ih, Nat.sub_eq_zero_of_le h, Nat.sub_eq_zero_of_le (h.trans (Nat.le_succ i))]
        rfl
      · rw [if_neg h, ih]
        obtain ⟨k, hk⟩ : ∃ k, lo - i = k + 1 := ⟨lo - i - 1, by omega⟩
        rw [hk, List.drop_succ_cons]
        congr 1
        omega

theorem readLoop_take (total i : ℕ) (ids : Finset String) (l : List (ChatMessage α)) (k : ℕ) :
    readLoop present total 0 i ids (l.take k) = (readLoop present total 0 i ids l).take k := by
  induction l generalizing i ids k with
  | nil => simp [readLoop]
  | cons m rest ih =>
      cases k with
      | zero => simp [readLoop]
      | succ k => simp [readLoop, ih]

theorem length_readLoop (total i : ℕ) (ids : Finset String) (l : List (ChatMessage α)) :
    (readLoop present total 0 i ids l).length = l.length := by
  induction l generalizing i ids with
  | nil => rfl
  | cons m rest ih => simp [readLoop, ih]

variable (present) in
theorem numbered_readLoop (total i : ℕ) (ids : Finset String) (l : List (ChatMessage α)) :
    Numbered ((i : ℤ) - total) (readLoop present total 0 i ids l) := by
  induction l generalizing i ids with
  | nil => trivial
  | cons m rest ih =>
      simp only [readLoop, Nat.zero_le, if_true]
      refine ⟨serialize_id present ids m _ none, ?_⟩
      have hrest := ih (i + 1) (serialize present ids m ((i : ℤ) - total) none).2
      have hnext : (i : ℤ) - total + 1 = ((i + 1 : ℕ) : ℤ) - total := by
        push_cast
        ring
      rwa [hnext]

theorem length_archivedEntries : (archivedEntries present pool).length = pool.length :=
  length_readLoop _ _ _ _

theorem numbered_archivedEntries :
    Numbered (-(pool.length : ℤ)) (archivedEntries present pool) := by
  have h := numbered_readLoop present pool.length 0 ∅ pool
  rwa [Nat.cast_zero, zero_sub] at h

variable (present) in
/-- A page goes up to the id it was asked for below, and is a full one unless it begins where
the archive begins. -/
theorem readArchived_spec {beforeId : ℤ} (hb : beforeId ≤ 0) (limit : ℕ) :
    ∃ x : ℤ, Numbered x (readArchived present pool beforeId limit) ∧
      x + (readArchived present pool beforeId limit).length = max (-(pool.length : ℤ)) beforeId ∧
      (∀ e ∈ readArchived present pool beforeId limit, e ∈ archivedEntries present pool) ∧
      ((readArchived present pool beforeId limit).length ≠ limit → x = -(pool.length : ℤ)) := by
  by_cases hpool : pool.length = 0
  · have hnil : readArchived present pool beforeId limit = [] := if_pos hpool
    refine ⟨0, ?_⟩
    rw [hnil, hpool]
    exact ⟨trivial, by simp [hb], by simp, fun _ => by simp⟩
  · set hi : ℕ := (min (pool.length : ℤ)
      (max 0 (if beforeId ≥ 0 then (pool.length : ℤ) else beforeId + pool.length))).toNat with hhi
    have hval : (hi : ℤ) = max 0 (beforeId + pool.length) := by
      rw [hhi]
      split
      · have : beforeId = 0 := le_antisymm hb ‹_›
        omega
      · omega
    have hle : hi ≤ pool.length := by omega
    have hread : readArchived present pool beforeId limit =
        ((archivedEntries present pool).take hi).drop (hi - limit) := by
      unfold readArchived archivedEntries
      rw [if_neg hpool, readLoop_drop, readLoop_take, Nat.sub_zero]
    have hlen : (readArchived present pool beforeId limit).length = hi - (hi - limit) := by
      rw [hread, List.length_drop, List.length_take, length_archivedEntries, min_eq_left hle]
    refine ⟨-(pool.length : ℤ) + (hi - limit : ℕ), ?_, ?_, ?_, ?_⟩
    · rw [hread]
      refine ((numbered_archivedEntries pool).take hi).drop ?_
      rw [List.length_take, length_archivedEntries]
      omega
    · rw [hlen]
      omega
    · intro e he
      rw [hread] at he
      exact List.mem_of_mem_take (List.mem_of_mem_drop he)
    · rw [hlen]
      omega

theorem archivedAny_eq_false (h : Hub.archivedAny present pool = false) : pool.length = 0 := by
  obtain ⟨x, hnum, hend, -, hfirst⟩ :=
    readArchived_spec present pool (le_refl 0) 1
  have hlen : (readArchived present pool 0 1).length = 0 := by
    simpa [Hub.archivedAny] using h
  have hx := hfirst (by omega)
  rw [hlen] at hend
  omega

end Archive

/-! ## What the hub retains -/

/-- The mirror is the numbered end of what was appended. -/
structure Hub.Retains (hub : Hub β) (log : List (StreamEntry β)) : Prop where
  suffix : hub.mirror <:+ log
  numbered : Numbered hub.mirrorBase hub.mirror
  base : 0 ≤ hub.mirrorBase
  top : hub.mirrorBase + hub.mirror.length = hub.nextId
  nonempty : hub.mirror = [] → hub.nextId = 0

namespace Hub.Retains

variable {hub : Hub β} {log : List (StreamEntry β)}

theorem mirrorBase_eq (h : Numbered n hub.mirror) (htop : n + hub.mirror.length = hub.nextId) :
    hub.mirrorBase = n := by
  unfold mirrorBase
  cases hm : hub.mirror with
  | nil =>
      rw [hm] at htop
      simpa using htop.symm
  | cons e rest =>
      rw [hm] at h
      exact h.1

/-- Appending keeps the end of the log, and its floor only rises. -/
theorem pushEntry (h : hub.Retains log) (entry : StreamEntry β) :
    (hub.pushEntry entry).2.Retains (log ++ [(hub.pushEntry entry).1]) ∧
      hub.mirrorBase ≤ (hub.pushEntry entry).2.mirrorBase := by
  have hpushed : Numbered hub.mirrorBase (hub.mirror ++ [(hub.pushEntry entry).1]) := by
    refine Numbered.append.mpr ⟨h.numbered, ?_, trivial⟩
    rw [h.top]
    rfl
  have htop := h.top
  have hsuffix := h.suffix
  by_cases hcap : (hub.mirror ++ [(hub.pushEntry entry).1]).length > mirrorCap
  · have hmirror : (hub.pushEntry entry).2.mirror =
        (hub.mirror ++ [(hub.pushEntry entry).1]).drop 1 := by
      rw [List.drop_one]
      exact if_pos hcap
    have hnum : Numbered (hub.mirrorBase + 1) (hub.pushEntry entry).2.mirror := by
      rw [hmirror]
      exact hpushed.drop (k := 1) (by simp)
    have hend : hub.mirrorBase + 1 + (hub.pushEntry entry).2.mirror.length =
        (hub.pushEntry entry).2.nextId := by
      rw [hmirror]
      simp only [List.length_drop, List.length_append, List.length_cons, List.length_nil]
      show _ = ((hub.nextId + 1 : ℕ) : ℤ)
      push_cast
      omega
    have hbase := mirrorBase_eq hnum hend
    refine ⟨⟨?_, hbase ▸ hnum, ?_, hbase ▸ hend, ?_⟩, ?_⟩
    · rw [hmirror]
      exact (List.drop_suffix 1 _).trans ((List.suffix_append_inj_of_length_eq rfl).mpr
        ⟨hsuffix, rfl⟩)
    · have hb := h.base
      omega
    · intro hnil
      rw [hmirror] at hnil
      have hlen := congrArg List.length hnil
      rw [List.length_drop, List.length_nil] at hlen
      have hpos : 1 < mirrorCap := by decide
      omega
    · omega
  · have hmirror : (hub.pushEntry entry).2.mirror = hub.mirror ++ [(hub.pushEntry entry).1] :=
      if_neg hcap
    have hend : hub.mirrorBase + (hub.pushEntry entry).2.mirror.length =
        (hub.pushEntry entry).2.nextId := by
      rw [hmirror]
      simp only [List.length_append, List.length_cons, List.length_nil]
      show _ = ((hub.nextId + 1 : ℕ) : ℤ)
      push_cast
      omega
    have hbase := mirrorBase_eq (hmirror ▸ hpushed) hend
    refine ⟨⟨?_, ?_, hbase ▸ h.base, hbase ▸ hend, ?_⟩, hbase.ge⟩
    · rw [hmirror]
      exact (List.suffix_append_inj_of_length_eq rfl).mpr ⟨hsuffix, rfl⟩
    · rw [hbase, hmirror]
      exact hpushed
    · intro hnil
      rw [hmirror] at hnil
      exact absurd hnil (List.append_ne_nil_of_right_ne_nil _ (List.cons_ne_nil _ _))

theorem oldestOf_eq {messages : List (StreamEntry β)} {x otherwise : ℤ} (h : Numbered x messages)
    (hnil : messages = [] → otherwise = x) : Hub.oldestOf messages otherwise = x := by
  cases messages with
  | nil => exact hnil rfl
  | cons e rest => exact h.1

variable (present : ChatMessage α → Option ℕ → String × β) (pool : List (ChatMessage α))

/-- A snapshot holds the newest entries, from its oldest id to the newest. -/
theorem snapshotPage (h : hub.Retains log) :
    Numbered (hub.snapshotPage present pool).oldestId (hub.snapshotPage present pool).messages ∧
      (hub.snapshotPage present pool).oldestId + (hub.snapshotPage present pool).messages.length =
        hub.nextId ∧
      0 ≤ (hub.snapshotPage present pool).oldestId ∧
      ((hub.snapshotPage present pool).messages = [] → (hub.snapshotPage present pool).oldestId = 0) ∧
      (∀ e ∈ (hub.snapshotPage present pool).messages, e ∈ log) ∧
      ((hub.snapshotPage present pool).hasMore = false → pool.length = 0) := by
  have hnum : Numbered (hub.mirrorBase + (hub.mirror.length - snapshotMessages : ℕ))
      (hub.snapshotPage present pool).messages :=
    h.numbered.drop (Nat.sub_le _ _)
  have hlen : (hub.snapshotPage present pool).messages.length =
      hub.mirror.length - (hub.mirror.length - snapshotMessages) := List.length_drop
  have htop := h.top
  have hbase := h.base
  have hold : (hub.snapshotPage present pool).oldestId =
      hub.mirrorBase + (hub.mirror.length - snapshotMessages : ℕ) := by
    refine oldestOf_eq hnum ?_
    intro hnil
    have : (hub.snapshotPage present pool).messages.length = 0 := by
      rw [show (hub.snapshotPage present pool).messages = [] from hnil]
      rfl
    omega
  refine ⟨hold ▸ hnum, by omega, by omega, ?_, ?_, ?_⟩
  · intro hnil
    have hpos : 0 < snapshotMessages := by decide
    have hzero : (hub.snapshotPage present pool).messages.length = 0 := by
      rw [hnil]
      rfl
    have hnext := h.nonempty (List.eq_nil_of_length_eq_zero (by omega))
    omega
  · intro e he
    exact h.suffix.mem (List.mem_of_mem_drop he)
  · intro hmore
    simp only [Hub.snapshotPage, Bool.or_eq_false_iff] at hmore
    exact archivedAny_eq_false pool hmore.2

/-- A page out of the mirror goes up to the id it was asked for below. -/
theorem backfill_mirror (h : hub.Retains log) {beforeId : ℤ} (hb : hub.mirrorBase < beforeId)
    (htop : beforeId ≤ hub.nextId) :
    ∃ x : ℤ, Numbered x (hub.backfill present pool beforeId).messages ∧
      x + (hub.backfill present pool beforeId).messages.length = beforeId ∧ 0 ≤ x ∧ x < beforeId ∧
      (∀ e ∈ (hub.backfill present pool beforeId).messages, e ∈ log) ∧
      ((hub.backfill present pool beforeId).hasMore = false → pool.length = 0) := by
  set endIndex : ℕ := (min (beforeId - hub.mirrorBase) hub.mirror.length).toNat with hend
  have htop' := h.top
  have hbase := h.base
  have hval : (endIndex : ℤ) = beforeId - hub.mirrorBase := by omega
  have hle : endIndex ≤ hub.mirror.length := by omega
  have hpage : hub.backfill present pool beforeId =
      ⟨(hub.mirror.take endIndex).drop (endIndex - backfillPage),
        Hub.oldestOf ((hub.mirror.take endIndex).drop (endIndex - backfillPage)) beforeId,
        decide (endIndex - backfillPage > 0) || Hub.archivedAny present pool⟩ := if_pos hb
  rw [hpage]
  have hlen : ((hub.mirror.take endIndex).drop (endIndex - backfillPage)).length =
      endIndex - (endIndex - backfillPage) := by
    rw [List.length_drop, List.length_take, min_eq_left hle]
  refine ⟨hub.mirrorBase + (endIndex - backfillPage : ℕ), ?_, ?_, ?_, ?_, ?_, ?_⟩
  · refine (h.numbered.take endIndex).drop ?_
    rw [List.length_take, min_eq_left hle]
    exact Nat.sub_le _ _
  · simp only [hlen]
    omega
  · omega
  · have hpos : 0 < backfillPage := by decide
    omega
  · intro e he
    exact h.suffix.mem (List.mem_of_mem_take (List.mem_of_mem_drop he))
  · intro hmore
    simp only [Bool.or_eq_false_iff] at hmore
    exact archivedAny_eq_false pool hmore.2

end Hub.Retains

end Elpis.Console
