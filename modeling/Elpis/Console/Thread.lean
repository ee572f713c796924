import Elpis.Console.Mirror
import Elpis.Lib.Run

/-!
# The Thread of a console client

`src/console/client/use-console.ts`: how a client merges the frames of the hub into its list
of messages, and the hub and the client at the two ends of a link. A step of the system is one
run of the event loop at one end, or the delivery of a frame. What a connection has not
delivered when it is lost is lost with it. The hub object of the client is a new one, or the
old one attached again.
-/

namespace Elpis.Console

open Elpis.Lib

variable {α β : Type}

/-! ## The client -/

/-- The server frames that carry messages. `startedAt` is that of the frame's `meta`. -/
inductive ServerFrame (β : Type) where
  | snapshot (startedAt : Option ℕ) (page : Hub.Page β)
  | message (msg : StreamEntry β)
  | history (page : Hub.Page β)
  | sync (startedAt : Option ℕ)
deriving DecidableEq, Repr

structure ConsoleState (β : Type) where
  /-- `meta?.startedAt`. -/
  startedAt : Option ℕ
  messages : List (StreamEntry β)
  hasMore : Bool
  loadingHistory : Bool
deriving DecidableEq, Repr

def initialState : ConsoleState β := ⟨none, [], false, false⟩

/-- The branch of `mergeMessages` that appends. -/
def appends (before incoming : List (StreamEntry β)) : Bool :=
  match incoming, before.getLast? with
  | [_], none => true
  | [entry], some last => decide (entry.id > last.id)
  | _, _ => false

def mergeMessages (before incoming : List (StreamEntry β)) : List (StreamEntry β) :=
  if appends before incoming then before ++ incoming
  else (Table.ofRows StreamEntry.id (before ++ incoming)).sorted

namespace ConsoleState

/-- `sameProcess && overlaps`: the snapshot is merged into the list the client holds. -/
def merges (state : ConsoleState β) (startedAt : Option ℕ) (incoming : List (StreamEntry β)) : Bool :=
  decide (state.startedAt ≠ none) && decide (state.startedAt = startedAt) &&
    incoming.any (fun entry => state.messages.any (fun old => decide (old.id = entry.id)))

def applyFrame (state : ConsoleState β) : ServerFrame β → ConsoleState β
  | .sync startedAt => { state with startedAt := startedAt }
  | .snapshot startedAt page =>
      { startedAt := startedAt
        messages :=
          if state.merges startedAt page.messages then mergeMessages state.messages page.messages
          else page.messages
        hasMore := if state.merges startedAt page.messages then state.hasMore else page.hasMore
        loadingHistory := false }
  | .message msg => { state with messages := mergeMessages state.messages [msg] }
  | .history page =>
      { state with
        messages := mergeMessages state.messages page.messages
        hasMore := page.hasMore
        loadingHistory := false }

/-- `stateRef.current.messages[0]?.id ?? 0`. -/
def firstId (state : ConsoleState β) : ℤ := Hub.oldestOf state.messages 0

end ConsoleState

/-- One more than the largest id that is not negative, as a client would expect the next. -/
def top (messages : List (StreamEntry β)) : ℤ :=
  messages.foldr (fun entry n => max (entry.id + 1) n) 0

/-! ## The link -/

/-- A frame on its way to the client. `early` marks what was broadcast to the client before the
first snapshot of its attachment was sent. -/
structure Packet (β : Type) where
  frame : ServerFrame β
  early : Bool
deriving DecidableEq, Repr

structure Thread (β : Type) where
  hub : Hub β
  /-- All that was ever pushed into the mirror. -/
  log : List (StreamEntry β)
  /-- Snapshots behind their awaits: the attachment and the request they captured. -/
  awaiting : List (ℕ × ℕ)
  connected : Bool
  down : List (Packet β)
  /-- The `beforeId` of each backfill request under way. -/
  up : List ℤ
  client : ConsoleState β
  /-- A snapshot was applied. -/
  applied : Bool
  /-- The first entry the client missed when an early message was applied since the last
  snapshot. -/
  missed : Option ℤ

/-- The hub of a new process and a client that was never connected. -/
def Thread.init : Thread β := ⟨Hub.new, [], [], false, [], [], initialState, false, none⟩

inductive Event (α β : Type) where
  | messageAppended (msg : ChatMessage α) (ts : Option ℕ)
  /-- `compactionApplied`, `cacheBusted`, `yieldNudge`, `contextCleared`. -/
  | divider (entry : StreamEntry β)
  | connect
  | disconnect
  | addClient
  | removeClient
  | sendSnapshot
  | snapshotReady (generation request : ℕ) (metaAvailable : Bool)
  | sync (metaAvailable : Bool)
  | requestBackfill
  | handleBackfill
  | deliver

namespace Thread

/-- `broadcast`, or `safeSend`, to the client. -/
def send (s : Thread β) (frame : ServerFrame β) : Thread β :=
  if s.hub.generation.isSome then
    { s with down := s.down ++ [⟨frame, !s.hub.hasState⟩] }
  else s

def push (s : Thread β) (entry : StreamEntry β) : Thread β :=
  let (entry, hub) := s.hub.pushEntry entry
  { s with hub := hub, log := s.log ++ [entry] }.send (.message entry)

/-- `sendSnapshot`, up to its awaits. -/
def requestSnapshot (s : Thread β) : Thread β :=
  match s.hub.generation with
  | none => s
  | some generation =>
      { s with
        hub := { s.hub with
          snapshotRequest := some s.hub.nextSnapshotRequest
          nextSnapshotRequest := s.hub.nextSnapshotRequest + 1 }
        awaiting := s.awaiting ++ [(generation, s.hub.nextSnapshotRequest)] }

def addClient (s : Thread β) : Thread β :=
  let hub :=
    if s.hub.generation.isSome then s.hub
    else { s.hub with
      generation := some s.hub.nextClientGeneration
      nextClientGeneration := s.hub.nextClientGeneration + 1 }
  { s with hub := hub }.requestSnapshot

/-- The connection is lost, with what was under way in it. -/
def disconnect (s : Thread β) : Thread β :=
  { s with
    hub := s.hub.detachClient
    awaiting := []
    connected := false
    down := []
    up := []
    client := { s.client with loadingHistory := false } }

def requestBackfill (s : Thread β) : Thread β :=
  if s.connected && !s.client.loadingHistory && s.client.hasMore then
    { s with
      up := s.up ++ [s.client.firstId]
      client := { s.client with loadingHistory := true } }
  else s

/-- The first entry that a message jumps over. -/
def jumps (messages : List (StreamEntry β)) (msg : StreamEntry β) : Bool :=
  decide (0 < top messages ∧ top messages < msg.id)

def deliver (s : Thread β) : Thread β :=
  match s.down with
  | [] => s
  | packet :: rest =>
      { s with
        down := rest
        client := s.client.applyFrame packet.frame
        applied := match packet.frame with
          | .snapshot _ _ => true
          | _ => s.applied
        missed := match packet.frame with
          | .snapshot _ _ => none
          | .message msg =>
              if packet.early && s.missed.isNone && jumps s.client.messages msg then
                some (top s.client.messages)
              else s.missed
          | _ => s.missed }

section Step

variable (present : ChatMessage α → Option ℕ → String × β) (pool : List (ChatMessage α))
  (startedAt : ℕ)

/-- The rest of `sendSnapshot`, behind its awaits. -/
def snapshotReady (s : Thread β) (generation request : ℕ) (metaAvailable : Bool) : Thread β :=
  if (generation, request) ∈ s.awaiting then
    let s := { s with awaiting := s.awaiting.erase (generation, request) }
    if s.hub.generation = some generation ∧ s.hub.snapshotRequest = some request then
      let sent := s.send (.snapshot (if metaAvailable then some startedAt else none)
        (s.hub.snapshotPage present pool))
      { sent with hub := { s.hub with snapshotRequest := none, hasState := true } }
    else s
  else s

/-- `sendBackfill`, for the next request. -/
def handleBackfill (s : Thread β) : Thread β :=
  match s.up with
  | [] => s
  | beforeId :: rest =>
      { s with up := rest }.send (.history (s.hub.backfill present pool beforeId))

def step (s : Thread β) : Event α β → Thread β
  | .messageAppended msg ts =>
      let (entry, thinkCallIds) := serialize present s.hub.thinkCallIds msg 0 ts
      { s with hub := { s.hub with thinkCallIds := thinkCallIds } }.push entry
  | .divider entry => s.push entry
  | .connect => { s with connected := true }
  | .disconnect => s.disconnect
  | .addClient => if s.connected then s.addClient else s
  | .removeClient => { s with hub := s.hub.detachClient }
  | .sendSnapshot => s.requestSnapshot
  | .snapshotReady generation request metaAvailable =>
      s.snapshotReady present pool startedAt generation request metaAvailable
  | .sync metaAvailable =>
      if s.hub.hasState then s.send (.sync (if metaAvailable then some startedAt else none)) else s
  | .requestBackfill => s.requestBackfill
  | .handleBackfill => s.handleBackfill present pool
  | .deliver => s.deliver

end Step

end Thread

end Elpis.Console
