import Elpis.Secretary.Session

/-!
# Spawning secretaries

`SecretarySpawnBroker` of `src/secretary/spawn.ts`. Starts go one after the other, reconciliations
too, recoveries at any time; each suspends at the calls of its pod runtime, and what runs between
two of them is one step. The log says which provisioning calls returned a pod and which cleanup
calls were issued, the latest first.
-/

namespace Elpis.Secretary

open Elpis.Js Elpis.Lib

namespace Spawn

structure Config where
  enabled : Bool
  modelRef : Option String
  maxConcurrent : ℕ

/-- `SecretaryProvisionState`. -/
inductive ProvisionState where
  | pending
  | ready (receipt : Receipt)
  | failed (error : Option String)
  | missing

inductive Entry where
  | provisioned (sessionId : String)
  | cleanup (sessionId : String)
deriving DecidableEq, Repr

/-- Where the start that is under way is suspended. -/
inductive Start where
  | provisioning (sessionId : String)
  | cleaning
deriving DecidableEq, Repr

/-- A loop of `inspectActive`: the session whose inspection it awaits, or its cleanup. -/
structure Inspection where
  includeStarting : Bool
  inspecting : Option Session
  rest : List Session
deriving DecidableEq, Repr

structure Broker where
  store : Store
  /-- The starts behind `startTail`, with their hints. -/
  startTail : List (Option String)
  starting : Option Start
  /-- The reconciliations behind `reconcileTail`. -/
  reconcileTail : ℕ
  reconciling : Option Inspection
  recoveries : List Inspection
  log : List Entry
deriving DecidableEq

def Broker.create (store : Store) : Broker := ⟨store, [], none, 0, none, [], []⟩

namespace Broker

def logged (e : Entry) (b : Broker) : Broker := { b with log := e :: b.log }

/-! ## Starting -/

/-- The start at the head of the queue, to its provisioning call. -/
def startInside (config : Config) (d : SessionStore.Draw) (hintMindId : Option String) (b : Broker) : Broker :=
  if config.enabled = false then b
  else
    match config.modelRef with
    | none => b
    | some modelRef =>
        if config.maxConcurrent ≤ ((SessionStore.list b.store).filter (fun x => x.status.active)).length then b
        else
          match SessionStore.create d hintMindId modelRef b.store with
          | (.error _, store) => { b with store }
          | (.ok created, store) => { b with store, starting := some (.provisioning created.id) }

/-- The `catch` of a start: the cleanup is only reached where the session can be failed. -/
def startFailed (now : ℤ) (sessionId error : String) (b : Broker) : Broker :=
  match SessionStore.fail now sessionId error b.store with
  | (.error _, store) => { b with store, starting := none }
  | (.ok failed, store) => { b with store, starting := some .cleaning }.logged (.cleanup failed.id)

/-- `provision` has returned with a receipt, or thrown. -/
def provisioned (now : ℤ) (sessionId : String) (outcome : Except String Receipt) (b : Broker) : Broker :=
  match outcome with
  | .error error => startFailed now sessionId error b
  | .ok receipt =>
      let b := b.logged (.provisioned sessionId)
      if receipt.valid = false then
        startFailed now sessionId "secretary runtime returned an invalid Pod identity" b
      else
        match SessionStore.ready now sessionId receipt b.store with
        | (.ok _, store) => { b with store, starting := none }
        | (.error error, store) => startFailed now sessionId error.message { b with store }

/-! ## Closing -/

def close (now : ℤ) (sessionId : String) (b : Broker) : Broker :=
  match b.store.sessions.get? sessionId with
  | none => b
  | some current =>
      if current.status.active = false then b.logged (.cleanup current.id)
      else
        match SessionStore.close now sessionId b.store with
        | (.error _, store) => { b with store }
        | (.ok closed, store) => { b with store }.logged (.cleanup closed.id)

/-! ## Inspecting -/

def active (b : Broker) (includeStarting : Bool) (sessionId : String) : Option Session :=
  (b.store.sessions.get? sessionId).filter (fun current =>
    decide (current.status = .ready) || (includeStarting && decide (current.status = .starting)))

/-- The loop, to its next inspection: `none` when it has come to its end. -/
def proceed (b : Broker) (includeStarting : Bool) : List Session → Option Inspection
  | [] => none
  | session :: rest =>
      if (b.active includeStarting session.id).isSome then some ⟨includeStarting, some session, rest⟩
      else proceed b includeStarting rest

def inspectActive (b : Broker) (includeStarting : Bool) : Option Inspection :=
  b.proceed includeStarting (SessionStore.list b.store)

/-- `fail` and `cleanupBestEffort`; where `fail` throws, the loop ends. -/
def failInspected (now : ℤ) (includeStarting : Bool) (sessionId error : String) (rest : List Session) (b : Broker) :
    Option Inspection × Broker :=
  match SessionStore.fail now sessionId error b.store with
  | (.error _, store) => (none, { b with store })
  | (.ok failed, store) => (some ⟨includeStarting, none, rest⟩, { b with store }.logged (.cleanup failed.id))

/-- The loop goes on if the session is no longer active, else the session fails. -/
def failActive (now : ℤ) (includeStarting : Bool) (sessionId error : String) (rest : List Session) (b : Broker) :
    Option Inspection × Broker :=
  match b.active includeStarting sessionId with
  | none => (b.proceed includeStarting rest, b)
  | some current => b.failInspected now includeStarting current.id error rest

/-- An inspection has returned, or thrown. -/
def inspected (now : ℤ) (includeStarting : Bool) (session : Session) (rest : List Session)
    (outcome : Except String ProvisionState) (b : Broker) : Option Inspection × Broker :=
  match outcome with
  | .error error => b.failActive now includeStarting session.id error rest
  | .ok .pending => (b.proceed includeStarting rest, b)
  | .ok (.failed error) => b.failActive now includeStarting session.id (error.getD "secretary Pod failed") rest
  | .ok .missing => b.failActive now includeStarting session.id "secretary Pod is missing" rest
  | .ok (.ready receipt) =>
      if receipt.valid = false then
        b.failActive now includeStarting session.id "secretary runtime returned an invalid Pod identity" rest
      else
        match b.active includeStarting session.id with
        | none => (b.proceed includeStarting rest, b)
        | some current =>
            if current.status = .starting then
              match SessionStore.ready now current.id receipt b.store with
              | (.ok _, store) =>
                  let b := { b with store }
                  (b.proceed includeStarting rest, b)
              | (.error error, store) =>
                  { b with store }.failActive now includeStarting session.id error.message rest
            else if current.podName = some receipt.podName ∧ current.podUid = some receipt.podUid then
              (b.proceed includeStarting rest, b)
            else b.failInspected now includeStarting current.id "secretary Pod identity changed" rest

/-- A loop takes its next step: the inspection answers, or the cleanup is over. -/
def resume (now : ℤ) (outcome : Except String ProvisionState) (i : Inspection) (b : Broker) :
    Option Inspection × Broker :=
  match i.inspecting with
  | some session => b.inspected now i.includeStarting session i.rest outcome
  | none => (b.proceed i.includeStarting i.rest, b)

end Broker

/-! ## Runs -/

inductive Event where
  | start (hintMindId : Option String)
  | startNext (d : SessionStore.Draw)
  | provisionReturns (now : ℤ) (outcome : Except String Receipt)
  | startCleaned
  | close (now : ℤ) (sessionId : String)
  | recover
  | reconcile
  | reconcileNext
  | reconcileResumes (now : ℤ) (outcome : Except String ProvisionState)
  | recoveryResumes (k : ℕ) (now : ℤ) (outcome : Except String ProvisionState)
  /-- Whatever the conversations do to their turns meanwhile. -/
  | turns (turns : Table Turn.id)
  /-- The process ends, and another one goes on with the store. -/
  | restart

open Broker in
/-- A step that is not there to take leaves the broker as it is. -/
def step (config : Config) (b : Broker) : Event → Broker
  | .start hintMindId => { b with startTail := b.startTail ++ [hintMindId] }
  | .startNext d =>
      match b.starting, b.startTail with
      | none, hintMindId :: startTail => startInside config d hintMindId { b with startTail }
      | _, _ => b
  | .provisionReturns now outcome =>
      match b.starting with
      | some (.provisioning sessionId) => provisioned now sessionId outcome b
      | _ => b
  | .startCleaned =>
      match b.starting with
      | some .cleaning => { b with starting := none }
      | _ => b
  | .close now sessionId => Broker.close now sessionId b
  | .recover => { b with recoveries := b.recoveries ++ (b.inspectActive true).toList }
  | .reconcile => { b with reconcileTail := b.reconcileTail + 1 }
  | .reconcileNext =>
      match b.reconciling, b.reconcileTail with
      | none, n + 1 => { b with reconcileTail := n, reconciling := b.inspectActive false }
      | _, _ => b
  | .reconcileResumes now outcome =>
      match b.reconciling with
      | none => b
      | some i =>
          let (next, b) := b.resume now outcome i
          { b with reconciling := next }
  | .recoveryResumes k now outcome =>
      match b.recoveries[k]? with
      | none => b
      | some i =>
          let (next, b) := b.resume now outcome i
          { b with recoveries := b.recoveries.take k ++ next.toList ++ b.recoveries.drop (k + 1) }
  | .turns turns => { b with store := { b.store with turns } }
  | .restart => { Broker.create b.store with log := b.log }

end Spawn

end Elpis.Secretary
