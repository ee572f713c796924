import Elpis.Js.Text
import Elpis.Lib.Run
import Elpis.Lib.Table
import Elpis.Lib.Tx

/-!
# Provenance of resident runs

`src/kernel/resident-run-provenance.ts`. The calls of an assistant message are prepared as
one batch. Once the message is in the transcript the batch is committed, and only then a
token is issued for each call. A token is exchanged for a run handle, which is active until
it is detached or closed.

A prepared batch, a token and a handle are empty frozen objects. What the authority knows
of one stands in a `WeakMap` under its identity, so here an object is its address and each
map is a table. SHA-256 is a parameter.
-/

namespace Elpis.Kernel.Provenance

open Elpis.Js Elpis.Lib

/-! ## Batches -/

/-- What stands at a place of the array of calls: nothing, a value whose fields are not
strings, or a call. -/
inductive Slot where
  | hole
  | malformed
  | call (toolName arguments : String)
deriving DecidableEq, Repr

structure RecordedResidentToolBatch where
  batchId : String
  batchSha256 : String
deriving DecidableEq, Repr

structure ResidentToolCallSnapshot extends RecordedResidentToolBatch where
  callIndex : ℕ
  callCount : ℕ
  toolName : String
  argumentsSha256 : String
deriving DecidableEq, Repr

/-- `SHA256`. -/
def isSha256 (s : String) : Bool := fits (List.replicate 64 hexClass) s

/-- `BATCH_ID`: the prefix and a version 4 UUID. -/
def isBatchId (s : String) : Bool :=
  fits (literal "resident-tool-batch:" ++ List.replicate 8 hexClass ++ literal "-" ++
    List.replicate 4 hexClass ++ literal "-4" ++ List.replicate 3 hexClass ++ literal "-" ++
    [fun c => "89ab".toList.contains c] ++ List.replicate 3 hexClass ++ literal "-" ++
    List.replicate 12 hexClass) s

def MAX_TOOL_CALLS : ℕ := 64
def MAX_TOOL_NAME_BYTES : ℕ := 256

def BATCH_DOMAIN : String := "elpis/resident-assistant-tool-batch/v1\n"

/-- `!toolName || Buffer.byteLength(toolName) > MAX_TOOL_NAME_BYTES`, denied. -/
def validToolName (toolName : String) : Bool :=
  decide (toolName ≠ "") && decide (toolName.utf8ByteSize ≤ MAX_TOOL_NAME_BYTES)

/-- One call of the canonical form, as `JSON.stringify` writes it. -/
def canonicalCall (c : ResidentToolCallSnapshot) : String :=
  "\x7b\"callIndex\":" ++ toString c.callIndex ++ ",\"toolName\":" ++ stringify c.toolName ++
    ",\"argumentsSha256\":" ++ stringify c.argumentsSha256 ++ "\x7d"

/-- `JSON.stringify({ version: 1, batchId, calls: canonicalCalls })`. -/
def canonical (batchId : String) (calls : List ResidentToolCallSnapshot) : String :=
  "\x7b\"version\":1,\"batchId\":" ++ stringify batchId ++ ",\"calls\":[" ++
    String.intercalate "," (calls.map canonicalCall) ++ "]\x7d"

section Batch

variable (sha256 : String → String)

/-- `computeResidentToolBatchSha256`, for calls without holes. -/
def computeResidentToolBatchSha256 (batchId : String) (calls : List ResidentToolCallSnapshot) :
    Except String String :=
  if !isBatchId batchId then .error "resident run provenance: batch id is invalid"
  else if calls.length = 0 ∨ calls.length > MAX_TOOL_CALLS then
    .error "resident run provenance: canonical batch size is invalid"
  else if calls.zipIdx.any (fun (c, i) =>
      decide (c.callIndex ≠ i) || !validToolName c.toolName || !isSha256 c.argumentsSha256) then
    .error "resident run provenance: canonical tool call is invalid"
  else .ok (sha256 (BATCH_DOMAIN ++ canonical batchId calls))

/-- A call of the array, before the hash of the batch is known. -/
def snapshot (batchId : String) (callCount : ℕ) (slot : Slot × ℕ) :
    Option ResidentToolCallSnapshot :=
  match slot with
  | (.call toolName arguments, callIndex) =>
      if validToolName toolName then
        some ⟨⟨batchId, ""⟩, callIndex, callCount, toolName, sha256 arguments⟩
      else none
  | _ => none

/-- `normalizeCalls`. `none` is a value that is no array. -/
def normalizeCalls (batchId : String) (calls : Option (List Slot)) :
    Except String (List ResidentToolCallSnapshot) :=
  match calls with
  | none => .error "resident run provenance: tool batch size is invalid"
  | some calls =>
      if calls.length = 0 ∨ calls.length > MAX_TOOL_CALLS then
        .error "resident run provenance: tool batch size is invalid"
      else if Slot.hole ∈ calls then .error "resident run provenance: tool batch is sparse"
      else
        match calls.zipIdx.mapM (snapshot sha256 batchId calls.length) with
        | none => .error "resident run provenance: tool call is invalid"
        | some normalized =>
            match computeResidentToolBatchSha256 sha256 batchId normalized with
            | .error e => .error e
            | .ok batchSha256 => .ok (normalized.map (fun c => { c with batchSha256 }))

/-- A value of a field of a parsed record. -/
inductive Scalar where
  | str (s : String)
  | num (n : Js.Num)
  | other
deriving DecidableEq

def exactKeys (actual expected : List String) : Bool := decide (sort actual = sort expected)

/-- `parseRecordedResidentToolBatch`. The value is the fields of an object, or `none`. -/
def parseRecordedResidentToolBatch (value : Option (List (String × Scalar)))
    (calls : Option (List Slot)) : Option RecordedResidentToolBatch :=
  match value with
  | none => none
  | some record =>
      if !exactKeys (record.map Prod.fst) ["version", "batchId", "batchSha256"] then none
      else
        match record.lookup "version", record.lookup "batchId", record.lookup "batchSha256" with
        | some (.num version), some (.str batchId), some (.str batchSha256) =>
            if version ≠ .finite 1 ∨ !isBatchId batchId ∨ !isSha256 batchSha256 then none
            else
              match normalizeCalls sha256 batchId calls with
              | .error _ => none
              | .ok normalized =>
                  if normalized.head?.map (·.batchSha256) = some batchSha256 then
                    some ⟨batchId, batchSha256⟩
                  else none
        | _, _, _ => none

variable {sha256}

end Batch

/-! ## The authority -/

inductive ResidentRunLifecycle where
  | active | detached | closed
deriving DecidableEq, Repr

def ResidentRunLifecycle.text : ResidentRunLifecycle → String
  | .active => "active"
  | .detached => "detached"
  | .closed => "closed"

structure PreparedState where
  object : ℕ
  record : RecordedResidentToolBatch
  calls : List ResidentToolCallSnapshot
  committed : Bool
  issued : List ℕ
deriving DecidableEq, Repr

structure TokenState where
  object : ℕ
  snapshot : ResidentToolCallSnapshot
  used : Bool
deriving DecidableEq, Repr

structure HandleState where
  object : ℕ
  snapshot : ResidentToolCallSnapshot
  lifecycle : ResidentRunLifecycle
deriving DecidableEq, Repr

/-- The variables of the closure, and the address of the next object. -/
structure State where
  preparedStates : Table PreparedState.object
  batchIds : List String
  tokenStates : Table TokenState.object
  handleStates : Table HandleState.object
  heap : ℕ

def State.init : State := ⟨Table.empty, [], Table.empty, Table.empty, 0⟩

abbrev Method := Tx State String

/-- `Object.freeze({})`. -/
def newObject : Method ℕ := do
  let object ← Tx.read State.heap
  Tx.write (fun s => { s with heap := object + 1 })
  pure object

def requirePrepared (prepared : ℕ) : Method PreparedState := do
  let state ← Tx.read (fun s => s.preparedStates.get? prepared)
  Tx.require state "resident run provenance: prepared batch is invalid"

def requireHandle (handle : ℕ) : Method HandleState := do
  let state ← Tx.read (fun s => s.handleStates.get? handle)
  Tx.require state "resident run provenance: scope handle is invalid"

/-- `Number.isSafeInteger(callIndex) && state.calls[callIndex]`, with the index. -/
def callAt (calls : List ResidentToolCallSnapshot) (callIndex : Js.Num) :
    Option (ℕ × ResidentToolCallSnapshot) :=
  match callIndex.toInt? with
  | some (.ofNat i) => calls[i]?.map (fun c => (i, c))
  | _ => none

/-- `prepare`, where `nextId()` answers `id`. -/
def prepare (sha256 : String → String) (id : String) (calls : Option (List Slot)) :
    Method (ℕ × RecordedResidentToolBatch) := do
  let batchId := "resident-tool-batch:" ++ id
  let batchIds ← Tx.read State.batchIds
  Tx.ensure (batchId ∉ batchIds) "resident run provenance: batch id was already used"
  let snapshots ← Tx.ofExcept (normalizeCalls sha256 batchId calls)
  Tx.write (fun s => { s with batchIds := s.batchIds ++ [batchId] })
  let record := ⟨batchId, (snapshots.head?.map (·.batchSha256)).getD ""⟩
  let prepared ← newObject
  Tx.write (fun s =>
    { s with preparedStates := s.preparedStates.put ⟨prepared, record, snapshots, false, []⟩ })
  pure (prepared, record)

def commit (prepared : ℕ) : Method Unit := do
  let state ← requirePrepared prepared
  Tx.ensure (state.committed = false) "resident run provenance: batch is already committed"
  Tx.write (fun s => { s with preparedStates := s.preparedStates.put { state with committed := true } })

def issue (prepared : ℕ) (callIndex : Js.Num) : Method ℕ := do
  let state ← requirePrepared prepared
  Tx.ensure (state.committed = true) "resident run provenance: batch is not committed"
  let (index, call) ← Tx.require (callAt state.calls callIndex)
    "resident run provenance: call index is invalid"
  Tx.ensure (index ∉ state.issued) "resident run provenance: call token was already issued"
  Tx.write (fun s =>
    { s with preparedStates := s.preparedStates.put { state with issued := state.issued ++ [index] } })
  let token ← newObject
  Tx.write (fun s => { s with tokenStates := s.tokenStates.put ⟨token, call, false⟩ })
  pure token

def accept (token : ℕ) : Method ℕ := do
  let found ← Tx.read (fun s => s.tokenStates.get? token)
  let tokenState ← Tx.require found "resident run provenance: run token is invalid"
  Tx.ensure (tokenState.used = false) "resident run provenance: run token was already accepted"
  Tx.write (fun s => { s with tokenStates := s.tokenStates.put { tokenState with used := true } })
  let handle ← newObject
  Tx.write (fun s =>
    { s with handleStates := s.handleStates.put ⟨handle, tokenState.snapshot, .active⟩ })
  pure handle

def resolveActive (handle : ℕ) : Method ResidentToolCallSnapshot := do
  let state ← requireHandle handle
  Tx.ensure (state.lifecycle = .active)
    ("resident run provenance: scope is " ++ state.lifecycle.text)
  pure state.snapshot

def lifecycle (handle : ℕ) : Method ResidentRunLifecycle := do
  let state ← requireHandle handle
  pure state.lifecycle

def detach (handle : ℕ) : Method Unit := do
  let state ← requireHandle handle
  Tx.ensure (state.lifecycle = .active)
    ("resident run provenance: cannot detach " ++ state.lifecycle.text ++ " scope")
  Tx.write (fun s => { s with handleStates := s.handleStates.put { state with lifecycle := .detached } })

def close (handle : ℕ) : Method Unit := do
  let state ← requireHandle handle
  Tx.when (state.lifecycle ≠ .closed)
    (Tx.write (fun s =>
      { s with handleStates := s.handleStates.put { state with lifecycle := .closed } }))

/-! ## Runs -/

/-- A call of the issuer or of the verifier, with any object as its argument, or an object
that someone else makes. -/
inductive Call where
  | prepare (id : String) (calls : Option (List Slot))
  | commit (prepared : ℕ)
  | issue (prepared : ℕ) (callIndex : Js.Num)
  | accept (token : ℕ)
  | resolveActive (handle : ℕ)
  | lifecycle (handle : ℕ)
  | detach (handle : ℕ)
  | close (handle : ℕ)
  | foreign
deriving DecidableEq

inductive Reply where
  | prepared (object : ℕ) (record : RecordedResidentToolBatch)
  | token (object : ℕ)
  | handle (object : ℕ)
  | snapshot (call : ResidentToolCallSnapshot)
  | lifecycle (l : ResidentRunLifecycle)
  | done
deriving DecidableEq

def answer (sha256 : String → String) : Call → Method Reply
  | .prepare id calls => do
      let (object, record) ← prepare sha256 id calls
      pure (.prepared object record)
  | .commit prepared => do
      commit prepared
      pure .done
  | .issue prepared callIndex => do
      let token ← issue prepared callIndex
      pure (.token token)
  | .accept token => do
      let handle ← accept token
      pure (.handle handle)
  | .resolveActive handle => do
      let call ← resolveActive handle
      pure (.snapshot call)
  | .lifecycle handle => do
      let l ← lifecycle handle
      pure (.lifecycle l)
  | .detach handle => do
      detach handle
      pure .done
  | .close handle => do
      close handle
      pure .done
  | .foreign => do
      let _ ← newObject
      pure .done

/-- A call and how it ended. -/
abbrev Entry := Call × Except String Reply

/-- The authority and everything it was asked so far. -/
structure System where
  state : State
  trace : List Entry

def System.init : System := ⟨State.init, []⟩

def step (sha256 : String → String) (y : System) (c : Call) : System :=
  let (reply, state) := answer sha256 c y.state
  ⟨state, y.trace ++ [(c, reply)]⟩

/-- The system after the calls `cs`, from a new authority. -/
def after (sha256 : String → String) (cs : List Call) : System := run (step sha256) System.init cs

end Elpis.Kernel.Provenance
