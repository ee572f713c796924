import Elpis.Lib.Ordered
import Elpis.Lib.Run
import Elpis.Secretary.Store

/-!
# The conversation of a secretary session

`src/secretary/conversation.ts`. A turn is enqueued, handed out by a claim with the transcript
before it, and completed; a restart and the end of the session settle what is open. Every method
is a transaction.

The session store's own calls are here as far as they change the status of a session.
-/

namespace Elpis.Secretary

open Elpis.Js Elpis.Lib

/-! ## Checks -/

def maxContentChars : ℕ := 32768
def maxConversationTurns : ℕ := 16

/-- `Number.isSafeInteger`. -/
def isSafe (n : ℤ) : Bool := decide (-9007199254740991 ≤ n ∧ n ≤ 9007199254740991)

def isSecretarySessionId (s : String) : Bool := fits (literal "sec-" ++ List.replicate 22 base64urlClass) s
def isSecretaryTurnId (s : String) : Bool := fits (literal "stn-" ++ List.replicate 22 base64urlClass) s

/-- `ChatMessage`: the content where it is a string, and the names of further fields. -/
structure ChatMessage where
  role : String
  content : Option String
  others : List String
deriving DecidableEq, Repr

def ChatMessage.of (m : Message) : ChatMessage := ⟨m.role.name, some m.content, []⟩

def refuse (code : Code) (text : String) : Failure := .conversation code text

def boundedError (e : Failure) : String := slice e.message 1000

def message (value : ChatMessage) (role : Role) : Except Failure Message :=
  let malformed := refuse .invalid_request ("secretary " ++ role.name ++ " message must contain exactly role=" ++
    role.name ++ " and non-empty content")
  match value.content with
  | none => .error malformed
  | some content =>
      if value.others ≠ [] ∨ value.role ≠ role.name ∨ trim content = "" then .error malformed
      else if maxContentChars < content.utf8ByteSize then
        .error (refuse .invalid_request ("secretary " ++ role.name ++ " message exceeds " ++
          toString maxContentChars ++ " UTF-8 bytes"))
      else .ok ⟨role, content⟩

/-- `rowTurn`: a row that does not read back is an error of its own, not of the store. -/
def rowTurn (t : Turn) : Except Failure Turn :=
  if isSecretaryTurnId t.id = false then .error (.sql "secretary turn has invalid identity")
  else if isSecretarySessionId t.sessionId = false then .error (.sql "secretary turn has invalid session identity")
  else if isSafe t.sequence = false ∨ t.sequence < 1 ∨ isSafe t.createdAt = false ∨ isSafe t.updatedAt = false ∨
      (∃ n ∈ t.claimedAt, isSafe n = false) ∨ (∃ n ∈ t.completedAt, isSafe n = false) then
    .error (.sql "secretary turn has invalid lifecycle numbers")
  else do
    let request ← message (.of t.request) .user
    match t.response with
    | none => return { t with request }
    | some response =>
        let response ← message (.of response) .assistant
        return { t with request, response := some response }

def validateSessionId (sessionId : String) : Method Unit :=
  Tx.ensure (isSecretarySessionId sessionId = true)
    (refuse .invalid_request "sessionId must be an exact canonical sec- identity")

def requireReadySession (sessionId : String) : Method Unit := do
  let s ← Tx.read id
  let session ← Tx.require (s.sessions.get? sessionId) (refuse .not_found "secretary session is unavailable")
  Tx.ensure (session.status = .ready) (refuse .unavailable "secretary session is not ready")

/-- `time`, of a clock that shows this number. -/
def time (now : Js.Num) : Method ℤ := do
  let value ← Tx.require now.toInt? (refuse .invalid_request "secretary conversation time is invalid")
  Tx.ensure (isSafe value = true) (refuse .invalid_request "secretary conversation time is invalid")
  return value

/-- The `catch` of a method: an error that is not the store's own becomes a conflict. -/
def caught : Failure → Failure
  | .conversation code text => .conversation code text
  | e => refuse .conflict (boundedError e)

/-- `BEGIN IMMEDIATE … COMMIT`, with the `catch`. -/
def transaction {α : Type} (m : Method α) : Method α := Tx.transaction (Tx.mapError caught m)

/-! ## Methods -/

def status (turnId : String) : Method Turn := do
  Tx.ensure (isSecretaryTurnId turnId = true)
    (refuse .invalid_request "turnId must be an exact canonical stn- identity")
  let s ← Tx.read id
  let row ← Tx.require (s.turns.get? turnId) (refuse .not_found "secretary turn is unavailable")
  Tx.ofExcept (rowTurn row)

/-- The turns of a session. -/
def Store.turnsOf (s : Store) (sessionId : String) : List Turn :=
  s.turns.select (fun t => decide (t.sessionId = sessionId))

/-- `COALESCE(MAX(sequence), 0)`. -/
def maxSequence (turns : List Turn) : ℕ := turns.foldr (fun t n => max t.sequence n) 0

/-- The loop over fresh ids, of these candidates. -/
def freshTurnId (s : Store) : (attempts : ℕ) → List String → Except Failure String
  | 0, _ | _, [] => .error (refuse .conflict "secretary turn id space is exhausted")
  | n + 1, candidate :: candidates =>
      if isSecretaryTurnId candidate = false then
        .error (refuse .invalid_request "secretary turn id source returned a non-canonical identity")
      else if s.turns.get? candidate = none then .ok candidate
      else freshTurnId s n candidates

def enqueue (now : Js.Num) (candidates : List String) (sessionId : String) (request : ChatMessage) : Method Turn := do
  validateSessionId sessionId
  let canonical ← Tx.ofExcept (message request .user)
  let now ← time now
  let turnId ← transaction do
    requireReadySession sessionId
    let s ← Tx.read id
    Tx.ensure ((s.turnsOf sessionId).length < maxConversationTurns)
      (refuse .unavailable ("secretary conversation reached " ++ toString maxConversationTurns ++ " turn limit"))
    Tx.ensure (∀ t ∈ s.turnsOf sessionId, t.status.active = false)
      (refuse .conflict "secretary session already has an active turn")
    let sequence := maxSequence (s.turnsOf sessionId) + 1
    let turnId ← Tx.ofExcept (freshTurnId s 32 candidates)
    insertTurn ⟨turnId, sessionId, sequence, .queued, canonical, none, now, now, none, none, none⟩
    return turnId
  status turnId

/-- The turn with the least sequence. -/
def first (turns : List Turn) : Option Turn := (turns.insertionSort (fun t t' => t.sequence ≤ t'.sequence)).head?

/-- The messages of a turn of the transcript. -/
def exchange (t : Turn) : Except Failure (List Message) :=
  if t.status = .completed then
    match t.response with
    | none => .error (.sql "completed secretary turn has no response")
    | some response => .ok [t.request, response]
  else .ok [t.request]

def Turn.claim (now : ℤ) (t : Turn) : Turn := { t with status := .claimed, claimedAt := some now, updatedAt := now }

theorem Turn.claim_id (now : ℤ) (t : Turn) : (t.claim now).id = t.id := rfl

/-- `SecretaryTurnClaim`. -/
structure TurnClaim where
  turn : Turn
  messages : List Message
deriving DecidableEq, Repr

/-- The rows of the transcript that ends with this turn. -/
def transcript (s : Store) (sessionId : String) (queued : Turn) : List Turn :=
  (s.turns.select (fun t => decide (t.sessionId = sessionId ∧ t.sequence ≤ queued.sequence ∧
    (t.status = .completed ∨ t.id = queued.id)))).insertionSort (fun t t' => t.sequence ≤ t'.sequence)

def claim (now : Js.Num) (sessionId : String) : Method (Option TurnClaim) := do
  validateSessionId sessionId
  let now ← time now
  transaction do
    requireReadySession sessionId
    let s ← Tx.read id
    match first ((s.turnsOf sessionId).filter (fun t => decide (t.status = .queued))) with
    | none => return none
    | some row =>
        let queued ← Tx.ofExcept (rowTurn row)
        let changes ← updateTurns (fun t => decide (t.id = queued.id ∧ t.sessionId = sessionId ∧ t.status = .queued))
          (Turn.claim now) (Turn.claim_id now)
        Tx.ensure (changes = 1) (refuse .conflict "secretary turn changed while being claimed")
        let s ← Tx.read id
        let entries ← Tx.ofExcept ((transcript s sessionId queued).mapM rowTurn)
        let messages ← Tx.ofExcept (entries.mapM exchange)
        let row ← Tx.require (s.turns.get? queued.id) (.sql "secretary turn has invalid identity")
        let turn ← Tx.ofExcept (rowTurn row)
        return some ⟨turn, messages.flatten⟩

def Turn.complete (now : ℤ) (response : Message) (t : Turn) : Turn :=
  { t with status := .completed, response := some response, completedAt := some now, updatedAt := now }

theorem Turn.complete_id (now : ℤ) (response : Message) (t : Turn) : (t.complete now response).id = t.id := rfl

def complete (now : Js.Num) (sessionId turnId : String) (response : ChatMessage) : Method Turn := do
  validateSessionId sessionId
  Tx.ensure (isSecretaryTurnId turnId = true)
    (refuse .invalid_request "turnId must be an exact canonical stn- identity")
  let canonical ← Tx.ofExcept (message response .assistant)
  let now ← time now
  transaction do
    requireReadySession sessionId
    let s ← Tx.read id
    let row ← Tx.require ((s.turns.get? turnId).filter (fun t => decide (t.sessionId = sessionId)))
      (refuse .not_found "secretary turn is unavailable")
    let current ← Tx.ofExcept (rowTurn row)
    if current.status = .completed then
      Tx.ensure (current.response = some canonical)
        (refuse .conflict "secretary turn was completed with a different response")
      return current
    else
      Tx.ensure (current.status = .claimed) (refuse .conflict "secretary turn is not claimed")
      let changes ← updateTurns (fun t => decide (t.id = turnId ∧ t.sessionId = sessionId ∧ t.status = .claimed))
        (Turn.complete now canonical) (Turn.complete_id now canonical)
      Tx.ensure (changes = 1) (refuse .conflict "secretary turn changed while completing")
      let s ← Tx.read id
      let row ← Tx.require (s.turns.get? turnId) (.sql "secretary turn has invalid identity")
      Tx.ofExcept (rowTurn row)

/-- One statement, outside a transaction. -/
def recoverClaimed (now : Js.Num) : Method ℕ := do
  let now ← time now
  updateTurns (fun t => decide (t.status = .claimed))
    (Turn.settled .ambiguous (fun _ => now) "secretary host restarted with a claimed turn") (Turn.settled_id _ _ _)

def settleSession (now : Js.Num) (sessionId reason : String) : Method ℕ := do
  validateSessionId sessionId
  Tx.ensure (1 ≤ length reason ∧ length reason ≤ 1000)
    (refuse .invalid_request "session settlement reason must contain 1 to 1000 characters")
  let now ← time now
  transaction do
    let queued ← updateTurns (fun t => decide (t.sessionId = sessionId ∧ t.status = .queued))
      (Turn.settled .cancelled (fun _ => now) reason) (Turn.settled_id _ _ _)
    let claimed ← updateTurns (fun t => decide (t.sessionId = sessionId ∧ t.status = .claimed))
      (Turn.settled .ambiguous (fun _ => now) reason) (Turn.settled_id _ _ _)
    return queued + claimed

/-! ## Runs -/

/-- A call of the store, or a statement about a session. -/
inductive Call where
  | enqueue (now : Js.Num) (candidates : List String) (sessionId : String) (request : ChatMessage)
  | claim (now : Js.Num) (sessionId : String)
  | complete (now : Js.Num) (sessionId turnId : String) (response : ChatMessage)
  | recoverClaimed (now : Js.Num)
  | settleSession (now : Js.Num) (sessionId reason : String)
  | createSession (session : Session)
  | updateSession (sessionId : String) (from_ : SessionStatus → Bool) (f : Session → Session)

/-- What a call returns, as far as the claims go. -/
def Call.method : Call → Method (Option TurnClaim)
  | enqueue now candidates sessionId request => do
      let _ ← Secretary.enqueue now candidates sessionId request
      return none
  | claim now sessionId => Secretary.claim now sessionId
  | complete now sessionId turnId response => do
      let _ ← Secretary.complete now sessionId turnId response
      return none
  | recoverClaimed now => do
      let _ ← Secretary.recoverClaimed now
      return none
  | settleSession now sessionId reason => do
      let _ ← Secretary.settleSession now sessionId reason
      return none
  | createSession session => do
      let s ← Tx.read id
      Tx.ensure (s.sessions.get? session.id = none ∧ session.status = .starting) uniqueFailed
      Tx.write (fun s => { s with sessions := s.sessions.put session })
      return none
  | updateSession sessionId from_ f => do
      let _ ← Secretary.updateSession sessionId from_ (fun s => { f s with id := s.id })
      return none

def step (s : Store) (c : Call) : Store := (c.method s).2

end Elpis.Secretary
