import Elpis.Secretary.Conversation

/-!
# The sessions of the secretary

`SecretarySessionStore` of `src/secretary/session.ts`. A session is created starting, becomes
ready with its pod, and is closed or has failed for good.
-/

namespace Elpis.Secretary

open Elpis.Js Elpis.Lib

/-- `SecretaryPodIdentity`, of a receipt. -/
structure Receipt where
  podName : String
  podUid : String
deriving DecidableEq, Repr

/-- `validateReceipt`, and `validatePodIdentity` of a receipt. -/
def Receipt.valid (r : Receipt) : Bool :=
  decide (1 ≤ length r.podName ∧ length r.podName ≤ 253 ∧ 1 ≤ length r.podUid ∧ length r.podUid ≤ 128)

namespace SessionStore

def refuse (code : Code) (text : String) : Failure := .session code text

/-- The `catch` of `create`. -/
def caught : Failure → Failure
  | .session code text => .session code text
  | e => refuse .conflict (boundedError e)

def list (s : Store) : List Session :=
  s.sessions.rows.mergeSort (fun x y => decide (y.createdAt < x.createdAt ∨ (y.createdAt = x.createdAt ∧ y.id ≤ x.id)))

/-- What `create` draws and looks up. -/
structure Draw where
  now : ℤ
  candidates : List String
  digest : String
  /-- The credential and the model reference pass their checks. -/
  sound : Bool
  /-- The hint is canonical and names a Mind item. -/
  hinted : String → Bool

/-- The loop over fresh ids, of these candidates. -/
def freshId (s : Store) : (attempts : ℕ) → List String → Except Failure String
  | 0, _ | _, [] => .error (refuse .conflict "secretary session id space is exhausted")
  | n + 1, candidate :: candidates =>
      if isSecretarySessionId candidate = false then
        .error (refuse .invalid_request "secretary session id source returned a non-canonical identity")
      else if s.sessions.get? candidate = none then .ok candidate
      else freshId s n candidates

def create (d : Draw) (hintMindId : Option String) (modelRef : String) : Method Session := do
  Tx.ensure (d.sound = true) (refuse .invalid_request "secretary credential is inconsistent")
  Tx.ensure (isSafe d.now = true) (refuse .invalid_request "session time is invalid")
  Tx.transaction (Tx.mapError caught do
    Tx.ensure (∀ hint ∈ hintMindId, d.hinted hint = true) (refuse .not_found "hint Mind item is unavailable")
    let s ← Tx.read id
    let sessionId ← Tx.ofExcept (freshId s 32 d.candidates)
    Tx.ensure (∀ x ∈ s.sessions.rows, x.controlTokenDigest ≠ d.digest) uniqueFailed
    let session : Session := ⟨sessionId, hintMindId, .starting, modelRef, d.digest, none, none, d.now, d.now, none⟩
    Tx.write (fun s => { s with sessions := s.sessions.put session })
    return session)

def requireSession (sessionId : String) : Method Session := do
  let s ← Tx.read id
  Tx.require (s.sessions.get? sessionId) (refuse .not_found "secretary session is unavailable")

def ready (now : ℤ) (sessionId : String) (pod : Receipt) : Method Session := do
  let current ← requireSession sessionId
  Tx.ensure (current.status = .starting) (refuse .conflict "secretary session is not starting")
  Tx.ensure (pod.valid = true) (refuse .invalid_request "pod identity is invalid")
  let changes ← updateSession sessionId (fun status => decide (status = .starting)) (fun x =>
    { x with status := .ready, podName := some pod.podName, podUid := some pod.podUid,
             updatedAt := max now current.updatedAt })
  Tx.ensure (changes = 1) (refuse .conflict "secretary session changed during transition")
  requireSession sessionId

def finish (now : ℤ) (sessionId : String) (status : SessionStatus) (lastError : Option String)
    (previousUpdatedAt : ℤ) : Method Session := do
  let changes ← updateSession sessionId SessionStatus.active (fun x =>
    { x with status, lastError, updatedAt := max now previousUpdatedAt })
  Tx.ensure (changes = 1) (refuse .conflict "secretary session changed during transition")
  requireSession sessionId

def close (now : ℤ) (sessionId : String) : Method Session := do
  let current ← requireSession sessionId
  if current.status = .closed then return current
  Tx.ensure (current.status ≠ .failed) (refuse .conflict "secretary session has failed")
  finish now sessionId .closed none current.updatedAt

/-- `boundedError`, which is never empty. -/
def boundedError (message : String) : String :=
  if slice message 1000 = "" then "secretary session failed" else slice message 1000

def fail (now : ℤ) (sessionId error : String) : Method Session := do
  let current ← requireSession sessionId
  if current.status = .failed then return current
  Tx.ensure (current.status ≠ .closed) (refuse .conflict "secretary session is closed")
  finish now sessionId .failed (some (boundedError error)) current.updatedAt

end SessionStore

end Elpis.Secretary
