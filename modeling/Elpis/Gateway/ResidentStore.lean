import Elpis.Gateway.CredentialEffects

/-!
# The resident's side of enrollment and rotation

`src/store/gateway-resident.ts`, with the steps of its two controllers,
`src/gateway-enrollment.ts` and `src/gateway-rotation.ts`. The resident keeps one row. The
checks of the table and `assertRow` say which columns each phase has, so here a phase
carries them and a row of another shape cannot be written. A credential of the row is its
id with the token `egc1.<id>.<secret>`; it is kept as the draw it came from.

Every change of the row is one transaction. The clock and the random source come with the
call; the parser of URLs is a parameter.
-/

namespace Elpis.Gateway.Resident

open Elpis.Js Elpis.Lib

/-! ## The row -/

inductive GatewayResidentPhase where
  | idle
  | enrolling (endpoint displayName enrollmentGrant requestId : String) (pending : Draw)
      (enrollmentStartedAt : ℤ)
  | active (endpoint displayName : String) (active : Draw) (enrollmentStartedAt activatedAt : ℤ)
  | rotating (endpoint displayName requestId : String) (active pending : Draw)
      (enrollmentStartedAt activatedAt rotationStartedAt : ℤ) (rotationProposedAt : Option ℤ)

structure ResidentRow where
  instanceId : String
  phase : GatewayResidentPhase
  createdAt : ℤ
  updatedAt : ℤ

inductive GatewayResidentErrorCode where
  | invalidInput | invalidState | conflict | unavailable
deriving DecidableEq, Repr

abbrev ResidentMethod := Tx ResidentRow GatewayResidentErrorCode

/-- What a call of the store draws on. A clock or a random source that fails is `none`, and
`commits` is false when the transaction cannot be written. -/
structure Chance where
  now : Option ℤ
  draw : Option Draw
  requestId : Option String
  commits : Bool

def isRequestId (s : String) : Bool := fits (literal "egr1." ++ publicId) s

def validDisplayName (s : String) : Bool :=
  decide (trim s = s) && decide (s ≠ "") && !s.toList.any isControl && decide (s.utf8ByteSize ≤ 128)

def timestamp (chance : Chance) : ResidentMethod ℤ := do
  let value ← Tx.require chance.now .invalidInput
  Tx.ensure (0 ≤ value ∧ value ≤ MAX_SAFE_INTEGER) .invalidInput
  pure value

/-- `requestId`. -/
def newRequestId (chance : Chance) : ResidentMethod String := do
  let text ← Tx.require chance.requestId .invalidInput
  Tx.ensure (isRequestId ("egr1." ++ text) = true) .invalidInput
  pure ("egr1." ++ text)

/-- `BEGIN IMMEDIATE`, the `UPDATE` and `COMMIT`. -/
def commitRow (chance : Chance) (phase : GatewayResidentPhase) (at_ : ℤ) : ResidentMethod Unit := do
  Tx.ensure (chance.commits = true) .unavailable
  Tx.write (fun row => { row with phase, updatedAt := at_ })

structure BeginGatewayEnrollment where
  endpoint : String
  grantToken : String
  displayName : String
deriving DecidableEq, Repr

section Store

variable (digest : String → Bytes) (validEndpoint : String → Bool)

def beginEnrollment (input : BeginGatewayEnrollment) (chance : Chance) : ResidentMethod Unit := do
  Tx.ensure (validEndpoint input.endpoint = true ∧ validDisplayName input.displayName = true ∧
    (parseEnrollmentCredential digest (some input.grantToken)).isSome) .invalidInput
  let old ← Tx.read id
  match old.phase with
  | .enrolling endpoint displayName grant _ _ _ =>
      Tx.ensure (endpoint = input.endpoint ∧ displayName = input.displayName ∧ grant = input.grantToken)
        .conflict
  | .idle => do
      let next ← Tx.require chance.draw .invalidInput
      let rid ← newRequestId chance
      let now ← timestamp chance
      let at_ := max now old.updatedAt
      commitRow chance (.enrolling input.endpoint input.displayName input.grantToken rid next at_) at_
  | _ => Tx.throw .invalidState

def enrollmentRequest : ResidentMethod EnrollmentRequest := do
  let row ← Tx.read id
  match row.phase with
  | .enrolling _ displayName grant rid pending _ =>
      pure ⟨grant, row.instanceId, displayName, pending.id, digest pending.secret, some rid⟩
  | _ => Tx.throw .invalidState

def activateEnrollment (result : EnrollmentReceipt) (chance : Chance) : ResidentMethod Unit := do
  Tx.ensure (isGatewayInstanceId result.instanceId = true ∧ isCredentialId result.credentialId = true)
    .invalidInput
  let row ← Tx.read id
  match row.phase with
  | .enrolling endpoint displayName _ _ pending startedAt => do
      Tx.ensure (result.instanceId = row.instanceId ∧ result.credentialId = pending.id) .conflict
      let now ← timestamp chance
      let at_ := max now row.updatedAt
      commitRow chance (.active endpoint displayName pending startedAt at_) at_
  | _ => Tx.throw .invalidState

def beginRotation (chance : Chance) : ResidentMethod Unit := do
  let old ← Tx.read id
  match old.phase with
  | .rotating .. => pure ()
  | .active endpoint displayName active startedAt activatedAt => do
      let next ← Tx.require chance.draw .invalidInput
      let rid ← newRequestId chance
      let now ← timestamp chance
      let at_ := max now old.updatedAt
      -- the table holds no rotation to the id that is active
      Tx.ensure (active.id ≠ next.id) .unavailable
      commitRow chance
        (.rotating endpoint displayName rid active next startedAt activatedAt at_ none) at_
  | _ => Tx.throw .invalidState

def exactRotationResult (result : RotationReceipt) : ResidentMethod Unit :=
  Tx.ensure (isGatewayInstanceId result.instanceId = true ∧ isCredentialId result.credentialId = true ∧
    isCredentialId result.previousCredentialId = true) .invalidInput

def markRotationProposed (result : RotationReceipt) (chance : Chance) : ResidentMethod Unit := do
  exactRotationResult result
  let row ← Tx.read id
  match row.phase with
  | .rotating endpoint displayName rid active pending startedAt activatedAt rotationStartedAt proposedAt =>
      do
        Tx.ensure (result.instanceId = row.instanceId ∧ result.credentialId = pending.id ∧
          result.previousCredentialId = active.id) .conflict
        if proposedAt.isSome then pure ()
        else do
          let now ← timestamp chance
          let at_ := max (max now row.updatedAt) rotationStartedAt
          commitRow chance (.rotating endpoint displayName rid active pending startedAt activatedAt
            rotationStartedAt (some at_)) at_
  | _ => Tx.throw .invalidState

def activateRotation (result : RotationReceipt) (chance : Chance) : ResidentMethod Unit := do
  exactRotationResult result
  let row ← Tx.read id
  match row.phase with
  | .rotating endpoint displayName _ active pending startedAt _ _ proposedAt => do
      Tx.ensure (proposedAt.isSome) .invalidState
      Tx.ensure (result.instanceId = row.instanceId ∧ result.credentialId = pending.id ∧
        result.previousCredentialId = active.id) .conflict
      let now ← timestamp chance
      let at_ := max now row.updatedAt
      commitRow chance (.active endpoint displayName pending startedAt at_) at_
  | _ => Tx.throw .invalidState

/-! ## The controllers -/

/-- `DashboardRemoteConfig`. -/
structure Remote where
  url : String
  enrollmentToken : Option String
deriving DecidableEq, Repr

/-- `#prepare` of the enrollment controller, up to the request it posts. Statuses other
than an error of the store are `none`. -/
def prepareEnrollment (remote : Option Remote) (displayName : String) (chance : Chance) :
    ResidentMethod (Option EnrollmentRequest) := do
  let row ← Tx.read id
  match row.phase, remote with
  | .idle, some remote =>
      match remote.enrollmentToken with
      | none => pure none
      | some token => do
          beginEnrollment digest validEndpoint ⟨remote.url, token, displayName⟩ chance
          let request ← enrollmentRequest digest
          pure (some request)
  | .enrolling endpoint name grant _ _ _, some remote =>
      if remote.url ≠ endpoint ∨ ∃ token ∈ remote.enrollmentToken, token ≠ grant then pure none
      else do
        -- only the tuple of the row goes back into the store
        beginEnrollment digest validEndpoint ⟨endpoint, grant, name⟩ chance
        let request ← enrollmentRequest digest
        pure (some request)
  | _, _ => pure none

inductive GatewayRotationMode where
  | trigger | resume
deriving DecidableEq, Repr

/-- `#prepare` of the rotation controller: the proposal under the active token, and behind
the checkpoint the activation under the pending one. -/
def prepareRotation : ResidentMethod Call := do
  let row ← Tx.read id
  match row.phase with
  | .rotating _ _ rid active pending _ _ _ proposedAt =>
      match proposedAt with
      | none => pure (.proposeRotation (some (createNodeCredential digest active).token) pending.id
          (digest pending.secret) (some rid))
      | some _ => pure (.activateRotation (some (createNodeCredential digest pending).token) (some rid))
  | _ => Tx.throw .invalidState

/-- `start` of the rotation controller, up to the first request. -/
def startRotation (mode : GatewayRotationMode) (chance : Chance) : ResidentMethod Call := do
  let before ← Tx.read id
  match mode, before.phase with
  | .trigger, .active .. => do
      beginRotation chance
      prepareRotation digest
  | .resume, .rotating .. => prepareRotation digest
  | _, _ => Tx.throw .invalidState

end Store

end Elpis.Gateway.Resident
