import Elpis.Js.Record
import Elpis.Lib.Nested

/-!
# The resident's link to the gateway

`src/gateway-link.ts`: a controller owns one outbound connection. It makes an attempt,
says hello, and waits a while for the acknowledgement; where the attempt fails it waits
and makes another, and where that cannot help it says so and stops trying.

Whatever the controller calls may call it again before it returns: a socket may deliver
events from inside `attach`, `send` and `close`, and so may the observer of the status. An
attempt is an object with a number. The clock is part of the state: a timer that is armed
fires once, unless it is cleared first, and clearing may fail.
-/

namespace Elpis.GatewayLink

open Elpis.Js Elpis.Lib Elpis.Lib.Routine

/-! ## Data -/

inductive LinkState where
  | idle | notConfigured | waitingForEnrollment | configurationError | connecting | handshaking
  | ready | backoff | faulted | stopped
deriving DecidableEq, Repr

/-- `GatewayLinkStatus`. -/
structure LinkStatus where
  state : LinkState
  failures : ℕ
deriving DecidableEq, Repr

inductive ResidentPhase where
  | idle | enrolling | active | rotating
deriving DecidableEq, Repr

/-- `GatewayResidentSnapshot`, as far as it is looked at. -/
structure Snapshot where
  instanceId : String
  phase : ResidentPhase
  endpoint : Option String
  activeCredentialId : Option String
deriving DecidableEq, Repr

def snapshotIsActive (snapshot : Snapshot) : Bool :=
  decide (snapshot.phase = .active) || decide (snapshot.phase = .rotating)

/-- A frame of the gateway, as far as it is looked at. -/
inductive Frame where
  | helloAck
  | error (fatal : Bool)
  | other
deriving DecidableEq, Repr

inductive Timer where
  | controller (generation : ℕ)
  | handshake (attempt : ℕ)
deriving DecidableEq, Repr

/-- `GATEWAY_LINK_CLOSE`. -/
def closeStopping : ℕ := 1001
def closeProtocol : ℕ := 1002
def closeInvalidData : ℕ := 1007
def closeUnavailable : ℕ := 1011

def MAX_FAILURES : ℕ := 31

/-- `LIMITS.pendingRequestsPerConnection`. -/
def pendingRequestsPerConnection : ℕ := 128

/-- What the constructor leaves of the options. -/
structure Config where
  configurationInvalid : Bool
  origin : Option String
  maxBufferedAmount : ℕ
  handshakeTimeoutMs : ℕ
  enrollmentPollMs : ℕ
  retryBaseMs : ℕ
  retryMaxMs : ℕ

/-- `LiveAttempt`. `detach` says that there are listeners to take off. -/
structure Attempt where
  generation : ℕ
  hello : String
  detach : Bool := false
  timer : Option ℕ := none
  opened : Bool := false
  ready : Bool := false
  writingEffect : Bool := false
  effectQueue : List String := []
deriving Inhabited

/-- The controller, the attempts there have been, and the clock. -/
structure Controller where
  current : LinkStatus
  started : Bool
  stopped : Bool
  generation : ℕ
  failures : ℕ
  timer : Option ℕ
  live : Option ℕ
  attempts : ℕ → Attempt
  count : ℕ
  timers : ℕ → Option Timer
  handles : ℕ

def Controller.init : Controller where
  current := ⟨.idle, 0⟩
  started := false
  stopped := false
  generation := 0
  failures := 0
  timer := none
  live := none
  attempts := fun _ => default
  count := 0
  timers := fun _ => none
  handles := 0

/-! ## Surroundings -/

/-- What is only looked at, or does not call back. -/
inductive Look where
  | read
  | authorize
  | setup (origin authorization instanceId : String)
  | random
  | setTimeout (timer : Timer) (delay : ℕ)
  | clearTimeout (handle : ℕ)
  | receive (attempt : ℕ) (text : String)
  | create (attempt : ℕ)

/-- What is called, and may call back. `never` is not answered. -/
inductive Out where
  | status (status : LinkStatus)
  | attach (attempt : ℕ)
  | detach (attempt : ℕ)
  | bufferedAmount (attempt : ℕ)
  | sendText (attempt : ℕ) (text : String)
  | close (attempt : ℕ) (code : ℕ) (reason : String)
  | terminate (attempt : ℕ)
  | onFrame (attempt : ℕ) (frame : Frame)
  | never

/-- `socket.bufferedAmount`. -/
inductive Buffered where
  | threw
  | undefined
  | value (n : Js.Num)

/-- What a look gives. `none` is a thrown error, as is `true` where nothing is returned; for
`setTimeout` the answer says whether the callback was called at once, and `setup` gives the
hello of the attempt. -/
@[reducible] def Seen : Look → Type
  | .read => Option Snapshot
  | .authorize => Option String
  | .setup _ _ _ => Option String
  | .random => Option ℚ
  | .setTimeout _ _ => Option Bool
  | .clearTimeout _ => Bool
  | .receive _ _ => Option Frame
  | .create _ => Option String

/-- What a call returns, with thrown errors in the same way. `attach` says whether it
returned a function. -/
@[reducible] def Reply : Out → Type
  | .status _ => Unit
  | .attach _ => Option Bool
  | .detach _ => Unit
  | .bufferedAmount _ => Buffered
  | .sendText _ _ => Bool
  | .close _ _ _ => Bool
  | .terminate _ => Unit
  | .onFrame _ _ => Unit
  | .never => Empty

@[reducible] def surroundings : Interface where
  Peek := Look
  Seen := Seen
  Ask := Out
  Reply := Reply

abbrev Method := Routine surroundings Controller

def see (q : Look) : Method (Seen q) := @look surroundings Controller q

def invoke (q : Out) : Method (Reply q) := @call surroundings Controller q

/-! ## Parts -/

/-- `#isCurrent`, of the state. -/
def current (s : Controller) (live : ℕ) : Bool :=
  !s.stopped && decide (s.live = some live) && decide ((s.attempts live).generation = s.generation)

/-- `#isCurrent`. -/
def isCurrent (live : ℕ) : Method Bool := do
  let s ← get
  return current s live

/-- An assignment to fields of an attempt. -/
def setAttempt (live : ℕ) (f : Attempt → Attempt) : Method Unit :=
  modify (fun s => { s with attempts := Function.update s.attempts live (f (s.attempts live)) })

/-- A statement under a condition. -/
def doIf (c : Bool) (p : Method Unit) : Method Unit := if c = true then p else pure ()

/-- `#transition`. -/
def transition (state : LinkState) : Method Unit := do
  let s ← get
  if s.stopped = true ∧ state ≠ .stopped then pure ()
  else if s.current = ⟨state, s.failures⟩ then pure ()
  else do
    modify (fun s => { s with current := ⟨state, s.failures⟩ })
    invoke (.status ⟨state, s.failures⟩)

/-- `clock.setTimeout`, with the handle and whether the callback was called at once. -/
def setTimeout (timer : Timer) (delay : ℕ) : Method (Option (ℕ × Bool)) := do
  match ← see (.setTimeout timer delay) with
  | none => return none
  | some fired =>
      let s ← get
      modify (fun s => { s with
        handles := s.handles + 1
        timers := if fired then s.timers else Function.update s.timers s.handles (some timer) })
      return some (s.handles, fired)

/-- `clock.clearTimeout`, inside of `try`. -/
def clearTimeout (handle : ℕ) : Method Unit := do
  let threw ← see (.clearTimeout handle)
  if threw = true then pure ()
  else modify (fun s => { s with timers := Function.update s.timers handle none })

/-- `#clearControllerTimer`. -/
def clearControllerTimer : Method Unit := do
  let s ← get
  modify (fun s => { s with timer := none })
  match s.timer with
  | none => pure ()
  | some handle => clearTimeout handle

/-- `#clearLiveTimer`. -/
def clearLiveTimer (live : ℕ) : Method Unit := do
  let s ← get
  setAttempt live (fun a => { a with timer := none })
  match (s.attempts live).timer with
  | none => pure ()
  | some handle => clearTimeout handle

/-- `#dispose`. -/
def dispose (live : ℕ) (code : ℕ) (reason : String) : Method Unit := do
  clearLiveTimer live
  let s ← get
  doIf (s.attempts live).detach (invoke (.detach live))
  setAttempt live (fun a => { a with detach := false })
  let threw ← invoke (.close live code reason)
  doIf threw (invoke (.terminate live))

/-- `#fault`. -/
def fault (live : Option ℕ) : Method Unit := do
  let s ← get
  if s.stopped = true then pure ()
  else
    match live with
    | none => do
        clearControllerTimer
        transition .faulted
    | some live =>
        if current s live = false then pure ()
        else do
          clearControllerTimer
          modify (fun s => { s with
            generation := s.generation + 1
            live := none })
          dispose live closeUnavailable "local_fault"
          transition .faulted

/-- `#armControllerTimer`. -/
def armControllerTimer (delay : ℕ) : Method Unit := do
  let s ← get
  if s.stopped = true ∨ s.timer ≠ none then pure ()
  else
    match ← setTimeout (.controller s.generation) delay with
    | none => do
        let now ← get
        if now.stopped = false ∧ now.generation = s.generation then transition .faulted
        else pure ()
    | some (handle, firedSynchronously) => do
        let now ← get
        if now.stopped = true ∨ now.generation ≠ s.generation ∨ firedSynchronously = true then do
          clearTimeout handle
          let now ← get
          if now.stopped = false ∧ now.generation = s.generation then transition .faulted
          else pure ()
        else modify (fun s => { s with timer := some handle })

/-- `#armLiveTimer`. -/
def armLiveTimer (cfg : Config) (live : ℕ) : Method Unit := do
  let s ← get
  if current s live = false ∨ (s.attempts live).ready = true ∨ (s.attempts live).timer ≠ none then
    pure ()
  else
    match ← setTimeout (.handshake live) cfg.handshakeTimeoutMs with
    | none => fault (some live)
    | some (handle, firedSynchronously) =>
        if firedSynchronously = true then do
          clearTimeout handle
          fault (some live)
        else do
          let now ← get
          if current now live = true ∧ (now.attempts live).ready = false then
            setAttempt live (fun a => { a with timer := some handle })
          else clearTimeout handle

/-- The delay before the next attempt, with equal jitter. -/
def retryDelay (cfg : Config) (failures : ℕ) (random : Option ℚ) : ℕ :=
  let exponent := min (failures - 1) 30
  let ceiling := min cfg.retryMaxMs (cfg.retryBaseMs * 2 ^ exponent)
  let fraction : ℚ :=
    match random with
    | some value => if value < 0 ∨ 1 ≤ value then 1 / 2 else value
    | none => 1 / 2
  min ceiling ⌊(ceiling : ℚ) / 2 + fraction * (⌈(ceiling : ℚ) / 2⌉ : ℤ)⌋.toNat

/-- `#scheduleAfterFailure`. -/
def scheduleAfterFailure (cfg : Config) : Method Unit := do
  let s ← get
  if s.stopped = true then pure ()
  else
    match ← see .read with
    | none => fault none
    | some snapshot =>
        if snapshotIsActive snapshot = true ∧ cfg.origin ≠ none ∧ snapshot.endpoint = cfg.origin then do
          let random ← see .random
          transition .backoff
          armControllerTimer (max 1 (retryDelay cfg s.failures random))
        else do
          transition .waitingForEnrollment
          armControllerTimer cfg.enrollmentPollMs

/-- `#attemptFailed`, of an attempt. -/
def attemptFailed (cfg : Config) (live : ℕ) (code : ℕ) (reason : String) : Method Unit := do
  let s ← get
  if s.stopped = true then pure ()
  else if current s live = false then pure ()
  else do
    modify (fun s => { s with
      generation := s.generation + 1
      live := none })
    dispose live code reason
    modify (fun s => { s with failures := min MAX_FAILURES (s.failures + 1) })
    scheduleAfterFailure cfg

/-- `#dispatch`: an event of an attempt that is not current does nothing. -/
def dispatch (live : ℕ) (operation : Method Unit) : Method Unit := do
  if (← isCurrent live) = true then operation else pure ()

/-! ## Effects -/

/-- `#hasCapacity`. -/
def hasCapacity (cfg : Config) (live : ℕ) (encoded : String) : Method Bool := do
  match ← invoke (.bufferedAmount live) with
  | .threw => return false
  | .undefined => return decide (encoded.utf8ByteSize ≤ cfg.maxBufferedAmount)
  | .value .nonFinite => return false
  | .value (.finite buffered) =>
      return isSafeInteger buffered && decide (0 ≤ buffered) &&
        decide (buffered + encoded.utf8ByteSize ≤ cfg.maxBufferedAmount)

/-- The loop of `#writeEffect`, with a bound on its rounds that is never reached. -/
def drain (cfg : Config) (live : ℕ) : ℕ → Method Unit
  | 0 => do
      let e ← invoke .never
      nomatch e
  | rounds + 1 => do
      let s ← get
      if current s live = false then pure ()
      else
        match (s.attempts live).effectQueue with
        | [] => pure ()
        | encoded :: rest => do
            setAttempt live (fun a => { a with effectQueue := rest })
            if (← hasCapacity cfg live encoded) = false then
              attemptFailed cfg live closeUnavailable "backpressure"
            else do
              let threw ← invoke (.sendText live encoded)
              if threw = true then attemptFailed cfg live closeUnavailable "transport_error"
              else drain cfg live rounds

/-- `#writeEffect`, of an effect whose frame `create` makes. -/
def writeEffect (cfg : Config) (live : ℕ) (rounds : ℕ) : Method Unit := do
  let s ← get
  if current s live = false ∨ (s.attempts live).ready = false then pure ()
  else if pendingRequestsPerConnection ≤ (s.attempts live).effectQueue.length then
    attemptFailed cfg live closeUnavailable "backpressure"
  else
    match ← see (.create live) with
    | none => pure ()
    | some encoded => do
        setAttempt live (fun a => { a with effectQueue := a.effectQueue ++ [encoded] })
        if (s.attempts live).writingEffect = true then pure ()
        else do
          setAttempt live (fun a => { a with writingEffect := true })
          drain cfg live rounds
          setAttempt live (fun a => { a with writingEffect := false })
          let now ← get
          if current now live = false then setAttempt live (fun a => { a with effectQueue := [] })
          else pure ()

/-! ## Events of an attempt -/

/-- `#opened`. -/
def opened (cfg : Config) (live : ℕ) : Method Unit := do
  let s ← get
  if (s.attempts live).opened = true then
    attemptFailed cfg live closeProtocol "duplicate_open"
  else do
    setAttempt live (fun a => { a with opened := true })
    transition .handshaking
    if (← isCurrent live) = false then pure ()
    else if (← hasCapacity cfg live (s.attempts live).hello) = false then
      attemptFailed cfg live closeUnavailable "backpressure"
    else do
      let threw ← invoke (.sendText live (s.attempts live).hello)
      if threw = true then attemptFailed cfg live closeUnavailable "transport_error"
      else pure ()

/-- `#message`. The text is `none` where the data is too long or no UTF-8. -/
def message (cfg : Config) (live : ℕ) (text : Option String) (binary : Bool) : Method Unit := do
  if binary = true then attemptFailed cfg live closeProtocol "binary_frame"
  else
    match text with
    | none => attemptFailed cfg live closeInvalidData "invalid_utf8"
    | some text =>
        match ← see (.receive live text) with
        | none => attemptFailed cfg live closeProtocol "protocol_error"
        | some frame => do
            let s ← get
            if (s.attempts live).ready = false then
              if frame ≠ .helloAck then attemptFailed cfg live closeProtocol "invalid_ack"
              else do
                setAttempt live (fun a => { a with ready := true })
                clearLiveTimer live
                modify (fun s => { s with failures := 0 })
                transition .ready
            else if frame = .error true then
              attemptFailed cfg live closeProtocol "fatal_error"
            else invoke (.onFrame live frame)

/-! ## The controller -/

/-- The listeners of an attempt that is over are taken off at once. -/
def keepDetach (live : ℕ) : Method Unit := do
  if (← isCurrent live) = true then setAttempt live (fun a => { a with detach := true })
  else invoke (.detach live)

/-- The part of `#drive` that listens to the attempt it made. -/
def listen (cfg : Config) (live : ℕ) : Method Unit := do
  if (← isCurrent live) = false then pure ()
  else
    match ← invoke (.attach live) with
    | none => fault (some live)
    | some returned => do
        doIf returned (keepDetach live)
        if (← isCurrent live) = false then pure () else armLiveTimer cfg live

/-- The part of `#drive` that makes an attempt, once everything it needs is there. -/
def connect (cfg : Config) (hello : String) : Method Unit := do
  let s ← get
  modify (fun s => { s with
    generation := s.generation + 1
    attempts := Function.update s.attempts s.count { generation := s.generation + 1, hello }
    count := s.count + 1
    live := some s.count })
  transition .connecting
  listen cfg s.count

/-- What is done while there is nothing to connect with. -/
def await (cfg : Config) : Method Unit := do
  transition .waitingForEnrollment
  armControllerTimer cfg.enrollmentPollMs

/-- `#drive`. -/
def drive (cfg : Config) : Method Unit := do
  let s ← get
  if s.started = false ∨ s.stopped = true ∨ s.live ≠ none then pure ()
  else do
    clearControllerTimer
    if cfg.configurationInvalid = true then transition .configurationError
    else
      match cfg.origin with
      | none => transition .notConfigured
      | some origin =>
          match ← see .read with
          | none => fault none
          | some first =>
              if snapshotIsActive first = false then await cfg
              else if first.endpoint ≠ some origin then transition .configurationError
              else
                match ← see .authorize with
                | none => fault none
                | some authorization =>
                    match ← see .read with
                    | none => fault none
                    | some second =>
                        if snapshotIsActive second = false ∨ second.instanceId ≠ first.instanceId ∨
                            second.endpoint ≠ some origin ∨
                            second.activeCredentialId ≠ first.activeCredentialId then
                          await cfg
                        else
                          match ← see (.setup origin authorization second.instanceId) with
                          | none => fault none
                          | some hello => connect cfg hello

def start (cfg : Config) : Method Unit := do
  let s ← get
  if s.stopped = true ∨ s.started = true then pure ()
  else do
    modify (fun s => { s with started := true })
    drive cfg

/-- The attempt that was live when the controller stopped. -/
def disposeIf : Option ℕ → Method Unit
  | none => pure ()
  | some live => dispose live closeStopping "stopping"

def stop : Method Unit := do
  let s ← get
  if s.stopped = true then pure ()
  else do
    modify (fun s => { s with
      stopped := true
      generation := s.generation + 1 })
    clearControllerTimer
    modify (fun s => { s with live := none })
    disposeIf s.live
    transition .stopped

/-- What happens to the controller. -/
inductive Event where
  | start
  | stop
  | open (attempt : ℕ)
  | message (attempt : ℕ) (text : Option String) (binary : Bool)
  | error (attempt : ℕ)
  | close (attempt : ℕ)
  | fire (handle : ℕ)
  | writeEffect (attempt : ℕ) (rounds : ℕ)

/-- A timer of the clock fires: its callback is called once. -/
def fire (cfg : Config) (handle : ℕ) : Method Unit := do
  let s ← get
  match s.timers handle with
  | none => pure ()
  | some timer => do
      modify (fun s => { s with timers := Function.update s.timers handle none })
      match timer with
      | .controller generation =>
          if s.stopped = true ∨ generation ≠ s.generation then pure ()
          else do
            modify (fun s => { s with timer := none })
            drive cfg
      | .handshake live =>
          dispatch live (attemptFailed cfg live closeUnavailable "handshake_timeout")

def program (cfg : Config) : Event → Method Unit
  | .start => start cfg
  | .stop => stop
  | .open live => dispatch live (opened cfg live)
  | .message live text binary => dispatch live (message cfg live text binary)
  | .error live => dispatch live (attemptFailed cfg live closeUnavailable "transport_error")
  | .close live => dispatch live (attemptFailed cfg live closeUnavailable "transport_error")
  | .fire handle => fire cfg handle
  | .writeEffect live rounds => writeEffect cfg live rounds

/-- The states between events: any number of them has been handled, with any events inside
whatever was called. -/
def Reachable (cfg : Config) (s : Controller) : Prop :=
  ∃ depth, Within (program cfg) depth Controller.init s

end Elpis.GatewayLink
