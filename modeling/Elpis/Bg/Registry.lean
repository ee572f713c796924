import Elpis.Lib.Run
import Elpis.Lib.Table

/-!
# The registry of background work

`src/sandbox/bg.ts`. The registry records jobs, which are detached processes, and futures,
which are promises of the sandbox that outlived their run. A job survives a restart of the
harness: the records are written to a file after every change, and a new registry reads
them back and probes the processes. The notices about jobs wait until the registry is
activated; the end of a future is told at once.

Calls and timers are steps of one process. The liveness of a process is what a probe finds,
so it comes with the step.
-/

namespace Elpis.Bg

open Elpis.Lib

/-! ## Records -/

inductive Kind where
  | job | future
deriving DecidableEq, Repr

/-- `BgJob`, less the command, the log and the channel. `undefined` is `none`, so a code
that is `null` is `some none`. -/
structure BgJob where
  id : ℕ
  kind : Kind
  pid : Option ℕ
  startedAt : ℤ
  running : Bool
  exitCode : Option (Option ℤ)
  signal : Option (Option String)
  value : Option String
  rejected : Bool
  ttlAt : Option ℤ
  nudgeAt : Option ℤ
  nudgeNotifiedAt : Option ℤ
  finishedAt : Option ℤ
  settleNotifiedAt : Option ℤ
  cancelled : Bool
deriving DecidableEq, Repr

/-- `isPidAlive`, as the probes of a step find it. -/
abbrev Probe := ℕ → Bool

/-- `j.pid` is there. -/
def BgJob.hasPid (j : BgJob) : Bool := j.pid.any (fun p => decide (p ≠ 0))

/-- `j.pid && !isPidAlive(j.pid)`. -/
def BgJob.dead (j : BgJob) (alive : Probe) : Bool := j.pid.any (fun p => decide (p ≠ 0) && !alive p)

/-- What the registry tells: the heartbeat of a job and its end, and the end of a future. A
future that is abandoned is told to the listeners and to `onAbandoned` at once; the caller
of `settleFuture` tells a settlement when the answer is `true`. -/
inductive Notice where
  | jobStillRunning (id : ℕ)
  | jobSettled (id : ℕ)
  | futureCancelled (id : ℕ)
  | futureAbandoned (id : ℕ)
  | futureSettled (id : ℕ)
deriving DecidableEq, Repr

abbrev Records := Table BgJob.id

structure Config where
  jobNudgeMs : ℤ
  /-- `previewValue(value, 200)`. -/
  preview : String → String

/-- The memory of the process, its file, and what was told so far. `timers` are the jobs
with a heartbeat timer, `watched` those whose process this one has started, and `promises`
the futures whose promise is still open. `next` is the next id: an id is made of the time
and a counter, and is never used again. `ended` is history: the jobs that have been moved
to a terminal state. -/
structure State where
  jobs : Records
  file : Records
  active : Bool
  timers : List ℕ
  watched : List ℕ
  promises : List ℕ
  writable : Bool
  next : ℕ
  notices : List Notice
  ended : List ℕ

def State.init : State :=
  ⟨Table.empty, Table.empty, false, [], [], [], true, 0, [], []⟩

namespace State

/-- Write to a record. -/
def put (j : BgJob) (s : State) : State := { s with jobs := s.jobs.put j }

def tell (n : Notice) (s : State) : State := { s with notices := s.notices ++ [n] }

/-- The job has come to its end. -/
def end_ (id : ℕ) (s : State) : State :=
  { s with ended := if id ∈ s.ended then s.ended else s.ended ++ [id] }

/-- `saveRegistry`: the last fifty records, with a preview of a value. A write that fails
is let go. -/
def save (cfg : Config) (s : State) : State :=
  let last := (s.jobs.rows.drop (s.jobs.rows.length - 50)).map BgJob.id
  let kept := s.jobs.delete (fun j => decide (j.id ∉ last))
  let lines := kept.update (fun _ => true) (fun j => { j with value := j.value.map cfg.preview })
    (fun _ => rfl)
  { s with file := if s.writable then lines else s.file }

def clearJobTimer (id : ℕ) (s : State) : State := { s with timers := s.timers.filter (· ≠ id) }

def setJobTimer (id : ℕ) (s : State) : State := { s with timers := s.timers ++ [id] }

end State

open State

/-! ## Jobs -/

def scheduleJobNudge (cfg : Config) (id : ℕ) (s : State) : State :=
  let s := s.clearJobTimer id
  match s.jobs.get? id with
  | none => s
  | some j =>
      if !s.active || !j.running then s
      else
        (s.put { j with nudgeAt := some (j.nudgeAt.getD (j.startedAt + cfg.jobNudgeMs)) }).setJobTimer
          id

def notifyJobStillRunning (cfg : Config) (id : ℕ) (now : ℤ) (s : State) : State :=
  match s.jobs.get? id with
  | none => s
  | some j =>
      if !s.active || !j.running then s
      else
        scheduleJobNudge cfg id
          (((s.put { j with nudgeNotifiedAt := some now, nudgeAt := some (now + cfg.jobNudgeMs) }).save
            cfg).tell (.jobStillRunning id))

def notifyJobSettled (cfg : Config) (id : ℕ) (now : ℤ) (s : State) : State :=
  match s.jobs.get? id with
  | none => s
  | some j =>
      if !s.active || j.running || j.settleNotifiedAt.isSome then s
      else ((s.put { j with settleNotifiedAt := some now }).save cfg).tell (.jobSettled id)

def finishJob (cfg : Config) (id : ℕ) (code : Option ℤ) (signal : Option String) (now : ℤ)
    (s : State) : State :=
  match s.jobs.get? id with
  | none => s
  | some j =>
      let s := (((s.put { j with
        running := false, exitCode := some code, signal := some signal
        finishedAt := some (j.finishedAt.getD now) }).end_ id).clearJobTimer id).save cfg
      if j.finishedAt.isNone then notifyJobSettled cfg id now s else s

/-- A probe of a job that is recorded as running. -/
def probeJob (cfg : Config) (alive : Probe) (now : ℤ) (id : ℕ) (s : State) : State :=
  match s.jobs.get? id with
  | none => s
  | some j =>
      if decide (j.kind = .job) && j.running && j.dead alive then
        finishJob cfg id none (j.signal.getD none) now s
      else s

/-- A loop over the ids of the records. -/
def forEachJob (body : ℕ → State → State) (s : State) : State :=
  (s.jobs.rows.map BgJob.id).foldl (fun s id => body id s) s

/-- `start`. The process has no pid when it could not be spawned. -/
def start (cfg : Config) (pid : Option ℕ) (now : ℤ) (s : State) : State :=
  let job : BgJob :=
    { id := s.next, kind := .job, pid, startedAt := now, running := true, exitCode := none,
      signal := none, value := none, rejected := false, ttlAt := none,
      nudgeAt := some (now + cfg.jobNudgeMs), nudgeNotifiedAt := none, finishedAt := none,
      settleNotifiedAt := none, cancelled := false }
  let started := ({ s.put job with next := s.next + 1, watched := s.watched ++ [s.next] }).save cfg
  if s.active then scheduleJobNudge cfg s.next started else started

/-- The `exit` and `error` events of a process this one has started. -/
def exited (cfg : Config) (id : ℕ) (code : Option ℤ) (signal : Option String) (now : ℤ)
    (s : State) : State :=
  if id ∈ s.watched then finishJob cfg id code signal now s else s

/-- The probes of `list`. A save at the end writes what is written already. -/
def list (cfg : Config) (alive : Probe) (now : ℤ) (s : State) : State :=
  forEachJob (probeJob cfg alive now) s

/-- The callback of a heartbeat timer. -/
def timerFires (cfg : Config) (alive : Probe) (now : ℤ) (id : ℕ) (s : State) : State :=
  if id ∈ s.timers then
    let s := s.clearJobTimer id
    match s.jobs.get? id with
    | none => s
    | some j =>
        if now < j.nudgeAt.getD 0 then scheduleJobNudge cfg id s
        else if j.dead alive then finishJob cfg id none (j.signal.getD none) now s
        else notifyJobStillRunning cfg id now s
  else s

/-- `rearm`. What it refuses changes nothing. -/
def rearm (cfg : Config) (id : ℕ) (target : ℤ) (s : State) : State :=
  match s.jobs.get? id with
  | none => s
  | some j =>
      if j.kind ≠ .job ∨ j.running = false then s
      else
        let s := (s.put { j with nudgeAt := some target }).save cfg
        if s.active then scheduleJobNudge cfg id s else s

/-- One turn of the loop of `activate`. -/
def activateJob (cfg : Config) (alive : Probe) (now : ℤ) (id : ℕ) (s : State) : State :=
  match s.jobs.get? id with
  | none => s
  | some j =>
      if j.kind ≠ .job then s
      else if j.running && j.dead alive then finishJob cfg id none (j.signal.getD none) now s
      else if j.running then scheduleJobNudge cfg id s
      else notifyJobSettled cfg id now s

def activate (cfg : Config) (alive : Probe) (now : ℤ) (s : State) : State :=
  if s.active then s else forEachJob (activateJob cfg alive now) { s with active := true }

/-! ## Futures -/

def registerFuture (cfg : Config) (ttlMs : Option ℤ) (now : ℤ) (s : State) : State :=
  let job : BgJob :=
    { id := s.next, kind := .future, pid := none, startedAt := now, running := true,
      exitCode := none, signal := none, value := none, rejected := false,
      ttlAt := some (now + ttlMs.getD (30 * 60 * 1000)), nudgeAt := none, nudgeNotifiedAt := none,
      finishedAt := none, settleNotifiedAt := none, cancelled := false }
  ({ s.put job with next := s.next + 1, promises := s.promises ++ [s.next] }).save cfg

/-- The futures that `reapAbandoned` abandons. -/
def BgJob.expired (now : ℤ) (j : BgJob) : Bool :=
  decide (j.kind = .future) && j.running && !j.cancelled &&
    j.ttlAt.any (fun t => decide (t ≠ 0) && decide (t ≤ now))

/-- One turn of the loop of `reapAbandoned`. -/
def abandon (now : ℤ) (id : ℕ) (s : State) : State :=
  match s.jobs.get? id with
  | none => s
  | some j =>
      if j.expired now then
        (s.put { j with running := false, rejected := true,
                        value := some "[abandoned after TTL]" }).tell (.futureAbandoned id)
      else s

/-- What the cap of twenty records evicts: the oldest of those that do not run. -/
def evicted (jobs : Records) : List ℕ :=
  let settled := (jobs.rows.filter (fun j => !j.running)).mergeSort
    (fun a b => decide (a.startedAt ≤ b.startedAt))
  (settled.take (jobs.rows.length - 20)).map BgJob.id

def reapAbandoned (cfg : Config) (now : ℤ) (s : State) : State :=
  let dropped := s.jobs.select (BgJob.expired now)
  let reaped := forEachJob (abandon now) s
  let capped := { reaped with
    jobs := reaped.jobs.delete (fun j => decide (j.id ∈ evicted reaped.jobs)) }
  if dropped = [] then capped else capped.save cfg

/-- `settleFuture`, and the notice of its caller. -/
def settleFuture (cfg : Config) (id : ℕ) (value : String) (rejected : Bool) (now : ℤ)
    (s : State) : State :=
  match s.jobs.get? id with
  | none => s
  | some j =>
      if j.cancelled then s
      else
        (reapAbandoned cfg now
          ((s.put { j with running := false, value := some value, rejected }).save cfg)).tell
          (.futureSettled id)

/-- The promise of a future settles, once. -/
def promiseSettles (cfg : Config) (id : ℕ) (value : String) (rejected : Bool) (now : ℤ)
    (s : State) : State :=
  if id ∈ s.promises then
    settleFuture cfg id value rejected now { s with promises := s.promises.filter (· ≠ id) }
  else s

def cancel (cfg : Config) (id : ℕ) (now : ℤ) (s : State) : State :=
  match s.jobs.get? id with
  | none => s
  | some j =>
      if decide (j.kind = .job) && j.hasPid then
        (finishJob cfg id none (some "SIGTERM") now (s.put { j with cancelled := true })).save cfg
      else if j.kind = .future then
        ((s.put { j with running := false, cancelled := true }).tell (.futureCancelled id)).save cfg
      else s.save cfg

/-! ## Calls -/

inductive Call where
  | start (pid : Option ℕ) (now : ℤ)
  | exited (id : ℕ) (code : Option ℤ) (signal : Option String) (now : ℤ)
  | list (alive : Probe) (now : ℤ)
  | get (id : ℕ) (alive : Probe) (now : ℤ)
  | timerFires (id : ℕ) (alive : Probe) (now : ℤ)
  | rearm (id : ℕ) (target : ℤ)
  | activate (alive : Probe) (now : ℤ)
  | registerFuture (ttlMs : Option ℤ) (now : ℤ)
  | promiseSettles (id : ℕ) (value : String) (rejected : Bool) (now : ℤ)
  | reapAbandoned (now : ℤ)
  | cancel (id : ℕ) (now : ℤ)

def call (cfg : Config) (s : State) : Call → State
  | .start pid now => Bg.start cfg pid now s
  | .exited id code signal now => Bg.exited cfg id code signal now s
  | .list alive now => Bg.list cfg alive now s
  | .get id alive now => probeJob cfg alive now id s
  | .timerFires id alive now => Bg.timerFires cfg alive now id s
  | .rearm id target => Bg.rearm cfg id target s
  | .activate alive now => Bg.activate cfg alive now s
  | .registerFuture ttlMs now => Bg.registerFuture cfg ttlMs now s
  | .promiseSettles id value rejected now => Bg.promiseSettles cfg id value rejected now s
  | .reapAbandoned now => Bg.reapAbandoned cfg now s
  | .cancel id now => Bg.cancel cfg id now s

/-! ## Restarts -/

/-- What `loadRegistry` makes of a record. -/
def reloadJob (cfg : Config) (alive : Probe) (now : ℤ) (j : BgJob) : BgJob :=
  if decide (j.kind = .job) && j.hasPid then
    let running := !j.dead alive
    let probed : BgJob :=
      if running then { j with running }
      else
        { j with
          running
          exitCode := some (j.exitCode.getD none)
          finishedAt := some (j.finishedAt.getD now)
          settleNotifiedAt :=
            if !j.running && j.settleNotifiedAt.isNone then some now else j.settleNotifiedAt }
    { probed with nudgeAt := some (j.nudgeAt.getD (j.startedAt + cfg.jobNudgeMs)) }
  else if j.kind = .future && j.running then
    { j with running := false, rejected := true,
             value := some "[process restarted — future lost]" }
  else j

theorem reloadJob_id (cfg : Config) (alive : Probe) (now : ℤ) (j : BgJob) :
    (reloadJob cfg alive now j).id = j.id := by
  unfold reloadJob
  split
  · dsimp only
    split
    · rfl
    · rfl
  · split
    · rfl
    · rfl

/-- The jobs that were recorded as running and are found dead. -/
def foundDead (alive : Probe) (file : Records) : List ℕ :=
  (file.select (fun j => decide (j.kind = .job) && j.running && j.dead alive)).map BgJob.id

/-- A new process, with the records of the file. -/
def restart (cfg : Config) (alive : Probe) (now : ℤ) (s : State) : State :=
  { s with
    jobs := s.file.update (fun _ => true) (reloadJob cfg alive now) (reloadJob_id cfg alive now)
    active := false
    timers := []
    watched := []
    promises := []
    ended := s.ended ++ (foundDead alive s.file).filter (fun id => decide (id ∉ s.ended)) }

/-- A call, the end of the process and the start of the next, or a disk that can or cannot
be written from now on. -/
inductive Event where
  | call (c : Call)
  | restart (alive : Probe) (now : ℤ)
  | disk (writable : Bool)

def step (cfg : Config) (s : State) : Event → State
  | .call c => Bg.call cfg s c
  | .restart alive now => Bg.restart cfg alive now s
  | .disk writable => { s with writable }

end Elpis.Bg
