import Elpis.Lib.Table
import Elpis.Resident.Transcript

/-!
# Skills and instruction files in the context

`src/context-resources.ts`. A skill is loaded by a tool call, an `AGENTS.md` by the first
access to a file it governs. Both are told to the model once for each version of the file:
what was told is loaded, and a resource is pending between the moment its body is handed
out and the moment the message that holds it is in the history. A version is the digest of
the body, by `versionOf`.
-/

namespace Elpis.Resident

open Elpis.Llm Elpis.Lib

/-! ## Files -/

/-- What the files hold, by path. -/
abbrev Files := String → Option String

/-- `MAX_SKILLS_PER_CALL`. -/
def maxSkillsPerCall : ℕ := 8

/-- `MAX_SKILL_BYTES`. -/
def maxSkillBytes : ℕ := 64 * 1024

/-- `MAX_SKILL_TOTAL_BYTES`. -/
def maxSkillTotalBytes : ℕ := 192 * 1024

/-- `MAX_AGENTS_BYTES`. -/
def maxAgentsBytes : ℕ := 64 * 1024

def boundedFile (files : Files) (file : String) (maxBytes : ℕ) (label : String) :
    Except String String :=
  match files file with
  | none => .error ("ENOENT: no such file or directory, open '" ++ file ++ "'")
  | some raw =>
      if maxBytes < raw.utf8ByteSize then
        .error (label ++ " exceeds the " ++ toString maxBytes ++ "-byte context limit: " ++ file ++
          " (" ++ toString raw.utf8ByteSize ++ " bytes)")
      else .ok raw

/-! ## State -/

/-- `SkillRecord`, without the description. -/
structure SkillRecord where
  name : String
  path : String
  realPath : String
deriving DecidableEq, Repr

/-- `ContextResourceInterrupt`: the error that stops a run at a file access. -/
structure ContextResourceInterrupt where
  resource : ContextResourceDescriptor
  message : String
deriving DecidableEq, Repr

/-- A map of descriptors by key. -/
abbrev Descriptors := Table ContextResourceDescriptor.key

structure ContextResources where
  skills : List SkillRecord
  loadedSkills : Descriptors
  loadedAgents : Descriptors
  pendingSkills : Descriptors
  pendingAgents : Table (fun i : ContextResourceInterrupt => i.resource.key)

/-- The constructor, once the skills are discovered. -/
def ContextResources.init (skills : List SkillRecord) : ContextResources :=
  ⟨skills, Table.empty, Table.empty, Table.empty, Table.empty⟩

/-- The version a map has of a key. -/
def versionIn (t : Descriptors) (key : String) : Option String :=
  (t.get? key).map ContextResourceDescriptor.version

/-! ## Loading a skill -/

/-- An element of the `names` argument: a string, or another value by its JSON text. -/
inductive NameArg where
  | text (name : String)
  | other (json : String)
deriving DecidableEq, Repr

def checkName : NameArg → Except String String
  | .text name =>
      if isSkillName name then .ok name
      else .error ("skill(names): invalid skill name " ++ Js.stringify name)
  | .other json => .error ("skill(names): invalid skill name " ++ json)

structure SkillBody where
  record : SkillRecord
  raw : String
deriving DecidableEq, Repr

structure LoadedSkillContext where
  content : String
  resources : List ContextResourceDescriptor
deriving DecidableEq, Repr

namespace ContextResources
variable (versionOf : String → String)

def skillResource (body : SkillBody) : ContextResourceDescriptor :=
  ⟨.skill, body.record.name, body.record.name, versionOf body.raw⟩

/-- `this.skills.get(name)`. -/
def skill? (res : ContextResources) (name : String) : Option SkillRecord :=
  res.skills.find? (fun r => decide (r.name = name))

def findSkill (res : ContextResources) (name : String) : Except String SkillRecord :=
  match res.skill? name with
  | some record => .ok record
  | none =>
      .error ("unknown skill " ++ Js.stringify name ++ "; available: " ++
        if res.skills = [] then "(none)"
        else ", ".intercalate (Js.sort (res.skills.map SkillRecord.name)))

def readSkill (files : Files) (record : SkillRecord) : Except String SkillBody := do
  let raw ← boundedFile files record.realPath maxSkillBytes "SKILL.md"
  return ⟨record, raw⟩

def skillSection (body : SkillBody) : String :=
  "<skill name=" ++ Js.stringify body.record.name ++ " path=" ++ Js.stringify body.record.path ++
    ">\n" ++ body.raw ++ "\n</skill>"

/-- The bodies that are not loaded in this version. -/
def freshBodies (res : ContextResources) (bodies : List SkillBody) : List SkillBody :=
  bodies.filter (fun body =>
    decide (versionIn res.loadedSkills body.record.name ≠ some (versionOf body.raw)))

/-- What `loadSkillContext` hands out for the bodies it has read. -/
def skillContext (res : ContextResources) (names : List String) (bodies : List SkillBody) :
    LoadedSkillContext × ContextResources :=
  let fresh := res.freshBodies versionOf bodies
  let resources := bodies.map (skillResource versionOf)
  if fresh = [] then
    (⟨"[skills already present in the current context: " ++ ", ".intercalate names ++ "]",
      resources⟩, res)
  else
    (⟨"\n\n".intercalate
        ("[skill context loaded — read these instructions before calling run]" ::
          fresh.map skillSection), resources⟩,
      { res with pendingSkills :=
          fresh.foldl (fun t body => t.put (skillResource versionOf body)) res.pendingSkills })

/-- `loadSkillContext`. The argument is `none` when it is no array. -/
def loadSkillContext (files : Files) (names : Option (List NameArg)) (res : ContextResources) :
    Except String (LoadedSkillContext × ContextResources) :=
  match names with
  | none | some [] => .error "skill(names): names must be a non-empty array"
  | some names => do
      if maxSkillsPerCall < names.length then
        throw ("skill(names): at most " ++ toString maxSkillsPerCall ++
          " skills may be loaded at once")
      let normalized ← names.mapM checkName
      if ¬normalized.Nodup then throw "skill(names): duplicate names are not allowed"
      let records ← normalized.mapM res.findSkill
      let bodies ← records.mapM (readSkill files)
      let total := (bodies.map (fun body => body.raw.utf8ByteSize)).sum
      if maxSkillTotalBytes < total then
        throw ("skill(names): selected SKILL.md files total " ++ toString total ++
          " bytes; limit is " ++ toString maxSkillTotalBytes)
      return res.skillContext versionOf normalized bodies

/-! ## Instruction files -/

/-- What `nearestAgents` finds. -/
structure AgentsFile where
  path : String
  realPath : String
deriving DecidableEq, Repr

inductive Access where
  | clear
  | stopped (interrupt : ContextResourceInterrupt)
  | failed (error : String)
deriving DecidableEq, Repr

def agentsMessage (target : String) (agents : AgentsFile) (raw : String) : String :=
  "\n".intercalate
    ["[AGENTS.md loaded before file access — retry the run]", "target: " ++ target,
      "instructions: " ++ agents.path, "",
      "<AGENTS.md path=" ++ Js.stringify agents.path ++ ">", raw, "</AGENTS.md>"]

/-- The interrupt for an instruction file that is not loaded. The message of a pending one
of the same version is used again. -/
def agentsInterrupt (target : String) (agents : AgentsFile) (raw : String)
    (res : ContextResources) : ContextResourceInterrupt where
  resource := ⟨.agents, agents.realPath, agents.path, versionOf raw⟩
  message :=
    match res.pendingAgents.get? agents.realPath with
    | some pending =>
        if pending.resource.version = versionOf raw then pending.message
        else agentsMessage target agents raw
    | none => agentsMessage target agents raw

/-- `beforeFileAccess`, for the instruction files that govern the resolved target. -/
def beforeFileAccess (files : Files) (target : String) :
    List AgentsFile → ContextResources → Access × ContextResources
  | [], res => (.clear, res)
  | agents :: rest, res =>
      match boundedFile files agents.realPath maxAgentsBytes "AGENTS.md" with
      | .error error => (.failed error, res)
      | .ok raw =>
          if versionIn res.loadedAgents agents.realPath = some (versionOf raw) then
            beforeFileAccess files target rest res
          else
            let interrupt := res.agentsInterrupt versionOf target agents raw
            (.stopped interrupt, { res with pendingAgents := res.pendingAgents.put interrupt })

/-! ## From pending to loaded, and back -/

def acknowledgeOne (res : ContextResources) (d : ContextResourceDescriptor) : ContextResources :=
  match d.kind with
  | .skill =>
      match res.pendingSkills.get? d.key with
      | some pending =>
          if pending.version = d.version then
            { res with loadedSkills := res.loadedSkills.put pending,
                       pendingSkills := res.pendingSkills.delete (fun p => decide (p.key = d.key)) }
          else res
      | none => res
  | .agents =>
      match res.pendingAgents.get? d.key with
      | some pending =>
          if pending.resource.version = d.version then
            { res with
              loadedAgents := res.loadedAgents.put pending.resource
              pendingAgents :=
                res.pendingAgents.delete (fun p => decide (p.resource.key = d.key)) }
          else res
      | none => res

def acknowledge (ds : List ContextResourceDescriptor) (res : ContextResources) :
    ContextResources :=
  ds.foldl acknowledgeOne res

def discardPending (res : ContextResources) : ContextResources :=
  { res with pendingSkills := Table.empty, pendingAgents := Table.empty }

def resetContext (res : ContextResources) : ContextResources := ContextResources.init res.skills

/-- The file has the version now. -/
def current (files : Files) (file : String) (maxBytes : ℕ) (label version : String) : Bool :=
  match boundedFile files file maxBytes label with
  | .ok raw => decide (versionOf raw = version)
  | .error _ => false

def restoreOne (files : Files) (res : ContextResources) (d : ContextResourceDescriptor) :
    ContextResources :=
  match d.kind with
  | .skill =>
      let dropped := res.loadedSkills.delete (fun x => decide (x.key = d.key))
      match res.skill? d.key with
      | none => { res with loadedSkills := dropped }
      | some record =>
          if current versionOf files record.realPath maxSkillBytes "SKILL.md" d.version then
            { res with loadedSkills := dropped.put d }
          else { res with loadedSkills := dropped }
  | .agents =>
      let dropped := res.loadedAgents.delete (fun x => decide (x.key = d.key))
      if current versionOf files d.key maxAgentsBytes "AGENTS.md" d.version then
        { res with loadedAgents := dropped.put d }
      else { res with loadedAgents := dropped }

def restore (files : Files) (ds : List ContextResourceDescriptor) (res : ContextResources) :
    ContextResources :=
  ds.foldl (restoreOne versionOf files) res

/-- The displays of what was loaded before and is not now. -/
def gone (before after : Descriptors) : List String :=
  Js.sort ((before.select (fun d => decide (after.get? d.key = none))).map
    ContextResourceDescriptor.display)

def reminderText (skills agentsFiles : List String) : String :=
  "\n".intercalate
    (["[harness: context resources were present before the fold.]",
      "Before responding or running more code, decide which are still relevant. Reload relevant skills with the top-level skill tool. For listed AGENTS.md paths, do not call elpis.read(path): the next supported access to a governed file injects the full nearest instructions and stops that run; read the injected body, then retry the original operation. Do not reload irrelevant resources; only resources loaded again belong to this context window."] ++
      (if skills = [] then [] else ["skills: " ++ ", ".intercalate (skills.map Js.stringify)]) ++
      (if agentsFiles = [] then []
        else ["AGENTS.md: " ++ ", ".intercalate (agentsFiles.map Js.stringify)]))

def takeCompactionReminder (files : Files) (surviving : List ContextResourceDescriptor)
    (res : ContextResources) : Option String × ContextResources :=
  let after := res.resetContext.restore versionOf files surviving
  let skills := gone res.loadedSkills after.loadedSkills
  let agentsFiles := gone res.loadedAgents after.loadedAgents
  if skills = [] ∧ agentsFiles = [] then (none, after)
  else (some (reminderText skills agentsFiles), after)

end ContextResources

end Elpis.Resident
