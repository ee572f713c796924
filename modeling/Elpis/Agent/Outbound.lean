import Mathlib
import Elpis.Lib.Run
import Elpis.Lib.Table
import Elpis.Js.Text

/-!
# What the agent says outside

The outbound half of `src/agent.ts`, with the two stores it consults: the channel
directory (`src/store/channels.ts`) and the killswitch rows (`src/store/mutes.ts`), and
the configured policy of a channel (`src/discord/wake.ts`). Text leaves through `send`
(the sandbox's `channel().send()` and the speech header of a reply) and through
`sendError`. Both end in the transport that was wired in with `setSend`; what is handed
to it is a `Handover` here.
-/

namespace Elpis.Agent

open Elpis.Lib

/-! ## Identifiers -/

/-- `isDiscordId`: one to twenty decimal digits. -/
def isDiscordId (id : String) : Bool :=
  0 < id.toList.length && id.toList.length ≤ 20 && id.toList.all (fun c => '0' ≤ c && c ≤ '9')

abbrev DiscordId := { id : String // isDiscordId id = true }

def CONSOLE_CHANNEL_ID : String := "console"

/-! ## Configuration -/

inductive ChannelMode where
  | drop | direct | social | quiet | mentions
deriving DecidableEq, Repr

/-- The fields of `GuildConfig` the policy is made of. -/
structure GuildConfig where
  id : String
  slug : String
  defaultTier : Option ChannelMode := none
  allowSend : Option Bool := none
  defaultAllowSend : Option Bool := none
  channels : List (String × ChannelMode) := []
  channelAllowSend : List (String × Bool) := []
deriving DecidableEq, Repr

structure SignalContactConfig where
  «alias» : String
  aci : String
  allowSend : Bool
deriving DecidableEq, Repr

/-- `agentName` is what the persona's file says the resident is called. -/
structure Config where
  agentName : String
  guilds : List GuildConfig
  signalEnabled : Bool
  signalContacts : List SignalContactConfig
  errorChannelId : Option String
deriving DecidableEq, Repr

inductive PolicySource where
  | channel | default
deriving DecidableEq, Repr

inductive SendDeniedBy where
  | guild | channel | default
deriving DecidableEq, Repr

/-- The reason as it is printed into a refusal, `null` included. -/
def deniedByText : Option SendDeniedBy → String
  | none => "null"
  | some .guild => "guild"
  | some .channel => "channel"
  | some .default => "default"

structure ChannelPolicy where
  guild : GuildConfig
  tier : ChannelMode
  source : PolicySource
  allowSend : Bool
  sendDeniedBy : Option SendDeniedBy
deriving DecidableEq, Repr

def PolicySource.deny : PolicySource → SendDeniedBy
  | .channel => .channel
  | .default => .default

def policyFor (guild : GuildConfig) (channelId : String) (tier : ChannelMode)
    (source : PolicySource) : ChannelPolicy :=
  let guildAllows := guild.allowSend != some false
  let localAllows := match source with
    | .channel => guild.channelAllowSend.lookup channelId != some false
    | .default => guild.defaultAllowSend == some true
  { guild, tier, source
    allowSend := guildAllows && localAllows
    sendDeniedBy :=
      if !guildAllows then some .guild else if localAllows then none else some source.deny }

/-- `guildIndex.byChannel.get`. A later guild overwrites an earlier one. -/
def Config.byChannel (cfg : Config) (channelId : String) : Option ChannelPolicy :=
  ((cfg.guilds.flatMap (fun g => g.channels.map (fun c =>
    (c.1, policyFor g c.1 c.2 .channel)))).reverse).lookup channelId

/-- `guildIndex.byGuildId.get`. -/
def Config.byGuildId (cfg : Config) (guildId : String) : Option GuildConfig :=
  ((cfg.guilds.map (fun g => (g.id, g))).reverse).lookup guildId

/-- A string the program treats as present: `null` and the empty string are not. -/
def truthy : Option String → Option String
  | none => none
  | some s => if s = "" then none else some s

def resolveChannelPolicy (cfg : Config) (guildId : Option String) (channelId : String) :
    Option ChannelPolicy :=
  match cfg.byChannel channelId with
  | some explicit =>
      match truthy guildId with
      | some g => if explicit.guild.id ≠ g then none else some explicit
      | none => some explicit
  | none =>
      match truthy guildId with
      | none => none
      | some g => (cfg.byGuildId g).map (fun guild =>
          policyFor guild channelId (guild.defaultTier.getD .drop) .default)

/-! ## Stores -/

inductive MuteType where
  | mute | deafen
deriving DecidableEq, Repr

def MuteType.state : MuteType → String
  | .mute => "muted"
  | .deafen => "deafened"

inductive MuteActor where
  | self | operator
deriving DecidableEq, Repr

def MuteActor.text : MuteActor → String
  | .self => "self"
  | .operator => "operator"

structure MuteRow where
  channelId : String
  type : MuteType
  setBy : MuteActor
  reason : Option String
  createdAt : String
deriving DecidableEq, Repr

structure ChannelEntry where
  id : String
  name : String
  guildId : Option String
  parentId : Option String
deriving DecidableEq, Repr

/-- `NON_REAL_NAMES`. -/
def nonRealNames : List String :=
  ["heartbeat", "recovered", "unknown", "", "scheduler", "fleet", "harness"]

/-- `ChannelDirectory.set`. A missing guild or parent never erases a recorded one. -/
def ChannelDirectory.set (t : Table ChannelEntry.id) (id name : String)
    (guildId parentId : Option String) : Table ChannelEntry.id :=
  if id = "" ∨ name ∈ nonRealNames then t
  else
    let existing := t.get? id
    let healsGuild := guildId.isSome && guildId != existing.bind (·.guildId)
    let healsParent := parentId.isSome && parentId != existing.bind (·.parentId)
    if existing.map (·.name) = some name ∧ !healsGuild ∧ !healsParent then t
    else t.put
      { id, name
        guildId := guildId.or (existing.bind (·.guildId))
        parentId := parentId.or (existing.bind (·.parentId)) }

/-! ## The agent's outbound state -/

/-- `OutboundSendAuthorization`, an object: `ref` is which one. -/
structure Authorization where
  ref : ℕ
  channelId : String
  guildId : String
deriving DecidableEq, Repr

/-- The fields of the current turn that decide what it may send: `turnSendScope`,
`mentionsTurnToken`, `realUserTurn`, `mentionsTurnChannelId`,
`mentionsTurnAuthorizationToken`, and what that capability's `isCurrent()` answers
(`false` when it throws). -/
structure Turn where
  observeOnly : Bool := false
  mentionsTurnToken : Option ℕ := none
  realUserTurn : Bool := false
  mentionsTurnChannelId : Option String := none
  authorization : Option Authorization := none
  authorizationCurrent : Bool := false
deriving DecidableEq, Repr

structure State where
  mutes : Table MuteRow.channelId
  channels : Table ChannelEntry.id
  turn : Turn
  sendsThisTurn : ℕ
deriving DecidableEq

def State.empty : State := ⟨Table.empty, Table.empty, {}, 0⟩

def State.parentOf (s : State) (id : String) : Option String :=
  (s.channels.get? id).bind (·.parentId)

def State.guildOf (s : State) (id : String) : Option String :=
  (s.channels.get? id).bind (·.guildId)

/-- The recorded parent, when there is one and it is another channel. -/
def State.threadParent (s : State) (id : String) : Option String :=
  (truthy (s.parentOf id)).filter (fun p => decide (p ≠ id))

def policyForChannel (cfg : Config) (s : State) (channelId : String) : Option ChannelPolicy :=
  let policyChannelId := (s.threadParent channelId).getD channelId
  let guildId := ((s.guildOf policyChannelId).or (s.guildOf channelId)).or
    ((cfg.byChannel policyChannelId).map (·.guild.id))
  resolveChannelPolicy cfg guildId policyChannelId

def mentionsTurnTargetMismatch (t : Turn) (channelId : String) : Bool :=
  t.mentionsTurnToken.isSome && t.realUserTurn &&
    match t.mentionsTurnChannelId with
    | some source => source != channelId
    | none => false

def mentionsTurnAllows (t : Turn) (channelId : String) (policy : ChannelPolicy) : Bool :=
  t.mentionsTurnToken.isSome && t.realUserTurn && t.mentionsTurnChannelId == some channelId &&
    policy.tier == .mentions && policy.sendDeniedBy == some .default

def mentionsTurnAuthorization (t : Turn) (channelId : String) (policy : ChannelPolicy) :
    Option Authorization :=
  t.authorization.filter (fun a =>
    a.channelId == channelId && a.guildId == policy.guild.id && t.authorizationCurrent &&
      t.mentionsTurnToken.isSome && t.realUserTurn &&
      t.mentionsTurnChannelId == some channelId && policy.tier == .mentions)

def scopedMentionsTurn (t : Turn) (channelId : String) : Bool :=
  t.mentionsTurnToken.isSome && t.realUserTurn && t.mentionsTurnChannelId == some channelId

def SIGNAL_ROOM_PREFIX : String := "signal:dm:"

def signalRoomId (aci : String) : String := SIGNAL_ROOM_PREFIX ++ aci

def signalContacts (cfg : Config) : List SignalContactConfig :=
  if cfg.signalEnabled then cfg.signalContacts else []

/-- `signalContactForRoom`: the contact whose room it is. -/
def signalContactForRoom (cfg : Config) (channelId : String) : Option SignalContactConfig :=
  (signalContacts cfg).find? (fun contact => decide (channelId = signalRoomId contact.aci))

/-- `guildIdFor`, for a directory row. -/
def guildIdFor (cfg : Config) (e : ChannelEntry) : Option String :=
  e.guildId.or ((cfg.byChannel e.id).map (·.guild.id))

def slugForGuildId (cfg : Config) (guildId : Option String) : Option String :=
  (truthy guildId).bind (fun g => (cfg.byGuildId g).map (·.slug))

def qualifiedChannelLabel (cfg : Config) (s : State) (channelId : String) : String :=
  if channelId = CONSOLE_CHANNEL_ID then "console"
  else match signalContactForRoom cfg channelId with
    | some contact => "signal:" ++ contact.«alias»
    | none =>
        match s.channels.get? channelId with
        | none => channelId
        | some e =>
            match truthy (slugForGuildId cfg (guildIdFor cfg e)) with
            | some slug => slug ++ "/" ++ e.name
            | none => "#" ++ e.name

/-! ## Sending -/

structure OutboundSendOptions where
  files : List String := []
  replyTo : Option String := none
  mentions : Option Bool := none
deriving DecidableEq, Repr

/-- `OutboundEffectScope`: what a sandbox run captured before it started. -/
inductive OutboundEffectScope where
  | run (authorization : Option Authorization)
  | denied
deriving DecidableEq, Repr

/-- The capability of the scope of a call, if it has one. -/
def scopedAuthorization : Option OutboundEffectScope → Option Authorization
  | some (.run authorization) => authorization
  | _ => none

/-- One call of the wired transport. -/
structure Handover where
  channelId : String
  content : String
  opts : OutboundSendOptions
  authorization : Option Authorization
  errorNotice : Bool
deriving DecidableEq, Repr

def exactChannelError : String :=
  "mentions-turn authorization is restricted to the exact waking channel"

/-- The checks every call passes before its target is looked at. -/
def turnGate (t : Turn) (channelId : String) (opts : OutboundSendOptions)
    (scope : Option OutboundEffectScope) : Except String Unit :=
  if t.observeOnly then
    .error "sending is disabled for this ambient observation turn (discord.ambient_allow_send=false)"
  else if scope = some .denied then
    .error "mentions-turn authorization is unavailable for this sandbox run"
  else if (scopedAuthorization scope).any (fun a => decide (a.channelId ≠ channelId)) then
    .error exactChannelError
  else if mentionsTurnTargetMismatch t channelId then .error exactChannelError
  else if opts.replyTo.any (fun id => !isDiscordId id) then
    .error "replyTo must be a nonempty decimal Discord ID string (at most 20 digits)"
  else .ok ()

def sendConsole (opts : OutboundSendOptions) : Except String Unit :=
  if opts.replyTo.isSome then .error "console reply metadata is not supported"
  else if opts.files ≠ [] then .error "console attachments are not supported yet"
  else .ok ()

/-- The branch of a configured Signal contact's room. -/
def signalGate (s : State) (contact : SignalContactConfig) (channelId : String)
    (opts : OutboundSendOptions) : Except String Unit :=
  if !contact.allowSend then
    .error ("sending to signal:" ++ contact.«alias» ++
      " is disabled by configuration (allow_send=false)")
  else if opts.replyTo.isSome ∨ opts.mentions.isSome then
    .error "Signal reply and mention options are unsupported"
  else match s.mutes.get? channelId with
    | some row => .error ("channel signal:" ++ contact.«alias» ++ " is " ++ row.type.state ++
        " — release is operator-only")
    | none => .ok ()

/-- The configured policy of a Discord target, and the capability the call carries. -/
def policyGate (cfg : Config) (s : State) (channelId : String)
    (scope : Option OutboundEffectScope) : Except String (Option Authorization) :=
  match policyForChannel cfg s channelId with
  | none => .error ("sending to channel " ++ qualifiedChannelLabel cfg s channelId ++
      " is disabled because the channel is not configured")
  | some policy =>
      let current := mentionsTurnAuthorization s.turn channelId policy
      let carried := if scope.isNone then current else scopedAuthorization scope
      if scopedMentionsTurn s.turn channelId && (current.isNone || carried != current) then
        .error "mentions-turn authorization is unavailable for the exact waking channel"
      else if !policy.allowSend &&
          !(carried.isSome && carried == current &&
            mentionsTurnAllows s.turn channelId policy) then
        .error ("sending to channel " ++ qualifiedChannelLabel cfg s channelId ++
          " is disabled by configuration (" ++ deniedByText policy.sendDeniedBy ++
          " allow_send=false)")
      else .ok carried

/-- The channels whose rows a send is refused for. -/
def killswitchTargets (s : State) (channelId : String) : List String :=
  channelId :: (s.threadParent channelId).toList

def muteRefusal (cfg : Config) (s : State) (channelId : String) (row : MuteRow) : String :=
  let place :=
    if row.channelId = channelId then "channel " ++ qualifiedChannelLabel cfg s channelId
    else "channel " ++ qualifiedChannelLabel cfg s channelId ++ "'s parent " ++
      qualifiedChannelLabel cfg s row.channelId
  let because := match truthy row.reason with
    | some reason => ": \"" ++ reason ++ "\""
    | none => ""
  place ++ " is " ++ row.type.state ++ " (set by " ++ row.setBy.text ++ because ++
    ") — release is operator-only"

/-- The rows of the target and of its recorded parent. -/
def killswitchGate (cfg : Config) (s : State) (channelId : String) : Except String Unit :=
  match (killswitchTargets s channelId).findSome? s.mutes.get? with
  | some row => .error (muteRefusal cfg s channelId row)
  | none => .ok ()

/-- `send`, up to the call of the transport: the call, or nothing for the console. -/
def send (cfg : Config) (s : State) (channelId content : String) (opts : OutboundSendOptions)
    (scope : Option OutboundEffectScope) : Except String (Option Handover) := do
  turnGate s.turn channelId opts scope
  if channelId = CONSOLE_CHANNEL_ID then
    sendConsole opts
    return none
  else match signalContactForRoom cfg channelId with
    | some contact =>
        signalGate s contact channelId opts
        return some ⟨channelId, content, opts, none, false⟩
    | none =>
        let authorization ← policyGate cfg s channelId scope
        killswitchGate cfg s channelId
        return some ⟨channelId, content, opts, authorization, false⟩

/-- `sendError`, up to the call of the transport. A notice that is only logged hands
nothing over. -/
def sendError (cfg : Config) (s : State) (text : String) : Option Handover :=
  if s.turn.observeOnly then none
  else match truthy cfg.errorChannelId with
    | none => none
    | some ch =>
        if mentionsTurnTargetMismatch s.turn ch then none
        else
          let authorization :=
            (policyForChannel cfg s ch).bind (mentionsTurnAuthorization s.turn ch)
          if scopedMentionsTurn s.turn ch && authorization.isNone then none
          else some ⟨ch, text, {}, authorization, true⟩

/-! ## Moderation -/

inductive ModerationAction where
  | mute | deafen | unmute | undeafen
deriving DecidableEq, Repr

def ModerationAction.verb : ModerationAction → String
  | .mute => "muted"
  | .deafen => "deafened"
  | .unmute => "unmuted"
  | .undeafen => "undeafened"

structure ModerationResult where
  ok : Bool
  note : String
deriving DecidableEq, Repr

/-- The configuration already keeps the agent from sending, and not only by a default a
mention can lift. -/
def sendLocked (policy : ChannelPolicy) : Bool :=
  !policy.allowSend && !(policy.tier == .mentions && policy.sendDeniedBy == some .default)

/-- What a moderation does to the rows, or the note of its refusal. -/
def transition (cfg : Config) (s : State) (channelId : String) (action : ModerationAction)
    (actor : MuteActor) (reason : Option String) (now : String) :
    Except String (Table MuteRow.channelId) :=
  let label := qualifiedChannelLabel cfg s channelId
  let existing := s.mutes.get? channelId
  match action with
  | .mute =>
      match (policyForChannel cfg s channelId).filter sendLocked with
      | some policy => .error (label ++ " sending is already disabled by configuration (" ++
          deniedByText policy.sendDeniedBy ++ " allow_send=false)")
      | none =>
          if existing.map (·.type) = some .deafen then
            .error (label ++ " is already deafened (deafen implies mute)")
          else if existing.map (·.setBy) = some .operator ∧ actor = .self then
            .error (label ++ " is already muted by the operator")
          else .ok (s.mutes.put ⟨channelId, .mute, actor, truthy reason, now⟩)
  | .deafen =>
      if actor = .self then .error ("release is operator-only — " ++ label ++ " stays as it is")
      else .ok (s.mutes.put ⟨channelId, .deafen, .operator, truthy reason, now⟩)
  | .unmute | .undeafen =>
      if actor = .self then .error ("release is operator-only — " ++ label ++ " stays as it is")
      else if existing.isNone then .error (label ++ " is not muted or deafened")
      else .ok (s.mutes.delete (fun row => decide (row.channelId = channelId)))

def moderateChannel (cfg : Config) (s : State) (channelId : String) (action : ModerationAction)
    (actor : MuteActor) (reason : Option String) (now : String) : State × ModerationResult :=
  match transition cfg s channelId action actor reason now with
  | .error note => (s, ⟨false, note⟩)
  | .ok mutes =>
      let by_ := match actor with
        | .self => cfg.agentName ++ " (self)"
        | .operator => "operator"
      let because := match truthy reason with
        | some reason => ": " ++ reason
        | none => ""
      ({ s with mutes }, ⟨true, "channel " ++ qualifiedChannelLabel cfg s channelId ++ " " ++
        action.verb ++ " by " ++ by_ ++ because⟩)

/-! ## Ingress -/

/-- The messages `enqueue` gets, by their producer. Only the Discord ones name a policy
channel; the harness's own go to the internal channel, the console's to the console. -/
inductive InboundMessage where
  | discord (channelId : DiscordId) (channelName : String) (guildId : Option String)
      (policyChannelId : DiscordId)
  | signal (contact : SignalContactConfig)
  | console (channelName : String)
  | internal (channelName : String)
deriving DecidableEq

/-- What `enqueue` records of a message in the channel directory. -/
def recordChannel (s : State) : InboundMessage → State
  | .discord channelId channelName guildId policyChannelId =>
      let parentId := if policyChannelId ≠ channelId then some policyChannelId.1 else none
      { s with channels :=
          ChannelDirectory.set s.channels channelId.1 channelName guildId parentId }
  | .signal _ => s
  | .console channelName =>
      { s with channels :=
          ChannelDirectory.set s.channels CONSOLE_CHANNEL_ID channelName none none }
  | .internal _ => s

end Elpis.Agent
