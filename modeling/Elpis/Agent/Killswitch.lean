import Elpis.Agent.Outbound

/-!
# The killswitch over whole runs

A run of the agent as its outbound half sees it: messages arrive and are recorded in the
channel directory, turns begin and end, self and operator moderate rooms, text is sent.
A room is silenced when it has a row or its recorded parent has one. `send` looks both
up before it hands anything over; `sendError` looks neither up, so a run keeps silenced
rooms silent exactly when no error notice leaves for one.
-/

namespace Elpis.Agent

open Elpis.Lib

/-! ## Runs -/

inductive Event where
  | restart
  | inbound (message : InboundMessage)
  | turn (turn : Turn)
  | moderate (channelId : String) (action : ModerationAction) (actor : MuteActor)
      (reason : Option String) (now : String)
  | send (channelId content : String) (opts : OutboundSendOptions)
      (scope : Option OutboundEffectScope)
  | errorNotice (text : String)
deriving DecidableEq

/-- Opening the directory gives its rows without a guild to the only guild there is. -/
def backfillGuild (cfg : Config) (t : Table ChannelEntry.id) : Table ChannelEntry.id :=
  match cfg.guilds with
  | [guild] => t.update (fun e => e.guildId.isNone)
      (fun e => { e with guildId := some guild.id }) (fun _ => rfl)
  | _ => t

/-- The state of the first boot: the legacy file of names, imported without a guild. -/
def State.boot (cfg : Config) (legacy : List (String × String)) : State :=
  let imported := legacy.foldl (fun t e =>
    if e.2 ∈ nonRealNames then t
    else t.put { id := e.1, name := e.2, guildId := none, parentId := none }) Table.empty
  { State.empty with channels := backfillGuild cfg imported }

def step (cfg : Config) (s : State) : Event → State
  | .restart =>
      { s with channels := backfillGuild cfg s.channels, turn := {}, sendsThisTurn := 0 }
  | .inbound message => recordChannel s message
  | .turn turn => { s with turn, sendsThisTurn := 0 }
  | .moderate channelId action actor reason now =>
      (moderateChannel cfg s channelId action actor reason now).1
  | .send channelId content opts scope =>
      match send cfg s channelId content opts scope with
      | .ok _ => { s with sendsThisTurn := s.sendsThisTurn + 1 }
      | .error _ => s
  | .errorNotice _ => s

/-- What an event hands to the transport. -/
def handed (cfg : Config) (s : State) : Event → Option Handover
  | .send channelId content opts scope =>
      match send cfg s channelId content opts scope with
      | .ok handover => handover
      | .error _ => none
  | .errorNotice text => sendError cfg s text
  | _ => none

/-- The state a run of the agent is in after the events `es`. -/
def reached (cfg : Config) (legacy : List (String × String)) (es : List Event) : State :=
  run (step cfg) (State.boot cfg legacy) es

/-! ## What is asked of a step -/

/-- The room or its recorded parent has a row. -/
def Silenced (s : State) (channelId : String) : Prop :=
  (s.mutes.get? channelId).isSome ∨
    ∃ parent, s.parentOf channelId = some parent ∧ (s.mutes.get? parent).isSome

/-- Nothing the event hands over is for a silenced room. -/
def KeepsSilence (cfg : Config) (s : State) (e : Event) : Prop :=
  ∀ h, handed cfg s e = some h → ¬ Silenced s h.channelId

def ByOperator : Event → Prop
  | .moderate _ _ actor _ _ => actor = .operator
  | _ => False

/-- Rows of the operator stay as they are, and a deafened room stays deafened. -/
def RowsKept (s s' : State) : Prop :=
  ∀ channelId row, s.mutes.get? channelId = some row →
    (row.setBy = .operator → s'.mutes.get? channelId = some row) ∧
    (row.type = .deafen → ∃ row', s'.mutes.get? channelId = some row' ∧ row'.type = .deafen)

/-- The turn and the configuration let an error notice out, to `channelId`. -/
def NoticeLeaves (cfg : Config) (s : State) (channelId : String) : Prop :=
  s.turn.observeOnly = false ∧ truthy cfg.errorChannelId = some channelId ∧
    mentionsTurnTargetMismatch s.turn channelId = false ∧
    (scopedMentionsTurn s.turn channelId = true →
      ∃ policy, policyForChannel cfg s channelId = some policy ∧
        (mentionsTurnAuthorization s.turn channelId policy).isSome)

/-- No error notice leaves for a silenced room. -/
def NoticeQuiet (cfg : Config) (s : State) (e : Event) : Prop :=
  ∀ text channelId, e = .errorNotice text → NoticeLeaves cfg s channelId →
    ¬ Silenced s channelId

/-! ## The directory -/

theorem isDiscordId_ne_empty {id : String} (h : isDiscordId id = true) : id ≠ "" := by
  rintro rfl
  exact absurd h (by decide)

theorem signalRoomId_not_discord (aci : String) : isDiscordId (signalRoomId aci) = false := by
  have hlist : (signalRoomId aci).toList = SIGNAL_ROOM_PREFIX.toList ++ aci.toList :=
    String.toList_append
  have hprefix : SIGNAL_ROOM_PREFIX.toList = 's' :: "ignal:dm:".toList := by decide
  unfold isDiscordId
  rw [hlist, hprefix, List.cons_append, List.all_cons]
  have hs : (decide ('0' ≤ 's') && decide ('s' ≤ '9')) = false := by decide
  rw [hs, Bool.false_and, Bool.and_false]

/-- Only threads have a parent, and both are Discord channels. -/
def ThreadsOnly (t : Table ChannelEntry.id) : Prop :=
  ∀ e ∈ t, ∀ parent, e.parentId = some parent →
    isDiscordId e.id = true ∧ isDiscordId parent = true

variable {t : Table ChannelEntry.id}

theorem mem_put {r e : ChannelEntry} (h : e ∈ t.put r) :
    e = r ∨ e ∈ t := by
  have hget := Table.get?_put (t := t) (r := r) e.id
  rw [Table.get?_key h] at hget
  split at hget
  · exact Or.inl (Option.some.inj hget)
  · exact Or.inr (Table.mem_of_get? hget.symm)

theorem ThreadsOnly.put (ht : ThreadsOnly t) {r : ChannelEntry}
    (hr : ∀ parent, r.parentId = some parent →
      isDiscordId r.id = true ∧ isDiscordId parent = true) : ThreadsOnly (t.put r) := by
  intro e he
  rcases mem_put he with rfl | he
  · exact hr
  · exact ht e he

theorem ThreadsOnly.set (ht : ThreadsOnly t) {id name : String}
    {guildId parentId : Option String}
    (hp : ∀ parent, parentId = some parent →
      isDiscordId id = true ∧ isDiscordId parent = true) :
    ThreadsOnly (ChannelDirectory.set t id name guildId parentId) := by
  unfold ChannelDirectory.set
  split
  · exact ht
  · dsimp only
    split
    · exact ht
    · apply ht.put
      intro parent hparent
      rcases Option.or_eq_some_iff.mp hparent with hnew | ⟨-, hold⟩
      · exact hp parent hnew
      · -- the parent that was recorded before stays
        obtain ⟨e, he, hparent⟩ := Option.bind_eq_some_iff.mp hold
        obtain ⟨hid, hparent⟩ := ht e (Table.mem_of_get? he) parent hparent
        exact ⟨Table.key_of_get? he ▸ hid, hparent⟩

theorem ThreadsOnly.backfill (ht : ThreadsOnly t) (cfg : Config) :
    ThreadsOnly (backfillGuild cfg t) := by
  unfold backfillGuild
  split
  · intro e he
    obtain ⟨r, hr, rfl⟩ := Table.mem_update.mp he
    split
    · exact ht r hr
    · exact ht r hr
  · exact ht

theorem boot_threadsOnly (cfg : Config) (legacy : List (String × String)) :
    ThreadsOnly (State.boot cfg legacy).channels := by
  apply ThreadsOnly.backfill
  -- every imported row is without a parent
  suffices h : ∀ (es : List (String × String)) (t : Table ChannelEntry.id), ThreadsOnly t →
      ThreadsOnly (es.foldl (fun t e =>
        if e.2 ∈ nonRealNames then t
        else t.put { id := e.1, name := e.2, guildId := none, parentId := none }) t) by
    exact h legacy Table.empty (fun e he => absurd he Table.not_mem_empty)
  intro es
  induction es with
  | nil => exact fun t ht => ht
  | cons e es ih =>
      intro t ht
      rw [List.foldl_cons]
      apply ih
      split
      · exact ht
      · exact ht.put (fun parent hparent => (by cases hparent))

variable {s : State}

theorem recordChannel_threadsOnly (hs : ThreadsOnly s.channels)
    (message : InboundMessage) : ThreadsOnly (recordChannel s message).channels := by
  cases message with
  | discord channelId channelName guildId policyChannelId =>
      apply hs.set
      intro parent hparent
      split at hparent
      · obtain rfl := Option.some.inj hparent
        exact ⟨channelId.2, policyChannelId.2⟩
      · cases hparent
  | signal contact => exact hs
  | console channelName => exact hs.set (fun parent hparent => (by cases hparent))
  | internal channelName => exact hs

theorem moderateChannel_channels (cfg : Config) (s : State) (channelId : String)
    (action : ModerationAction) (actor : MuteActor) (reason : Option String) (now : String) :
    (moderateChannel cfg s channelId action actor reason now).1.channels = s.channels := by
  unfold moderateChannel
  split
  · rfl
  · rfl

theorem step_threadsOnly (cfg : Config) (s : State) (e : Event)
    (hs : ThreadsOnly s.channels) : ThreadsOnly (step cfg s e).channels := by
  cases e with
  | restart => exact hs.backfill cfg
  | inbound message => exact recordChannel_threadsOnly hs message
  | turn turn => exact hs
  | moderate channelId action actor reason now =>
      simp only [step, moderateChannel_channels]
      exact hs
  | send channelId content opts scope =>
      simp only [step]
      split
      · exact hs
      · exact hs
  | errorNotice text => exact hs

theorem reached_threadsOnly (cfg : Config) (legacy : List (String × String)) (es : List Event) :
    ThreadsOnly (reached cfg legacy es).channels :=
  run_inv (I := fun s : State => ThreadsOnly s.channels) (step_threadsOnly cfg) es
    (boot_threadsOnly cfg legacy)

theorem parentOf_discord (hs : ThreadsOnly s.channels) {channelId parent : String}
    (h : s.parentOf channelId = some parent) :
    isDiscordId channelId = true ∧ isDiscordId parent = true := by
  obtain ⟨e, he, hparent⟩ := Option.bind_eq_some_iff.mp h
  have hid := Table.key_of_get? he
  exact hid ▸ hs e (Table.mem_of_get? he) parent hparent

/-! ## Sends -/

variable {cfg : Config} {channelId : String}

/-- A send that passes the killswitch is for a room that is not silenced. -/
theorem killswitchGate_ok (hs : ThreadsOnly s.channels) (h : killswitchGate cfg s channelId = .ok ()) :
    ¬ Silenced s channelId := by
  have hnone : (killswitchTargets s channelId).findSome? s.mutes.get? = none := by
    unfold killswitchGate at h
    split at h
    · cases h
    · assumption
  rw [List.findSome?_eq_none_iff] at hnone
  have hown : s.mutes.get? channelId = none := hnone channelId (by simp [killswitchTargets])
  rintro (hrow | ⟨parent, hparent, hrow⟩)
  · rw [hown] at hrow
    cases hrow
  · by_cases hself : parent = channelId
    · rw [hself, hown] at hrow
      cases hrow
    · have hne := isDiscordId_ne_empty (parentOf_discord hs hparent).2
      have hthread : s.threadParent channelId = some parent := by
        simp [State.threadParent, hparent, truthy, hne, hself]
      have hparentRow := hnone parent (by simp [killswitchTargets, hthread])
      rw [hparentRow] at hrow
      cases hrow

/-- A Signal room has no parent, so its own row is the only one to look at. -/
theorem signalGate_ok (hs : ThreadsOnly s.channels)
    {contact : SignalContactConfig} {opts : OutboundSendOptions}
    (hroom : signalContactForRoom cfg channelId = some contact)
    (h : signalGate s contact channelId opts = .ok ()) : ¬ Silenced s channelId := by
  have hown : s.mutes.get? channelId = none := by
    unfold signalGate at h
    split at h
    · cases h
    · split at h
      · cases h
      · split at h
        · cases h
        · assumption
  have hid : channelId = signalRoomId contact.aci := by
    have hfound := List.find?_some hroom
    exact of_decide_eq_true hfound
  rintro (hrow | ⟨parent, hparent, -⟩)
  · rw [hown] at hrow
    cases hrow
  · have hdiscord := (parentOf_discord hs hparent).1
    rw [hid, signalRoomId_not_discord] at hdiscord
    cases hdiscord

theorem bind_eq_ok {ε α β : Type} {x : Except ε α} {f : α → Except ε β} {b : β} :
    (x >>= f) = .ok b ↔ ∃ a, x = .ok a ∧ f a = .ok b := by
  cases x <;> simp [bind, Except.bind]

theorem send_quiet (hs : ThreadsOnly s.channels)
    {channelId content : String} {opts : OutboundSendOptions}
    {scope : Option OutboundEffectScope} {h : Handover}
    (hsend : send cfg s channelId content opts scope = .ok (some h)) :
    ¬ Silenced s h.channelId := by
  unfold send at hsend
  obtain ⟨-, -, hsend⟩ := bind_eq_ok.mp hsend
  split at hsend
  · obtain ⟨-, -, hsend⟩ := bind_eq_ok.mp hsend
    cases hsend
  · split at hsend
    · rename_i contact hroom
      obtain ⟨_, hgate, hsend⟩ := bind_eq_ok.mp hsend
      cases hsend
      exact signalGate_ok hs hroom hgate
    · obtain ⟨authorization, -, hsend⟩ := bind_eq_ok.mp hsend
      obtain ⟨_, hgate, hsend⟩ := bind_eq_ok.mp hsend
      cases hsend
      exact killswitchGate_ok hs hgate

/-! ## Error notices -/

/-- A capability for a notice is one for the policy of its channel. -/
theorem noticeAuthorization_isSome :
    ((policyForChannel cfg s channelId).bind
        (mentionsTurnAuthorization s.turn channelId)).isSome ↔
      ∃ policy, policyForChannel cfg s channelId = some policy ∧
        (mentionsTurnAuthorization s.turn channelId policy).isSome := by
  cases policyForChannel cfg s channelId with
  | none => simp
  | some policy => simp

theorem sendError_leaves {text : String} {h : Handover}
    (hsend : sendError cfg s text = some h) : NoticeLeaves cfg s h.channelId := by
  unfold sendError at hsend
  split at hsend
  · cases hsend
  · rename_i hobserve
    split at hsend
    · cases hsend
    · rename_i channelId htarget
      split at hsend
      · cases hsend
      · rename_i hmismatch
        dsimp only at hsend
        split at hsend
        · cases hsend
        · rename_i hscoped
          cases hsend
          refine ⟨Bool.eq_false_of_not_eq_true hobserve, htarget,
            Bool.eq_false_of_not_eq_true hmismatch, ?_⟩
          intro hturn
          apply noticeAuthorization_isSome.mp
          rw [hturn, Bool.true_and, Option.isNone_iff_eq_none] at hscoped
          exact Option.isSome_iff_ne_none.mpr hscoped

/-- A notice is handed over whenever the turn and the configuration let it out. -/
theorem sendError_of_leaves
    (hleaves : NoticeLeaves cfg s channelId) (text : String) :
    ∃ h, sendError cfg s text = some h ∧ h.channelId = channelId := by
  obtain ⟨hobserve, htarget, hmismatch, hscoped⟩ := hleaves
  have hauth : ¬ (scopedMentionsTurn s.turn channelId &&
      ((policyForChannel cfg s channelId).bind
        (mentionsTurnAuthorization s.turn channelId)).isNone) = true := by
    intro hboth
    rw [Bool.and_eq_true, Option.isNone_iff_eq_none] at hboth
    have hsome := noticeAuthorization_isSome.mpr (hscoped hboth.1)
    rw [hboth.2] at hsome
    cases hsome
  unfold sendError
  rw [if_neg (by simp [hobserve]), htarget]
  dsimp only
  rw [if_neg (by simp [hmismatch]), if_neg hauth]
  exact ⟨_, rfl, rfl⟩

/-- A step keeps silenced rooms silent exactly when no notice leaves for one. -/
theorem keepsSilence_iff (hs : ThreadsOnly s.channels) (e : Event) :
    KeepsSilence cfg s e ↔ NoticeQuiet cfg s e := by
  constructor
  · rintro hkeeps text channelId rfl hleaves
    obtain ⟨h, hsend, rfl⟩ := sendError_of_leaves hleaves text
    exact hkeeps h hsend
  · intro hquiet h hh
    cases e with
    | send channelId content opts scope =>
        simp only [handed] at hh
        split at hh
        · rename_i hsend
          exact send_quiet hs (hh ▸ hsend)
        · cases hh
    | errorNotice text => exact hquiet text h.channelId rfl (sendError_leaves hh)
    | restart => cases hh
    | inbound message => cases hh
    | turn turn => cases hh
    | moderate channelId action actor reason now => cases hh

/-! ## Moderation -/

theorem RowsKept.refl (s : State) : RowsKept s s :=
  fun _ row hrow => ⟨fun _ => hrow, fun htype => ⟨row, hrow, htype⟩⟩

/-- Self may only mute, and only a room that is neither deafened nor the operator's. -/
theorem transition_self
    {action : ModerationAction} {reason : Option String} {now : String}
    {mutes : Table MuteRow.channelId}
    (h : transition cfg s channelId action .self reason now = .ok mutes) :
    mutes = s.mutes.put ⟨channelId, .mute, .self, truthy reason, now⟩ ∧
      ∀ row, s.mutes.get? channelId = some row → row.type ≠ .deafen ∧ row.setBy ≠ .operator := by
  cases action with
  | mute =>
      simp only [transition] at h
      split at h
      · cases h
      · split at h
        · cases h
        · rename_i htype
          split at h
          · cases h
          · rename_i hset
            refine ⟨(Except.ok.inj h).symm, ?_⟩
            intro row hrow
            rw [hrow] at htype hset
            simpa using And.intro htype hset
  | deafen => cases h
  | unmute => cases h
  | undeafen => cases h

theorem self_rowsKept (cfg : Config) (s : State) (channelId : String)
    (action : ModerationAction) (reason : Option String) (now : String) :
    RowsKept s (moderateChannel cfg s channelId action .self reason now).1 := by
  unfold moderateChannel
  split
  · exact RowsKept.refl s
  · rename_i mutes hok
    obtain ⟨rfl, hrows⟩ := transition_self hok
    intro id row hrow
    by_cases hid : id = channelId
    · -- the row that would be overwritten is neither a deafen nor the operator's
      subst hid
      obtain ⟨htype, hset⟩ := hrows row hrow
      exact ⟨fun h => absurd h hset, fun h => absurd h htype⟩
    · have hget : (s.mutes.put ⟨channelId, .mute, .self, truthy reason, now⟩).get? id =
          some row := by
        rw [Table.get?_put, if_neg hid, hrow]
      exact ⟨fun _ => hget, fun htype => ⟨row, hget, htype⟩⟩

theorem recordChannel_mutes (s : State) (message : InboundMessage) :
    (recordChannel s message).mutes = s.mutes := by
  cases message <;> rfl

theorem RowsKept.of_mutes {s s' : State} (h : s'.mutes = s.mutes) : RowsKept s s' := by
  intro channelId row hrow
  rw [h]
  exact RowsKept.refl s channelId row hrow

theorem step_rowsKept (cfg : Config) (s : State) (e : Event) (he : ¬ ByOperator e) :
    RowsKept s (step cfg s e) := by
  cases e with
  | moderate channelId action actor reason now =>
      cases actor with
      | self => exact self_rowsKept cfg s channelId action reason now
      | operator => exact absurd rfl he
  | send channelId content opts scope =>
      simp only [step]
      split
      · exact RowsKept.refl s
      · exact RowsKept.refl s
  | inbound message => exact RowsKept.of_mutes (recordChannel_mutes s message)
  | restart => exact RowsKept.refl s
  | turn turn => exact RowsKept.refl s
  | errorNotice text => exact RowsKept.refl s

/-! ## Whole runs -/

/-- Every step of the run, in the state it is taken in. -/
def AtEachStep (cfg : Config) (legacy : List (String × String)) (es : List Event)
    (P : State → Event → Prop) : Prop :=
  ∀ before e after, es = before ++ e :: after → P (reached cfg legacy before) e

/-- A run hands nothing over for a silenced room, and nothing but the operator touches
the operator's rows or lifts a deafen, exactly when each error notice that leaves is for
a room that is not silenced. -/
theorem killswitch_runs (cfg : Config) (legacy : List (String × String)) (es : List Event) :
    (AtEachStep cfg legacy es (KeepsSilence cfg) ∧
      AtEachStep cfg legacy es (fun s e => ¬ ByOperator e → RowsKept s (step cfg s e))) ↔
    AtEachStep cfg legacy es (NoticeQuiet cfg) := by
  have hrows : AtEachStep cfg legacy es
      (fun s e => ¬ ByOperator e → RowsKept s (step cfg s e)) :=
    fun before e _ _ he => step_rowsKept cfg (reached cfg legacy before) e he
  constructor
  · rintro ⟨hkeeps, -⟩ before e after hes
    have hthreads := reached_threadsOnly cfg legacy before
    exact (keepsSilence_iff hthreads e).mp (hkeeps before e after hes)
  · intro hquiet
    refine ⟨?_, hrows⟩
    intro before e after hes
    have hthreads := reached_threadsOnly cfg legacy before
    exact (keepsSilence_iff hthreads e).mpr (hquiet before e after hes)

/-- One guild with one room, which is also where error notices go. -/
def homeConfig : Config where
  agentName := "Elpis"
  guilds := [{ id := "1", slug := "home", channels := [("7", .social)] }]
  signalEnabled := false
  signalContacts := []
  errorChannelId := some "7"

/-- The operator mutes the room, then the harness has an error to report. -/
theorem muted_notice_handed_over :
    ¬ AtEachStep homeConfig []
      [.moderate "7" .mute .operator none "t", .errorNotice "llm failed"]
      (KeepsSilence homeConfig) := by
  intro hkeeps
  have hlast := hkeeps [.moderate "7" .mute .operator none "t"] _ [] rfl
  have hhanded : handed homeConfig
      (reached homeConfig [] [.moderate "7" .mute .operator none "t"])
      (.errorNotice "llm failed") = some ⟨"7", "llm failed", {}, none, true⟩ := by
    decide
  exact hlast _ hhanded (Or.inl (by decide))

end Elpis.Agent
