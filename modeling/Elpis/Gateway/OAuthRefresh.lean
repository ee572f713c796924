import Elpis.Gateway.ProviderCredentials
import Elpis.Lib.Run

/-!
# OAuth refreshes of the LLM broker

`packages/gateway/src/llm-broker.ts`. Dispatches of one broker share the refreshes that are
under way: a refresh is kept under the credential and the revision it starts from, until
behind its end. Each dispatch holds a snapshot of its own, which it changes for the result of
the refreshes it waited for.

A step is one run of the event loop between two `await`s. What the token endpoint answers, the
clock, and the way the store's transaction ends come with the step. `identityFields` reads the
stored account identity.
-/

namespace Elpis.Gateway.Provider

open Elpis.Js Elpis.Lib
open Elpis.Gateway.Protocol (maxSafeInteger)

/-! ## Credentials -/

structure AccountIdentity where
  accountId : Option String
  email : Option String
  orgId : Option String
  orgName : Option String
  authorizedAt : Option ℕ
deriving DecidableEq, Repr

structure OAuthCredentials where
  access : String
  refresh : String
  expires : ℕ
  identity : AccountIdentity
deriving DecidableEq, Repr

def validateOAuthCredentials (c : OAuthCredentials) : Bool :=
  decide (1 ≤ length c.access ∧ length c.access ≤ 131072) &&
    decide (1 ≤ length c.refresh ∧ length c.refresh ≤ 131072) && decide (c.expires ≤ maxSafeInteger) &&
    [c.identity.accountId, c.identity.email, c.identity.orgId, c.identity.orgName].all
      (fun field => field.all (fun value => decide (length value ≤ 4096))) &&
    c.identity.authorizedAt.all (fun at_ => decide (at_ ≤ maxSafeInteger))

/-- A field that the refresh reported is the one that was authorized. -/
def agrees {α : Type} [DecidableEq α] (reported expected : Option α) : Bool :=
  reported.isNone || decide (reported = expected)

def refreshCredentials (authorized refreshed : OAuthCredentials) : Option OAuthCredentials :=
  if validateOAuthCredentials refreshed &&
      agrees refreshed.identity.accountId authorized.identity.accountId &&
      agrees refreshed.identity.email authorized.identity.email &&
      agrees refreshed.identity.orgId authorized.identity.orgId &&
      agrees refreshed.identity.orgName authorized.identity.orgName &&
      agrees refreshed.identity.authorizedAt authorized.identity.authorizedAt &&
      validateOAuthCredentials { refreshed with identity := authorized.identity } then
    some { refreshed with identity := authorized.identity }
  else none

structure OAuthSnapshot where
  credentialId : String
  providerType : ProviderType
  secretRevision : ℕ
  credentials : OAuthCredentials
deriving DecidableEq, Repr

/-- `refreshKey`. -/
def OAuthSnapshot.key (s : OAuthSnapshot) : String × ℕ := (s.credentialId, s.secretRevision)

/-- The snapshot behind a refresh. -/
def OAuthSnapshot.renewed (s : OAuthSnapshot) (secretRevision : ℕ) (credentials : OAuthCredentials) :
    OAuthSnapshot :=
  ⟨s.credentialId, s.providerType, secretRevision, credentials⟩

def oauthSnapshotFromRow (identityFields : String → Option AccountIdentity) (row : ProviderCredential) :
    Option OAuthSnapshot :=
  match row.secret, identityFields row.accountIdentityJson with
  | .oauth secret, some identity =>
      some ⟨row.id, row.providerType, row.secretRevision, ⟨secret.access, secret.refresh, secret.expires, identity⟩⟩
  | _, _ => none

/-! ## The broker -/

/-- A promise that a refresh makes. It settles, and a moment later its entry is removed and
those who wait for it go on. -/
structure Flight where
  id : ℕ
  snapshot : OAuthSnapshot
  outcome : Option (Except String OAuthSnapshot)
  removed : Bool

/-- Where a dispatch is: before its first or its second attempt, waiting, with the provider,
or behind its end. -/
inductive Phase where
  | ready (retry : Bool)
  | awaitingToken (retry : Bool) (flight : ℕ)
  | sent (retry : Bool)
  | awaitingForce (flight : ℕ)
  | over
deriving DecidableEq, Repr

structure Dispatch where
  id : ℕ
  authorized : OAuthSnapshot
  current : OAuthSnapshot
  phase : Phase

/-- A refresh that the store committed: the revision it replaced, and its access token. -/
structure Commit where
  credentialId : String
  revision : ℕ
  access : String
deriving DecidableEq, Repr

def Commit.key (c : Commit) : String × ℕ := (c.credentialId, c.revision)

/-- A request of a dispatch to the provider, with the snapshot whose access token it bears. -/
structure Use where
  dispatch : ℕ
  authorized : OAuthSnapshot
  held : OAuthSnapshot

structure Broker where
  credentials : CredentialTable
  refreshes : Table (Prod.fst : (String × ℕ) × ℕ → String × ℕ)
  flights : Table Flight.id
  nextFlight : ℕ
  dispatches : Table Dispatch.id
  nextDispatch : ℕ
  draining : Bool
  /-- What happened, for the statements. -/
  commits : List Commit
  uses : List Use

/-- A broker that is created over the stored credentials. -/
def Broker.create (credentials : CredentialTable) : Broker :=
  ⟨credentials, Table.empty, Table.empty, 0, Table.empty, 0, false, [], []⟩

/-- `OAUTH_REFRESH_SKEW_MS`. -/
def refreshSkewMs : ℕ := 60000

def readOAuthRevision (b : Broker) (credentialId : String) (type : ProviderType) : Option ℕ := do
  let row ← b.credentials.get? credentialId
  if row.providerType = type ∧ row.secret.isOAuth = true then some row.secretRevision else none

/-- `refreshOAuth`: the refresh that is under way for the snapshot, or a new one. -/
def refreshOAuth (b : Broker) (snapshot : OAuthSnapshot) : Except String ℕ × Broker :=
  match b.refreshes.get? snapshot.key with
  | some existing => (.ok existing.2, b)
  | none =>
      if b.draining then (.error "gateway LLM broker is draining", b)
      else if readOAuthRevision b snapshot.credentialId snapshot.providerType ≠ some snapshot.secretRevision then
        (.error "gateway OAuth authorized revision is stale", b)
      else (.ok b.nextFlight, { b with
        refreshes := b.refreshes.put (snapshot.key, b.nextFlight)
        flights := b.flights.put ⟨b.nextFlight, snapshot, none, false⟩
        nextFlight := b.nextFlight + 1 })

def Broker.setPhase (b : Broker) (d : Dispatch) (phase : Phase) : Broker :=
  { b with dispatches := b.dispatches.put { d with phase } }

/-- The request goes out with the access token that the dispatch holds. -/
def Broker.sendWith (b : Broker) (d : Dispatch) (held : OAuthSnapshot) (retry : Bool) : Broker :=
  { b with dispatches := b.dispatches.put { d with current := held, phase := .sent retry }
           uses := ⟨d.id, d.authorized, held⟩ :: b.uses }

/-- The dispatch waits for a refresh of what it holds, or ends. -/
def Broker.awaitRefresh (b : Broker) (d : Dispatch) (waiting : ℕ → Phase) : Broker :=
  match refreshOAuth b d.current with
  | (.ok flight, b') => b'.setPhase d (waiting flight)
  | (.error _, b') => b'.setPhase d .over

/-- What one dispatch does next. -/
inductive Action where
  | getAccessToken (now : ℕ)
  | responded (unauthorized : Bool)
  | resume
  | abort

def act (b : Broker) (d : Dispatch) (action : Action) : Broker :=
  match d.phase, action with
  | .ready retry, .getAccessToken now =>
      if d.current.credentials.expires ≤ now + refreshSkewMs then b.awaitRefresh d (.awaitingToken retry)
      else b.sendWith d d.current retry
  | .sent retry, .responded unauthorized =>
      if unauthorized && !retry then b.awaitRefresh d .awaitingForce else b.setPhase d .over
  | .awaitingToken retry flight, .resume =>
      match b.flights.get? flight with
      | some ⟨_, _, some (.ok refreshed), true⟩ => b.sendWith d refreshed retry
      | some ⟨_, _, some (.error _), true⟩ => b.setPhase d .over
      | _ => b
  | .awaitingForce flight, .resume =>
      match b.flights.get? flight with
      | some ⟨_, _, some (.ok refreshed), true⟩ =>
          { b with dispatches := b.dispatches.put { d with current := refreshed, phase := .ready true } }
      | some ⟨_, _, some (.error _), true⟩ => b.setPhase d .over
      | _ => b
  | _, .abort => b.setPhase d .over
  | _, _ => b

/-- The body of the refresh behind the answer of the token endpoint. -/
def settle (b : Broker) (f : Flight) (fresh : Option OAuthCredentials) (env : StoreEnv) : Broker :=
  match fresh.bind (refreshCredentials f.snapshot.credentials) with
  | none => { b with flights := b.flights.put { f with outcome := some (.error "gateway OAuth refresh failed") } }
  | some credentials =>
      match refreshOAuthCredential env ⟨f.snapshot.credentialId, f.snapshot.secretRevision, credentials.access,
          credentials.refresh, credentials.expires⟩ b.credentials with
      | (.error _, stored) =>
          { b with credentials := stored
                   flights := b.flights.put
                     { f with outcome := some (.error "gateway OAuth credential update failed") } }
      | (.ok receipt, stored) =>
          { b with credentials := stored
                   flights := b.flights.put { f with
                     outcome := some (.ok (f.snapshot.renewed receipt.secretRevision credentials)) }
                   commits := ⟨f.snapshot.credentialId, f.snapshot.secretRevision, credentials.access⟩ :: b.commits }

/-- The `finally` of a refresh. -/
def removeFlight (b : Broker) (f : Flight) : Broker :=
  { b with flights := b.flights.put { f with removed := true }
           refreshes := b.refreshes.delete (fun entry =>
             decide (entry.1 = f.snapshot.key) && decide (entry.2 = f.id)) }

inductive Event where
  | authorize (credentialId : String)
  | dispatch (id : ℕ) (action : Action)
  | settled (flight : ℕ) (fresh : Option OAuthCredentials) (env : StoreEnv)
  | finally (flight : ℕ)
  | drain
  | install (row : ProviderCredential)
  | refreshed (env : StoreEnv) (input : RefreshInput)

def step (identityFields : String → Option AccountIdentity) (b : Broker) : Event → Broker
  | .authorize id =>
      if b.draining then b
      else
        match (b.credentials.get? id).bind (oauthSnapshotFromRow identityFields) with
        | none => b
        | some snapshot =>
            { b with dispatches := b.dispatches.put ⟨b.nextDispatch, snapshot, snapshot, .ready false⟩
                     nextDispatch := b.nextDispatch + 1 }
  | .dispatch id action =>
      match b.dispatches.get? id with
      | none => b
      | some d => act b d action
  | .settled flight fresh env =>
      match b.flights.get? flight with
      | some f => if f.outcome.isNone then settle b f fresh env else b
      | none => b
  | .finally flight =>
      match b.flights.get? flight with
      | some f => if f.outcome.isSome && !f.removed then removeFlight b f else b
      | none => b
  | .drain => { b with draining := true }
  | .install row =>
      if b.credentials.get? row.id = none ∧ row.secretRevision = 0 then
        { b with credentials := b.credentials.put row }
      else b
  | .refreshed env input =>
      match refreshOAuthCredential env input b.credentials with
      | (.error _, stored) => { b with credentials := stored }
      | (.ok _, stored) =>
          { b with credentials := stored
                   commits := ⟨input.credentialId, input.expectedSecretRevision, input.accessToken⟩ :: b.commits }

/-! ## What holds of every run -/

/-- From one snapshot to another by committed refreshes, each of the revision before. -/
inductive Chain (commits : List Commit) : OAuthSnapshot → OAuthSnapshot → Prop where
  | refl (s : OAuthSnapshot) : Chain commits s s
  | next {s t u : OAuthSnapshot} (h : Chain commits s t) (credential : u.credentialId = t.credentialId)
      (revision : u.secretRevision = t.secretRevision + 1)
      (committed : ⟨t.credentialId, t.secretRevision, u.credentials.access⟩ ∈ commits) : Chain commits s u

theorem Chain.mono {commits : List Commit} {s t : OAuthSnapshot} (h : Chain commits s t) (c : Commit) :
    Chain (c :: commits) s t := by
  induction h with
  | refl => exact .refl _
  | next _ hcredential hrevision hcommitted ih =>
      exact .next ih hcredential hrevision (List.mem_cons_of_mem c hcommitted)

structure Inv (base : String → ℕ) (b : Broker) : Prop where
  /-- Until its `finally`, a refresh is the one under its key. -/
  entered : ∀ f ∈ b.flights, f.removed = false → (f.snapshot.key, f.id) ∈ b.refreshes
  unsettled : ∀ f ∈ b.flights, f.outcome = none → f.removed = false
  nextFlight : ∀ f ∈ b.flights, f.id < b.nextFlight
  nextDispatch : ∀ d ∈ b.dispatches, d.id < b.nextDispatch
  entries : ∀ e ∈ b.refreshes, ∃ f ∈ b.flights, f.id = e.2 ∧ f.snapshot.key = e.1 ∧ f.removed = false
  settled : ∀ f ∈ b.flights, ∀ s, f.outcome = some (.ok s) → s.credentialId = f.snapshot.credentialId ∧
    s.secretRevision = f.snapshot.secretRevision + 1 ∧
      ⟨f.snapshot.credentialId, f.snapshot.secretRevision, s.credentials.access⟩ ∈ b.commits
  absent : ∀ id, (∀ row ∈ b.credentials, row.id ≠ id) → base id = 0
  counted : ∀ row ∈ b.credentials, row.secretRevision =
    base row.id + (b.commits.filter (fun c => decide (c.credentialId = row.id))).length
  below : ∀ c ∈ b.commits, ∃ row ∈ b.credentials, row.id = c.credentialId ∧ c.revision < row.secretRevision
  once : (b.commits.map Commit.key).Nodup
  held : ∀ d ∈ b.dispatches, Chain b.commits d.authorized d.current
  awaited : ∀ d ∈ b.dispatches, ∀ flight, ((∃ retry, d.phase = .awaitingToken retry flight) ∨
    d.phase = .awaitingForce flight) → ∃ f ∈ b.flights, f.id = flight ∧ f.snapshot.key = d.current.key
  uses : ∀ u ∈ b.uses, Chain b.commits u.authorized u.held

section Steps

variable {base : String → ℕ} {b : Broker}

theorem Inv.setDispatch (h : Inv base b) {d d' : Dispatch} (hd : d ∈ b.dispatches) (hid : d'.id = d.id)
    (hheld : Chain b.commits d'.authorized d'.current)
    (hawaited : ∀ flight, ((∃ retry, d'.phase = .awaitingToken retry flight) ∨
      d'.phase = .awaitingForce flight) → ∃ f ∈ b.flights, f.id = flight ∧ f.snapshot.key = d'.current.key) :
    Inv base { b with dispatches := b.dispatches.put d' } := by
  refine { h with nextDispatch := ?_, held := ?_, awaited := ?_ }
  · intro x hx
    rcases Table.mem_put.mp hx with rfl | ⟨hx, _⟩
    · exact hid ▸ h.nextDispatch d hd
    · exact h.nextDispatch x hx
  · intro x hx
    rcases Table.mem_put.mp hx with rfl | ⟨hx, _⟩
    · exact hheld
    · exact h.held x hx
  · intro x hx
    rcases Table.mem_put.mp hx with rfl | ⟨hx, _⟩
    · exact hawaited
    · exact h.awaited x hx

variable {d : Dispatch}

/-- A phase that waits for nothing. -/
theorem Inv.setPhase (h : Inv base b) (hd : d ∈ b.dispatches) {phase : Phase}
    (hphase : ∀ flight, ¬((∃ retry, phase = .awaitingToken retry flight) ∨ phase = .awaitingForce flight)) :
    Inv base (b.setPhase d phase) :=
  h.setDispatch hd rfl (h.held d hd) (fun flight hwaits => absurd hwaits (hphase flight))

theorem Inv.sendWith (h : Inv base b) (hd : d ∈ b.dispatches) {held : OAuthSnapshot}
    (hheld : Chain b.commits d.authorized held) (retry : Bool) : Inv base (b.sendWith d held retry) := by
  have hput : Inv base { b with dispatches := b.dispatches.put { d with current := held, phase := .sent retry } } :=
    h.setDispatch hd rfl hheld (fun flight hwaits => by simp at hwaits)
  refine { hput with uses := ?_ }
  intro u hu
  rcases List.mem_cons.mp hu with rfl | hu
  · exact hheld
  · exact h.uses u hu

theorem mem_put_fresh {f : Flight} {t : Table Flight.id} (hfresh : ∀ x ∈ t, x.id < f.id) {x : Flight} :
    x ∈ t.put f ↔ x = f ∨ x ∈ t := by
  rw [Table.mem_put]
  refine or_congr_right ⟨And.left, fun hx => ⟨hx, ?_⟩⟩
  exact (hfresh x hx).ne

/-- A refresh takes off, under a key that no other has. -/
theorem Inv.takeOff (h : Inv base b) (snapshot : OAuthSnapshot) (hfree : b.refreshes.get? snapshot.key = none) :
    Inv base { b with
      refreshes := b.refreshes.put (snapshot.key, b.nextFlight)
      flights := b.flights.put ⟨b.nextFlight, snapshot, none, false⟩
      nextFlight := b.nextFlight + 1 } := by
  have hmem : ∀ {x : Flight}, x ∈ b.flights.put ⟨b.nextFlight, snapshot, none, false⟩ ↔
      x = ⟨b.nextFlight, snapshot, none, false⟩ ∨ x ∈ b.flights :=
    mem_put_fresh h.nextFlight
  have hentry : ∀ {e : (String × ℕ) × ℕ}, e ∈ b.refreshes.put (snapshot.key, b.nextFlight) ↔
      e = (snapshot.key, b.nextFlight) ∨ e ∈ b.refreshes := by
    intro e
    rw [Table.mem_put]
    exact or_congr_right ⟨And.left, fun he => ⟨he, Table.get?_eq_none.mp hfree e he⟩⟩
  refine { h with entered := ?_, unsettled := ?_, nextFlight := ?_, entries := ?_, settled := ?_, awaited := ?_ }
  · intro f hf hremoved
    rcases hmem.mp hf with rfl | hf
    · exact hentry.mpr (Or.inl rfl)
    · exact hentry.mpr (Or.inr (h.entered f hf hremoved))
  · intro f hf hnone
    rcases hmem.mp hf with rfl | hf
    · rfl
    · exact h.unsettled f hf hnone
  · intro f hf
    rcases hmem.mp hf with rfl | hf
    · exact Nat.lt_succ_self _
    · exact (h.nextFlight f hf).trans (Nat.lt_succ_self _)
  · intro e he
    rcases hentry.mp he with rfl | he
    · exact ⟨_, hmem.mpr (Or.inl rfl), rfl, rfl, rfl⟩
    · obtain ⟨f, hf, hrest⟩ := h.entries e he
      exact ⟨f, hmem.mpr (Or.inr hf), hrest⟩
  · intro f hf s hs
    rcases hmem.mp hf with rfl | hf
    · cases hs
    · exact h.settled f hf s hs
  · intro d hd flight hwaits
    obtain ⟨f, hf, hrest⟩ := h.awaited d hd flight hwaits
    exact ⟨f, hmem.mpr (Or.inr hf), hrest⟩

/-- The refresh of a snapshot: what it gives back is under way for the snapshot's revision. -/
theorem Inv.refreshOAuth (h : Inv base b) (snapshot : OAuthSnapshot) {flight : ℕ} {b' : Broker}
    (hrefresh : refreshOAuth b snapshot = (.ok flight, b')) :
    Inv base b' ∧ b'.dispatches = b.dispatches ∧ b'.commits = b.commits ∧
      ∃ f ∈ b'.flights, f.id = flight ∧ f.snapshot.key = snapshot.key := by
  unfold Provider.refreshOAuth at hrefresh
  split at hrefresh
  · rename_i entry hget
    cases hrefresh
    obtain ⟨f, hf, hid, hkey, _⟩ := h.entries entry (Table.mem_of_get? hget)
    exact ⟨h, rfl, rfl, f, hf, hid, hkey.trans (Table.key_of_get? hget)⟩
  · rename_i hnone
    split at hrefresh
    · cases hrefresh
    · split at hrefresh
      · cases hrefresh
      · cases hrefresh
        refine ⟨h.takeOff snapshot hnone, rfl, rfl, _, (mem_put_fresh h.nextFlight).mpr (Or.inl rfl), rfl, rfl⟩

theorem refreshOAuth_refused {snapshot : OAuthSnapshot} {e : String} {b' : Broker}
    (hrefresh : refreshOAuth b snapshot = (.error e, b')) : b' = b := by
  unfold Provider.refreshOAuth at hrefresh
  split at hrefresh
  · cases hrefresh
  · split at hrefresh
    · cases hrefresh
      rfl
    · split at hrefresh <;> cases hrefresh
      rfl

theorem Inv.awaitRefresh (h : Inv base b) (hd : d ∈ b.dispatches) {waiting : ℕ → Phase}
    (hwaiting : ∀ flight flight', ((∃ retry, waiting flight = .awaitingToken retry flight') ∨
      waiting flight = .awaitingForce flight') → flight' = flight) :
    Inv base (b.awaitRefresh d waiting) := by
  unfold Broker.awaitRefresh
  split
  · rename_i flight b' hrefresh
    obtain ⟨hinv, hdispatches, hcommits, hflight⟩ := h.refreshOAuth d.current hrefresh
    have hd' : d ∈ b'.dispatches := by
      rw [hdispatches]
      exact hd
    refine hinv.setDispatch hd' rfl ?_ ?_
    · rw [hcommits]
      exact h.held d hd
    · intro flight' hwaits
      rw [hwaiting flight flight' hwaits]
      exact hflight
  · rename_i e b' hrefresh
    obtain rfl := refreshOAuth_refused hrefresh
    exact h.setPhase hd (fun flight hwaits => by simp at hwaits)

/-- What a dispatch goes on with behind a refresh. -/
theorem Inv.refreshed (h : Inv base b) (hd : d ∈ b.dispatches) {flight : ℕ} {refreshed : OAuthSnapshot}
    {snapshot : OAuthSnapshot} {removed : Bool}
    (hwaits : (∃ retry, d.phase = .awaitingToken retry flight) ∨ d.phase = .awaitingForce flight)
    (hget : b.flights.get? flight = some ⟨flight, snapshot, some (.ok refreshed), removed⟩) :
    Chain b.commits d.authorized refreshed := by
  obtain ⟨f, hf, hid, hkey⟩ := h.awaited d hd flight hwaits
  obtain rfl := Table.eq_of_key hf (Table.mem_of_get? hget) hid
  obtain ⟨hcredential, hrevision, hcommit⟩ := h.settled _ hf refreshed rfl
  obtain ⟨hid, hrev⟩ := Prod.ext_iff.mp hkey
  have hid : snapshot.credentialId = d.current.credentialId := hid
  have hrev : snapshot.secretRevision = d.current.secretRevision := hrev
  refine .next (h.held d hd) (hcredential.trans hid) ?_ ?_
  · rw [hrevision, hrev]
  · rw [← hid, ← hrev]
    exact hcommit

theorem Inv.act (h : Inv base b) (hd : d ∈ b.dispatches) (action : Action) :
    Inv base (act b d action) := by
  unfold Provider.act
  split
  · rename_i retry now hphase
    split
    · exact h.awaitRefresh hd (fun flight flight' hwaits => by simpa [eq_comm] using hwaits)
    · exact h.sendWith hd (h.held d hd) retry
  · split
    · exact h.awaitRefresh hd (fun flight flight' hwaits => by simpa [eq_comm] using hwaits)
    · exact h.setPhase hd (fun flight hwaits => by simp at hwaits)
  · rename_i retry flight hphase
    split
    · rename_i id snapshot refreshed hget
      obtain rfl : id = flight := Table.key_of_get? hget
      exact h.sendWith hd (h.refreshed hd (Or.inl ⟨retry, hphase⟩) hget) retry
    · exact h.setPhase hd (fun flight hwaits => by simp at hwaits)
    · exact h
  · rename_i flight hphase
    split
    · rename_i id snapshot refreshed hget
      obtain rfl : id = flight := Table.key_of_get? hget
      refine h.setDispatch hd rfl (h.refreshed hd (Or.inr hphase) hget) ?_
      intro flight' hwaits
      simp at hwaits
    · exact h.setPhase hd (fun flight hwaits => by simp at hwaits)
    · exact h
  · exact h.setPhase hd (fun flight hwaits => by simp at hwaits)
  · exact h

/-- A commit of the store: the revision it names is the last one of its credential. -/
theorem Inv.commit (h : Inv base b) {env : StoreEnv} {input : RefreshInput} {receipt : CredentialReceipt}
    {stored : CredentialTable}
    (hstore : refreshOAuthCredential env input b.credentials = (.ok receipt, stored)) :
    Inv base { b with
      credentials := stored
      commits := ⟨input.credentialId, input.expectedSecretRevision, input.accessToken⟩ :: b.commits } := by
  obtain ⟨row, hrow, at_, hselect, rfl, _, _⟩ := refreshOAuthCredential_ok hstore
  obtain ⟨hid, _, hrevision⟩ := refreshable_iff.mp hselect
  generalize hnew : row.refreshed ⟨input.accessToken, input.refreshToken, input.expiresAt⟩ at_ = row'
  have hid' : row'.id = row.id := by rw [← hnew]; rfl
  have hrevision' : row'.secretRevision = row.secretRevision + 1 := by rw [← hnew]; rfl
  have hmem : ∀ {x}, x ∈ b.credentials.put row' ↔ x = row' ∨ x ∈ b.credentials ∧ x.id ≠ row.id := by
    intro x
    rw [Table.mem_put, hid']
  refine { h with settled := ?_, absent := ?_, counted := ?_, below := ?_, once := ?_, held := ?_, uses := ?_ }
  · intro f hf s hs
    obtain ⟨hcredential, hrev, hin⟩ := h.settled f hf s hs
    exact ⟨hcredential, hrev, List.mem_cons_of_mem _ hin⟩
  · intro id habsent
    refine h.absent id ?_
    intro x hx
    by_cases hxid : x.id = row.id
    · rw [hxid, ← hid']
      exact habsent row' (hmem.mpr (Or.inl rfl))
    · exact habsent x (hmem.mpr (Or.inr ⟨hx, hxid⟩))
  · intro x hx
    rcases hmem.mp hx with rfl | ⟨hx, hne⟩
    · rw [hrevision', hid', List.filter_cons_of_pos (by simpa using hid.symm), List.length_cons, h.counted row hrow,
        Nat.add_assoc]
    · rw [List.filter_cons_of_neg (by simpa [← hid] using hne.symm), h.counted x hx]
  · intro c hc
    rcases List.mem_cons.mp hc with rfl | hc
    · refine ⟨row', hmem.mpr (Or.inl rfl), hid'.trans hid, ?_⟩
      rw [hrevision', hrevision]
      exact Nat.lt_succ_self _
    · obtain ⟨x, hx, hxid, hlt⟩ := h.below c hc
      by_cases hxrow : x.id = row.id
      · obtain rfl := Table.eq_of_key hx hrow hxrow
        refine ⟨row', hmem.mpr (Or.inl rfl), hid'.trans hxid, ?_⟩
        rw [hrevision']
        exact hlt.trans (Nat.lt_succ_self _)
      · exact ⟨x, hmem.mpr (Or.inr ⟨hx, hxrow⟩), hxid, hlt⟩
  · rw [List.map_cons, List.nodup_cons]
    refine ⟨?_, h.once⟩
    -- an earlier commit of the revision would be below itself
    intro hin
    obtain ⟨c, hc, hkey⟩ := List.mem_map.mp hin
    obtain ⟨hcid, hcrev⟩ := Prod.ext_iff.mp hkey
    have hcid : c.credentialId = input.credentialId := hcid
    have hcrev : c.revision = input.expectedSecretRevision := hcrev
    obtain ⟨x, hx, hxid, hlt⟩ := h.below c hc
    obtain rfl := Table.eq_of_key hx hrow (hxid.trans (hcid.trans hid.symm))
    rw [hcrev, hrevision] at hlt
    exact lt_irrefl _ hlt
  · exact fun d hd => (h.held d hd).mono _
  · exact fun u hu => (h.uses u hu).mono _

theorem Inv.setOutcome (h : Inv base b) {f : Flight} (hf : f ∈ b.flights) (hnone : f.outcome = none)
    {outcome : Except String OAuthSnapshot}
    (hok : ∀ s, outcome = .ok s → s.credentialId = f.snapshot.credentialId ∧
      s.secretRevision = f.snapshot.secretRevision + 1 ∧
        ⟨f.snapshot.credentialId, f.snapshot.secretRevision, s.credentials.access⟩ ∈ b.commits) :
    Inv base { b with flights := b.flights.put { f with outcome := some outcome } } := by
  have hmem : ∀ {x : Flight}, x ∈ b.flights.put { f with outcome := some outcome } ↔
      x = { f with outcome := some outcome } ∨ x ∈ b.flights ∧ x.id ≠ f.id := Table.mem_put
  have hstays : ∀ x ∈ b.flights, ∃ x' ∈ b.flights.put { f with outcome := some outcome },
      x'.id = x.id ∧ x'.snapshot = x.snapshot ∧ x'.removed = x.removed := by
    intro x hx
    by_cases hid : x.id = f.id
    · obtain rfl := Table.eq_of_key hx hf hid
      exact ⟨_, hmem.mpr (Or.inl rfl), rfl, rfl, rfl⟩
    · exact ⟨x, hmem.mpr (Or.inr ⟨hx, hid⟩), rfl, rfl, rfl⟩
  refine { h with entered := ?_, unsettled := ?_, nextFlight := ?_, entries := ?_, settled := ?_, awaited := ?_ }
  · intro x hx hremoved
    rcases hmem.mp hx with rfl | ⟨hx, _⟩
    · exact h.entered f hf hremoved
    · exact h.entered x hx hremoved
  · intro x hx hxnone
    rcases hmem.mp hx with rfl | ⟨hx, _⟩
    · cases hxnone
    · exact h.unsettled x hx hxnone
  · intro x hx
    rcases hmem.mp hx with rfl | ⟨hx, _⟩
    · exact h.nextFlight f hf
    · exact h.nextFlight x hx
  · intro e he
    obtain ⟨x, hx, hid, hkey, hremoved⟩ := h.entries e he
    obtain ⟨x', hx', hid', hsnapshot, hremoved'⟩ := hstays x hx
    exact ⟨x', hx', hid'.trans hid, by rw [hsnapshot, hkey], hremoved'.trans hremoved⟩
  · intro x hx s hs
    rcases hmem.mp hx with rfl | ⟨hx, _⟩
    · exact hok s (Option.some.inj hs)
    · exact h.settled x hx s hs
  · intro d hd flight hwaits
    obtain ⟨x, hx, hid, hkey⟩ := h.awaited d hd flight hwaits
    obtain ⟨x', hx', hid', hsnapshot, _⟩ := hstays x hx
    exact ⟨x', hx', hid'.trans hid, by rw [hsnapshot, hkey]⟩

theorem Inv.settle (h : Inv base b) {f : Flight} (hf : f ∈ b.flights) (hnone : f.outcome = none)
    (fresh : Option OAuthCredentials) (env : StoreEnv) : Inv base (settle b f fresh env) := by
  unfold Provider.settle
  split
  · exact h.setOutcome hf hnone (fun s hs => by cases hs)
  · rename_i credentials hfresh
    split
    · rename_i e stored hstore
      obtain rfl := (Tx.wp_iff.mp (refreshOAuthCredential_refused env _ b.credentials)).2 e stored hstore
      exact h.setOutcome hf hnone (fun s hs => by cases hs)
    · rename_i receipt stored hstore
      obtain ⟨_, _, _, _, _, _, hrevision⟩ := refreshOAuthCredential_ok hstore
      refine (h.commit hstore).setOutcome hf hnone ?_
      intro s hs
      cases hs
      exact ⟨rfl, hrevision, List.mem_cons_self⟩

/-- The `finally` takes the entry of the refresh and no other. -/
theorem Inv.removeFlight (h : Inv base b) {f : Flight} (hf : f ∈ b.flights) (hsome : f.outcome ≠ none) :
    Inv base (removeFlight b f) := by
  have hmem : ∀ {x : Flight}, x ∈ b.flights.put { f with removed := true } ↔
      x = { f with removed := true } ∨ x ∈ b.flights ∧ x.id ≠ f.id := Table.mem_put
  have hentry : ∀ {e : (String × ℕ) × ℕ}, e ∈ (Provider.removeFlight b f).refreshes ↔
      e ∈ b.refreshes ∧ ¬(e.1 = f.snapshot.key ∧ e.2 = f.id) := by
    intro e
    show e ∈ b.refreshes.delete _ ↔ _
    rw [Table.mem_delete]
    simp [imp_iff_not_or]
  refine { h with entered := ?_, unsettled := ?_, nextFlight := ?_, entries := ?_, settled := ?_, awaited := ?_ }
  · intro x hx hremoved
    rcases hmem.mp hx with rfl | ⟨hx, hne⟩
    · cases hremoved
    · exact hentry.mpr ⟨h.entered x hx hremoved, fun heq => hne heq.2⟩
  · intro x hx hxnone
    rcases hmem.mp hx with rfl | ⟨hx, _⟩
    · exact absurd hxnone hsome
    · exact h.unsettled x hx hxnone
  · intro x hx
    rcases hmem.mp hx with rfl | ⟨hx, _⟩
    · exact h.nextFlight f hf
    · exact h.nextFlight x hx
  · intro e he
    obtain ⟨hold, hother⟩ := hentry.mp he
    obtain ⟨x, hx, hid, hkey, hremoved⟩ := h.entries e hold
    refine ⟨x, hmem.mpr (Or.inr ⟨hx, ?_⟩), hid, hkey, hremoved⟩
    intro heq
    obtain rfl := Table.eq_of_key hx hf heq
    exact hother ⟨hkey.symm, hid.symm⟩
  · intro x hx s hs
    rcases hmem.mp hx with rfl | ⟨hx, _⟩
    · exact h.settled f hf s hs
    · exact h.settled x hx s hs
  · intro d hd flight hwaits
    obtain ⟨x, hx, hid, hkey⟩ := h.awaited d hd flight hwaits
    by_cases hxf : x.id = f.id
    · obtain rfl := Table.eq_of_key hx hf hxf
      exact ⟨_, hmem.mpr (Or.inl rfl), hid, hkey⟩
    · exact ⟨x, hmem.mpr (Or.inr ⟨hx, hxf⟩), hid, hkey⟩

theorem Inv.authorize (h : Inv base b) (snapshot : OAuthSnapshot) :
    Inv base { b with
      dispatches := b.dispatches.put ⟨b.nextDispatch, snapshot, snapshot, .ready false⟩
      nextDispatch := b.nextDispatch + 1 } := by
  refine { h with nextDispatch := ?_, held := ?_, awaited := ?_ }
  · intro d hd
    rcases Table.mem_put.mp hd with rfl | ⟨hd, _⟩
    · exact Nat.lt_succ_self _
    · exact (h.nextDispatch d hd).trans (Nat.lt_succ_self _)
  · intro d hd
    rcases Table.mem_put.mp hd with rfl | ⟨hd, _⟩
    · exact .refl _
    · exact h.held d hd
  · intro d hd
    rcases Table.mem_put.mp hd with rfl | ⟨hd, _⟩
    · intro flight hwaits
      simp at hwaits
    · exact h.awaited d hd

theorem Inv.install (h : Inv base b) {row : ProviderCredential} (hnew : b.credentials.get? row.id = none)
    (hzero : row.secretRevision = 0) : Inv base { b with credentials := b.credentials.put row } := by
  have habsent := Table.get?_eq_none.mp hnew
  have hmem : ∀ {x}, x ∈ b.credentials.put row ↔ x = row ∨ x ∈ b.credentials := by
    intro x
    rw [Table.mem_put]
    exact or_congr_right ⟨And.left, fun hx => ⟨hx, habsent x hx⟩⟩
  refine { h with absent := ?_, counted := ?_, below := ?_ }
  · intro id hid
    exact h.absent id (fun x hx => hid x (hmem.mpr (Or.inr hx)))
  · intro x hx
    rcases hmem.mp hx with rfl | hx
    · have hnone : b.commits.filter (fun c => decide (c.credentialId = x.id)) = [] := by
        refine List.filter_eq_nil_iff.mpr ?_
        intro c hc hcid
        obtain ⟨y, hy, hyid, _⟩ := h.below c hc
        exact habsent y hy (hyid.trans (of_decide_eq_true hcid))
      rw [hzero, h.absent x.id habsent, hnone]
      rfl
    · exact h.counted x hx
  · intro c hc
    obtain ⟨x, hx, hrest⟩ := h.below c hc
    exact ⟨x, hmem.mpr (Or.inr hx), hrest⟩

theorem inv_step (identityFields : String → Option AccountIdentity) (h : Inv base b) (event : Event) :
    Inv base (step identityFields b event) := by
  cases event with
  | authorize id =>
      unfold step
      simp only
      split
      · exact h
      · split
        · exact h
        · exact h.authorize _
  | dispatch id action =>
      unfold step
      simp only
      split
      · exact h
      · rename_i d hd
        exact h.act (Table.mem_of_get? hd) action
  | settled flight fresh env =>
      unfold step
      simp only
      split
      · rename_i f hf
        split
        · rename_i hnone
          exact h.settle (Table.mem_of_get? hf) (Option.isNone_iff_eq_none.mp hnone) fresh env
        · exact h
      · exact h
  | «finally» flight =>
      unfold step
      simp only
      split
      · rename_i f hf
        split
        · rename_i hsome
          refine h.removeFlight (Table.mem_of_get? hf) ?_
          rintro hnone
          simp [hnone] at hsome
        · exact h
      · exact h
  | drain => exact { h with }
  | install row =>
      unfold step
      simp only
      split
      · rename_i hnew
        exact h.install hnew.1 hnew.2
      · exact h
  | refreshed env input =>
      unfold step
      simp only
      split
      · rename_i e stored hstore
        obtain rfl := (Tx.wp_iff.mp (refreshOAuthCredential_refused env input b.credentials)).2 e stored hstore
        exact h
      · rename_i receipt stored hstore
        exact h.commit hstore

end Steps

/-- The revision of a credential in a table, and zero for one that is not there. -/
def revisionIn (credentials : CredentialTable) (id : String) : ℕ :=
  match credentials.get? id with
  | none => 0
  | some row => row.secretRevision

theorem inv_create (credentials : CredentialTable) :
    Inv (revisionIn credentials) (Broker.create credentials) := by
  constructor
  case absent =>
    intro id habsent
    have habsent : ∀ row ∈ credentials, row.id ≠ id := habsent
    unfold revisionIn
    rw [Table.get?_eq_none.mpr habsent]
  case counted =>
    intro row hrow
    have hrow : row ∈ credentials := hrow
    unfold revisionIn
    rw [Table.get?_key hrow]
    rfl
  case once => exact List.nodup_nil
  all_goals
    intro x hx
    cases hx

/-- Single flight, one commit for each revision, and the revisions counted. -/
structure SingleFlight (base : String → ℕ) (b : Broker) : Prop where
  flights : ∀ f ∈ b.flights, ∀ g ∈ b.flights, f.outcome = none → g.outcome = none →
    f.snapshot.key = g.snapshot.key → f = g
  once : (b.commits.map Commit.key).Nodup
  counted : ∀ row ∈ b.credentials, row.secretRevision =
    base row.id + (b.commits.filter (fun c => decide (c.credentialId = row.id))).length

theorem Inv.singleFlight {base : String → ℕ} {b : Broker} (h : Inv base b) : SingleFlight base b := by
  refine ⟨?_, h.once, h.counted⟩
  intro f hf g hg hfnone hgnone hkey
  have hfentry := h.entered f hf (h.unsettled f hf hfnone)
  have hgentry := h.entered g hg (h.unsettled g hg hgnone)
  have hsame := Table.eq_of_key hfentry hgentry hkey
  exact Table.eq_of_key hf hg (congrArg Prod.snd hsame)

/-- In every run over any stored credentials: for each revision one refresh is under way at a
time and one is committed, and each request bears the access token of the snapshot that its
dispatch holds, to which committed refreshes lead from the authorized one. -/
theorem refreshes_single_flight (identityFields : String → Option AccountIdentity)
    (credentials : CredentialTable) (events : List Event) :
    Throughout (step identityFields)
      (fun b => SingleFlight (revisionIn credentials) b ∧ ∀ u ∈ b.uses, Chain b.commits u.authorized u.held)
      (Broker.create credentials) events := by
  exact throughout_of_inv (I := Inv (revisionIn credentials)) (fun b h => ⟨h.singleFlight, h.uses⟩)
    (fun b event h => inv_step identityFields h event) events (inv_create credentials)

/-! ## Two refreshes in one dispatch -/

/-- The access token of the authorized revision, or of the refresh of that revision. -/
def Authorized (commits : List Commit) (u : Use) : Prop :=
  u.held.credentials.access = u.authorized.credentials.access ∨
    ∃ c ∈ commits, c.key = u.authorized.key ∧ c.access = u.held.credentials.access

instance (commits : List Commit) (u : Use) : Decidable (Authorized commits u) :=
  inferInstanceAs (Decidable (_ ∨ _))

/-- An OAuth credential whose access token has run out. -/
def expiredRow : ProviderCredential :=
  ⟨"epc1.AAAAAAAAAAAAAAAAAAAAAA", "codex", .codexOauth, "main", "{}", .oauth ⟨"first", "r-1", 0⟩, 0, 0, 0⟩

def quietEnv : StoreEnv := ⟨some 0, true, true, true, true⟩

/-- The dispatch refreshes before its first attempt, and again when that is answered by 401. -/
def twiceRefreshed : List Event :=
  [.authorize expiredRow.id, .dispatch 0 (.getAccessToken 0),
    .settled 0 (some ⟨"second", "r-2", 7200000, ⟨none, none, none, none, none⟩⟩) quietEnv, .finally 0,
    .dispatch 0 .resume, .dispatch 0 (.responded true),
    .settled 1 (some ⟨"third", "r-3", 7200000, ⟨none, none, none, none, none⟩⟩) quietEnv, .finally 1,
    .dispatch 0 .resume, .dispatch 0 (.getAccessToken 0)]

/-- The second attempt bears the token of the refresh of the refresh. -/
theorem second_refresh_used :
    ¬∀ (identityFields : String → Option AccountIdentity) (credentials : CredentialTable) (events : List Event),
      ∀ u ∈ (run (step identityFields) (Broker.create credentials) events).uses,
        Authorized (run (step identityFields) (Broker.create credentials) events).commits u := by
  intro h
  have hlast : ∀ u ∈ (run (step fun _ => some ⟨none, none, none, none, none⟩)
      (Broker.create (Table.empty.put expiredRow)) twiceRefreshed).uses,
      Authorized (run (step fun _ => some ⟨none, none, none, none, none⟩)
        (Broker.create (Table.empty.put expiredRow)) twiceRefreshed).commits u :=
    h _ _ _
  revert hlast
  decide +kernel

end Elpis.Gateway.Provider
