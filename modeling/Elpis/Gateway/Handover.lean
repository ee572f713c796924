import Elpis.Gateway.CredentialRuns
import Elpis.Gateway.ResidentStore

/-!
# The resident and the gateway hand a credential over

The row of the resident and the database of the gateway change in separate transactions,
and what they say to each other may be lost, late or repeated. So every request that was
ever sent may reach the gateway at any moment and any number of times, and so may every
reply reach the resident. A crash on either side loses nothing but a request or a reply.
Other parties use the gateway too, with credentials and grants of their own.
-/

namespace Elpis.Gateway.Resident

open Elpis.Js Elpis.Lib

variable {digest : String → Bytes} {validEndpoint : String → Bool}

/-! ## The system -/

/-- `drawn` are the credential ids that the resident has drawn. -/
structure System where
  row : ResidentRow
  db : Database
  drawn : List String
  sent : List Call
  replies : List (Call × Reply)

/-- An enrollment or rotation controller takes its next step, and posts unless it dies
before; the gateway answers a request; the resident reads a reply; someone else makes a
call. -/
inductive Event where
  | startEnrollment (remote : Option Remote) (displayName : String) (chance : Chance) (posts : Bool)
  | startRotation (mode : GatewayRotationMode) (chance : Chance) (posts : Bool)
  | deliver (request : ℕ) (env : Env)
  | receive (reply : ℕ) (chance : Chance)
  | other (env : Env) (call : Call)

/-- What a request that was posted adds. -/
def posted {α : Type} (posts : Bool) (call : α → Option Call) (outcome : Except GatewayResidentErrorCode α) :
    List Call :=
  match outcome with
  | .ok a => if posts then (call a).toList else []
  | .error _ => []

def ids (chance : Chance) : List String := (chance.draw.map Draw.id).toList

/-- How the resident takes a reply. -/
def handle (reply : Call × Reply) (chance : Chance) : ResidentMethod Unit :=
  match reply with
  | (.enroll _, .enrolled receipt) => activateEnrollment receipt chance
  | (.proposeRotation .., .rotation receipt) => markRotationProposed receipt chance
  | (.activateRotation .., .rotation receipt) => activateRotation receipt chance
  | _ => pure ()

def step (digest : String → Bytes) (validEndpoint : String → Bool) (y : System) : Event → System
  | .startEnrollment remote displayName chance posts =>
      let (outcome, row) := prepareEnrollment digest validEndpoint remote displayName chance y.row
      { y with row, drawn := y.drawn ++ ids chance,
               sent := y.sent ++ posted posts (Option.map Call.enroll) outcome }
  | .startRotation mode chance posts =>
      let (outcome, row) := startRotation digest mode chance y.row
      { y with row, drawn := y.drawn ++ ids chance, sent := y.sent ++ posted posts some outcome }
  | .deliver request env =>
      match y.sent[request]? with
      | none => y
      | some call =>
          match answer digest env call y.db with
          | (.ok reply, db) => { y with db, replies := y.replies ++ [(call, reply)] }
          | (.error _, db) => { y with db }
  | .receive reply chance =>
      match y.replies[reply]? with
      | none => y
      | some reply => { y with row := (handle reply chance y.row).2 }
  | .other env call => { y with db := (answer digest env call y.db).2 }

/-! ## What is expected of the surroundings -/

/-- The grant the resident holds. -/
def heldGrant : GatewayResidentPhase → Option String
  | .enrolling _ _ grant _ _ _ => some grant
  | _ => none

/-- A call of another party: it has no secret of the resident, and its ids are random as
well. An operator revokes nothing of the resident. -/
def Foreign (digest : String → Bytes) (y : System) : Call → Prop
  | .enroll input => input.instanceId ≠ y.row.instanceId ∧ input.credentialId ∉ y.drawn ∧
      ∀ token ∈ heldGrant y.row.phase, ∀ g g', parseEnrollmentCredential digest (some token) = some g →
        parseEnrollmentCredential digest (some input.grantToken) = some g' → g'.id ≠ g.id
  | .proposeRotation token new _ _ => new ∉ y.drawn ∧
      ∀ p, parseNodeCredential digest token = some p → p.id ∉ y.drawn
  | .activateRotation token _ => ∀ p, parseNodeCredential digest token = some p → p.id ∉ y.drawn
  | .revokeCredential id _ => id ∉ y.drawn
  | _ => True

/-- A credential id that was just drawn is new. -/
def New (y : System) (chance : Chance) : Prop :=
  ∀ d ∈ chance.draw, d.id ∉ y.drawn ∧ y.db.credentials.get? d.id = none

/-- No instance was enrolled with the grant. -/
def Unconsumed (digest : String → Bytes) (db : Database) (token : String) : Prop :=
  ∀ g, parseEnrollmentCredential digest (some token) = some g → ∀ row ∈ db.grants, row.id = g.id →
    row.consumed = none

/-- Random ids do not repeat, the grant the resident starts with was not used before, and
other parties keep to their own. -/
def Expected (digest : String → Bytes) (y : System) : Event → Prop
  | .startEnrollment remote _ chance _ => New y chance ∧
      (y.row.phase = .idle → ∀ r ∈ remote, ∀ token ∈ r.enrollmentToken, Unconsumed digest y.db token)
  | .startRotation _ chance _ => New y chance
  | .other _ call => Foreign digest y call
  | _ => True

/-! ## What the gateway knows of a credential -/

/-- A credential row, less its times. -/
structure Core where
  instanceId : String
  verifier : Bytes
  state : CredentialState
  rotates : Option String
  replacedBy : Option String
deriving DecidableEq, Repr

def core (c : CredentialRow) : Core :=
  ⟨c.instanceId, c.verifier, c.state, c.rotatesCredentialId, c.replacedByCredentialId⟩

def look (db : Database) (id : String) : Option Core := (db.credentials.get? id).map core

def HasInstance (db : Database) (id : String) : Prop := ∃ i ∈ db.instances, i.id = id

theorem look_put (db : Database) {x : CredentialRow} (id : String) :
    look { db with credentials := db.credentials.put x } id =
      if id = x.id then some (core x) else look db id := by
  unfold look
  rw [Table.get?_put]
  split
  · rfl
  · rfl

theorem look_mem {db : Database} {c : CredentialRow} (h : c ∈ db.credentials) :
    look db c.id = some (core c) := by
  unfold look
  rw [Table.get?_key h]
  rfl

theorem look_eq_none {db : Database} {id : String} : look db id = none ↔ db.credentials.get? id = none := by
  unfold look
  exact Option.map_eq_none_iff

theorem look_eq_some {db : Database} {id : String} {k : Core} (h : look db id = some k) :
    ∃ c ∈ db.credentials, c.id = id ∧ core c = k := by
  obtain ⟨c, hget, rfl⟩ := Option.map_eq_some_iff.mp h
  obtain ⟨hc, hid⟩ := Table.get?_eq_some.mp hget
  exact ⟨c, hc, hid, rfl⟩

/-! ## The invariant -/

/-- The grant was consumed, by whomever. -/
def Consumed (digest : String → Bytes) (db : Database) (token : String) : Prop :=
  ∃ g, parseEnrollmentCredential digest (some token) = some g ∧
    ∃ row ∈ db.grants, row.id = g.id ∧ row.consumed ≠ none

/-- The grant was consumed by the resident's own enrollment. -/
def ConsumedBy (digest : String → Bytes) (db : Database) (token instanceId : String) (p : Draw) : Prop :=
  ∃ g, parseEnrollmentCredential digest (some token) = some g ∧
    ∃ row ∈ db.grants, row.id = g.id ∧ ∃ k, row.consumed = some k ∧
      k.instanceId = instanceId ∧ k.credentialId = p.id ∧ k.credentialVerifier = digest p.secret

/-- The gateway has the credential, active. -/
def Live (digest : String → Bytes) (db : Database) (instanceId : String) (d : Draw) : Prop :=
  ∃ rotates replacedBy, look db d.id = some ⟨instanceId, digest d.secret, .active, rotates, replacedBy⟩

/-- How far the gateway may be, for each phase of the resident. -/
def Agree (digest : String → Bytes) (db : Database) (instanceId : String) : GatewayResidentPhase → Prop
  | .idle => ¬HasInstance db instanceId
  | .enrolling _ _ grant _ p _ =>
      (¬HasInstance db instanceId ∧ Unconsumed digest db grant ∧ look db p.id = none) ∨
      (HasInstance db instanceId ∧ Live digest db instanceId p ∧ ConsumedBy digest db grant instanceId p)
  | .active _ _ a _ _ => HasInstance db instanceId ∧ Live digest db instanceId a
  | .rotating _ _ _ a p _ _ _ proposedAt => HasInstance db instanceId ∧ a.id ≠ p.id ∧
      ((Live digest db instanceId a ∧ look db p.id = none ∧ proposedAt = none) ∨
       (Live digest db instanceId a ∧
         look db p.id = some ⟨instanceId, digest p.secret, .pending, some a.id, none⟩) ∨
       ((∃ rotates, look db a.id =
           some ⟨instanceId, digest a.secret, .revoked, rotates, some p.id⟩) ∧
         (∃ replacedBy, look db p.id =
           some ⟨instanceId, digest p.secret, .active, some a.id, replacedBy⟩) ∧ proposedAt ≠ none))

/-- The draws of a phase. -/
def held : GatewayResidentPhase → List Draw
  | .idle => []
  | .enrolling _ _ _ _ p _ => [p]
  | .active _ _ a _ _ => [a]
  | .rotating _ _ _ a p _ _ _ _ => [a, p]

/-- A request that the resident may still make. -/
def Current (digest : String → Bytes) (phase : GatewayResidentPhase) : Call → Prop
  | .enroll input => ∃ endpoint name grant rid p at_,
      phase = .enrolling endpoint name grant rid p at_ ∧ input.grantToken = grant ∧
        input.credentialId = p.id ∧ input.credentialVerifier = digest p.secret
  | .proposeRotation token new verifier _ => ∃ endpoint name rid a p t₁ t₂ t₃ proposedAt,
      phase = .rotating endpoint name rid a p t₁ t₂ t₃ proposedAt ∧
        token = some (createNodeCredential digest a).token ∧ new = p.id ∧ verifier = digest p.secret
  | .activateRotation token _ => ∃ endpoint name rid a p t₁ t₂ t₃ at_,
      phase = .rotating endpoint name rid a p t₁ t₂ t₃ (some at_) ∧
        token = some (createNodeCredential digest p).token
  | _ => False

/-- A request that can change nothing any more. -/
def Spent (digest : String → Bytes) (db : Database) : Call → Prop
  | .enroll input => Consumed digest db input.grantToken
  | .proposeRotation token _ _ _ => ∃ p, parseNodeCredential digest token = some p ∧
      ∃ k, look db p.id = some k ∧ k.state = .revoked
  | .activateRotation token _ => ∃ p, parseNodeCredential digest token = some p ∧
      ∃ k, look db p.id = some k ∧ k.state ≠ .pending
  | _ => False

/-- What a request says is the resident's own. -/
def Own (digest : String → Bytes) (y : System) : Call → Prop
  | .enroll input => input.instanceId = y.row.instanceId ∧ input.credentialId ∈ y.drawn
  | .proposeRotation _ new _ _ => new ∈ y.drawn
  | .activateRotation token _ => ∀ p, parseNodeCredential digest token = some p → p.id ∈ y.drawn
  | _ => True

/-- What a reply says is so at the gateway. -/
def Told (y : System) : Call × Reply → Prop
  | (.enroll _, .enrolled receipt) => HasInstance y.db y.row.instanceId ∧ receipt.credentialId ∈ y.drawn
  | (.proposeRotation .., .rotation receipt) =>
      look y.db receipt.credentialId ≠ none ∧ receipt.credentialId ∈ y.drawn
  | (.activateRotation .., .rotation receipt) =>
      (∃ k, look y.db receipt.credentialId = some k ∧ k.state ≠ .pending) ∧ receipt.credentialId ∈ y.drawn
  | _ => True

structure Inv (digest : String → Bytes) (y : System) : Prop where
  sound : Sound y.db
  /-- The foreign keys. -/
  rotatesKnown : ∀ c ∈ y.db.credentials, ∀ o, c.rotatesCredentialId = some o → look y.db o ≠ none
  consumedKnown : ∀ g ∈ y.db.grants, ∀ k, g.consumed = some k → HasInstance y.db k.instanceId
  agree : Agree digest y.db y.row.instanceId y.row.phase
  heldDrawn : ∀ d ∈ held y.row.phase, d.id ∈ y.drawn
  /-- A rotation of a credential of the resident is the one it is about to make. -/
  pending : ∀ c ∈ y.db.credentials, ∀ o ∈ y.drawn, c.rotatesCredentialId = some o → c.state = .pending →
    ∃ endpoint name rid a p t₁ t₂ t₃ proposedAt,
      y.row.phase = .rotating endpoint name rid a p t₁ t₂ t₃ proposedAt ∧ o = a.id ∧ c.id = p.id
  sent : ∀ call ∈ y.sent, Own digest y call ∧ (Current digest y.row.phase call ∨ Spent digest y.db call)
  replies : ∀ reply ∈ y.replies, Told y reply

/-! ## What a call of anyone leaves in place -/

/-- What may become of a credential. -/
structure Moves (k k' : Core) : Prop where
  instanceId : k'.instanceId = k.instanceId
  verifier : k'.verifier = k.verifier
  rotates : k'.rotates = k.rotates
  revoked : k.state = .revoked → k'.state = .revoked
  settled : k.state ≠ .pending → k'.state ≠ .pending

theorem Moves.refl (k : Core) : Moves k k := ⟨rfl, rfl, rfl, id, id⟩

theorem Moves.trans {k₁ k₂ k₃ : Core} (h : Moves k₁ k₂) (h' : Moves k₂ k₃) : Moves k₁ k₃ :=
  ⟨h'.instanceId.trans h.instanceId, h'.verifier.trans h.verifier, h'.rotates.trans h.rotates,
    fun hr => h'.revoked (h.revoked hr), fun hs => h'.settled (h.settled hs)⟩

/-- Rows are never deleted, and a credential moves on. -/
structure Grows (db db' : Database) : Prop where
  instances : ∀ id, HasInstance db id → HasInstance db' id
  credentials : ∀ id k, look db id = some k → ∃ k', look db' id = some k' ∧ Moves k k'

namespace Grows

variable {db db' : Database}

theorem refl (db : Database) : Grows db db := ⟨fun _ => id, fun _ k hk => ⟨k, hk, Moves.refl k⟩⟩

theorem trans {db₁ db₂ db₃ : Database} (h : Grows db₁ db₂) (h' : Grows db₂ db₃) : Grows db₁ db₃ where
  instances i hi := h'.instances i (h.instances i hi)
  credentials i k hk := by
    obtain ⟨k₂, hk₂, hm₂⟩ := h.credentials i k hk
    obtain ⟨k₃, hk₃, hm₃⟩ := h'.credentials i k₂ hk₂
    exact ⟨k₃, hk₃, hm₂.trans hm₃⟩

theorem putCredential {x : CredentialRow} (hx : ∀ k, look db x.id = some k → Moves k (core x)) :
    Grows db { db with credentials := db.credentials.put x } where
  instances _ := id
  credentials i k hk := by
    rw [look_put]
    by_cases hid : i = x.id
    · rw [if_pos hid]
      exact ⟨core x, rfl, hx k (hid ▸ hk)⟩
    · rw [if_neg hid]
      exact ⟨k, hk, Moves.refl k⟩

theorem putInstance (db : Database) (i' : InstanceRow) :
    Grows db { db with instances := db.instances.put i' } where
  instances i hi := by
    obtain ⟨j, hj, rfl⟩ := hi
    by_cases hid : j.id = i'.id
    · exact ⟨i', Table.mem_put.mpr (Or.inl rfl), hid.symm⟩
    · exact ⟨j, Table.mem_put.mpr (Or.inr ⟨hj, hid⟩), rfl⟩
  credentials _ k hk := ⟨k, hk, Moves.refl k⟩

theorem putGrant (db : Database) (g : GrantRow) : Grows db { db with grants := db.grants.put g } where
  instances _ := id
  credentials _ k hk := ⟨k, hk, Moves.refl k⟩

end Grows

section Effects

variable {db db' : Database} {call : Call} {r : Reply}

theorem grows_of_effect (he : Effect digest db call r db') : Grows db db' := by
  cases he with
  | granted ttlMs requestId row token hnew hopen => exact Grows.putGrant _ _
  | grantRevoked requestId row at_ hrow => exact Grows.putGrant _ _
  | enrolled input row displayName at_ hparsed hrow hopen hinstance hcredential =>
      refine ((Grows.putGrant db _).trans (Grows.putInstance _ ⟨input.instanceId, displayName, at_, at_,
        none⟩)).trans (Grows.putCredential ?_)
      intro k hk
      have hold : look db input.credentialId = some k := hk
      rw [look_eq_none.mpr hcredential] at hold
      cases hold
  | authenticated token row at_ hparsed hrow hactive =>
      refine Grows.putCredential ?_
      intro k hk
      rw [show look db row.id = some (core row) from look_mem hrow] at hk
      cases hk
      exact Moves.refl _
  | proposed token new newVerifier requestId old at_ hparsed hold hactive hnew hfree =>
      refine Grows.putCredential ?_
      intro k hk
      rw [show look db new = none from look_eq_none.mpr hnew] at hk
      cases hk
  | activated token requestId row old at_ hparsed hrow hpending hrotates hold hactive hsame =>
      have hne : row.id ≠ old.id := by
        intro hid
        obtain rfl := Table.eq_of_key hrow hold hid
        rw [hpending] at hactive
        cases hactive
      refine (Grows.putCredential (x := { old with state := .revoked, revokedAt := some at_,
                                                   replacedByCredentialId := some row.id }) ?_).trans
        (Grows.putCredential ?_)
      · intro k hk
        rw [show look db old.id = some (core old) from look_mem hold] at hk
        cases hk
        exact ⟨rfl, rfl, rfl, fun _ => rfl, fun _ => by simp [core]⟩
      · intro k hk
        rw [look_put, if_neg (show row.id ≠ old.id from hne), look_mem hrow] at hk
        cases hk
        refine ⟨rfl, rfl, rfl, fun hr => ?_, fun _ => by simp [core]⟩
        rw [show (core row).state = .pending from hpending] at hr
        cases hr
  | credentialRevoked requestId row at_ hrow =>
      refine Grows.putCredential ?_
      intro k hk
      rw [show look db row.id = some (core row) from look_mem hrow] at hk
      cases hk
      exact ⟨rfl, rfl, rfl, fun _ => rfl, fun _ => by simp [core]⟩
  | grantRevokedBefore => exact Grows.refl _
  | enrolledBefore => exact Grows.refl _
  | refused => exact Grows.refl _
  | proposedBefore => exact Grows.refl _
  | activatedBefore => exact Grows.refl _
  | credentialRevokedBefore => exact Grows.refl _

theorem rotatesKnown_of_effect (he : Effect digest db call r db')
    (h : ∀ c ∈ db.credentials, ∀ o, c.rotatesCredentialId = some o → look db o ≠ none) :
    ∀ c ∈ db'.credentials, ∀ o, c.rotatesCredentialId = some o → look db' o ≠ none := by
  have hkeep : ∀ o, look db o ≠ none → look db' o ≠ none := by
    intro o ho
    obtain ⟨k, hk⟩ := Option.ne_none_iff_exists'.mp ho
    obtain ⟨k', hk', _⟩ := (grows_of_effect he).credentials o k hk
    rw [hk']
    exact Option.some_ne_none k'
  -- every row of the new table rotates what a row of the old one rotates, or an old row
  suffices hrows : ∀ c ∈ db'.credentials, ∀ o, c.rotatesCredentialId = some o →
      (∃ c₀ ∈ db.credentials, c₀.rotatesCredentialId = some o) ∨ look db o ≠ none by
    intro c hc o ho
    rcases hrows c hc o ho with ⟨c₀, hc₀, ho₀⟩ | hlook
    · exact hkeep o (h c₀ hc₀ o ho₀)
    · exact hkeep o hlook
  intro c hc o ho
  cases he with
  | granted => exact Or.inl ⟨c, hc, ho⟩
  | grantRevoked => exact Or.inl ⟨c, hc, ho⟩
  | enrolled input row displayName at_ hparsed hrow hopen hinstance hcredential =>
      rcases Table.mem_put.mp hc with rfl | ⟨hin, _⟩
      · cases ho
      · exact Or.inl ⟨c, hin, ho⟩
  | authenticated token row at_ hparsed hrow hactive =>
      rcases Table.mem_put.mp hc with rfl | ⟨hin, _⟩
      · exact Or.inl ⟨row, hrow, ho⟩
      · exact Or.inl ⟨c, hin, ho⟩
  | proposed token new newVerifier requestId old at_ hparsed hold hactive hnew hfree =>
      rcases Table.mem_put.mp hc with rfl | ⟨hin, _⟩
      · cases ho
        refine Or.inr ?_
        rw [look_mem hold]
        exact Option.some_ne_none _
      · exact Or.inl ⟨c, hin, ho⟩
  | activated token requestId row old at_ hparsed hrow hpending hrotates hold hactive hsame =>
      rcases Table.mem_put.mp hc with rfl | ⟨hin, _⟩
      · exact Or.inl ⟨row, hrow, ho⟩
      · rcases Table.mem_put.mp hin with rfl | ⟨hin, _⟩
        · exact Or.inl ⟨old, hold, ho⟩
        · exact Or.inl ⟨c, hin, ho⟩
  | credentialRevoked requestId row at_ hrow =>
      rcases Table.mem_put.mp hc with rfl | ⟨hin, _⟩
      · exact Or.inl ⟨row, hrow, ho⟩
      · exact Or.inl ⟨c, hin, ho⟩
  | grantRevokedBefore => exact Or.inl ⟨c, hc, ho⟩
  | enrolledBefore => exact Or.inl ⟨c, hc, ho⟩
  | refused => exact Or.inl ⟨c, hc, ho⟩
  | proposedBefore => exact Or.inl ⟨c, hc, ho⟩
  | activatedBefore => exact Or.inl ⟨c, hc, ho⟩
  | credentialRevokedBefore => exact Or.inl ⟨c, hc, ho⟩

theorem consumedKnown_of_effect (he : Effect digest db call r db')
    (h : ∀ g ∈ db.grants, ∀ k, g.consumed = some k → HasInstance db k.instanceId) :
    ∀ g ∈ db'.grants, ∀ k, g.consumed = some k → HasInstance db' k.instanceId := by
  have hgrows := grows_of_effect he
  suffices hrows : ∀ g ∈ db'.grants, ∀ k, g.consumed = some k →
      (∃ g₀ ∈ db.grants, g₀.consumed = some k) ∨ HasInstance db' k.instanceId by
    intro g hg k hk
    rcases hrows g hg k hk with ⟨g₀, hg₀, hk₀⟩ | hin
    · exact hgrows.instances _ (h g₀ hg₀ k hk₀)
    · exact hin
  intro g hg k hk
  cases he with
  | granted ttlMs requestId row token hnew hopen =>
      rcases Table.mem_put.mp hg with rfl | ⟨hin, _⟩
      · rw [hopen] at hk
        cases hk
      · exact Or.inl ⟨g, hin, hk⟩
  | grantRevoked requestId row at_ hrow =>
      rcases Table.mem_put.mp hg with rfl | ⟨hin, _⟩
      · exact Or.inl ⟨row, hrow, hk⟩
      · exact Or.inl ⟨g, hin, hk⟩
  | enrolled input row displayName at_ hparsed hrow hopen hinstance hcredential =>
      rcases Table.mem_put.mp hg with rfl | ⟨hin, _⟩
      · cases hk
        exact Or.inr ⟨_, Table.mem_put.mpr (Or.inl rfl), rfl⟩
      · exact Or.inl ⟨g, hin, hk⟩
  | authenticated => exact Or.inl ⟨g, hg, hk⟩
  | proposed => exact Or.inl ⟨g, hg, hk⟩
  | activated => exact Or.inl ⟨g, hg, hk⟩
  | credentialRevoked => exact Or.inl ⟨g, hg, hk⟩
  | grantRevokedBefore => exact Or.inl ⟨g, hg, hk⟩
  | enrolledBefore => exact Or.inl ⟨g, hg, hk⟩
  | refused => exact Or.inl ⟨g, hg, hk⟩
  | proposedBefore => exact Or.inl ⟨g, hg, hk⟩
  | activatedBefore => exact Or.inl ⟨g, hg, hk⟩
  | credentialRevokedBefore => exact Or.inl ⟨g, hg, hk⟩

theorem consumed_mono (he : Effect digest db call r db') {token : String}
    (h : Consumed digest db token) : Consumed digest db' token := by
  obtain ⟨g, hg, row, hrow, hid, hc⟩ := h
  obtain ⟨k, hk⟩ := Option.ne_none_iff_exists'.mp hc
  obtain ⟨row', hrow', hid', hk'⟩ := he.lasts.consumed row hrow k hk
  exact ⟨g, hg, row', hrow', hid'.trans hid, by rw [hk']; exact Option.some_ne_none k⟩

theorem consumedBy_mono (he : Effect digest db call r db') {token instanceId : String} {p : Draw}
    (h : ConsumedBy digest db token instanceId p) : ConsumedBy digest db' token instanceId p := by
  obtain ⟨g, hg, row, hrow, hid, k, hk, hown⟩ := h
  obtain ⟨row', hrow', hid', hk'⟩ := he.lasts.consumed row hrow k hk
  exact ⟨g, hg, row', hrow', hid'.trans hid, k, hk', hown⟩

theorem spent_mono (he : Effect digest db call r db') {c : Call} (h : Spent digest db c) :
    Spent digest db' c := by
  have hgrows := grows_of_effect he
  cases c with
  | enroll input => exact consumed_mono he h
  | proposeRotation token new verifier requestId =>
      obtain ⟨p, hp, k, hk, hrevoked⟩ := h
      obtain ⟨k', hk', hmoves⟩ := hgrows.credentials p.id k hk
      exact ⟨p, hp, k', hk', hmoves.revoked hrevoked⟩
  | activateRotation token requestId =>
      obtain ⟨p, hp, k, hk, hsettled⟩ := h
      obtain ⟨k', hk', hmoves⟩ := hgrows.credentials p.id k hk
      exact ⟨p, hp, k', hk', hmoves.settled hsettled⟩
  | createEnrollmentGrant ttlMs requestId => exact h
  | revokeEnrollmentGrant id requestId => exact h
  | authenticateNode token => exact h
  | revokeCredential id requestId => exact h

end Effects

theorem told_mono {y : System} {db' : Database} {reply : Call × Reply} (hgrows : Grows y.db db')
    (h : Told y reply) : Told { y with db := db' } reply := by
  unfold Told at h ⊢
  split at h
  · exact ⟨hgrows.instances _ h.1, h.2⟩
  · obtain ⟨k, hk⟩ := Option.ne_none_iff_exists'.mp h.1
    obtain ⟨k', hk', _⟩ := hgrows.credentials _ k hk
    exact ⟨by rw [hk']; exact Option.some_ne_none k', h.2⟩
  · obtain ⟨⟨k, hk, hsettled⟩, hdrawn⟩ := h
    obtain ⟨k', hk', hmoves⟩ := hgrows.credentials _ k hk
    exact ⟨⟨k', hk', hmoves.settled hsettled⟩, hdrawn⟩
  · trivial

namespace Inv

variable {y : System} {db' : Database} {call : Call} {r : Reply}

/-- The gateway's database changes, and still agrees with the resident's row. -/
theorem setDatabase (h : Inv digest y) (he : Effect digest y.db call r db')
    (hagree : Agree digest db' y.row.instanceId y.row.phase)
    (hpending : ∀ c ∈ db'.credentials, ∀ o ∈ y.drawn, c.rotatesCredentialId = some o →
      c.state = .pending → ∃ endpoint name rid a p t₁ t₂ t₃ proposedAt,
        y.row.phase = .rotating endpoint name rid a p t₁ t₂ t₃ proposedAt ∧ o = a.id ∧ c.id = p.id) :
    Inv digest { y with db := db' } where
  sound := he.sound h.sound
  rotatesKnown := rotatesKnown_of_effect he h.rotatesKnown
  consumedKnown := consumedKnown_of_effect he h.consumedKnown
  agree := hagree
  heldDrawn := h.heldDrawn
  pending := hpending
  sent c hc := by
    obtain ⟨hown, hcurrent | hspent⟩ := h.sent c hc
    · refine ⟨?_, Or.inl hcurrent⟩
      cases c <;> exact hown
    · refine ⟨?_, Or.inr (spent_mono he hspent)⟩
      cases c <;> exact hown
  replies reply hreply := told_mono (grows_of_effect he) (h.replies reply hreply)

theorem addReply (h : Inv digest y) {reply : Call × Reply} (hreply : Told y reply) :
    Inv digest { y with replies := y.replies ++ [reply] } where
  sound := h.sound
  rotatesKnown := h.rotatesKnown
  consumedKnown := h.consumedKnown
  agree := h.agree
  heldDrawn := h.heldDrawn
  pending := h.pending
  sent c hc := by
    obtain ⟨hown, hrest⟩ := h.sent c hc
    refine ⟨?_, hrest⟩
    cases c <;> exact hown
  replies x hx := by
    rcases List.mem_append.mp hx with hx | hx
    · exact h.replies x hx
    · rw [List.mem_singleton.mp hx]
      exact hreply

theorem addSent (h : Inv digest y) {cs : List Call}
    (hcs : ∀ c ∈ cs, Own digest y c ∧ Current digest y.row.phase c) :
    Inv digest { y with sent := y.sent ++ cs } where
  sound := h.sound
  rotatesKnown := h.rotatesKnown
  consumedKnown := h.consumedKnown
  agree := h.agree
  heldDrawn := h.heldDrawn
  pending := h.pending
  sent c hc := by
    rcases List.mem_append.mp hc with hc | hc
    · obtain ⟨hown, hrest⟩ := h.sent c hc
      refine ⟨?_, hrest⟩
      cases c <;> exact hown
    · obtain ⟨hown, hcurrent⟩ := hcs c hc
      refine ⟨?_, Or.inl hcurrent⟩
      cases c <;> exact hown
  replies := h.replies

theorem draw (h : Inv digest y) {chance : Chance} (hnew : New y chance) :
    Inv digest { y with drawn := y.drawn ++ ids chance } where
  sound := h.sound
  rotatesKnown := h.rotatesKnown
  consumedKnown := h.consumedKnown
  agree := h.agree
  heldDrawn d hd := List.mem_append_left _ (h.heldDrawn d hd)
  pending c hc o ho hrotates hpending := by
    rcases List.mem_append.mp ho with ho | ho
    · exact h.pending c hc o ho hrotates hpending
    · -- what a row rotates is there, and the new id is not
      obtain ⟨d, hd, rfl⟩ := Option.map_eq_some_iff.mp (Option.mem_toList.mp ho)
      exact absurd (look_eq_none.mpr (hnew d hd).2) (h.rotatesKnown c hc d.id hrotates)
  sent c hc := by
    obtain ⟨hown, hrest⟩ := h.sent c hc
    refine ⟨?_, hrest⟩
    cases c with
    | enroll input => exact ⟨hown.1, List.mem_append_left _ hown.2⟩
    | proposeRotation token new verifier requestId => exact List.mem_append_left _ hown
    | activateRotation token requestId => exact fun p hp => List.mem_append_left _ (hown p hp)
    | createEnrollmentGrant ttlMs requestId => trivial
    | revokeEnrollmentGrant id requestId => trivial
    | authenticateNode token => trivial
    | revokeCredential id requestId => trivial
  replies reply hreply := by
    have htold := h.replies reply hreply
    unfold Told at htold ⊢
    split at htold
    · exact ⟨htold.1, List.mem_append_left _ htold.2⟩
    · exact ⟨htold.1, List.mem_append_left _ htold.2⟩
    · exact ⟨htold.1, List.mem_append_left _ htold.2⟩
    · trivial

theorem setPhase (h : Inv digest y) (phase : GatewayResidentPhase) (at_ : ℤ)
    (hagree : Agree digest y.db y.row.instanceId phase) (hheld : ∀ d ∈ held phase, d.id ∈ y.drawn)
    (hpending : ∀ c ∈ y.db.credentials, ∀ o ∈ y.drawn, c.rotatesCredentialId = some o →
      c.state = .pending → ∃ endpoint name rid a p t₁ t₂ t₃ proposedAt,
        phase = .rotating endpoint name rid a p t₁ t₂ t₃ proposedAt ∧ o = a.id ∧ c.id = p.id)
    (hsent : ∀ c ∈ y.sent, Current digest y.row.phase c → Current digest phase c ∨ Spent digest y.db c) :
    Inv digest { y with row := { y.row with phase, updatedAt := at_ } } where
  sound := h.sound
  rotatesKnown := h.rotatesKnown
  consumedKnown := h.consumedKnown
  agree := hagree
  heldDrawn := hheld
  pending := hpending
  sent c hc := by
    obtain ⟨hown, hcurrent | hspent⟩ := h.sent c hc
    · refine ⟨?_, hsent c hc hcurrent⟩
      cases c <;> exact hown
    · refine ⟨?_, Or.inr hspent⟩
      cases c <;> exact hown
  replies := h.replies

end Inv

/-! ## The gateway answers -/

section Deliver

variable {y : System} {db' : Database} {r : Reply}

theorem deliver_enroll {input : EnrollmentRequest} (h : Inv digest y) (hsent : .enroll input ∈ y.sent)
    (he : Effect digest y.db (.enroll input) r db') :
    Inv digest { y with db := db' } ∧ Told { y with db := db' } (.enroll input, r) := by
  obtain ⟨⟨hinst, hdrawn⟩, hstate⟩ := h.sent _ hsent
  have he' := he
  cases he with
  | enrolledBefore _ row c hparsed hrow hconsumed hinstance =>
      refine ⟨h, ?_, hdrawn⟩
      have hin := h.consumedKnown row hrow c hconsumed
      rw [hinstance, hinst] at hin
      exact hin
  | enrolled _ row displayName at_ hparsed hrow hopen hinstance hcredential =>
      obtain ⟨g, hg, hgid⟩ := hparsed
      rcases hstate with ⟨endpoint, name, grant, rid, p, t, hphase, rfl, hid, hverifier⟩ |
        ⟨g', hg', row', hrow', hid', hc'⟩
      · have hhas : ∃ i ∈ y.db.instances.put ⟨input.instanceId, displayName, at_, at_, none⟩,
            i.id = y.row.instanceId := ⟨_, Table.mem_put.mpr (Or.inl rfl), hinst⟩
        refine ⟨h.setDatabase he' ?_ ?_, hhas, hdrawn⟩
        · rw [hphase]
          refine Or.inr ⟨hhas, ⟨none, none, ?_⟩, ?_⟩
          · refine (look_put _ p.id).trans ?_
            rw [if_pos hid.symm]
            simp only [core, hinst, hverifier]
          · exact ⟨g, hg, _, Table.mem_put.mpr (Or.inl rfl), hgid.symm, _, rfl, hinst, hid, hverifier⟩
        · intro c hc o ho hrotates hpending
          rcases Table.mem_put.mp hc with rfl | ⟨hin, _⟩
          · cases hrotates
          · exact h.pending c hin o ho hrotates hpending
      · -- a grant that is consumed enrolls nobody
        rw [hg] at hg'
        cases hg'
        obtain rfl := Table.eq_of_key hrow' hrow (hid'.trans hgid)
        exact absurd hopen hc'

theorem deliver_propose {token : Option String} {new : String} {verifier : Bytes}
    {requestId : Option String} (h : Inv digest y)
    (hsent : .proposeRotation token new verifier requestId ∈ y.sent)
    (he : Effect digest y.db (.proposeRotation token new verifier requestId) r db') :
    Inv digest { y with db := db' } ∧
      Told { y with db := db' } (.proposeRotation token new verifier requestId, r) := by
  obtain ⟨hdrawn, hstate⟩ := h.sent _ hsent
  have he' := he
  cases he with
  | proposedBefore _ _ _ old row hparsed hold hactive hrow hpending hrotates =>
      refine ⟨h, ?_, hdrawn⟩
      rw [look_mem hrow]
      exact Option.some_ne_none _
  | proposed _ _ _ _ old at_ hparsed hold hactive hnew hfree =>
      obtain ⟨q, hq, hqid⟩ := hparsed
      rcases hstate with ⟨endpoint, name, rid, a, p, t₁, t₂, t₃, proposedAt, hphase, rfl, rfl, rfl⟩ |
        ⟨q', hq', k, hk, hrevoked⟩
      · rw [parseNodeCredential_create] at hq
        cases hq
        have hqid : a.id = old.id := hqid
        have hlook : look y.db a.id = some (core old) := hqid ▸ look_mem hold
        have hagree := h.agree
        rw [hphase] at hagree
        obtain ⟨hhas, hne, hcases⟩ := hagree
        rcases hcases with ⟨⟨rotates, replacedBy, hlive⟩, _, _⟩ | ⟨_, hp⟩ | ⟨⟨_, ha⟩, _⟩
        · have hold' : core old = ⟨y.row.instanceId, digest a.secret, .active, rotates, replacedBy⟩ :=
            Option.some.inj (hlook.symm.trans hlive)
          have hinst : old.instanceId = y.row.instanceId := congrArg Core.instanceId hold'
          have hlookp : look { y.db with credentials := y.db.credentials.put ⟨p.id, old.instanceId,
              digest p.secret, .pending, some old.id, none, at_, none, none, none⟩ } p.id =
              some ⟨y.row.instanceId, digest p.secret, .pending, some a.id, none⟩ := by
            refine (look_put _ p.id).trans ?_
            rw [if_pos rfl]
            simp only [core, hinst, ← hqid]
          refine ⟨h.setDatabase he' ?_ ?_, ?_, hdrawn⟩
          · rw [hphase]
            refine ⟨hhas, hne, Or.inr (Or.inl ⟨⟨rotates, replacedBy, ?_⟩, hlookp⟩)⟩
            refine (look_put _ a.id).trans ?_
            rw [if_neg hne]
            exact hlive
          · intro c hc o ho hrotates hpending
            rcases Table.mem_put.mp hc with rfl | ⟨hin, _⟩
            · cases hrotates
              exact ⟨endpoint, name, rid, a, p, t₁, t₂, t₃, proposedAt, hphase, hqid.symm, rfl⟩
            · exact h.pending c hin o ho hrotates hpending
          · rw [hlookp]
            exact Option.some_ne_none _
        · rw [look_eq_none.mpr hnew] at hp
          cases hp
        · rw [hlook] at ha
          have hstate : (core old).state = .revoked := by rw [Option.some.inj ha]
          rw [show (core old).state = .active from hactive] at hstate
          cases hstate
      · -- the token is a revoked one
        rw [hq] at hq'
        cases hq'
        rw [hqid, look_mem hold] at hk
        cases hk
        rw [show (core old).state = .active from hactive] at hrevoked
        cases hrevoked

theorem deliver_activate {token requestId : Option String} (h : Inv digest y)
    (hsent : .activateRotation token requestId ∈ y.sent)
    (he : Effect digest y.db (.activateRotation token requestId) r db') :
    Inv digest { y with db := db' } ∧ Told { y with db := db' } (.activateRotation token requestId, r) := by
  obtain ⟨hown, hstate⟩ := h.sent _ hsent
  have he' := he
  cases he with
  | activatedBefore _ _ row oldId hparsed hrow hactive hrotates =>
      obtain ⟨q, hq, hqid⟩ := hparsed
      refine ⟨h, ⟨core row, look_mem hrow, ?_⟩, hqid ▸ hown q hq⟩
      rw [show (core row).state = .active from hactive]
      decide
  | activated _ _ row old at_ hparsed hrow hpending hrotates hold hactive hsame =>
      obtain ⟨q, hq, hqid⟩ := hparsed
      have hne : row.id ≠ old.id := by
        intro hid
        obtain rfl := Table.eq_of_key hrow hold hid
        rw [hpending] at hactive
        cases hactive
      rcases hstate with ⟨endpoint, name, rid, a, p, t₁, t₂, t₃, at', hphase, rfl⟩ | ⟨q', hq', k, hk, hset⟩
      · have hdrawn := hown q hq
        rw [parseNodeCredential_create] at hq
        cases hq
        have hqid : p.id = row.id := hqid
        have hlook : look y.db p.id = some (core row) := hqid ▸ look_mem hrow
        have hagree := h.agree
        rw [hphase] at hagree
        obtain ⟨hhas, hnea, hcases⟩ := hagree
        rcases hcases with ⟨_, hp, _⟩ | ⟨⟨rotates, replacedBy, hlive⟩, hp⟩ | ⟨_, ⟨_, hp⟩, _⟩
        · rw [hlook] at hp
          cases hp
        · have hrow' : core row = ⟨y.row.instanceId, digest p.secret, .pending, some a.id, none⟩ :=
            Option.some.inj (hlook.symm.trans hp)
          have holdid : old.id = a.id := by
            have hr : row.rotatesCredentialId = some a.id := congrArg Core.rotates hrow'
            exact Option.some.inj (hrotates.symm.trans hr)
          have hold' : core old = ⟨y.row.instanceId, digest a.secret, .active, rotates, replacedBy⟩ := by
            have hl := look_mem hold
            rw [holdid, hlive] at hl
            exact (Option.some.inj hl).symm
          have hlooka : look { y.db with credentials := ((y.db.credentials.put { old with
              state := .revoked, revokedAt := some at_, replacedByCredentialId := some row.id }).put
                { row with state := .active, activatedAt := some at_ }) } a.id =
              some ⟨y.row.instanceId, digest a.secret, .revoked, rotates, some p.id⟩ := by
            refine (look_put { y.db with credentials := y.db.credentials.put { old with
              state := .revoked, revokedAt := some at_, replacedByCredentialId := some row.id } }
              a.id).trans ?_
            rw [if_neg (show a.id ≠ row.id from hqid ▸ hnea), look_put, if_pos holdid.symm]
            refine congrArg some ?_
            rw [Core.mk.injEq] at hold' ⊢
            exact ⟨hold'.1, hold'.2.1, rfl, hold'.2.2.2.1, congrArg some hqid.symm⟩
          have hlookp : look { y.db with credentials := ((y.db.credentials.put { old with
              state := .revoked, revokedAt := some at_, replacedByCredentialId := some row.id }).put
                { row with state := .active, activatedAt := some at_ }) } p.id =
              some ⟨y.row.instanceId, digest p.secret, .active, some a.id, none⟩ := by
            refine (look_put { y.db with credentials := y.db.credentials.put { old with
              state := .revoked, revokedAt := some at_, replacedByCredentialId := some row.id } }
              p.id).trans ?_
            rw [if_pos hqid]
            refine congrArg some ?_
            rw [Core.mk.injEq] at hrow' ⊢
            exact ⟨hrow'.1, hrow'.2.1, rfl, hrow'.2.2.2.1, hrow'.2.2.2.2⟩
          have hlookrow := hlookp
          rw [hqid] at hlookrow
          refine ⟨h.setDatabase he' ?_ ?_, ⟨_, hlookrow, by simp⟩, hqid ▸ hdrawn⟩
          · rw [hphase]
            exact ⟨hhas, hnea, Or.inr (Or.inr ⟨⟨rotates, hlooka⟩, ⟨none, hlookp⟩, by simp⟩)⟩
          · intro c hc o ho hrot hpend
            rcases Table.mem_put.mp hc with rfl | ⟨hin, _⟩
            · cases hpend
            · rcases Table.mem_put.mp hin with rfl | ⟨hin, _⟩
              · cases hpend
              · exact h.pending c hin o ho hrot hpend
        · rw [hlook] at hp
          have hstate : (core row).state = .active := by rw [Option.some.inj hp]
          rw [show (core row).state = .pending from hpending] at hstate
          cases hstate
      · -- the token is no pending one
        rw [hq] at hq'
        cases hq'
        rw [hqid, look_mem hrow] at hk
        cases hk
        exact absurd hpending hset

end Deliver

end Elpis.Gateway.Resident
