import Elpis.Gateway.CredentialEffects
import Elpis.Lib.Run

/-!
# Every run of the credential store

An instance has at most one active credential and a credential at most one pending rotation,
also without the unique indices of the schema: the checks of the methods keep both, so the
indices never fire. What is revoked stays revoked, and what a grant was consumed by is
never written again.
-/

namespace Elpis.Gateway

open Elpis.Js Elpis.Lib

variable {digest : String → Bytes} {db db' : Database}

/-! ## The invariant -/

/-- The grant `grantId` has enrolled the instance `instanceId`. -/
def Enrolled (db : Database) (grantId instanceId : String) : Prop :=
  ∃ g ∈ db.grants, g.id = grantId ∧ ∃ k, g.consumed = some k ∧ k.instanceId = instanceId

structure Sound (db : Database) : Prop where
  owner : ∀ c ∈ db.credentials, ∃ i ∈ db.instances, i.id = c.instanceId
  oneActive : ∀ c ∈ db.credentials, ∀ c' ∈ db.credentials, c.state = .active → c'.state = .active →
    c.instanceId = c'.instanceId → c = c'
  onePending : ∀ c ∈ db.credentials, ∀ c' ∈ db.credentials, c.state = .pending → c'.state = .pending →
    c.rotatesCredentialId = c'.rotatesCredentialId → c = c'
  granted : ∀ i ∈ db.instances, ∃ grantId, Enrolled db grantId i.id

theorem Sound.empty : Sound Database.empty where
  owner _ hc := absurd hc Table.not_mem_empty
  oneActive _ hc := absurd hc Table.not_mem_empty
  onePending _ hc := absurd hc Table.not_mem_empty
  granted _ hi := absurd hi Table.not_mem_empty

/-- A grant is written that keeps what it was consumed by. -/
def Kept (db : Database) (g' : GrantRow) : Prop :=
  ∀ g ∈ db.grants, g.id = g'.id → ∀ k, g.consumed = some k → g'.consumed = some k

theorem Enrolled.put {g' : GrantRow} {grantId instanceId : String} (hkept : Kept db g')
    (h : Enrolled db grantId instanceId) :
    Enrolled { db with grants := db.grants.put g' } grantId instanceId := by
  obtain ⟨g, hg, rfl, k, hk, rfl⟩ := h
  by_cases hsame : g.id = g'.id
  · exact ⟨g', Table.mem_put.mpr (Or.inl rfl), hsame.symm, k, hkept g hg hsame k hk, rfl⟩
  · exact ⟨g, Table.mem_put.mpr (Or.inr ⟨hg, hsame⟩), rfl, k, hk, rfl⟩

namespace Sound

theorem putGrant (h : Sound db) {g' : GrantRow} (hkept : Kept db g') :
    Sound { db with grants := db.grants.put g' } where
  owner := h.owner
  oneActive := h.oneActive
  onePending := h.onePending
  granted i hi := by
    obtain ⟨grantId, hgrant⟩ := h.granted i hi
    exact ⟨grantId, hgrant.put hkept⟩

theorem putInstance (h : Sound db) (i' : InstanceRow) (grantId : String)
    (hgrant : Enrolled db grantId i'.id) : Sound { db with instances := db.instances.put i' } where
  owner c hc := by
    obtain ⟨i, hi, hid⟩ := h.owner c hc
    by_cases hsame : i.id = i'.id
    · exact ⟨i', Table.mem_put.mpr (Or.inl rfl), hsame.symm.trans hid⟩
    · exact ⟨i, Table.mem_put.mpr (Or.inr ⟨hi, hsame⟩), hid⟩
  oneActive := h.oneActive
  onePending := h.onePending
  granted i hi := by
    rcases Table.mem_put.mp hi with rfl | ⟨hi, _⟩
    · exact ⟨grantId, hgrant⟩
    · exact h.granted i hi

theorem putCredential (h : Sound db) {x : CredentialRow} (hown : ∃ i ∈ db.instances, i.id = x.instanceId)
    (hactive : x.state = .active → ∀ c ∈ db.credentials, c.id ≠ x.id → c.state = .active →
      c.instanceId ≠ x.instanceId)
    (hpending : x.state = .pending → ∀ c ∈ db.credentials, c.id ≠ x.id → c.state = .pending →
      c.rotatesCredentialId ≠ x.rotatesCredentialId) :
    Sound { db with credentials := db.credentials.put x } where
  owner c hc := by
    rcases Table.mem_put.mp hc with rfl | ⟨hc, _⟩
    · exact hown
    · exact h.owner c hc
  oneActive c hc c' hc' ha ha' hsame := by
    rcases Table.mem_put.mp hc with rfl | ⟨hin, hne⟩ <;>
      rcases Table.mem_put.mp hc' with rfl | ⟨hin', hne'⟩
    · rfl
    · exact absurd hsame.symm (hactive ha c' hin' hne' ha')
    · exact absurd hsame (hactive ha' c hin hne ha)
    · exact h.oneActive c hin c' hin' ha ha' hsame
  onePending c hc c' hc' hp hp' hsame := by
    rcases Table.mem_put.mp hc with rfl | ⟨hin, hne⟩ <;>
      rcases Table.mem_put.mp hc' with rfl | ⟨hin', hne'⟩
    · rfl
    · exact absurd hsame.symm (hpending hp c' hin' hne' hp')
    · exact absurd hsame (hpending hp' c hin hne hp)
    · exact h.onePending c hin c' hin' hp hp' hsame
  granted := h.granted

/-- A credential that is revoked now takes no place among the active and pending ones. -/
theorem revoke (h : Sound db) {x : CredentialRow} (hx : x.state = .revoked)
    (hown : ∃ i ∈ db.instances, i.id = x.instanceId) :
    Sound { db with credentials := db.credentials.put x } := by
  refine h.putCredential hown ?_ ?_
  · intro ha
    rw [hx] at ha
    cases ha
  · intro hp
    rw [hx] at hp
    cases hp

end Sound

theorem Effect.sound {c : Call} {r : Reply} (he : Effect digest db c r db') (h : Sound db) : Sound db' := by
  cases he with
  | granted ttlMs requestId row token hnew hopen =>
      refine h.putGrant ?_
      intro g hg hid
      exact absurd hid (Table.get?_eq_none.mp hnew g hg)
  | grantRevoked requestId row at_ hrow =>
      refine h.putGrant ?_
      intro g hg hid k hk
      obtain rfl := Table.eq_of_key hg hrow hid
      exact hk
  | enrolled input row displayName at_ hparsed hrow hopen hinstance hcredential =>
      have hkept : Kept db { row with consumed := some ⟨at_, input.instanceId, input.credentialId,
          input.credentialVerifier⟩ } := by
        intro g hg hid k hk
        obtain rfl := Table.eq_of_key hg hrow hid
        rw [hopen] at hk
        cases hk
      have hgrant := (h.putGrant hkept).putInstance ⟨input.instanceId, displayName, at_, at_, none⟩
        row.id ⟨_, Table.mem_put.mpr (Or.inl rfl), rfl, _, rfl, rfl⟩
      refine hgrant.putCredential ⟨_, Table.mem_put.mpr (Or.inl rfl), rfl⟩ ?_ ?_
      · -- an instance that was not there owned nothing
        intro _ c hc _ _ hsame
        obtain ⟨i, hi, hid⟩ := h.owner c hc
        exact absurd (hid.trans hsame) (Table.get?_eq_none.mp hinstance i hi)
      · intro hp
        cases hp
  | authenticated token row at_ hparsed hrow hactive =>
      refine h.putCredential (h.owner row hrow) ?_ ?_
      · intro _ c hc hne ha hsame
        obtain rfl := h.oneActive c hc row hrow ha hactive hsame
        exact hne rfl
      · intro hp
        rw [show row.state = .pending from hp] at hactive
        cases hactive
  | proposed token new newVerifier requestId old at_ hparsed hold hactive hnew hfree =>
      refine h.putCredential (h.owner old hold) ?_ ?_
      · intro ha
        cases ha
      · intro _ c hc _ hp hsame
        exact hfree c hc hsame hp
  | activated token requestId row old at_ hparsed hrow hpending hrotates hold hactive hsame =>
      have hrevoked := h.revoke (x := { old with state := .revoked, revokedAt := some at_,
                                                 replacedByCredentialId := some row.id }) rfl
        (h.owner old hold)
      refine hrevoked.putCredential (h.owner row hrow) ?_ ?_
      · intro _ c hc hne ha heq
        rcases Table.mem_put.mp hc with rfl | ⟨hc, hneold⟩
        · cases ha
        · have hinst : c.instanceId = old.instanceId := heq.trans hsame.symm
          obtain rfl := h.oneActive c hc old hold ha hactive hinst
          exact hneold rfl
      · intro hp
        cases hp
  | credentialRevoked requestId row at_ hrow => exact h.revoke rfl (h.owner row hrow)
  | grantRevokedBefore => exact h
  | enrolledBefore => exact h
  | refused => exact h
  | proposedBefore => exact h
  | activatedBefore => exact h
  | credentialRevokedBefore => exact h

/-! ## What lasts -/

/-- What no call takes back: a revocation, and what a grant was consumed by. -/
structure Lasts (db db' : Database) : Prop where
  revoked : ∀ c ∈ db.credentials, c.state = .revoked →
    ∃ c' ∈ db'.credentials, c'.id = c.id ∧ c'.state = .revoked
  consumed : ∀ g ∈ db.grants, ∀ k, g.consumed = some k →
    ∃ g' ∈ db'.grants, g'.id = g.id ∧ g'.consumed = some k

namespace Lasts

theorem refl (db : Database) : Lasts db db where
  revoked c hc hr := ⟨c, hc, rfl, hr⟩
  consumed g hg _ hk := ⟨g, hg, rfl, hk⟩

theorem trans {db₁ db₂ db₃ : Database} (h : Lasts db₁ db₂) (h' : Lasts db₂ db₃) : Lasts db₁ db₃ where
  revoked c hc hr := by
    obtain ⟨c₂, hc₂, hid₂, hr₂⟩ := h.revoked c hc hr
    obtain ⟨c₃, hc₃, hid₃, hr₃⟩ := h'.revoked c₂ hc₂ hr₂
    exact ⟨c₃, hc₃, hid₃.trans hid₂, hr₃⟩
  consumed g hg k hk := by
    obtain ⟨g₂, hg₂, hid₂, hk₂⟩ := h.consumed g hg k hk
    obtain ⟨g₃, hg₃, hid₃, hk₃⟩ := h'.consumed g₂ hg₂ k hk₂
    exact ⟨g₃, hg₃, hid₃.trans hid₂, hk₃⟩

theorem putGrant {g' : GrantRow} (hkept : Kept db g') :
    Lasts db { db with grants := db.grants.put g' } where
  revoked c hc hr := ⟨c, hc, rfl, hr⟩
  consumed g hg k hk := by
    by_cases hsame : g.id = g'.id
    · exact ⟨g', Table.mem_put.mpr (Or.inl rfl), hsame.symm, hkept g hg hsame k hk⟩
    · exact ⟨g, Table.mem_put.mpr (Or.inr ⟨hg, hsame⟩), rfl, hk⟩

theorem putInstance (i' : InstanceRow) : Lasts db { db with instances := db.instances.put i' } where
  revoked c hc hr := ⟨c, hc, rfl, hr⟩
  consumed g hg _ hk := ⟨g, hg, rfl, hk⟩

/-- A credential is written whose row was not a revoked one, or stays one. -/
theorem putCredential {x : CredentialRow}
    (hx : ∀ c ∈ db.credentials, c.id = x.id → c.state = .revoked → x.state = .revoked) :
    Lasts db { db with credentials := db.credentials.put x } where
  revoked c hc hr := by
    by_cases hsame : c.id = x.id
    · exact ⟨x, Table.mem_put.mpr (Or.inl rfl), hsame.symm, hx c hc hsame hr⟩
    · exact ⟨c, Table.mem_put.mpr (Or.inr ⟨hc, hsame⟩), rfl, hr⟩
  consumed g hg _ hk := ⟨g, hg, rfl, hk⟩

end Lasts

theorem Effect.lasts {c : Call} {r : Reply} (he : Effect digest db c r db') : Lasts db db' := by
  cases he with
  | granted ttlMs requestId row token hnew hopen =>
      refine Lasts.putGrant ?_
      intro g hg hid
      exact absurd hid (Table.get?_eq_none.mp hnew g hg)
  | grantRevoked requestId row at_ hrow =>
      refine Lasts.putGrant ?_
      intro g hg hid k hk
      obtain rfl := Table.eq_of_key hg hrow hid
      exact hk
  | enrolled input row displayName at_ hparsed hrow hopen hinstance hcredential =>
      have hgrant : Lasts db { db with grants := db.grants.put { row with consumed := some ⟨at_,
          input.instanceId, input.credentialId, input.credentialVerifier⟩ } } := by
        refine Lasts.putGrant ?_
        intro g hg hid k hk
        obtain rfl := Table.eq_of_key hg hrow hid
        rw [hopen] at hk
        cases hk
      refine (hgrant.trans (Lasts.putInstance ⟨input.instanceId, displayName, at_, at_, none⟩)).trans
        (Lasts.putCredential ?_)
      intro c hc hid
      exact absurd hid (Table.get?_eq_none.mp hcredential c hc)
  | authenticated token row at_ hparsed hrow hactive =>
      refine Lasts.putCredential ?_
      intro c hc hid hr
      obtain rfl := Table.eq_of_key hc hrow hid
      exact hr
  | proposed token new newVerifier requestId old at_ hparsed hold hactive hnew hfree =>
      refine Lasts.putCredential ?_
      intro c hc hid
      exact absurd hid (Table.get?_eq_none.mp hnew c hc)
  | activated token requestId row old at_ hparsed hrow hpending hrotates hold hactive hsame =>
      refine (Lasts.putCredential (x := { old with state := .revoked, revokedAt := some at_,
                                                   replacedByCredentialId := some row.id })
        (fun _ _ _ _ => rfl)).trans (Lasts.putCredential ?_)
      intro c hc hid hr
      rcases Table.mem_put.mp hc with rfl | ⟨hin, _⟩
      · -- the old credential is not the pending one
        obtain rfl := Table.eq_of_key hold hrow hid
        rw [hpending] at hactive
        cases hactive
      · obtain rfl := Table.eq_of_key hin hrow hid
        rw [hpending] at hr
        cases hr
  | credentialRevoked requestId row at_ hrow => exact Lasts.putCredential (fun _ _ _ _ => rfl)
  | grantRevokedBefore => exact Lasts.refl _
  | enrolledBefore => exact Lasts.refl _
  | refused => exact Lasts.refl _
  | proposedBefore => exact Lasts.refl _
  | activatedBefore => exact Lasts.refl _
  | credentialRevokedBefore => exact Lasts.refl _

/-! ## Runs -/

/-- The database after a call, however it ends. -/
def step (digest : String → Bytes) (db : Database) (request : Env × Call) : Database :=
  (answer digest request.1 request.2 db).2

theorem step_cases (digest : String → Bytes) (db : Database) (request : Env × Call) :
    step digest db request = db ∨ ∃ r, Effect digest db request.2 r (step digest db request) := by
  have hdoes := Tx.wp_iff.mp (answer_does digest request.1 db request.2)
  unfold step
  rcases hm : answer digest request.1 request.2 db with ⟨e | r, db'⟩
  · rcases hdoes.2 e db' hm with hsame | ⟨_, hr⟩
    · exact Or.inl hsame
    · exact Or.inr hr
  · exact Or.inr ⟨r, hdoes.1 r db' hm⟩

theorem step_sound (db : Database) (request : Env × Call) (h : Sound db) :
    Sound (step digest db request) := by
  rcases step_cases digest db request with hsame | ⟨r, he⟩
  · rw [hsame]
    exact h
  · exact he.sound h

theorem step_lasts (db : Database) (request : Env × Call) : Lasts db (step digest db request) := by
  rcases step_cases digest db request with hsame | ⟨r, he⟩
  · rw [hsame]
    exact Lasts.refl db
  · exact he.lasts

theorem run_lasts (db : Database) (requests : List (Env × Call)) :
    Lasts db (run (step digest) db requests) :=
  run_rel (I := fun _ => True) (fun _ _ _ => trivial) Lasts.refl Lasts.trans
    (fun db request _ => step_lasts db request) requests trivial

/-- A revoked credential does not authenticate. -/
theorem authenticateNode_revoked {env : Env} {token : Option String} {p : ParsedGatewayCredential}
    {c : CredentialRow} (hp : parseNodeCredential digest token = some p) (hc : c ∈ db.credentials)
    (hid : c.id = p.id) (hr : c.state = .revoked) :
    authenticateNode digest env token db = (.ok none, db) := by
  have hget : db.credentials.get? p.id = some c := Table.get?_eq_some.mpr ⟨hc, hid⟩
  unfold authenticateNode
  rw [hp]
  simp only [Tx.bind_of_ok (show (Tx.read _ : Method _) db = (.ok _, db) from rfl), hget, Option.bind_some]
  cases hi : db.instances.get? c.instanceId with
  | none =>
      simp only [Option.map_none, ite_self]
      rfl
  | some i =>
      have hinactive : ¬(c.state = .active ∧ i.revokedAt = none) := by
        rintro ⟨ha, _⟩
        rw [hr] at ha
        cases ha
      simp only [Option.map_some, if_neg hinactive, ite_self]
      rfl

/-- In every run of the store: an instance has at most one active credential and an active
credential at most one pending rotation; a revoked credential stays revoked and does not
authenticate; a grant enrolls at most one instance; and a call that fails leaves the rows as
they were, unless it is the work behind the commit that failed. -/
theorem credentials_sound (digest : String → Bytes) (requests : List (Env × Call)) :
    let db := run (step digest) Database.empty requests
    (∀ i, (db.credentials.select (fun c => decide (c.instanceId = i ∧ c.state = .active))).length ≤ 1) ∧
    (∀ a ∈ db.credentials, a.state = .active → (db.credentials.select (fun c =>
      decide (c.rotatesCredentialId = some a.id ∧ c.state = .pending))).length ≤ 1) ∧
    (∀ c ∈ db.credentials, c.state = .revoked →
      (∀ later, ∃ c' ∈ (run (step digest) db later).credentials, c'.id = c.id ∧ c'.state = .revoked) ∧
      ∀ env token p, parseNodeCredential digest token = some p → p.id = c.id →
        authenticateNode digest env token db = (.ok none, db)) ∧
    (∀ i ∈ db.instances, ∃ grantId, Enrolled db grantId i.id) ∧
    (∀ grantId i j later, Enrolled db grantId i → Enrolled (run (step digest) db later) grantId j →
      i = j) ∧
    ∀ env c e db', answer digest env c db = (.error e, db') → e ≠ .afterWrite → db' = db := by
  intro db
  have hsound : Sound db := run_inv (I := Sound) step_sound requests Sound.empty
  refine ⟨?_, ?_, ?_, hsound.granted, ?_, ?_⟩
  · intro i
    refine Table.length_select_le_one ?_
    intro c hc c' hc' hp hp'
    simp only [decide_eq_true_eq] at hp hp'
    exact hsound.oneActive c hc c' hc' hp.2 hp'.2 (hp.1.trans hp'.1.symm)
  · intro a _ _
    refine Table.length_select_le_one ?_
    intro c hc c' hc' hp hp'
    simp only [decide_eq_true_eq] at hp hp'
    exact hsound.onePending c hc c' hc' hp.2 hp'.2 (hp.1.trans hp'.1.symm)
  · intro c hc hr
    refine ⟨fun later => (run_lasts db later).revoked c hc hr, ?_⟩
    intro env token p hp hid
    exact authenticateNode_revoked hp hc hid.symm hr
  · rintro grantId i j later ⟨g, hg, rfl, k, hk, rfl⟩ ⟨g', hg', hid', k', hk', rfl⟩
    obtain ⟨g₁, hg₁, hid₁, hk₁⟩ := (run_lasts db later).consumed g hg k hk
    obtain rfl := Table.eq_of_key hg₁ hg' (hid₁.trans hid'.symm)
    rw [hk₁] at hk'
    exact congrArg Consumption.instanceId (Option.some.inj hk')
  · intro env c e db' hanswer hne
    have hdoes := Tx.wp_iff.mp (answer_does digest env db c)
    rcases hdoes.2 e db' hanswer with hsame | ⟨he, _⟩
    · exact hsame
    · exact absurd he hne

/-- The id and the secret of a grant, as 16 and 32 zero bytes give them. -/
def zeroDraw : Draw where
  id := "AAAAAAAAAAAAAAAAAAAAAA"
  secret := "AAAAAAAAAAAAAAAAAAAAAAAAAAAAAAAAAAAAAAAAAAA"
  id_fits := by decide
  secret_fits := by decide

/-- A grant is created and committed, and then the modes of the files cannot be set: the
call fails, and the grant is there. -/
theorem grant_created_by_failed_call :
    let env : Env := ⟨some 0, true, true, true, false, [some zeroDraw]⟩
    let digest : String → Bytes := fun _ => List.replicate 32 0
    (answer digest env (.createEnrollmentGrant (.finite 1000) none) Database.empty).1 =
        .error .afterWrite ∧
      (answer digest env (.createEnrollmentGrant (.finite 1000) none) Database.empty).2 ≠
        Database.empty := by
  decide

end Elpis.Gateway
