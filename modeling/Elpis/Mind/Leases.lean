import Elpis.Mind.Specs
import Elpis.Mind.Rollback
import Elpis.Lib.Run

/-!
# The Mind store: a claim excludes others

The seven calls that work on claims, by any number of principals, in any order
and at any clock reading. `ClaimStep` says once what such a call can do when it
returns. From it follows the exclusion law for one call, and by induction over
the calls the law for a run: another principal gets the claim only past its
expiry or after its release.
-/

namespace Elpis.Mind

open Elpis.Lib

/-! ## The calls -/

/-- The calls that work on claims. -/
def MindCall.onClaims : MindCall → Bool
  | .claim .. | .resumeClaim .. | .renewClaim .. | .releaseClaim .. | .logClaim ..
  | .finishClaim .. | .expireClaims .. => true
  | _ => false

/-- The time a call on claims compares with an expiry. -/
def MindCall.time : MindCall → Time
  | .claim _ _ clock | .resumeClaim _ _ clock | .renewClaim _ _ _ clock
  | .releaseClaim _ _ _ _ clock | .logClaim _ _ _ _ _ _ clock
  | .finishClaim _ _ _ _ _ _ clock => clock.now
  | .expireClaims now => now
  | _ => 0

/-- The principal a call on claims acts for; expiring acts for nobody. -/
def MindCall.principal? : MindCall → Option String
  | .claim _ opts _ | .resumeClaim _ opts _ => some opts.principal
  | .renewClaim _ principal _ _ | .releaseClaim _ principal _ _ _
  | .logClaim _ principal _ _ _ _ _ | .finishClaim _ principal _ _ _ _ _ => some principal
  | _ => none

/-- The item a call on claims is about. -/
def MindCall.item? : MindCall → Option MindId
  | .claim id _ _ | .resumeClaim id _ _ | .renewClaim id _ _ _ | .releaseClaim id _ _ _ _
  | .logClaim id _ _ _ _ _ _ | .finishClaim id _ _ _ _ _ _ => some id
  | _ => none

/-- The call acts for the principal that holds the claim. The store keeps
principals trimmed. -/
def MindCall.byHolder (call : MindCall) (held : ClaimRow) : Prop :=
  ∃ principal, call.principal? = some principal ∧
    Js.trim principal = Js.trim held.principal

/-- Nothing that belongs to `id` changed. -/
structure Untouched (id : MindId) (db db' : MindDb) : Prop where
  item : db'.items.get? id = db.items.get? id
  claim : db'.claims.get? id = db.claims.get? id
  comments : db'.commentsOf id = db.commentsOf id
  events : db'.eventsOf id = db.eventsOf id

theorem Untouched.refl (id : MindId) (db : MindDb) : Untouched id db db :=
  ⟨rfl, rfl, rfl, rfl⟩

variable {db db' : MindDb} {id : MindId}

theorem Local.untouched {k : MindId} (h : Local id db db') (hk : k ≠ id) :
    Untouched k db db' :=
  ⟨h.items k hk, h.claims k hk, h.comments k hk, h.events k hk⟩

theorem Untouched.trans {db'' : MindDb} (h : Untouched id db db')
    (h' : Untouched id db' db'') : Untouched id db db'' :=
  ⟨h'.item.trans h.item, h'.claim.trans h.claim, h'.comments.trans h.comments,
    h'.events.trans h.events⟩

/-! ## What a call on claims can do -/

/-- What a call on claims that returned did to the item `id`. -/
inductive ClaimStep (id : MindId) (db db' : MindDb) (call : MindCall) : Prop
  /-- The call was about something else. -/
  | elsewhere (hitem : call.item? ≠ some id) (hsame : Untouched id db db')
  /-- The holder kept an unexpired claim. -/
  | kept (held held' : ClaimRow) (row row' : MindRow)
      (hr : Rewrites id db db' row row' (some held')) (hheld : db.claims.get? id = some held)
      (hnow : call.time < held.expiresAt) (hholder : call.byHolder held)
      (hsame : held'.principal = held.principal) (hstatus : row'.status = row.status)
  /-- No claim was unexpired, and the caller got one. -/
  | taken (held' : ClaimRow) (row row' : MindRow)
      (hr : Rewrites id db db' row row' (some held'))
      (hexpired : ∀ held, db.claims.get? id = some held → held.expiresAt ≤ call.time)
      (hopen : row.status = .open ∨ row.status = .inProgress ∨ row.status = .waiting)
      (hstatus : row'.status = .inProgress)
  /-- The holder gave the claim back. -/
  | released (principal : String) (status : ReleaseStatus) (note : String) (clock : Readings)
      (held : ClaimRow) (row row' : MindRow)
      (hcall : call = .releaseClaim id principal status note clock)
      (hr : Rewrites id db db' row row' none) (hheld : db.claims.get? id = some held)
      (hholder : call.byHolder held) (hstatus : row'.status = status.toStatus)
  /-- The holder finished the item. -/
  | finished (principal owner result verification omissions : String) (clock : Readings)
      (held : ClaimRow) (row row' : MindRow)
      (hcall : call = .finishClaim id principal owner result verification omissions clock)
      (hr : Rewrites id db db' row row' none) (hheld : db.claims.get? id = some held)
      (hnow : call.time < held.expiresAt) (hholder : call.byHolder held)
      (hfree : db.unresolvedDependencyCount id = 0) (hstatus : row'.status = .done)
  /-- The claim had expired and was swept away. -/
  | swept (held : ClaimRow) (hheld : db.claims.get? id = some held)
      (hexpired : held.expiresAt ≤ call.time)
      (hstatus : ∀ row', db'.items.get? id = some row' →
        ∃ row, db.items.get? id = some row ∧ (row'.status = row.status ∨ row'.status = .open))

variable {call : MindCall}

/-- A call about `k` does to `id` what it does to `k`, or nothing. -/
theorem claimStep_at {k : MindId} {row row' : MindRow}
    {c : Option ClaimRow} (hitem : call.item? = some k) (hr : Rewrites k db db' row row' c)
    (h : ClaimStep k db db' call) (id : MindId) : ClaimStep id db db' call := by
  by_cases hid : id = k
  · rw [hid]
    exact h
  · refine .elsewhere ?_ (hr.frame.untouched hid)
    rw [hitem, Ne, Option.some.injEq]
    exact fun hk => hid hk.symm

/-- The loop of `expireClaims` leaves alone every item without an expired claim. -/
theorem sweep_untouched {now : Time} {v : Unit} {k : MindId}
    (hk : ∀ held, db.claims.get? k = some held → now < held.expiresAt)
    (h : Tx.forEach (expireOne now) (db.expiredClaims now) db = (.ok v, db')) :
    Untouched k db db' := by
  refine Tx.forEach_inv (I := fun s : MindDb => Untouched k db s) ?_ (Untouched.refl k db) h
  intro claim hclaim s s' _ hs hone
  obtain ⟨hmem, hexp⟩ := mem_expiredClaims.mp hclaim
  have hne : k ≠ claim.itemId := by
    rintro rfl
    exact absurd (hk claim (Table.get?_key hmem)) (not_lt.mpr hexp)
  exact hs.trans ((expireOne_local hone).untouched hne)

/-- One iteration gives an item no status but its own or `open`. -/
theorem expireOne_status {claim : ClaimRow} {now : Time} {v : Unit} {k : MindId}
    {row' : MindRow} (h : expireOne now claim db = (.ok v, db'))
    (hrow' : db'.items.get? k = some row') :
    ∃ row, db.items.get? k = some row ∧ (row'.status = row.status ∨ row'.status = .open) := by
  by_cases hk : k = claim.itemId
  · subst hk
    cases hrow : db.items.get? claim.itemId with
    | none =>
        -- no row to update, so none can be there afterwards
        simp only [expireOne, Tx.bind_ok, Tx.write_ok, updateItem_ok, addCommentInternal_ok,
          event_ok] at h
        obtain ⟨_, _, rfl, _, _, ⟨_, rfl⟩, _, _, ⟨_, rfl⟩, rfl⟩ := h
        have hdrop : (db.dropClaim claim.itemId).items.get? claim.itemId = none := hrow
        have hnone : some row' = none :=
          hrow'.symm.trans (commented_get?_none (setItem_get?_none hdrop))
        cases hnone
    | some row =>
        have hr := expireOne_ok hrow h
        rw [hr.after, Option.some.injEq] at hrow'
        subst hrow'
        refine ⟨row, rfl, ?_⟩
        by_cases hs : row.status = .inProgress
        · exact Or.inr (if_pos hs)
        · exact Or.inl (if_neg hs)
  · rw [(expireOne_local h).items k hk] at hrow'
    exact ⟨row', hrow', Or.inl rfl⟩

theorem sweep_status {now : Time} {v : Unit} {k : MindId} {row' : MindRow}
    (h : Tx.forEach (expireOne now) (db.expiredClaims now) db = (.ok v, db'))
    (hrow' : db'.items.get? k = some row') :
    ∃ row, db.items.get? k = some row ∧ (row'.status = row.status ∨ row'.status = .open) := by
  have hinv := Tx.forEach_inv (I := fun s : MindDb => ∀ r', s.items.get? k = some r' →
    ∃ r, db.items.get? k = some r ∧ (r'.status = r.status ∨ r'.status = .open)) ?_
    (fun r hr => ⟨r, hr, Or.inl rfl⟩) h
  · exact hinv row' hrow'
  · intro claim _ s s' _ hs hone r' hr'
    obtain ⟨r₁, hr₁, hst₁⟩ := expireOne_status hone hr'
    obtain ⟨r, hr, hst⟩ := hs r₁ hr₁
    refine ⟨r, hr, ?_⟩
    rcases hst₁ with hst₁ | hst₁
    · rw [hst₁]
      exact hst
    · exact Or.inr hst₁

theorem claimStep_of_ok {u : Js.Unicode} {v : Unit}
    (hcall : call.onClaims = true) (h : call.exec u db = (.ok v, db')) (id : MindId) :
    ClaimStep id db db' call := by
  cases call with
  | claim k opts clock =>
      obtain ⟨_, h⟩ := effect_ok.mp h
      obtain ⟨ttl, _, h⟩ := claim_ok h
      obtain ⟨row, ⟨_, hs, _⟩, ⟨held, hheld, hnow, hp, hr⟩ | ⟨hexp, hr⟩⟩ := claimBody_ok h
      · refine claimStep_at rfl hr ?_ id
        exact .kept held _ row _ hr hheld hnow ⟨_, rfl, by rw [hp]⟩ rfl rfl
      · refine claimStep_at rfl hr ?_ id
        refine .taken _ row _ hr hexp ?_ rfl
        rcases hs with hs | hs
        · exact Or.inl hs
        · exact Or.inr (Or.inl hs)
  | resumeClaim k opts clock =>
      obtain ⟨_, h⟩ := effect_ok.mp h
      obtain ⟨ttl, _, h⟩ := resumeClaim_ok h
      obtain ⟨row, _, hs, _, hexp, hr⟩ := resumeClaimBody_ok h
      refine claimStep_at rfl hr ?_ id
      exact .taken _ row _ hr hexp (Or.inr (Or.inr hs)) rfl
  | renewClaim k principal ttlMs clock =>
      obtain ⟨_, h⟩ := effect_ok.mp h
      obtain ⟨ttl, _, h⟩ := renewClaim_ok h
      obtain ⟨row, held, _, ⟨hheld, hnow, hp⟩, hr⟩ := renewClaimBody_ok h
      refine claimStep_at rfl hr ?_ id
      exact .kept held _ row _ hr hheld hnow ⟨_, rfl, by rw [hp, Js.trim_trim]⟩ rfl rfl
  | releaseClaim k principal status note clock =>
      obtain ⟨_, h⟩ := effect_ok.mp h
      obtain ⟨row, held, _, hheld, hp, hr⟩ := releaseClaimBody_ok (releaseClaim_ok h)
      refine claimStep_at rfl hr ?_ id
      exact .released principal status note clock held row _ rfl hr hheld
        ⟨_, rfl, by rw [hp, Js.trim_trim]⟩ rfl
  | logClaim k principal owner kind body ttlMs clock =>
      obtain ⟨_, h⟩ := effect_ok.mp h
      obtain ⟨_, ttl, _, _, h⟩ := logClaim_ok h
      obtain ⟨row, held, _, ⟨hheld, hnow, hp⟩, hr⟩ := logClaimBody_ok h
      refine claimStep_at rfl hr ?_ id
      exact .kept held _ row _ hr hheld hnow ⟨_, rfl, by rw [hp, Js.trim_trim]⟩ rfl rfl
  | finishClaim k principal owner result verification omissions clock =>
      obtain ⟨_, h⟩ := effect_ok.mp h
      obtain ⟨row, held, _, ⟨hheld, hnow, hp⟩, hun, hr⟩ := finishClaimBody_ok (finishClaim_ok h)
      refine claimStep_at rfl hr ?_ id
      exact .finished principal owner result verification omissions clock held row _ rfl hr
        hheld hnow ⟨_, rfl, by rw [hp, Js.trim_trim]⟩ hun rfl
  | expireClaims now =>
      obtain ⟨_, h⟩ := effect_ok.mp h
      have hloop := expireClaims_ok h
      by_cases hexp : ∀ held, db.claims.get? id = some held → now < held.expiresAt
      · exact .elsewhere (fun hk => by cases hk) (sweep_untouched hexp hloop)
      · push Not at hexp
        obtain ⟨held, hheld, hexp⟩ := hexp
        exact .swept held hheld hexp (fun row' hrow' => sweep_status hloop hrow')
  | _ => cases hcall

/-! ## One call -/

/-- A call on claims leaves the store as it was, or is a `ClaimStep`. -/
theorem after_claimStep (u : Js.Unicode) (db : MindDb)
    (hcall : call.onClaims = true) :
    (∃ e, call.exec u db = (.error e, db) ∧ db.after u call = db) ∨
      (call.exec u db = (.ok (), db.after u call) ∧
        ∀ id, ClaimStep id db (db.after u call) call) := by
  unfold MindDb.after
  rcases h : call.exec u db with ⟨e | v, db'⟩
  · obtain rfl := atomic_exec u call _ _ _ h
    exact Or.inl ⟨e, rfl, rfl⟩
  · exact Or.inr ⟨rfl, claimStep_of_ok hcall h⟩

/-- **Exclusion.** While a claim is unexpired, a call for anybody but its holder
leaves the claim, its item and the item's log alone, and throws if it is about
that item. -/
theorem foreign_call (u : Js.Unicode) (hcall : call.onClaims = true)
    {held : ClaimRow} (hheld : db.claims.get? id = some held)
    (hnow : call.time < held.expiresAt) (hother : ¬ call.byHolder held) :
    Untouched id db (db.after u call) ∧
      (call.item? = some id → ∃ e, call.exec u db = (.error e, db)) := by
  rcases after_claimStep u db hcall with ⟨e, he, heq⟩ | ⟨_, hstep⟩
  · rw [heq]
    exact ⟨Untouched.refl id db, fun _ => ⟨e, he⟩⟩
  · -- a call that returned and was about `id` was the holder's, or came too late
    have hmine : ∀ h', db.claims.get? id = some h' → ¬ call.byHolder h' := by
      intro h' hh'
      rw [hheld, Option.some.injEq] at hh'
      exact hh' ▸ hother
    have hearly : ∀ h', db.claims.get? id = some h' → ¬ h'.expiresAt ≤ call.time := by
      intro h' hh'
      rw [hheld, Option.some.injEq] at hh'
      exact hh' ▸ not_le.mpr hnow
    cases hstep id with
    | elsewhere hitem hsame => exact ⟨hsame, fun hid => absurd hid hitem⟩
    | kept _ _ _ _ _ hk _ hholder => exact absurd hholder (hmine _ hk)
    | taken _ _ _ _ hexpired => exact absurd (hexpired held hheld) (hearly held hheld)
    | released _ _ _ _ _ _ _ _ _ hk hholder => exact absurd hholder (hmine _ hk)
    | finished _ _ _ _ _ _ _ _ _ _ _ hk _ hholder => exact absurd hholder (hmine _ hk)
    | swept _ hk hexpired => exact absurd hexpired (hearly _ hk)

/-- The call ends what `held` protects: it comes at or past the expiry, or it is
the holder's release of the item. -/
def Frees (u : Js.Unicode) (id : MindId) (db : MindDb) (held : ClaimRow) (call : MindCall) :
    Prop :=
  held.expiresAt ≤ call.time ∨
    (call.byHolder held ∧ call.exec u db = (.ok (), db.after u call) ∧
      ∃ principal status note clock, call = .releaseClaim id principal status note clock)

/-- Finished: the item is done and nobody holds it. -/
def MindDb.finishedItem (db : MindDb) (id : MindId) : Prop :=
  db.claims.get? id = none ∧ ∃ row, db.items.get? id = some row ∧ row.status = .done

/-- A call either frees the claim, or leaves it with its holder, or finishes the item. -/
theorem holder_step (u : Js.Unicode) (hcall : call.onClaims = true)
    {held : ClaimRow} (hheld : db.claims.get? id = some held) :
    Frees u id db held call ∨
      (∃ held', (db.after u call).claims.get? id = some held' ∧
        held'.principal = held.principal) ∨
      (db.after u call).finishedItem id := by
  rcases after_claimStep u db hcall with ⟨e, he, heq⟩ | ⟨hok, hstep⟩
  · rw [heq]
    exact Or.inr (Or.inl ⟨held, hheld, rfl⟩)
  · have hself : ∀ h', db.claims.get? id = some h' → h' = held := by
      intro h' hh'
      rw [hheld, Option.some.injEq] at hh'
      exact hh'.symm
    cases hstep id with
    | elsewhere hitem hsame =>
        refine Or.inr (Or.inl ⟨held, ?_, rfl⟩)
        rw [hsame.claim]
        exact hheld
    | kept h' held' _ _ hr hk _ _ hp =>
        rw [hself h' hk] at hp
        exact Or.inr (Or.inl ⟨held', hr.claim, hp⟩)
    | taken _ _ _ _ hexpired => exact Or.inl (Or.inl (hexpired held hheld))
    | released principal status note clock h' _ _ heq _ hk hholder =>
        rw [hself h' hk] at hholder
        exact Or.inl (Or.inr ⟨hholder, hok, principal, status, note, clock, heq⟩)
    | finished _ _ _ _ _ _ _ _ row' _ hr _ _ _ _ hstatus =>
        exact Or.inr (Or.inr ⟨hr.claim, row', hr.after, hstatus⟩)
    | swept h' hk hexpired =>
        rw [hself h' hk] at hexpired
        exact Or.inl (Or.inl hexpired)

/-- No call on claims takes up a finished item. -/
theorem finishedItem_step (u : Js.Unicode) (hcall : call.onClaims = true)
    (h : db.finishedItem id) : (db.after u call).finishedItem id := by
  obtain ⟨hnone, row, hrow, hdone⟩ := h
  rcases after_claimStep u db hcall with ⟨e, he, heq⟩ | ⟨_, hstep⟩
  · rw [heq]
    exact ⟨hnone, row, hrow, hdone⟩
  · have hfree : ∀ h', ¬ db.claims.get? id = some h' := by
      intro h' hh'
      rw [hnone] at hh'
      cases hh'
    cases hstep id with
    | elsewhere _ hsame =>
        refine ⟨hsame.claim.trans hnone, row, hsame.item.trans hrow, hdone⟩
    | taken _ r _ hr _ hopen =>
        -- what is taken up was open, in progress or waiting, and this is done
        have hsame := hr.before
        rw [hrow, Option.some.injEq] at hsame
        rw [← hsame, hdone] at hopen
        simp at hopen
    | kept _ _ _ _ _ hk => exact absurd hk (hfree _)
    | released _ _ _ _ _ _ _ _ _ hk => exact absurd hk (hfree _)
    | finished _ _ _ _ _ _ _ _ _ _ _ hk => exact absurd hk (hfree _)
    | swept _ hk => exact absurd hk (hfree _)

/-- A call on claims that makes an item done is a finish, and every dependency
of the item was done. -/
theorem done_step (u : Js.Unicode) (hcall : call.onClaims = true)
    {row row' : MindRow} (hrow : db.items.get? id = some row) (hne : row.status ≠ .done)
    (hrow' : (db.after u call).items.get? id = some row') (hdone : row'.status = .done) :
    (∃ principal owner result verification omissions clock,
      call = .finishClaim id principal owner result verification omissions clock) ∧
      ∀ dep r, db.DependsOn id dep → db.items.get? dep = some r → r.status = .done := by
  rcases after_claimStep u db hcall with ⟨e, he, heq⟩ | ⟨_, hstep⟩
  · rw [heq, hrow, Option.some.injEq] at hrow'
    exact absurd (hrow' ▸ hdone) hne
  · -- every other step leaves a status that is not `done`, or the one that was there
    have hleft : ∀ {r r' : MindRow} {c : Option ClaimRow},
        Rewrites id db (db.after u call) r r' c → r = row ∧ r'.status = .done := by
      intro r r' c hr
      have hb := hr.before
      have ha := hr.after
      rw [hrow, Option.some.injEq] at hb
      rw [hrow', Option.some.injEq] at ha
      exact ⟨hb.symm, ha ▸ hdone⟩
    cases hstep id with
    | elsewhere _ hsame =>
        rw [hsame.item, hrow, Option.some.injEq] at hrow'
        exact absurd (hrow' ▸ hdone) hne
    | kept _ _ _ _ hr _ _ _ _ hstatus =>
        obtain ⟨rfl, hd⟩ := hleft hr
        rw [hstatus] at hd
        exact absurd hd hne
    | taken _ _ _ hr _ _ hstatus =>
        have hd := (hleft hr).2
        rw [hstatus] at hd
        cases hd
    | released _ status _ _ _ _ _ _ hr _ _ hstatus =>
        have hd := (hleft hr).2
        rw [hstatus] at hd
        cases status with
        | «open» => cases hd
        | waiting => cases hd
    | finished principal owner result verification omissions clock _ _ _ heq _ _ _ _ hfree =>
        exact ⟨⟨principal, owner, result, verification, omissions, clock, heq⟩,
          MindDb.unresolvedDependencyCount_eq_zero.mp hfree⟩
    | swept _ _ _ hstatus =>
        obtain ⟨r, hr, hst⟩ := hstatus row' hrow'
        rw [hrow, Option.some.injEq] at hr
        subst hr
        rcases hst with hst | hst
        · rw [hst] at hdone
          exact absurd hdone hne
        · rw [hst] at hdone
          cases hdone

/-! ## Runs -/

theorem finishedItem_run (u : Js.Unicode) : ∀ (calls : List MindCall) {db : MindDb},
    (∀ call ∈ calls, call.onClaims = true) → db.finishedItem id →
      (run (MindDb.after u) db calls).finishedItem id := by
  intro calls
  induction calls with
  | nil =>
      intro db _ h
      exact h
  | cons call calls ih =>
      intro db hcalls h
      rw [run_cons]
      refine ih (fun c hc => hcalls c (List.mem_cons_of_mem _ hc)) ?_
      exact finishedItem_step u (hcalls call List.mem_cons_self) h

/-- **Another principal gets a claim only past its expiry or after its release.**
If the claim on an item belongs to somebody else at the end of a run, then some
call of the run found the first holder's claim expired, or released it. -/
theorem holder_changes (u : Js.Unicode) {last : ClaimRow} :
    ∀ (calls : List MindCall) {db : MindDb} {held : ClaimRow},
      (∀ call ∈ calls, call.onClaims = true) → db.claims.get? id = some held →
      (run (MindDb.after u) db calls).claims.get? id = some last →
      last.principal ≠ held.principal →
      ∃ pre call post held', calls = pre ++ call :: post ∧
        (run (MindDb.after u) db pre).claims.get? id = some held' ∧
        held'.principal = held.principal ∧
        Frees u id (run (MindDb.after u) db pre) held' call := by
  intro calls
  induction calls with
  | nil =>
      intro db held _ hheld hlast hne
      rw [run_nil, hheld, Option.some.injEq] at hlast
      rw [hlast] at hne
      exact absurd rfl hne
  | cons call calls ih =>
      intro db held hcalls hheld hlast hne
      have hrest : ∀ c ∈ calls, c.onClaims = true :=
        fun c hc => hcalls c (List.mem_cons_of_mem _ hc)
      rw [run_cons] at hlast
      rcases holder_step u (hcalls call List.mem_cons_self) hheld with
        hfree | ⟨held', hheld', hp⟩ | hdone
      · exact ⟨[], call, calls, held, rfl, hheld, rfl, hfree⟩
      · rw [← hp] at hne
        obtain ⟨pre, c, post, h', rfl, hh', hp', hfree⟩ := ih hrest hheld' hlast hne
        exact ⟨call :: pre, c, post, h', rfl, hh', hp'.trans hp, hfree⟩
      · -- a finished item is never claimed again
        rw [(finishedItem_run u calls hrest hdone).1] at hlast
        cases hlast

/-- **The exclusion law over any interleaving.** At every call of every run of
calls on claims: a call for another principal than the holder of an unexpired
claim leaves the claim, the item and its log alone and throws if it is about
that item; an item becomes done only through a finish with every dependency
done; and a call that throws changes no table. Over the whole run, the claim on
an item passes to another principal only past its expiry or after its release. -/
theorem claims_exclude (u : Js.Unicode) (db : MindDb) (calls : List MindCall)
    (hcalls : ∀ call ∈ calls, call.onClaims = true) :
    (∀ pre call post, calls = pre ++ call :: post →
      (∀ id held, (run (MindDb.after u) db pre).claims.get? id = some held →
        call.time < held.expiresAt → ¬ call.byHolder held →
        Untouched id (run (MindDb.after u) db pre) (run (MindDb.after u) db (pre ++ [call])) ∧
          (call.item? = some id → ∃ e,
            call.exec u (run (MindDb.after u) db pre) =
              (.error e, run (MindDb.after u) db pre))) ∧
      (∀ id row row', (run (MindDb.after u) db pre).items.get? id = some row →
        row.status ≠ .done →
        (run (MindDb.after u) db (pre ++ [call])).items.get? id = some row' →
        row'.status = .done →
        (∃ principal owner result verification omissions clock,
          call = .finishClaim id principal owner result verification omissions clock) ∧
          ∀ dep r, (run (MindDb.after u) db pre).DependsOn id dep →
            (run (MindDb.after u) db pre).items.get? dep = some r → r.status = .done) ∧
      ∀ e db', call.exec u (run (MindDb.after u) db pre) = (.error e, db') →
        db' = run (MindDb.after u) db pre) ∧
    ∀ id held last, db.claims.get? id = some held →
      (run (MindDb.after u) db calls).claims.get? id = some last →
      last.principal ≠ held.principal →
      ∃ pre call post held', calls = pre ++ call :: post ∧
        (run (MindDb.after u) db pre).claims.get? id = some held' ∧
        held'.principal = held.principal ∧
        Frees u id (run (MindDb.after u) db pre) held' call := by
  refine ⟨?_, ?_⟩
  · intro pre call post hsplit
    have hcall : call.onClaims = true := by
      refine hcalls call ?_
      rw [hsplit]
      exact List.mem_append_right _ List.mem_cons_self
    have hnext : run (MindDb.after u) db (pre ++ [call]) =
        (run (MindDb.after u) db pre).after u call := run_append ..
    rw [hnext]
    refine ⟨?_, ?_, ?_⟩
    · intro id held hheld hnow hother
      exact foreign_call u hcall hheld hnow hother
    · intro id row row' hrow hne hrow' hdone
      exact done_step u hcall hrow hne hrow' hdone
    · intro e db' he
      exact atomic_exec u call _ _ _ he
  · intro id held last hheld hlast hne
    exact holder_changes u calls hcalls hheld hlast hne

/-- Alice creates an item and claims it. -/
def aliceHolds : MindDb :=
  run (MindDb.after Js.Unicode.ascii) MindDb.empty
    [.create ⟨"Write it", none, none, none, none, none, none, [], [], none, none⟩ [7] ⟨0, 0, 0⟩,
      .claim "elm-00000007" ⟨"Alice", "alice", none, none⟩ ⟨1000, 1000, 1000⟩]

/-- Bob asks for it one second later. -/
def bobAsks : MindCall :=
  .claim "elm-00000007" ⟨"Bob", "bob", none, none⟩ ⟨2000, 2000, 2000⟩

theorem claims_exclude_bob :
    Untouched "elm-00000007" aliceHolds (aliceHolds.after Js.Unicode.ascii bobAsks) ∧
      ∃ e, bobAsks.exec Js.Unicode.ascii aliceHolds = (.error e, aliceHolds) := by
  have hcalls : ∀ call ∈ [bobAsks], call.onClaims = true := by
    intro call hcall
    rw [List.mem_singleton] at hcall
    rw [hcall]
    rfl
  have hheld : aliceHolds.claims.get? "elm-00000007" =
      some ⟨"elm-00000007", "Alice", "alice", 1000, 1000, 1801000⟩ := by decide +kernel
  have hother : ¬ bobAsks.byHolder ⟨"elm-00000007", "Alice", "alice", 1000, 1000, 1801000⟩ := by
    rintro ⟨_, hp, htrim⟩
    cases hp
    revert htrim
    decide
  have hlaw := (claims_exclude Js.Unicode.ascii aliceHolds [bobAsks] hcalls).1 [] bobAsks [] rfl
  obtain ⟨hsame, hthrow⟩ := hlaw.1 "elm-00000007" _ hheld (by decide) hother
  exact ⟨hsame, hthrow rfl⟩

end Elpis.Mind
