import Elpis.Mind.Store

/-!
# The Mind store: what a successful call did

One lemma for each statement and each shared step says what it checked and what
it wrote, so that later proofs never unfold a program twice. `Local id` is the
frame of a call on one item: rows that belong to other items stay as they are.
-/

namespace Elpis.Mind

open Elpis.Lib

variable {db db' : MindDb} {id : MindId} {v : Unit} {now : Time} {clock : Readings} {d : Option MindDetail}
  {opts : MindClaimOptions} {ttl : ℤ} {actor : String} {changed : ChangedFields}

theorem effect_ok {α : Type} {m : MindM α} :
    effect m db = (.ok v, db') ↔ ∃ a, m db = (.ok a, db') := by
  simp only [effect, Tx.bind_ok, Tx.pure_ok]
  constructor
  · rintro ⟨a, _, h, _, rfl⟩
    exact ⟨a, h⟩
  · rintro ⟨a, h⟩
    exact ⟨a, db', h, trivial, rfl⟩

/-! ## Checks -/

@[simp] theorem assertText_ok {value field : String} {max : ℕ} {allowEmpty : Bool} :
    assertText value field max allowEmpty db = (.ok v, db') ↔
      ((allowEmpty = true ∨ Js.trim value ≠ "") ∧ Js.length value ≤ max) ∧ db = db' := by
  simp [assertText, and_assoc]

@[simp] theorem requireId_ok :
    requireId id db = (.ok v, db') ↔
      (isMindId id = true ∧ db.exists id = true) ∧ db = db' := by
  simp [requireId, and_assoc]

@[simp] theorem requireItem_ok {row : MindRow} :
    requireItem id db = (.ok row, db') ↔ db.items.get? id = some row ∧ db = db' := by
  simp [requireItem]

/-- The item exists, is not archived and is a task. -/
def MindDb.executable (db : MindDb) (id : MindId) (row : MindRow) : Prop :=
  db.items.get? id = some row ∧ row.archivedAt = none ∧ row.kind = .task

@[simp] theorem requireExecutableTask_ok {row : MindRow} :
    requireExecutableTask id db = (.ok row, db') ↔ db.executable id row ∧ db = db' := by
  simp only [requireExecutableTask, MindDb.executable, Tx.bind_ok, requireItem_ok,
    Tx.ensure_ok, Tx.pure_ok]
  constructor
  · rintro ⟨_, _, ⟨hrow, rfl⟩, _, _, ⟨harch, rfl⟩, _, _, ⟨hkind, rfl⟩, rfl, rfl⟩
    exact ⟨⟨hrow, harch, hkind⟩, rfl⟩
  · rintro ⟨⟨hrow, harch, hkind⟩, rfl⟩
    exact ⟨_, _, ⟨hrow, rfl⟩, (), _, ⟨harch, rfl⟩, (), _, ⟨hkind, rfl⟩, rfl, rfl⟩

/-- `principal` holds an unexpired claim on `id`. -/
def MindDb.heldBy (db : MindDb) (id : MindId) (principal : String) (now : Time)
    (held : ClaimRow) : Prop :=
  db.claims.get? id = some held ∧ now < held.expiresAt ∧ held.principal = Js.trim principal

@[simp] theorem requireHeldClaim_ok {principal : String} {held : ClaimRow} :
    requireHeldClaim id principal now db = (.ok held, db') ↔
      db.heldBy id principal now held ∧ db = db' := by
  simp only [requireHeldClaim, MindDb.heldBy, Tx.bind_ok, Tx.read_ok, Tx.require_ok,
    Tx.ensure_ok, Tx.pure_ok, Option.filter_eq_some_iff, decide_eq_true_eq]
  constructor
  · rintro ⟨_, _, ⟨rfl, rfl⟩, _, _, ⟨⟨hrow, hnow⟩, rfl⟩, _, _, ⟨hp, rfl⟩, rfl, rfl⟩
    exact ⟨⟨hrow, hnow, hp⟩, rfl⟩
  · rintro ⟨⟨hrow, hnow, hp⟩, rfl⟩
    exact ⟨_, _, ⟨rfl, rfl⟩, _, _, ⟨⟨hrow, hnow⟩, rfl⟩, (), _, ⟨hp, rfl⟩, rfl, rfl⟩

/-! ## Statements -/

/-- What SQLite checks before an `UPDATE mind_items` on one row. -/
def MindDb.accepts (db : MindDb) (columns : SetColumns) (old new : MindRow) : Prop :=
  (columns.status = true → transitionGuard old new = false) ∧
    ((columns.status = true ∨ columns.dueAt = true) → dueGuard new = false) ∧
    (columns.parentId = true → new.parentId.all db.exists = true)

theorem updateItem_ok {columns : SetColumns} {f : MindRow → MindRow}
    {hf : ∀ r, (f r).id = r.id} :
    updateItem columns id f hf db = (.ok v, db') ↔
      (∀ row, db.items.get? id = some row → db.accepts columns row (f row)) ∧
        db' = db.setItem id f hf := by
  simp only [updateItem, Tx.bind_ok, Tx.read_ok, Tx.ensure_ok, Tx.write_ok]
  constructor
  · rintro ⟨_, _, ⟨rfl, rfl⟩, _, _, ⟨rfl, rfl⟩, _, _, ⟨h₁, rfl⟩, _, _, ⟨h₂, rfl⟩, _, _,
      ⟨h₃, rfl⟩, rfl⟩
    refine ⟨?_, rfl⟩
    intro row hrow
    rw [hrow] at h₁ h₂ h₃
    refine ⟨?_, ?_, ?_⟩
    · intro hs
      simpa [hs] using h₁
    · intro hs
      have hs' : (columns.status || columns.dueAt) = true := by simpa using hs
      simpa [hs'] using h₂
    · intro hs
      simpa [hs] using h₃
  · rintro ⟨h, rfl⟩
    refine ⟨_, _, ⟨rfl, rfl⟩, _, _, ⟨rfl, rfl⟩, (), _, ⟨?_, rfl⟩, (), _, ⟨?_, rfl⟩, (), _,
      ⟨?_, rfl⟩, rfl⟩
    · cases hrow : db.items.get? id with
      | none => rfl
      | some row =>
          cases hs : columns.status with
          | false => simp
          | true => simpa using (h row hrow).1 hs
    · cases hrow : db.items.get? id with
      | none => rfl
      | some row =>
          by_cases hs : columns.status = true ∨ columns.dueAt = true
          · simpa using Or.inr ((h row hrow).2.1 hs)
          · simpa using Or.inl (by simpa using hs)
    · cases hrow : db.items.get? id with
      | none => rfl
      | some row =>
          cases hs : columns.parentId with
          | false => simp
          | true => simpa using (h row hrow).2.2 hs

theorem setItem_get?_none {k : MindId} {f : MindRow → MindRow} {hf : ∀ r, (f r).id = r.id}
    (h : db.items.get? k = none) : (db.setItem id f hf).items.get? k = none := by
  show (db.items.update _ f hf).get? k = none
  rw [Table.get?_update, h]
  rfl

theorem insertItem_ok {row : MindRow} :
    insertItem row db = (.ok v, db') ↔
      dueGuard row = false ∧ row.parentId.all db.exists = true ∧
        ∃ fresh, db' = { db with items := db.items.insert row fresh } := by
  simp only [insertItem, Tx.bind_ok, Tx.read_ok, Tx.ensure_ok, Tx.require_ok, Tx.write_ok]
  constructor
  · rintro ⟨_, _, ⟨rfl, rfl⟩, _, _, ⟨hdue, rfl⟩, _, _, ⟨hparent, rfl⟩, _, _, ⟨rfl, rfl⟩, items,
      _, ⟨hins, rfl⟩, rfl⟩
    obtain ⟨fresh, rfl⟩ := Table.insert?_eq_some.mp hins
    exact ⟨hdue, hparent, fresh, rfl⟩
  · rintro ⟨hdue, hparent, fresh, rfl⟩
    exact ⟨_, _, ⟨rfl, rfl⟩, (), _, ⟨hdue, rfl⟩, (), _, ⟨hparent, rfl⟩, _, _, ⟨rfl, rfl⟩, _, _,
      ⟨Table.insert?_eq_some.mpr ⟨fresh, rfl⟩, rfl⟩, rfl⟩

theorem insertTag_ok {tag : String} :
    insertTag id tag db = (.ok v, db') ↔
      ∃ fresh, db' = { db with tags := db.tags.insert ⟨id, tag⟩ fresh } := by
  simp only [insertTag, Tx.bind_ok, Tx.read_ok, Tx.require_ok, Tx.write_ok]
  constructor
  · rintro ⟨_, _, ⟨rfl, rfl⟩, tags, _, ⟨hins, rfl⟩, rfl⟩
    obtain ⟨fresh, rfl⟩ := Table.insert?_eq_some.mp hins
    exact ⟨fresh, rfl⟩
  · rintro ⟨fresh, rfl⟩
    exact ⟨_, _, ⟨rfl, rfl⟩, _, _, ⟨Table.insert?_eq_some.mpr ⟨fresh, rfl⟩, rfl⟩, rfl⟩

theorem insertClaim_ok {row : ClaimRow} :
    insertClaim row db = (.ok v, db') ↔
      (∃ item, db.items.get? row.itemId = some item ∧ item.status ≠ .proposal) ∧
        ∃ fresh, db' = { db with claims := db.claims.insert row fresh } := by
  simp only [insertClaim, Tx.bind_ok, Tx.read_ok, Tx.ensure_ok, Tx.require_ok, Tx.write_ok]
  constructor
  · rintro ⟨_, _, ⟨rfl, rfl⟩, _, _, ⟨hp, rfl⟩, _, _, ⟨hk, rfl⟩, _, _, ⟨rfl, rfl⟩, claims, _,
      ⟨hins, rfl⟩, rfl⟩
    obtain ⟨fresh, rfl⟩ := Table.insert?_eq_some.mp hins
    obtain ⟨item, hitem⟩ := Option.isSome_iff_exists.mp hk
    rw [hitem] at hp
    exact ⟨⟨item, hitem, by simpa using hp⟩, fresh, rfl⟩
  · rintro ⟨⟨item, hitem, hp⟩, fresh, rfl⟩
    refine ⟨_, _, ⟨rfl, rfl⟩, (), _, ⟨?_, rfl⟩, (), _, ⟨?_, rfl⟩, _, _, ⟨rfl, rfl⟩, _, _,
      ⟨Table.insert?_eq_some.mpr ⟨fresh, rfl⟩, rfl⟩, rfl⟩
    · rw [hitem]
      simpa using hp
    · rw [hitem]
      rfl

/-- Neither end of a new edge is a proposal, and both exist. -/
def MindDb.linkable (db : MindDb) (row : DependencyRow) : Prop :=
  (db.isProposal row.itemId = false ∧ db.isProposal row.dependsOnId = false) ∧
    db.exists row.itemId = true ∧ db.exists row.dependsOnId = true

theorem insertDependency_ok {row : DependencyRow} {added : Bool} :
    insertDependency row db = (.ok added, db') ↔
      db.linkable row ∧
        ((added = false ∧ db.dependencies.insert? row = none ∧ db = db') ∨
          (added = true ∧
            ∃ fresh, db' = { db with dependencies := db.dependencies.insert row fresh })) := by
  simp only [insertDependency, MindDb.linkable, Tx.bind_ok, Tx.read_ok, Tx.ensure_ok]
  constructor
  · rintro ⟨_, _, ⟨rfl, rfl⟩, _, _, ⟨rfl, rfl⟩, _, _, ⟨hp, rfl⟩, _, _, ⟨hk, rfl⟩, inserted, _,
      ⟨hins, rfl⟩, h⟩
    refine ⟨⟨hp, hk⟩, ?_⟩
    cases inserted with
    | none =>
        rw [Tx.pure_ok] at h
        exact Or.inl ⟨h.1.symm, hins, h.2⟩
    | some dependencies =>
        obtain ⟨fresh, rfl⟩ := Table.insert?_eq_some.mp hins
        simp only [Tx.bind_ok, Tx.write_ok, Tx.pure_ok] at h
        obtain ⟨_, _, rfl, rfl, rfl⟩ := h
        exact Or.inr ⟨rfl, fresh, rfl⟩
  · rintro ⟨⟨hp, hk⟩, h⟩
    refine ⟨_, _, ⟨rfl, rfl⟩, _, _, ⟨rfl, rfl⟩, (), _, ⟨hp, rfl⟩, (), _, ⟨hk, rfl⟩, _, _,
      ⟨rfl, rfl⟩, ?_⟩
    rcases h with ⟨rfl, hins, rfl⟩ | ⟨rfl, fresh, rfl⟩
    · rw [hins]
      rfl
    · rw [Table.insert?_eq_some.mpr ⟨fresh, rfl⟩]
      rfl

@[simp] theorem event_ok {data : MindEventData} :
    event id actor data now db = (.ok v, db') ↔ db' = db.addEvent id actor data now := by
  rw [event, Tx.write_ok, eq_comm]

/-- What `addCommentInternal` writes. -/
def MindDb.commented (db : MindDb) (id : MindId) (body author : String) (at' : Time)
    (replyToId : Option ℕ) : MindDb :=
  ((db.addComment id author (Js.trim body) replyToId at').touch id at').addEvent id author
    (.commentAdded db.comments.next replyToId) at'

@[simp] theorem addCommentInternal_ok {body author : String}
    {replyToId : Option ℕ} {n : ℕ} :
    addCommentInternal id body author now replyToId db = (.ok n, db') ↔
      n = db.comments.next ∧ db' = db.commented id body author now replyToId := by
  simp only [addCommentInternal, MindDb.commented, Tx.bind_ok, Tx.read_ok, Tx.write_ok,
    event_ok, Tx.pure_ok]
  constructor
  · rintro ⟨_, _, ⟨rfl, rfl⟩, _, _, rfl, _, _, rfl, _, _, rfl, rfl, rfl⟩
    exact ⟨rfl, rfl⟩
  · rintro ⟨rfl, rfl⟩
    exact ⟨_, _, ⟨rfl, rfl⟩, (), _, rfl, (), _, rfl, (), _, rfl, rfl, rfl⟩

theorem commented_get?_none {k : MindId} {body author : String}
    {replyToId : Option ℕ} (h : db.items.get? k = none) :
    (db.commented id body author now replyToId).items.get? k = none := by
  have h' : (db.addComment id author (Js.trim body) replyToId now).items.get? k = none := h
  show ((db.addComment id author (Js.trim body) replyToId now).touch id now).items.get? k = none
  exact setItem_get?_none h'

/-! ## Frames -/

/-- The comments of an item. -/
def MindDb.commentsOf (db : MindDb) (id : MindId) : List CommentRow :=
  db.comments.select (fun c => decide (c.itemId = id))

/-- The events of an item. -/
def MindDb.eventsOf (db : MindDb) (id : MindId) : List EventRow :=
  db.events.select (fun e => decide (e.itemId = id))

/-- Only rows that belong to `id` change, and no edge and no reminder does. -/
structure Local (id : MindId) (db db' : MindDb) : Prop where
  items : ∀ k, k ≠ id → db'.items.get? k = db.items.get? k
  claims : ∀ k, k ≠ id → db'.claims.get? k = db.claims.get? k
  comments : ∀ k, k ≠ id → db'.commentsOf k = db.commentsOf k
  events : ∀ k, k ≠ id → db'.eventsOf k = db.eventsOf k
  dependencies : db'.dependencies = db.dependencies
  reminders : db'.reminders = db.reminders

namespace Local

theorem refl (id : MindId) (db : MindDb) : Local id db db :=
  ⟨fun _ _ => rfl, fun _ _ => rfl, fun _ _ => rfl, fun _ _ => rfl, rfl, rfl⟩

theorem trans {db'' : MindDb} (h : Local id db db') (h' : Local id db' db'') :
    Local id db db'' where
  items k hk := (h'.items k hk).trans (h.items k hk)
  claims k hk := (h'.claims k hk).trans (h.claims k hk)
  comments k hk := (h'.comments k hk).trans (h.comments k hk)
  events k hk := (h'.events k hk).trans (h.events k hk)
  dependencies := h'.dependencies.trans h.dependencies
  reminders := h'.reminders.trans h.reminders

theorem setItem (db : MindDb) (id : MindId) (f : MindRow → MindRow)
    (hf : ∀ r, (f r).id = r.id) : Local id db (db.setItem id f hf) where
  items := by
    intro k hk
    show (db.items.update _ f hf).get? k = _
    rw [Table.get?_update]
    cases hrow : db.items.get? k with
    | none => rfl
    | some row =>
        have hne : row.id ≠ id := by
          rw [Table.key_of_get? hrow]
          exact hk
        simp [hne]
  claims _ _ := rfl
  comments _ _ := rfl
  events _ _ := rfl
  dependencies := rfl
  reminders := rfl

theorem setClaim (db : MindDb) (id : MindId) (f : ClaimRow → ClaimRow)
    (hf : ∀ r, (f r).itemId = r.itemId) : Local id db (db.setClaim id f hf) where
  items _ _ := rfl
  claims := by
    intro k hk
    show (db.claims.update _ f hf).get? k = _
    rw [Table.get?_update]
    cases hrow : db.claims.get? k with
    | none => rfl
    | some row =>
        have hne : row.itemId ≠ id := by
          rw [Table.key_of_get? hrow]
          exact hk
        simp [hne]
  comments _ _ := rfl
  events _ _ := rfl
  dependencies := rfl
  reminders := rfl

theorem dropClaim (db : MindDb) (id : MindId) : Local id db (db.dropClaim id) where
  items _ _ := rfl
  claims := by
    intro k hk
    show (db.claims.delete _).get? k = _
    rw [Table.get?_delete]
    cases hrow : db.claims.get? k with
    | none => rfl
    | some row =>
        have hne : row.itemId ≠ id := by
          rw [Table.key_of_get? hrow]
          exact hk
        simp [hne]
  comments _ _ := rfl
  events _ _ := rfl
  dependencies := rfl
  reminders := rfl

theorem insertClaim {row : ClaimRow} {fresh : ∀ x ∈ db.claims, x.itemId ≠ row.itemId}
    (hrow : row.itemId = id) :
    Local id db { db with claims := db.claims.insert row fresh } where
  items _ _ := rfl
  claims := by
    intro k hk
    show (db.claims.insert row fresh).get? k = _
    rw [Table.get?_insert, if_neg]
    rw [hrow]
    exact hk
  comments _ _ := rfl
  events _ _ := rfl
  dependencies := rfl
  reminders := rfl

theorem addEvent (db : MindDb) (id : MindId) (actor : String) (data : MindEventData)
    (now : Time) : Local id db (db.addEvent id actor data now) where
  items _ _ := rfl
  claims _ _ := rfl
  comments _ _ := rfl
  events := by
    intro k hk
    show List.filter _ (db.events.rows ++ [_]) = _
    rw [List.filter_append]
    simp [hk.symm, MindDb.eventsOf, Table.select]
  dependencies := rfl
  reminders := rfl

theorem addComment (db : MindDb) (id : MindId) (author body : String)
    (replyToId : Option ℕ) (now : Time) :
    Local id db (db.addComment id author body replyToId now) where
  items _ _ := rfl
  claims _ _ := rfl
  comments := by
    intro k hk
    show List.filter _ (db.comments.rows ++ [_]) = _
    rw [List.filter_append]
    simp [hk.symm, MindDb.commentsOf, Table.select]
  events _ _ := rfl
  dependencies := rfl
  reminders := rfl

theorem commented (db : MindDb) (id : MindId) (body author : String) (now : Time)
    (replyToId : Option ℕ) : Local id db (db.commented id body author now replyToId) :=
  ((addComment ..).trans (setItem ..)).trans (addEvent ..)

end Local

/-- A call on one item: the row it found, the row it left, and the claim it left. -/
structure Rewrites (id : MindId) (db db' : MindDb) (row row' : MindRow)
    (claim' : Option ClaimRow) : Prop where
  frame : Local id db db'
  before : db.items.get? id = some row
  after : db'.items.get? id = some row'
  claim : db'.claims.get? id = claim'

namespace Rewrites

variable {row row' : MindRow} {c : Option ClaimRow}

theorem refl (h : db.items.get? id = some row) :
    Rewrites id db db row row (db.claims.get? id) :=
  ⟨Local.refl id db, h, h, rfl⟩

theorem setItem (h : Rewrites id db db' row row' c) (f : MindRow → MindRow)
    (hf : ∀ r, (f r).id = r.id) :
    Rewrites id db (db'.setItem id f hf) row (f row') c where
  frame := h.frame.trans (Local.setItem ..)
  before := h.before
  after := by
    show (db'.items.update _ f hf).get? id = _
    rw [Table.get?_update, h.after]
    simp [Table.key_of_get? h.after]
  claim := h.claim

theorem touch (h : Rewrites id db db' row row' c) (now : Time) :
    Rewrites id db (db'.touch id now) row { row' with updatedAt := now } c :=
  h.setItem (fun r => { r with updatedAt := now }) (fun _ => rfl)

theorem setTags (h : Rewrites id db db' row row' c) (tags : Table TagRow.key) :
    Rewrites id db { db' with tags := tags } row row' c :=
  ⟨⟨h.frame.items, h.frame.claims, h.frame.comments, h.frame.events, h.frame.dependencies,
    h.frame.reminders⟩, h.before, h.after, h.claim⟩

theorem dropClaim (h : Rewrites id db db' row row' c) :
    Rewrites id db (db'.dropClaim id) row row' none where
  frame := h.frame.trans (Local.dropClaim ..)
  before := h.before
  after := h.after
  claim := by
    show (db'.claims.delete _).get? id = none
    rw [Table.get?_delete]
    cases hc : db'.claims.get? id with
    | none => rfl
    | some held => simp [Table.key_of_get? hc]

theorem setClaim {held : ClaimRow} (h : Rewrites id db db' row row' (some held))
    (f : ClaimRow → ClaimRow) (hf : ∀ r, (f r).itemId = r.itemId) :
    Rewrites id db (db'.setClaim id f hf) row row' (some (f held)) where
  frame := h.frame.trans (Local.setClaim ..)
  before := h.before
  after := h.after
  claim := by
    show (db'.claims.update _ f hf).get? id = _
    rw [Table.get?_update, h.claim]
    simp [Table.key_of_get? h.claim]

theorem insertClaim (h : Rewrites id db db' row row' c) (held : ClaimRow)
    (hid : held.itemId = id) {fresh : ∀ x ∈ db'.claims, x.itemId ≠ held.itemId} :
    Rewrites id db { db' with claims := db'.claims.insert held fresh } row row'
      (some held) where
  frame := h.frame.trans (Local.insertClaim hid)
  before := h.before
  after := h.after
  claim := by
    show (db'.claims.insert held fresh).get? id = _
    rw [Table.get?_insert, if_pos hid.symm]

theorem addEvent (h : Rewrites id db db' row row' c) (actor : String)
    (data : MindEventData) (now : Time) :
    Rewrites id db (db'.addEvent id actor data now) row row' c :=
  ⟨h.frame.trans (Local.addEvent ..), h.before, h.after, h.claim⟩

theorem commented (h : Rewrites id db db' row row' c) (body author : String) (now : Time)
    (replyToId : Option ℕ) :
    Rewrites id db (db'.commented id body author now replyToId) row
      { row' with updatedAt := now } c :=
  have h₁ : Rewrites id db (db'.addComment id author (Js.trim body) replyToId now) row row' c :=
    ⟨h.frame.trans (Local.addComment ..), h.before, h.after, h.claim⟩
  (h₁.touch now).addEvent ..

end Rewrites

/-! ## Claims -/

/-- The row of a claim that starts now. -/
def freshClaim (id : MindId) (opts : MindClaimOptions) (ttl : ℤ) (now : Time) : ClaimRow :=
  ⟨id, Js.trim opts.owner, Js.trim opts.principal, now, now, now + ttl⟩

theorem startClaim_ok {db₀ : MindDb}
    {row row' : MindRow} {c : Option ClaimRow} (hr : Rewrites id db₀ db row row' c)
    (h : startClaim id opts ttl now db = (.ok v, db')) :
    Rewrites id db₀ db' row
      { row' with status := .inProgress, closedAt := none, updatedAt := now }
      (some (freshClaim id opts ttl now)) := by
  simp only [startClaim, Tx.bind_ok, insertClaim_ok, updateItem_ok] at h
  obtain ⟨_, _, ⟨_, fresh, rfl⟩, _, rfl⟩ := h
  exact (hr.insertClaim (freshClaim id opts ttl now) rfl).setItem _ _

/-- What `claim` asks of the item. -/
def MindDb.claimable (db : MindDb) (id : MindId) (row : MindRow) : Prop :=
  db.executable id row ∧ (row.status = .open ∨ row.status = .inProgress) ∧
    db.unresolvedDependencyCount id = 0

/-- A claim either renews one its principal holds, or starts where none is
unexpired. -/
theorem claimBody_ok
    (h : claimBody id opts ttl now db = (.ok v, db')) :
    ∃ row, db.claimable id row ∧
      ((∃ held, db.claims.get? id = some held ∧ now < held.expiresAt ∧
          held.principal = opts.principal ∧
          Rewrites id db db' row row (some { held with
            owner := Js.trim opts.owner, renewedAt := now, expiresAt := now + ttl })) ∨
        ((∀ held, db.claims.get? id = some held → held.expiresAt ≤ now) ∧
          Rewrites id db db' row
            { row with status := .inProgress, closedAt := none, updatedAt := now }
            (some (freshClaim id opts ttl now)))) := by
  simp only [claimBody, Tx.bind_ok, requireExecutableTask_ok, Tx.ensure_ok, Tx.read_ok] at h
  obtain ⟨row, _, ⟨hex, rfl⟩, _, _, ⟨hstatus, rfl⟩, _, _, ⟨rfl, rfl⟩, _, _, ⟨hun, rfl⟩, _, _,
    ⟨rfl, rfl⟩, h⟩ := h
  refine ⟨row, ⟨hex, hstatus, hun⟩, ?_⟩
  have hrow := Rewrites.refl hex.1
  cases hheld : db.claims.get? id with
  | none =>
      rw [hheld] at h
      simp only [Tx.bind_ok, Tx.ensure_ok, addCommentInternal_ok, event_ok] at h
      obtain ⟨_, _, ⟨_, rfl⟩, _, _, hstart, _, _, ⟨_, rfl⟩, rfl⟩ := h
      refine Or.inr ⟨?_, ((startClaim_ok hrow hstart).commented ..).addEvent ..⟩
      intro held hheld'
      cases hheld'
  | some held =>
      rw [hheld] at h hrow
      by_cases hexp : now < held.expiresAt
      · simp only [if_pos hexp, Tx.bind_ok, Tx.ensure_ok, Tx.write_ok, event_ok] at h
        obtain ⟨_, _, ⟨hp, rfl⟩, _, _, rfl, rfl⟩ := h
        exact Or.inl ⟨held, rfl, hexp, hp, (hrow.setClaim _ _).addEvent ..⟩
      · simp only [if_neg hexp, Tx.bind_ok, Tx.write_ok, addCommentInternal_ok, event_ok] at h
        obtain ⟨_, _, rfl, _, _, ⟨_, rfl⟩, _, _, rfl, _, _, hstart, _, _, ⟨_, rfl⟩, rfl⟩ := h
        have hdrop := (hrow.dropClaim.commented
          ("MCP claim by " ++ held.owner ++ " expired; item became reclaimable.") "system" now
          none).addEvent "system" (.claimExpired held.owner held.expiresAt) now
        refine Or.inr ⟨?_, ((startClaim_ok hdrop hstart).commented ..).addEvent ..⟩
        intro held' hheld'
        cases hheld'
        exact not_lt.mp hexp

theorem resumeClaimBody_ok
    (h : resumeClaimBody id opts ttl now db = (.ok v, db')) :
    ∃ row, db.executable id row ∧ row.status = .waiting ∧
      db.unresolvedDependencyCount id = 0 ∧
      (∀ held, db.claims.get? id = some held → held.expiresAt ≤ now) ∧
      Rewrites id db db' row
        { row with status := .inProgress, closedAt := none, updatedAt := now }
        (some (freshClaim id opts ttl now)) := by
  simp only [resumeClaimBody, Tx.bind_ok, requireExecutableTask_ok, Tx.ensure_ok, Tx.read_ok,
    Tx.write_ok, addCommentInternal_ok, event_ok] at h
  obtain ⟨row, _, ⟨hex, rfl⟩, _, _, ⟨hstatus, rfl⟩, _, _, ⟨rfl, rfl⟩, _, _, ⟨hun, rfl⟩, _, _,
    ⟨rfl, rfl⟩, _, _, ⟨hexp, rfl⟩, _, _, rfl, _, _, hstart, _, _, ⟨_, rfl⟩, rfl⟩ := h
  refine ⟨row, hex, hstatus, hun, ?_, ?_⟩
  · intro held hheld
    rw [hheld] at hexp
    simpa using hexp
  · exact ((startClaim_ok (Rewrites.refl hex.1).dropClaim hstart).commented ..).addEvent ..

theorem renewClaimBody_ok {principal : String}
    (h : renewClaimBody id principal ttl now db = (.ok v, db')) :
    ∃ row held, db.executable id row ∧ db.heldBy id principal now held ∧
      Rewrites id db db' row { row with updatedAt := now }
        (some { held with renewedAt := now, expiresAt := now + ttl }) := by
  simp only [renewClaimBody, Tx.bind_ok, requireExecutableTask_ok, requireHeldClaim_ok,
    Tx.write_ok, event_ok] at h
  obtain ⟨row, _, ⟨hex, rfl⟩, held, _, ⟨hheld, rfl⟩, _, _, rfl, _, _, rfl, rfl⟩ := h
  have hrow := Rewrites.refl hex.1
  rw [hheld.1] at hrow
  exact ⟨row, held, hex, hheld,
    ((hrow.setClaim _ _).touch now).addEvent ..⟩

theorem releaseClaimBody_ok {principal note : String} {status : ReleaseStatus}
    (h : releaseClaimBody id principal status note now db = (.ok v, db')) :
    ∃ row held, db.executable id row ∧ db.claims.get? id = some held ∧
      held.principal = Js.trim principal ∧
      Rewrites id db db' row
        { row with status := status.toStatus, closedAt := none, updatedAt := now } none := by
  simp only [releaseClaimBody, Tx.bind_ok, requireExecutableTask_ok, Tx.read_ok,
    Tx.require_ok, Tx.ensure_ok, Tx.write_ok, updateItem_ok, addCommentInternal_ok,
    event_ok] at h
  obtain ⟨row, _, ⟨hex, rfl⟩, _, _, ⟨rfl, rfl⟩, held, _, ⟨hheld, rfl⟩, _, _, ⟨hp, rfl⟩, _, _,
    rfl, _, _, ⟨_, rfl⟩, _, _, ⟨_, rfl⟩, rfl⟩ := h
  exact ⟨row, held, hex, hheld, hp,
    (((Rewrites.refl hex.1).dropClaim.setItem _ _).commented ..).addEvent ..⟩

theorem logClaimBody_ok {principal owner body : String} {kind : MindLogKind} (h : logClaimBody id principal owner kind body ttl now db = (.ok v, db')) :
    ∃ row held, db.executable id row ∧ db.heldBy id principal now held ∧
      Rewrites id db db' row { row with updatedAt := now }
        (some { held with
          owner := Js.trim owner, renewedAt := now, expiresAt := now + ttl }) := by
  simp only [logClaimBody, Tx.bind_ok, requireExecutableTask_ok, requireHeldClaim_ok,
    addCommentInternal_ok, Tx.write_ok, event_ok] at h
  obtain ⟨row, _, ⟨hex, rfl⟩, held, _, ⟨hheld, rfl⟩, _, _, ⟨_, rfl⟩, _, _, rfl, rfl⟩ := h
  have hrow := Rewrites.refl hex.1
  rw [hheld.1] at hrow
  exact ⟨row, held, hex, hheld, ((hrow.commented ..).setClaim _ _).addEvent ..⟩

theorem finishClaimBody_ok {principal owner body : String}
    (h : finishClaimBody id principal owner body now db = (.ok v, db')) :
    ∃ row held, db.executable id row ∧ db.heldBy id principal now held ∧
      db.unresolvedDependencyCount id = 0 ∧
      Rewrites id db db' row
        { row with status := .done, closedAt := some now, updatedAt := now } none := by
  simp only [finishClaimBody, Tx.bind_ok, requireExecutableTask_ok, requireHeldClaim_ok,
    Tx.read_ok, Tx.ensure_ok, addCommentInternal_ok, Tx.write_ok, updateItem_ok,
    event_ok] at h
  obtain ⟨row, _, ⟨hex, rfl⟩, held, _, ⟨hheld, rfl⟩, _, _, ⟨rfl, rfl⟩, _, _, ⟨hun, rfl⟩, _, _,
    ⟨_, rfl⟩, _, _, rfl, _, _, ⟨_, rfl⟩, rfl⟩ := h
  exact ⟨row, held, hex, hheld, hun,
    (((Rewrites.refl hex.1).commented ..).dropClaim.setItem _ _).addEvent ..⟩

/-! The methods around these transactions check their arguments first and read the
item back afterwards. -/

theorem claim_ok
    (h : claim id opts clock db = (.ok d, db')) :
    ∃ ttl, claimTtl opts.ttlMs = .ok ttl ∧
      claimBody id opts ttl clock.now db = (.ok (), db') := by
  simp only [claim, Tx.bind_ok, assertText_ok, Tx.ofExcept_ok, Tx.transaction_ok,
    Tx.read_ok] at h
  obtain ⟨_, _, ⟨_, rfl⟩, _, _, ⟨_, rfl⟩, _, _, ⟨_, rfl⟩, ttl, _, ⟨httl, rfl⟩, _, _, h, _, rfl⟩ := h
  exact ⟨ttl, httl, h⟩

theorem resumeClaim_ok
    (h : resumeClaim id opts clock db = (.ok d, db')) :
    ∃ ttl, claimTtl opts.ttlMs = .ok ttl ∧
      resumeClaimBody id opts ttl clock.now db = (.ok (), db') := by
  simp only [resumeClaim, Tx.bind_ok, assertText_ok, Tx.ofExcept_ok, Tx.transaction_ok,
    Tx.read_ok] at h
  obtain ⟨_, _, ⟨_, rfl⟩, _, _, ⟨_, rfl⟩, _, _, ⟨_, rfl⟩, ttl, _, ⟨httl, rfl⟩, _, _, h, _, rfl⟩ := h
  exact ⟨ttl, httl, h⟩

theorem renewClaim_ok {principal : String} {ttlMs : Option Js.Num} (h : renewClaim id principal ttlMs clock db = (.ok d, db')) :
    ∃ ttl, claimTtl ttlMs = .ok ttl ∧
      renewClaimBody id principal ttl clock.now db = (.ok (), db') := by
  simp only [renewClaim, Tx.bind_ok, assertText_ok, Tx.ofExcept_ok, Tx.transaction_ok,
    Tx.read_ok] at h
  obtain ⟨_, _, ⟨_, rfl⟩, ttl, _, ⟨httl, rfl⟩, _, _, h, _, rfl⟩ := h
  exact ⟨ttl, httl, h⟩

theorem releaseClaim_ok {principal note : String} {status : ReleaseStatus}
    (h : releaseClaim id principal status note clock db = (.ok d, db')) :
    releaseClaimBody id principal status note clock.now db = (.ok (), db') := by
  simp only [releaseClaim, Tx.bind_ok, assertText_ok, Tx.transaction_ok, Tx.read_ok] at h
  obtain ⟨_, _, ⟨_, rfl⟩, _, _, ⟨_, rfl⟩, _, _, h, _, rfl⟩ := h
  exact h

theorem logClaim_ok {principal owner kind body : String} {ttlMs : Option Js.Num}
    (h : logClaim id principal owner kind body ttlMs clock db = (.ok d, db')) :
    ∃ k ttl, assertLogKind kind = .ok k ∧ claimTtl ttlMs = .ok ttl ∧
      logClaimBody id principal owner k body ttl clock.now db = (.ok (), db') := by
  simp only [logClaim, Tx.bind_ok, assertText_ok, Tx.ofExcept_ok, Tx.transaction_ok,
    Tx.read_ok] at h
  obtain ⟨_, _, ⟨_, rfl⟩, _, _, ⟨_, rfl⟩, _, _, ⟨_, rfl⟩, k, _, ⟨hk, rfl⟩, ttl, _, ⟨httl, rfl⟩, _,
    _, h, _, rfl⟩ := h
  exact ⟨k, ttl, hk, httl, h⟩

theorem finishClaim_ok {principal owner result verification omissions : String}
    (h : finishClaim id principal owner result verification omissions clock db = (.ok d, db')) :
    finishClaimBody id principal owner (completionRecord result verification omissions)
      clock.now db = (.ok (), db') := by
  simp only [finishClaim, Tx.bind_ok, assertText_ok, Tx.transaction_ok, Tx.read_ok] at h
  obtain ⟨_, _, ⟨_, rfl⟩, _, _, ⟨_, rfl⟩, _, _, ⟨_, rfl⟩, _, _, ⟨_, rfl⟩, _, _, ⟨_, rfl⟩, _, _,
    ⟨_, rfl⟩, _, _, h, _, rfl⟩ := h
  exact h

theorem expireClaims_ok {ids : List MindId}
    (h : expireClaims now db = (.ok ids, db')) :
    Tx.forEach (expireOne now) (db.expiredClaims now) db = (.ok (), db') := by
  simp only [expireClaims, Tx.transaction_ok, Tx.bind_ok, Tx.read_ok, Tx.pure_ok] at h
  obtain ⟨_, _, ⟨rfl, rfl⟩, _, _, hloop, _, rfl⟩ := h
  exact hloop

/-- An iteration of the expiry loop concerns one item. -/
theorem expireOne_local {claim : ClaimRow}
    (h : expireOne now claim db = (.ok v, db')) : Local claim.itemId db db' := by
  simp only [expireOne, Tx.bind_ok, Tx.write_ok, updateItem_ok, addCommentInternal_ok,
    event_ok] at h
  obtain ⟨_, _, rfl, _, _, ⟨_, rfl⟩, _, _, ⟨_, rfl⟩, rfl⟩ := h
  exact (((Local.dropClaim ..).trans (Local.setItem ..)).trans (Local.commented ..)).trans
    (Local.addEvent ..)

theorem expireOne_ok {claim : ClaimRow} {row : MindRow}
    (hrow : db.items.get? claim.itemId = some row)
    (h : expireOne now claim db = (.ok v, db')) :
    Rewrites claim.itemId db db' row
      { row with
        status := if row.status = .inProgress then .open else row.status
        updatedAt := now } none := by
  simp only [expireOne, Tx.bind_ok, Tx.write_ok, updateItem_ok, addCommentInternal_ok,
    event_ok] at h
  obtain ⟨_, _, rfl, _, _, ⟨_, rfl⟩, _, _, ⟨_, rfl⟩, rfl⟩ := h
  exact (((Rewrites.refl hrow).dropClaim.setItem _ _).commented ..).addEvent ..

theorem mem_expiredClaims {claim : ClaimRow} :
    claim ∈ db.expiredClaims now ↔ claim ∈ db.claims ∧ claim.expiresAt ≤ now := by
  unfold MindDb.expiredClaims
  rw [mem_orderBy, Table.mem_select, decide_eq_true_eq]

/-! ## Updating -/

/-- What the checks of `update` leave for its transaction to rely on. -/
structure Checked (db : MindDb) (id : MindId) (current : MindStatus)
    (changed : ChangedFields) : Prop where
  status : ∀ s, changed.status = some s → assertStatusTransition current s = .ok ()
  dueAt : ∀ q, changed.dueAt = some (some q) → changed.status.getD current ≠ .proposal
  parentId : ∀ p, changed.parentId = some (some p) →
    id ≠ p ∧ db.exists p = true ∧ db.parentCycle id p = false

theorem checkParent_ok {parentId : Option MindId} {p : Option MindId}
    (h : Tx.onSome parentId (fun parent => do
      requireId parent
      assertNoParentCycle id parent
      pure parent) db = (.ok p, db')) :
    db' = db ∧ ∀ q, p = some q → id ≠ q ∧ db.exists q = true ∧ db.parentCycle id q = false := by
  simp only [Tx.onSome_ok, assertNoParentCycle, Tx.bind_ok, requireId_ok, Tx.ensure_ok,
    Tx.read_ok, Tx.pure_ok] at h
  rcases h with ⟨_, rfl, rfl⟩ | ⟨q, _, _, rfl, _, _, ⟨hq, rfl⟩, _, _, ⟨_, _, ⟨hne, rfl⟩, _, _,
    ⟨rfl, rfl⟩, hcycle, rfl⟩, rfl, rfl⟩
  · exact ⟨rfl, fun q hq => by cases hq⟩
  · refine ⟨rfl, ?_⟩
    rintro _ ⟨⟩
    exact ⟨hne, hq.2, hcycle⟩

theorem assertDueAt_some {dueAt : Option Js.Num} {q : ℚ}
    (h : assertDueAt dueAt = .ok (some q)) : dueAt.isSome = true := by
  cases dueAt with
  | none => cases h
  | some n => rfl

theorem checkPatch_ok {u : Js.Unicode} {current : MindStatus} {patch : UpdateMindItem} (h : checkPatch u id current patch db = (.ok changed, db')) :
    db' = db ∧ Checked db id current changed := by
  simp only [checkPatch, Tx.bind_ok, Tx.pure_ok] at h
  obtain ⟨title, db₁, htitle, body, db₂, hbody, kind, db₃, hkind, status, db₄, hstatus, priority,
    db₅, hpriority, dueAt, db₆, hdue, parentId, db₇, hparent, tags, db₈, htags, rfl, rfl⟩ := h
  -- no check writes, so the nine databases are one
  obtain rfl : db = db₁ := by
    simp only [Tx.onSome_ok, Tx.bind_ok, assertText_ok, Tx.pure_ok] at htitle
    grind
  obtain rfl : db = db₂ := by
    simp only [Tx.onSome_ok, Tx.bind_ok, assertText_ok, Tx.pure_ok] at hbody
    grind
  obtain rfl : db = db₃ := by
    simp only [Tx.onSome_ok, Tx.ofExcept_ok] at hkind
    grind
  obtain ⟨rfl, hs⟩ : db = db₄ ∧
      ∀ s, status = some s → assertStatusTransition current s = .ok () := by
    simp only [Tx.onSome_ok, Tx.bind_ok, Tx.ofExcept_ok, Tx.pure_ok] at hstatus
    grind
  obtain rfl : db = db₅ := by
    simp only [Tx.onSome_ok, Tx.ofExcept_ok] at hpriority
    grind
  obtain ⟨rfl, hd⟩ : db = db₆ ∧
      ∀ q, dueAt = some (some q) → status.getD current ≠ .proposal := by
    simp only [Tx.onSome_ok, Tx.bind_ok, Tx.ensure_ok, Tx.ofExcept_ok] at hdue
    rcases hdue with ⟨_, rfl, rfl⟩ | ⟨d, d', _, rfl, _, _, ⟨hd, rfl⟩, hd', rfl⟩
    · exact ⟨rfl, fun q hq => by cases hq⟩
    · refine ⟨rfl, ?_⟩
      rintro q ⟨⟩ hp
      exact hd ⟨hp, assertDueAt_some hd'⟩
  obtain ⟨rfl, hp⟩ : db₇ = db ∧ ∀ p, parentId = some (some p) →
      id ≠ p ∧ db.exists p = true ∧ db.parentCycle id p = false := by
    rcases Tx.onSome_ok.mp hparent with ⟨_, rfl, rfl⟩ | ⟨_, p, _, rfl, hq⟩
    · exact ⟨rfl, fun p hp => by cases hp⟩
    · obtain ⟨rfl, hq⟩ := checkParent_ok hq
      exact ⟨rfl, fun q hpq => hq q (Option.some.inj hpq)⟩
  obtain rfl : db₇ = db₈ := by
    simp only [Tx.onSome_ok, Tx.bind_ok, Tx.ofExcept_ok, Tx.pure_ok] at htags
    grind
  exact ⟨rfl, hs, hd, hp⟩

theorem insertTags_ok {tags : List String}
    (h : Tx.forEach (insertTag id) tags db = (.ok v, db')) :
    ∃ ts, db' = { db with tags := ts } := by
  refine Tx.forEach_inv (I := fun s : MindDb => ∃ ts, s = { db with tags := ts }) ?_ ⟨db.tags, rfl⟩ h
  rintro tag _ s s' _ ⟨ts, rfl⟩ hins
  obtain ⟨fresh, rfl⟩ := insertTag_ok.mp hins
  exact ⟨_, rfl⟩

theorem revokeClaim_ok {db₀ : MindDb} {row row' : MindRow} {c : Option ClaimRow} {data : String → MindEventData}
    (hr : Rewrites id db₀ db row row' c)
    (h : revokeClaim id actor data now db = (.ok v, db')) :
    Rewrites id db₀ db' row row' none := by
  simp only [revokeClaim, Tx.bind_ok, Tx.read_ok, Tx.onSome_ok, Tx.write_ok, event_ok,
    Tx.pure_ok] at h
  obtain ⟨_, _, ⟨hclaim, rfl⟩, _, _, h, _, rfl⟩ := h
  rcases h with ⟨rfl, _, rfl⟩ | ⟨held, _, _, _, _, _, rfl, rfl⟩
  · have hc := hr.claim
    rw [hclaim] at hc
    exact hc ▸ hr
  · exact hr.dropClaim.addEvent ..

/-- A row with another `updated_at`. -/
def MindRow.touched (row : MindRow) (t : Time) : MindRow := { row with updatedAt := t }

/-- Without a column in the patch, patching changes nothing but the time. -/
theorem MindRow.patched_of_setsColumn
    (h : changed.setsColumn = false) (row : MindRow) :
    row.patched changed clock = row.touched clock.now := by
  simp only [ChangedFields.setsColumn, Bool.or_eq_false_iff, Option.isSome_eq_false_iff,
    Option.isNone_iff_eq_none] at h
  obtain ⟨⟨⟨⟨⟨⟨ht, hb⟩, hk⟩, hs⟩, hp⟩, hd⟩, hpa⟩ := h
  simp [MindRow.patched, MindRow.touched, ht, hb, hk, hs, hp, hd, hpa]

theorem updateBody_ok {before : ItemSnapshot} {row : MindRow} (hrow : db.items.get? id = some row)
    (h : updateBody id actor before changed clock db = (.ok v, db')) :
    (changed.setsColumn = true → db.accepts
        ⟨changed.status.isSome, changed.dueAt.isSome, changed.parentId.isSome⟩ row
        (row.patched changed clock)) ∧
      ∃ t, Rewrites id db db' row ((row.patched changed clock).touched t)
        (if changed.endsClaim then none else db.claims.get? id) := by
  simp only [updateBody, Tx.bind_ok] at h
  obtain ⟨_, db₁, hset, _, db₂, htags, _, db₃, hrevoke, hevent⟩ := h
  obtain ⟨hacc, t₁, h₁⟩ : (changed.setsColumn = true → db.accepts
        ⟨changed.status.isSome, changed.dueAt.isSome, changed.parentId.isSome⟩ row
        (row.patched changed clock)) ∧
      ∃ t, Rewrites id db db₁ row ((row.patched changed clock).touched t)
        (db.claims.get? id) := by
    rcases Tx.when_ok.mp hset with ⟨_, hset⟩ | ⟨hcol, rfl⟩
    · obtain ⟨hacc, rfl⟩ := updateItem_ok.mp hset
      exact ⟨fun _ => hacc row hrow, clock.now, (Rewrites.refl hrow).setItem _ _⟩
    · refine ⟨fun hc => absurd hc hcol, row.updatedAt, ?_⟩
      rw [MindRow.patched_of_setsColumn (Bool.eq_false_iff.mpr hcol)]
      exact Rewrites.refl hrow
  obtain ⟨t₂, h₂⟩ : ∃ t, Rewrites id db db₂ row
      ((row.patched changed clock).touched t) (db.claims.get? id) := by
    rcases Tx.onSome_ok.mp htags with ⟨_, _, rfl⟩ | ⟨tags, _, _, _, hrep⟩
    · exact ⟨t₁, h₁⟩
    · simp only [replaceTags, Tx.bind_ok, Tx.write_ok] at hrep
      obtain ⟨_, _, rfl, _, _, hins, rfl⟩ := hrep
      obtain ⟨ts, rfl⟩ := insertTags_ok hins
      exact ⟨clock.now, (h₁.setTags ts).touch clock.now⟩
  have h₃ : Rewrites id db db₃ row ((row.patched changed clock).touched t₂)
      (if changed.endsClaim then none else db.claims.get? id) := by
    rcases Tx.when_ok.mp hrevoke with ⟨hends, hrevoke⟩ | ⟨hends, rfl⟩
    · rw [if_pos hends]
      exact revokeClaim_ok h₂ hrevoke
    · rw [if_neg hends]
      exact h₂
  refine ⟨hacc, t₂, ?_⟩
  rcases Tx.when_ok.mp hevent with ⟨_, hevent⟩ | ⟨_, rfl⟩
  · rw [event_ok] at hevent
    subst hevent
    exact h₃.addEvent ..
  · exact h₃

/-! ## Dependencies and new items -/

theorem addDependencyInternal_ok {dependsOnId : MindId}
    (h : addDependencyInternal actor now id dependsOnId db = (.ok v, db')) :
    db.linkable ⟨id, dependsOnId, actor, now⟩ ∧ id ≠ dependsOnId ∧
      db.dependencyCycle id dependsOnId = false ∧
      (db' = db ∨ ∃ fresh, db' = { db with
          dependencies := db.dependencies.insert ⟨id, dependsOnId, actor, now⟩ fresh }.addEvent
        id actor (.dependencyAdded dependsOnId) now) := by
  simp only [addDependencyInternal, Tx.bind_ok, Tx.read_ok, Tx.ensure_ok,
    insertDependency_ok] at h
  obtain ⟨_, _, ⟨rfl, rfl⟩, _, _, ⟨_, rfl⟩, _, _, ⟨hne, rfl⟩, _, _, ⟨rfl, rfl⟩, _, _,
    ⟨hcycle, rfl⟩, added, _, ⟨hlink, hadded⟩, h⟩ := h
  refine ⟨hlink, hne, hcycle, ?_⟩
  rcases hadded with ⟨rfl, _, rfl⟩ | ⟨rfl, fresh, rfl⟩
  · rcases Tx.when_ok.mp h with ⟨hfalse, _⟩ | ⟨_, rfl⟩
    · cases hfalse
    · exact Or.inl rfl
  · rcases Tx.when_ok.mp h with ⟨_, h⟩ | ⟨hfalse, _⟩
    · exact Or.inr ⟨fresh, event_ok.mp h⟩
    · exact absurd rfl hfalse

theorem createBody_ok {row : MindId → MindRow} {tags : List String} {dependsOn : List MindId} {draws : List ℕ} {data : MindEventData} {newId : MindId}
    (h : createBody row tags dependsOn actor draws data now db = (.ok newId, db')) :
    db.exists newId = false ∧ dueGuard (row newId) = false ∧
      (row newId).parentId.all db.exists = true ∧
      ∃ fresh ts db₁ w, Tx.forEach (addDependencyInternal actor now newId) dependsOn
          { db with items := db.items.insert (row newId) fresh, tags := ts } = (.ok w, db₁) ∧
        db' = db₁.addEvent newId actor data now := by
  simp only [createBody, Tx.bind_ok, Tx.read_ok, Tx.require_ok, insertItem_ok, event_ok,
    Tx.pure_ok] at h
  obtain ⟨_, _, ⟨rfl, rfl⟩, id, _, ⟨hdraw, rfl⟩, _, _, ⟨hdue, hparent, fresh, rfl⟩, _, _, htags,
    w, db₁, hdeps, _, _, rfl, rfl, rfl⟩ := h
  obtain ⟨ts, rfl⟩ := insertTags_ok htags
  exact ⟨drawMindId_free hdraw, hdue, hparent, fresh, ts, db₁, w, hdeps, rfl⟩

end Elpis.Mind
