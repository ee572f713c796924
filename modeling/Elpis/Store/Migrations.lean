import Elpis.Js.Order
import Elpis.Lib.Crash
import Elpis.Lib.Run

/-!
# Migrations and their receipts

`src/store/migrations.ts`: a component declares its migrations in a list, and a table keeps
one receipt for each that was applied. A migration and its receipt are written in one
transaction, so a process that dies leaves both or neither. The database is `δ` and what
migrations do to it is a function that may throw; the digest and SQLite are parameters.
-/

namespace Elpis.Store.Migrations

open Elpis.Js Elpis.Lib

/-! ## Data -/

/-- What `up` does: it throws, or leaves a database and returns, maybe a promise. -/
structure Up (δ : Type) where
  isAsync : Bool
  run : δ → Except String (δ × Bool)

/-- `Migration`, as it is declared: its own property names, and those of its values that have
the type they should. -/
structure Migration (δ : Type) where
  keys : List String
  name : Option String
  sql : Option String
  checksum : Option String
  up : Option (Up δ)

structure NormalizedMigration (δ : Type) where
  name : String
  checksum : String
  up : δ → Except String (δ × Bool)

structure Receipt where
  component : String
  name : String
  checksum : String
  appliedAt : String
deriving DecidableEq, Repr

/-- The database and the table `elpis_migrations`, in the order of its rows' insertion. -/
structure Database (δ : Type) where
  content : δ
  receipts : List Receipt

structure MigrationRunResult where
  component : String
  existing : List String
  applied : List String
deriving DecidableEq, Repr

/-- What is outside: the digest, `exec`, and for each migration by its name: the clock when it is
recorded, and what SQLite throws at the beginning of its transaction, and behind its `up`. -/
structure Env (δ : Type) where
  sha256 : String → String
  exec : String → δ → Except String δ
  now : String → String
  beginFails : String → Option String
  commitFails : String → Option String

/-! ## Checks -/

def nameStart (c : Char) : Bool := c.isAlphanum

def nameRest (c : Char) : Bool := c.isAlphanum || c == '.' || c == '_' || c == '-'

/-- `NAME_PATTERN`. -/
def isName (s : String) : Bool :=
  match s.toList with
  | [] => false
  | c :: cs => nameStart c && decide (cs.length ≤ 127) && cs.all nameRest

/-- `CHECKSUM_PATTERN`. -/
def isChecksum (s : String) : Bool := s.toList.length == 64 && s.toList.all hexClass

/-- `COMPONENT_PATTERN`. -/
def isComponent (s : String) : Bool :=
  s == "core" ||
    match "extension:".toList.isPrefixOf? s.toList with
    | some (c :: cs) => (c.isAlpha || c == '_') && cs.all Char.isAlphanum
    | _ => false

def namePattern : String := "/^[A-Za-z0-9][A-Za-z0-9._-]\x7b0,127\x7d$/"

def componentPattern : String := "/^(?:core|extension:[A-Za-z_][A-Za-z0-9]*)$/"

section Normalize
variable {δ : Type} (env : Env δ)

/-- `normalizeMigration`; `null`, an array or no object is `none`. -/
def normalizeMigration (value : Option (Migration δ)) (index : ℕ) : Except String (NormalizedMigration δ) :=
  match value with
  | none => .error s!"migration[{index}] must be an object"
  | some m =>
      match m.name.filter isName with
      | none => .error s!"migration[{index}].name must match {namePattern}"
      | some name =>
          let hasSql := decide ("sql" ∈ m.keys)
          let hasUp := decide ("up" ∈ m.keys)
          if hasSql = hasUp then .error s!"migration {name} must define exactly one of sql or up"
          else
            let allowed := if hasSql then ["name", "sql"] else ["name", "checksum", "up"]
            -- an empty name is no error, and hides the others
            match (m.keys.find? (fun key => decide (key ∉ allowed))).filter (fun key => decide (key ≠ "")) with
            | some unknown => .error s!"migration {name} contains unknown field {unknown}"
            | none =>
                if hasSql then
                  match m.sql.filter (fun sql => decide (trim sql ≠ "")) with
                  | none => .error s!"migration {name}.sql must be a non-empty string"
                  | some sql => .ok ⟨name, env.sha256 sql, fun d => (env.exec sql d).map (fun d' => (d', false))⟩
                else
                  match m.up with
                  | none => .error s!"migration {name}.up must be a function"
                  | some up =>
                      if up.isAsync = true then .error s!"migration {name}.up must be synchronous"
                      else
                        match m.checksum.filter isChecksum with
                        | none => .error s!"migration {name}.checksum must be a lowercase SHA-256 hex string"
                        | some checksum => .ok ⟨name, checksum, up.run⟩

/-- `migrations.map(normalizeMigration)`, from this index on. -/
def normalizeFrom : ℕ → List (Option (Migration δ)) → Except String (List (NormalizedMigration δ))
  | _, [] => .ok []
  | index, value :: rest => do
      let m ← normalizeMigration env value index
      let ms ← normalizeFrom (index + 1) rest
      .ok (m :: ms)

/-- Each name stands before the next one, in the order of their code units. -/
def StrictlySorted (names : List String) : Prop := names.IsChain (fun a b => codeUnits a < codeUnits b)

instance decidableStrictlySorted (names : List String) : Decidable (StrictlySorted names) :=
  inferInstanceAs (Decidable (names.IsChain _))

end Normalize

/-! ## Running -/

section Run
variable {δ : Type}

abbrev Method (δ α : Type) := Crash (Database δ) Unit String α

def Receipt.belongs (component : String) (r : Receipt) : Bool := decide (r.component = component)

/-- `SELECT name, checksum … WHERE component = ? ORDER BY name`. -/
def Database.applied (component : String) (db : Database δ) : List Receipt :=
  (db.receipts.filter (Receipt.belongs component)).insertionSort (fun a b => codeUnits a.name ≤ codeUnits b.name)

/-- The history has to be a prefix of what is declared. -/
def checkHistory (component : String) : List Receipt → List (NormalizedMigration δ) → Except String Unit
  | [], _ => .ok ()
  | receipt :: _, [] =>
      .error s!"migration history for {component} is not an exact declared prefix at {receipt.name}"
  | receipt :: receipts, declared :: rest =>
      if receipt.name ≠ declared.name then
        .error s!"migration history for {component} is not an exact declared prefix at {receipt.name}"
      else if receipt.checksum ≠ declared.checksum then
        .error s!"migration checksum drift for {component}/{receipt.name}"
      else checkHistory component receipts rest

/-- The row of a migration that was applied. -/
def NormalizedMigration.receipt (component now : String) (m : NormalizedMigration δ) : Receipt :=
  ⟨component, m.name, m.checksum, now⟩

/-- One transaction: `BEGIN IMMEDIATE`, the migration, its receipt and `COMMIT`. What it throws is
rolled back. -/
def applyMigration (env : Env δ) (component : String) (m : NormalizedMigration δ) : Method δ Unit := do
  let failed (error : String) : String := s!"migration {component}/{m.name} failed: {error}"
  Crash.onSome (env.beginFails m.name) Crash.throw
  let db ← Crash.read (fun db _ => db)
  let (content, thenable) ← Crash.ofExcept ((m.up db.content).mapError failed)
  Crash.when (thenable = true) (Crash.throw (failed "code migrations must be synchronous"))
  Crash.when (∃ r ∈ db.receipts, r.component = component ∧ r.name = m.name)
    (Crash.throw (failed "UNIQUE constraint failed: elpis_migrations.component, elpis_migrations.name"))
  Crash.onSome (env.commitFails m.name) (fun error => Crash.throw (failed error))
  Crash.write (fun db => ⟨content, db.receipts ++ [m.receipt component (env.now m.name)]⟩)

def runComponentMigrations (env : Env δ) (component : String) (migrations : List (Option (Migration δ))) :
    Method δ MigrationRunResult := do
  Crash.when (isComponent component = false)
    (Crash.throw s!"migration component must match {componentPattern}")
  let normalized ← Crash.ofExcept (normalizeFrom env 0 migrations)
  Crash.when (¬StrictlySorted (normalized.map NormalizedMigration.name))
    (Crash.throw s!"migrations for {component} must be strictly sorted by unique name")
  let applied ← Crash.read (fun db _ => db.applied component)
  Crash.when (normalized.length < applied.length)
    (Crash.throw s!"migration history for {component} contains undeclared entries")
  Crash.ofExcept (checkHistory component applied normalized)
  let missing := normalized.drop applied.length
  Crash.forEach (applyMigration env component) missing
  return ⟨component, applied.map Receipt.name, missing.map NormalizedMigration.name⟩

/-! ## Processes -/

/-- A process that migrates a component, and may die in it. -/
structure Call (δ : Type) where
  env : Env δ
  component : String
  migrations : List (Option (Migration δ))
  budget : Option ℕ

/-- The call of the process, with what is left behind. -/
def Call.exec (c : Call δ) (db : Database δ) : Outcome Unit String MigrationRunResult × Database δ :=
  runComponentMigrations c.env c.component c.migrations c.budget db ()

def step (db : Database δ) (c : Call δ) : Database δ := (c.exec db).2

/-- A database that no migration has touched. -/
def Database.new (content : δ) : Database δ := ⟨content, []⟩

end Run

/-! ## What the receipts say -/

/-- A migration that was committed, with its row. -/
structure Committed (δ : Type) where
  receipt : Receipt
  up : δ → Except String (δ × Bool)

section History
variable {δ : Type} {d₀ : δ} {db : Database δ} {component : String} {P : Committed δ → Prop}

/-- The content that these migrations lead to, one after another. -/
inductive Replays (d₀ : δ) : List (Committed δ) → δ → Prop
  | nil : Replays d₀ [] d₀
  | snoc {history : List (Committed δ)} {c : Committed δ} {d d' : δ} (h : Replays d₀ history d)
      (hup : c.up d = .ok (d', false)) : Replays d₀ (history ++ [c]) d'

/-- The rows of a component. -/
def Database.rows (component : String) (db : Database δ) : List Receipt :=
  db.receipts.filter (Receipt.belongs component)

def Receipt.key (r : Receipt) : String × String := (r.name, r.checksum)

def NormalizedMigration.key (m : NormalizedMigration δ) : String × String := (m.name, m.checksum)

/-- A migration of this list, as a process commits it. -/
def Declares (env : Env δ) (component : String) (migrations : List (Option (Migration δ))) (c : Committed δ) : Prop :=
  ∃ normalized, normalizeFrom env 0 migrations = .ok normalized ∧
    ∃ m ∈ normalized, c = ⟨m.receipt component (env.now m.name), m.up⟩

/-- The content is what the receipts say, and the receipts of a component are in the order of
their names. -/
structure Kept (P : Committed δ → Prop) (d₀ : δ) (db : Database δ) : Prop where
  replays : ∃ history, Replays d₀ history db.content ∧ db.receipts = history.map Committed.receipt ∧
    ∀ c ∈ history, P c
  sorted : ∀ component, ((db.rows component).map Receipt.name).Pairwise (fun a b => codeUnits a < codeUnits b)

theorem kept_new (P : Committed δ → Prop) (d₀ : δ) : Kept P d₀ (Database.new d₀) where
  replays := ⟨[], .nil, rfl, List.forall_mem_nil _⟩
  sorted _ := List.Pairwise.nil

theorem strictlySorted_iff {names : List String} :
    StrictlySorted names ↔ names.Pairwise (fun a b => codeUnits a < codeUnits b) := by
  have : IsTrans String (fun a b => codeUnits a < codeUnits b) := ⟨fun _ _ _ => lt_trans⟩
  exact List.isChain_iff_pairwise

/-- The rows are read in the order in which they were written. -/
theorem Kept.applied (h : Kept P d₀ db) (component : String) : db.applied component = db.rows component := by
  refine List.Pairwise.insertionSort_eq ?_
  exact (List.pairwise_map.mp (h.sorted component)).imp le_of_lt

variable {normalized : List (NormalizedMigration δ)}

theorem checkHistory_ok {receipts : List Receipt}
    (h : checkHistory component receipts normalized = .ok ()) :
    receipts.map Receipt.key = (normalized.take receipts.length).map NormalizedMigration.key := by
  induction receipts generalizing normalized with
  | nil => rfl
  | cons receipt receipts ih =>
      cases normalized with
      | nil => cases h
      | cons declared rest =>
          rw [checkHistory] at h
          split at h
          · cases h
          · rename_i hname
            split at h
            · cases h
            · rename_i hchecksum
              rw [List.map_cons, List.length_cons, List.take_succ_cons, List.map_cons, ih h]
              simp only [Receipt.key, NormalizedMigration.key, not_not.mp hname, not_not.mp hchecksum]

/-! ### One transaction -/

theorem wp_applyMigration (env : Env δ) (component : String) (m : NormalizedMigration δ) (db : Database δ)
    (u : Unit) : Crash.wp (applyMigration env component m)
      (fun _ db' _ => ∃ content, m.up db.content = .ok (content, false) ∧
        db' = ⟨content, db.receipts ++ [m.receipt component (env.now m.name)]⟩)
      (fun _ db' _ => db' = db) (fun db' _ => db' = db) db u := by
  unfold applyMigration
  refine Crash.wp_bind (Crash.wp_onSome (fun _ _ => Crash.wp_throw rfl) (fun _ => ?_))
  refine Crash.wp_bind (Crash.wp_read ?_)
  refine Crash.wp_bind (Crash.wp_ofExcept (fun result hresult => ?_) (fun _ _ => rfl))
  refine Crash.wp_bind (Crash.wp_when (fun _ => Crash.wp_throw rfl) (fun hsync => ?_))
  refine Crash.wp_bind (Crash.wp_when (fun _ => Crash.wp_throw rfl) (fun _ => ?_))
  refine Crash.wp_bind (Crash.wp_onSome (fun _ _ => Crash.wp_throw rfl) (fun _ => ?_))
  refine Crash.wp_write rfl ⟨result.1, ?_, rfl⟩
  cases hup : m.up db.content with
  | error error =>
      rw [hup] at hresult
      cases hresult
  | ok pair =>
      rw [hup] at hresult
      obtain rfl : pair = result := Except.ok.inj hresult
      exact congrArg Except.ok (Prod.ext rfl (Bool.eq_false_iff.mpr hsync))

theorem rows_append (db : Database δ) (content : δ) (component : String) (r : Receipt) :
    Database.rows component ⟨content, db.receipts ++ [r]⟩ =
      db.rows component ++ (if r.component = component then [r] else []) := by
  unfold Database.rows
  rw [List.filter_append, List.filter_singleton]
  by_cases hr : r.component = component <;> simp [Receipt.belongs, hr]

/-- A migration behind all others of its component may be committed. -/
theorem Kept.commit (h : Kept P d₀ db) {m : NormalizedMigration δ} {content : δ}
    (hup : m.up db.content = .ok (content, false)) (now : String) (hP : P ⟨m.receipt component now, m.up⟩)
    (hbehind : ((db.rows component).map Receipt.name ++ [m.name]).Pairwise
      (fun a b => codeUnits a < codeUnits b)) :
    Kept P d₀ ⟨content, db.receipts ++ [m.receipt component now]⟩ where
  replays := by
    obtain ⟨history, hreplays, hreceipts, hall⟩ := h.replays
    refine ⟨history ++ [⟨m.receipt component now, m.up⟩], hreplays.snoc hup, ?_, ?_⟩
    · rw [List.map_append, hreceipts, List.map_singleton]
    · exact List.forall_mem_append.mpr ⟨hall, List.forall_mem_singleton.mpr hP⟩
  sorted other := by
    rw [rows_append]
    by_cases hother : (m.receipt component now).component = other
    · subst hother
      rw [if_pos rfl, List.map_append]
      exact hbehind
    · rw [if_neg hother, List.append_nil]
      exact h.sorted other

/-! ### A run -/

/-- The first migrations of a run are committed, and nothing else has changed. -/
structure Advanced (P : Committed δ → Prop) (d₀ : δ) (component : String) (db : Database δ)
    (done : List (NormalizedMigration δ)) (now : String → String) (db' : Database δ) : Prop where
  kept : Kept P d₀ db'
  receipts : db'.receipts = db.receipts ++ done.map (fun m => m.receipt component (now m.name))

theorem Advanced.rows {done : List (NormalizedMigration δ)} {now : String → String} {db' : Database δ}
    (h : Advanced P d₀ component db done now db') :
    db'.rows component = db.rows component ++ done.map (fun m => m.receipt component (now m.name)) := by
  unfold Database.rows
  rw [h.receipts, List.filter_append]
  refine congrArg _ (List.filter_eq_self.mpr (fun r hr => ?_))
  obtain ⟨m, -, rfl⟩ := List.mem_map.mp hr
  exact decide_eq_true rfl

theorem wp_forEach_applyMigration (env : Env δ) (h : Kept P d₀ db)
    (hsorted : (normalized.map NormalizedMigration.name).Pairwise (fun a b => codeUnits a < codeUnits b))
    (hP : ∀ m ∈ normalized, P ⟨m.receipt component (env.now m.name), m.up⟩) {n : ℕ}
    (hrows : (db.rows component).map Receipt.name = (normalized.take n).map NormalizedMigration.name)
    (u : Unit) : Crash.wp (Crash.forEach (applyMigration env component) (normalized.drop n))
      (fun _ db' _ => Advanced P d₀ component db (normalized.drop n) env.now db')
      (fun _ db' _ => ∃ done, Advanced P d₀ component db done env.now db')
      (fun db' _ => ∃ done, Advanced P d₀ component db done env.now db') db u := by
  -- what is committed and what is left make up the list
  refine Crash.wp_mono (Crash.wp_forEach (I := fun left db' _ => ∃ done, normalized.drop n = done ++ left ∧
    Advanced P d₀ component db done env.now db') (fun m left db' u' hI => ?_) (normalized.drop n)
    ⟨[], rfl, h, by rw [List.map_nil, List.append_nil]⟩) (fun _ db' _ hdone => ?_) (fun _ _ _ hE => hE) (fun _ _ hC => hC)
  rotate_left
  · obtain ⟨done, hdone, hadvanced⟩ := hdone
    rw [List.append_nil] at hdone
    rw [hdone]
    exact hadvanced
  · obtain ⟨done, hdone, hadvanced⟩ := hI
    refine Crash.wp_mono (wp_applyMigration env component m db' u') ?_ ?_ ?_
    · rintro _ _ _ ⟨content, hup, rfl⟩
      refine ⟨done ++ [m], by rw [hdone, List.append_assoc, List.singleton_append], ?_, ?_⟩
      · have hmem : m ∈ normalized := List.mem_of_mem_drop (hdone ▸ List.mem_append_right done List.mem_cons_self)
        refine hadvanced.kept.commit hup (env.now m.name) (hP m hmem) ?_
        have hnames : (db'.rows component).map Receipt.name ++ [m.name] <+: normalized.map NormalizedMigration.name := by
          refine ⟨left.map NormalizedMigration.name, ?_⟩
          rw [hadvanced.rows, List.map_append, List.map_map, hrows]
          conv_rhs => rw [← List.take_append_drop n normalized, hdone]
          simp only [List.map_append, List.map_cons, List.append_assoc, List.singleton_append]
          rfl
        exact hsorted.sublist hnames.sublist
      · rw [hadvanced.receipts, List.map_append, List.append_assoc]
        rfl
    · rintro _ _ _ rfl
      exact ⟨done, hadvanced⟩
    · rintro _ _ rfl
      exact ⟨done, hadvanced⟩

/-- What a run does that returns. -/
structure Returned (env : Env δ) (component : String) (migrations : List (Option (Migration δ)))
    (db : Database δ) (r : MigrationRunResult) (db' : Database δ) : Prop where
  declared : ∃ normalized, normalizeFrom env 0 migrations = .ok normalized ∧
    StrictlySorted (normalized.map NormalizedMigration.name) ∧
    (db'.rows component).map Receipt.key = normalized.map NormalizedMigration.key
  names : r.component = component
  existing : r.existing = (db.rows component).map Receipt.name
  applied : r.existing ++ r.applied = (db'.rows component).map Receipt.name
  valid : isComponent component = true

theorem map_name_of_map_key {receipts : List Receipt}
    (h : receipts.map Receipt.key = normalized.map NormalizedMigration.key) :
    receipts.map Receipt.name = normalized.map NormalizedMigration.name := by
  have := congrArg (List.map Prod.fst) h
  rwa [List.map_map, List.map_map] at this

theorem wp_runComponentMigrations (env : Env δ) (migrations : List (Option (Migration δ))) (h : Kept P d₀ db)
    (hP : ∀ c, Declares env component migrations c → P c) (u : Unit) :
    Crash.wp (runComponentMigrations env component migrations)
      (fun r db' _ => Returned env component migrations db r db' ∧ ∃ done, Advanced P d₀ component db done env.now db')
      (fun _ db' _ => ∃ done, Advanced P d₀ component db done env.now db')
      (fun db' _ => ∃ done, Advanced P d₀ component db done env.now db') db u := by
  have hnone : ∃ done, Advanced P d₀ component db done env.now db :=
    ⟨[], h, by rw [List.map_nil, List.append_nil]⟩
  unfold runComponentMigrations
  refine Crash.wp_bind (Crash.wp_when (fun _ => Crash.wp_throw hnone) (fun hvalid => ?_))
  refine Crash.wp_bind (Crash.wp_ofExcept (fun normalized hnormalized => ?_) (fun _ _ => hnone))
  refine Crash.wp_bind (Crash.wp_when (fun _ => Crash.wp_throw hnone) (fun hsorted => ?_))
  refine Crash.wp_bind (Crash.wp_read ?_)
  rw [h.applied component]
  refine Crash.wp_bind (Crash.wp_when (fun _ => Crash.wp_throw hnone) (fun hlength => ?_))
  refine Crash.wp_bind (Crash.wp_ofExcept (fun _ hhistory => ?_) (fun _ _ => hnone))
  have hkeys := checkHistory_ok hhistory
  have hpairwise := strictlySorted_iff.mp (not_not.mp hsorted)
  refine Crash.wp_bind (Crash.wp_mono (wp_forEach_applyMigration env h hpairwise
      (fun m hm => hP _ ⟨normalized, hnormalized, m, hm, rfl⟩) (map_name_of_map_key hkeys) u)
    (fun _ db' _ hadvanced => Crash.wp_pure ⟨?_, _, hadvanced⟩) (fun _ _ _ hE => hE) (fun _ _ hC => hC))
  have hall : (db'.rows component).map Receipt.key = normalized.map NormalizedMigration.key := by
    rw [hadvanced.rows, List.map_append, List.map_map, hkeys]
    conv_rhs => rw [← List.take_append_drop (db.rows component).length normalized, List.map_append]
    rfl
  exact {
    declared := ⟨normalized, hnormalized, not_not.mp hsorted, hall⟩
    names := rfl
    existing := rfl
    applied := by
      rw [hadvanced.rows, List.map_append, List.map_map]
      rfl
    valid := Bool.eq_false_iff.not_left.mp hvalid }

theorem Call.advanced (c : Call δ) (h : Kept P d₀ db) (hP : ∀ d, Declares c.env c.component c.migrations d → P d) :
    ∃ done, Advanced P d₀ c.component db done c.env.now (step db c) :=
  Crash.store_of_wp (Crash.wp_mono (wp_runComponentMigrations c.env c.migrations h hP ()) (fun _ _ _ h => h.2)
    (fun _ _ _ h => h) (fun _ _ h => h)) c.budget

theorem kept_run (cs : List (Call δ)) (h : Kept P d₀ db)
    (hP : ∀ c ∈ cs, ∀ d, Declares c.env c.component c.migrations d → P d) : Kept P d₀ (run step db cs) := by
  induction cs generalizing db with
  | nil => exact h
  | cons c cs ih =>
      obtain ⟨hc, hcs⟩ := List.forall_mem_cons.mp hP
      obtain ⟨_, hadvanced⟩ := c.advanced h hc
      exact ih hadvanced.kept hcs

/-- **The receipts tell how the database came to be.** Whatever components are migrated, in
whatever order and wherever the processes die: the content is what the migrations of the receipts
make of the first one, in the order of the receipts and each once; and a call only adds receipts
of its component. -/
theorem receipts_history (d₀ : δ) (cs : List (Call δ)) :
    (∃ history : List (Committed δ), Replays d₀ history (run step (Database.new d₀) cs).content ∧
      (run step (Database.new d₀) cs).receipts = history.map Committed.receipt ∧
      ∀ d ∈ history, ∃ c ∈ cs, Declares c.env c.component c.migrations d) ∧
    (∀ component, (((run step (Database.new d₀) cs).rows component).map Receipt.name).Pairwise
      (fun a b => codeUnits a < codeUnits b)) ∧
    ∀ c : Call δ, ∃ added, (step (run step (Database.new d₀) cs) c).receipts =
      (run step (Database.new d₀) cs).receipts ++ added ∧ ∀ r ∈ added, r.component = c.component := by
  have hkept := kept_run cs (kept_new (fun d => ∃ c ∈ cs, Declares c.env c.component c.migrations d) d₀)
    (fun c hc d hd => ⟨c, hc, hd⟩)
  refine ⟨hkept.replays, hkept.sorted, fun c => ?_⟩
  obtain ⟨done, hadvanced⟩ := c.advanced (kept_run cs (kept_new (fun _ => True) d₀) (fun _ _ _ _ => trivial))
    (fun _ _ => trivial)
  refine ⟨_, hadvanced.receipts, fun r hr => ?_⟩
  obtain ⟨m, -, rfl⟩ := List.mem_map.mp hr
  rfl

/-- **A call that returns leaves exactly what it declares.** Behind any other calls, and wherever
their processes died: the rows of its component are the declared migrations, each with its
checksum and in their order, and the call has applied those that had no row. -/
theorem rows_exact {d₀ : δ} {cs : List (Call δ)} {c : Call δ} {r : MigrationRunResult} {u : Unit} {left : Option ℕ}
    {db' : Database δ} (h : c.exec (run step (Database.new d₀) cs) = (.done r u left, db')) :
    Returned c.env c.component c.migrations (run step (Database.new d₀) cs) r db' :=
  (Crash.done_of_wp (wp_runComponentMigrations c.env c.migrations
    (kept_run cs (kept_new (fun _ => True) d₀) (fun _ _ _ _ => trivial)) (fun _ _ => trivial) ()) h).1

end History

/-! ### A second migration behind a first -/

/-- The database is a list of the statements that were executed. -/
def roomsEnv : Env (List String) where
  sha256 := fun sql =>
    if sql = "CREATE TABLE rooms (id TEXT)" then "ed193448dedbd19083deb48606f1009389bb2bce775acd2516fd5b0aa6b44dc2"
    else "0f13799bcd8d33d9b53c2f384eab3ad03d2c0acff7f9cf62f69efff25b18aca7"
  exec := fun sql d => .ok (d ++ [sql])
  now := fun name => if name = "0001-rooms" then "2025-01-01T00:00:00.000Z" else "2025-01-02T00:00:00.000Z"
  beginFails := fun _ => none
  commitFails := fun _ => none

def rooms : Option (Migration (List String)) :=
  some ⟨["name", "sql"], some "0001-rooms", some "CREATE TABLE rooms (id TEXT)", none, none⟩

def members : Option (Migration (List String)) :=
  some ⟨["name", "sql"], some "0002-members", some "CREATE TABLE members (id TEXT)", none, none⟩

def firstCall : Call (List String) := ⟨roomsEnv, "core", [rooms], some 1⟩

def secondCall : Call (List String) := ⟨roomsEnv, "core", [rooms, members], some 1⟩

theorem exec_secondCall : secondCall.exec (run step (Database.new []) [firstCall]) =
    (.done ⟨"core", ["0001-rooms"], ["0002-members"]⟩ () (some 0),
      ⟨["CREATE TABLE rooms (id TEXT)", "CREATE TABLE members (id TEXT)"],
        [⟨"core", "0001-rooms", "ed193448dedbd19083deb48606f1009389bb2bce775acd2516fd5b0aa6b44dc2",
            "2025-01-01T00:00:00.000Z"⟩,
          ⟨"core", "0002-members", "0f13799bcd8d33d9b53c2f384eab3ad03d2c0acff7f9cf62f69efff25b18aca7",
            "2025-01-02T00:00:00.000Z"⟩]⟩) := by
  rfl

theorem secondCall_exact : Returned secondCall.env "core" secondCall.migrations
    (run step (Database.new []) [firstCall]) ⟨"core", ["0001-rooms"], ["0002-members"]⟩
    (secondCall.exec (run step (Database.new []) [firstCall])).2 :=
  rows_exact exec_secondCall

end Elpis.Store.Migrations
