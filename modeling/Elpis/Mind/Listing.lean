import Elpis.Mind.Statements
import Elpis.Lib.Pages
import Mathlib.Data.String.Basic

/-!
# The Mind store: listing and counting

`list` reads a page of rows in SQL and applies `ready` and `blocked` to that page only, because they
need the dependencies of each item. `count` pages through it, and `ready` is a list of its own.
-/

namespace Elpis.Mind

open Elpis.Lib

/-! ## Filters -/

inductive MindSort where
  | createdAsc | createdDesc | updatedAsc | updatedDesc | lastCommentAsc | lastCommentDesc
deriving DecidableEq, Repr

/-- An array that is left out or empty selects nothing away. -/
structure MindListFilter where
  statuses : List MindStatus
  kinds : List MindKind
  tag : Option String
  query : Option String
  parentId : Option (Option MindId)
  ready : Bool
  blocked : Bool
  overdue : Bool
  includeArchived : Bool
  sort : Option MindSort
  limit : Option ℤ
  offset : Option ℤ
deriving DecidableEq

def MindListFilter.all : MindListFilter :=
  ⟨[], [], none, none, none, false, false, false, false, none, none, none⟩

/-- The clock as the statement reads it, and as the items are read. -/
structure ListClock where
  now : Time
  reading : Time

/-! ## The statement -/

/-- `lower` of SQLite, which knows ASCII only. -/
def sqlLower (s : String) : String := String.ofList (s.toList.map Char.toLower)

/-- `LIKE` of SQLite: `%` stands for any characters, `_` for one, and ASCII case is ignored. -/
def like : List Char → List Char → Bool
  | [], text => text.isEmpty
  | p :: pattern, text =>
      if p = '%' then text.tails.any (like pattern)
      else match text with
        | [] => false
        | c :: rest => (p == '_' || p.toLower == c.toLower) && like pattern rest

/-- `query.trim().toLowerCase()` between two `%`; an empty query is none. -/
def queryPattern (u : Js.Unicode) (query : Option String) : Option (List Char) :=
  match query.map Js.trim with
  | none => none
  | some q => if q = "" then none else some ('%' :: (u.toLowerCase q).toList ++ ['%'])

def MindDb.matchesQuery (db : MindDb) (pattern : List Char) (row : MindRow) : Bool :=
  like pattern (sqlLower row.title).toList || like pattern (sqlLower row.body).toList ||
    (db.liveComments row.id).any (fun c => like pattern (sqlLower c.body).toList)

def MindDb.hasTag (db : MindDb) (id : MindId) (tag : String) : Bool :=
  db.tags.rows.any (fun t => decide (t.itemId = id) && decide (t.tag = tag))

/-- The tag that is asked for. -/
def MindListFilter.wantedTag (u : Js.Unicode) (f : MindListFilter) : Except MindError (Option String) :=
  match f.tag with
  | none => .ok none
  | some tag => if tag = "" then .ok none else (normalizeTag u tag).map some

/-- The `WHERE` clause. -/
def MindDb.wants (u : Js.Unicode) (db : MindDb) (now : Time) (f : MindListFilter) (tag : Option String)
    (row : MindRow) : Bool :=
  (f.includeArchived || row.archivedAt.isNone) &&
    (f.statuses.isEmpty || decide (row.status ∈ f.statuses)) &&
    (f.kinds.isEmpty || decide (row.kind ∈ f.kinds)) &&
    f.parentId.all (fun parentId => decide (row.parentId = parentId)) &&
    tag.all (db.hasTag row.id) &&
    (queryPattern u f.query).all (fun pattern => db.matchesQuery pattern row) &&
    (!f.overdue || (row.dueAt.any (fun due : ℚ => decide (due < ((now : ℤ) : ℚ))) && !row.status.closed))

/-- `a` before `b`, and on a tie by `id`. -/
def tieBreak {β : Type} [LinearOrder β] (a b : β) (id : Bool) : Bool := decide (a < b) || (decide (a = b) && id)

/-- `last_comment_at IS NULL` first, so that items without a comment come last. -/
def byLastComment (a b : Option Time) (before : Time → Time → Bool) (id : Bool) : Bool :=
  match a, b with
  | none, none => id
  | none, some _ => false
  | some _, none => true
  | some a, some b => before a b || (decide (a = b) && id)

/-- The `ORDER BY` clause. -/
def MindDb.sorts (db : MindDb) (sort : MindSort) (a b : MindRow) : Bool :=
  match sort with
  | .createdAsc => tieBreak a.createdAt b.createdAt (decide (a.id ≤ b.id))
  | .createdDesc => tieBreak b.createdAt a.createdAt (decide (b.id ≤ a.id))
  | .updatedAsc => tieBreak a.updatedAt b.updatedAt (decide (a.id ≤ b.id))
  | .updatedDesc => tieBreak b.updatedAt a.updatedAt (decide (b.id ≤ a.id))
  | .lastCommentAsc =>
      byLastComment (db.lastCommentAt a.id) (db.lastCommentAt b.id) (fun x y => decide (x < y)) (decide (a.id ≤ b.id))
  | .lastCommentDesc =>
      byLastComment (db.lastCommentAt a.id) (db.lastCommentAt b.id) (fun x y => decide (y < x)) (decide (b.id ≤ a.id))

/-- The rows of the statement, before `LIMIT` and `OFFSET`. -/
def MindDb.listRows (u : Js.Unicode) (db : MindDb) (now : Time) (f : MindListFilter) (tag : Option String) :
    List MindRow :=
  orderBy (db.sorts (f.sort.getD .updatedDesc)) (db.items.select (db.wants u now f tag))

/-! ## Listing -/

/-- What `ready` and `blocked` leave of the items that were read. -/
def MindListFilter.keeps (f : MindListFilter) (item : MindItem) : Bool :=
  (!f.ready || (decide (item.row.kind = .task) && decide (item.row.status = .open) && item.blockedBy.isEmpty)) &&
    (!f.blocked || decide (item.effectiveStatus = .blocked))

def MindDb.list (u : Js.Unicode) (db : MindDb) (clock : ListClock) (f : MindListFilter) :
    Except MindError (List MindItem) := do
  let tag ← f.wantedTag u
  let limit := max 1 (min 500 (f.limit.getD 100))
  let offset := max 0 (f.offset.getD 0)
  let rows := ((db.listRows u clock.now f tag).drop offset.toNat).take limit.toNat
  pure ((rows.map (db.hydrate clock.reading)).filter f.keeps)

def MindDb.ready (u : Js.Unicode) (db : MindDb) (clock : ListClock) (limit : Option ℤ) :
    Except MindError (List MindItem) :=
  db.list u clock { MindListFilter.all with statuses := [.open], kinds := [.task], ready := true, limit := some (limit.getD 100) }

/-- The loop of `MindService.count`. The clock is read anew for every page. -/
def MindDb.countLoop (u : Js.Unicode) (db : MindDb) (clock : ℕ → ListClock) (f : MindListFilter) :
    ℕ → ℕ → ℕ → Except MindError (Option ℕ)
  | 0, _, _ => .ok none
  | fuel + 1, n, count => do
      let page ← db.list u (clock n) { f with limit := some 500, offset := some count }
      if page.length < 500 then pure (some (count + page.length))
      else db.countLoop u clock f fuel (n + 1) (count + page.length)

/-- `MindService.count`; the loop goes round at most once for each item, and once more. -/
def MindDb.count (u : Js.Unicode) (db : MindDb) (clock : ℕ → ListClock) (f : MindListFilter) :
    Except MindError (Option ℕ) := db.countLoop u clock f (db.items.rows.length + 1) 0 0

/-! ## What satisfies a filter -/

/-- The item can be taken up: an open task with no unresolved dependency. -/
def MindDb.isReady (db : MindDb) (row : MindRow) : Prop :=
  row.kind = .task ∧ row.status = .open ∧ db.unresolvedDependencyCount row.id = 0

/-- The item is active and waits for a dependency. -/
def MindDb.isBlocked (db : MindDb) (row : MindRow) : Prop :=
  row.status.active = true ∧ 0 < db.unresolvedDependencyCount row.id

/-- The part of a filter that the statement leaves to its caller. -/
def MindDb.meets (db : MindDb) (f : MindListFilter) (row : MindRow) : Prop :=
  (f.ready = true → db.isReady row) ∧ (f.blocked = true → db.isBlocked row)

instance (db : MindDb) : DecidablePred db.isReady := fun row => by
  unfold MindDb.isReady
  infer_instance

instance (db : MindDb) : DecidablePred db.isBlocked := fun row => by
  unfold MindDb.isBlocked
  infer_instance

instance (db : MindDb) (f : MindListFilter) : DecidablePred (db.meets f) := fun row => by
  unfold MindDb.meets
  infer_instance

/-- The items that satisfy a filter at `now`. -/
def MindDb.satisfying (u : Js.Unicode) (db : MindDb) (now : Time) (f : MindListFilter) (tag : Option String) :
    List MindRow := db.items.select (fun row => db.wants u now f tag row && decide (db.meets f row))

theorem length_unresolvedDependencies (db : MindDb) (id : MindId) :
    (db.unresolvedDependencies id).length = db.unresolvedDependencyCount id := by
  unfold MindDb.unresolvedDependencies MindDb.unresolvedDependencyCount orderBy
  rw [List.length_map, List.length_insertionSort]

/-- What is kept of the items read is what meets the filter. -/
theorem keeps_hydrate (db : MindDb) (f : MindListFilter) (now : Time) (row : MindRow) :
    f.keeps (db.hydrate now row) = decide (db.meets f row) := by
  have hempty : (db.unresolvedDependencies row.id).isEmpty = decide (db.unresolvedDependencyCount row.id = 0) := by
    rw [← length_unresolvedDependencies, Bool.eq_iff_iff, List.isEmpty_iff, decide_eq_true_eq, List.length_eq_zero_iff]
  have hblocked : ((db.hydrate now row).effectiveStatus = .blocked) ↔ db.isBlocked row := by
    unfold MindDb.hydrate MindDb.isBlocked
    rw [length_unresolvedDependencies]
    split
    · rename_i h
      exact iff_of_true rfl h
    · rename_i h
      exact iff_of_false (by rintro ⟨⟩) h
  rw [Bool.eq_iff_iff, decide_eq_true_eq]
  unfold MindListFilter.keeps MindDb.meets MindDb.isReady
  simp only [Bool.and_eq_true, Bool.or_eq_true, Bool.not_eq_true', decide_eq_true_eq, hblocked]
  show (_ ∨ (row.kind = _ ∧ row.status = _) ∧ (db.unresolvedDependencies row.id).isEmpty = true) ∧ _ ↔ _
  rw [hempty, decide_eq_true_eq, and_assoc]
  cases f.ready <;> cases f.blocked <;> simp

/-- A list is the page of its rows, hydrated. -/
theorem list_eq {u : Js.Unicode} {db : MindDb} {clock : ListClock} {f : MindListFilter} {tag : Option String}
    (htag : f.wantedTag u = .ok tag) :
    db.list u clock f = .ok ((page (fun row => decide (db.meets f row)) (max 1 (min 500 (f.limit.getD 100))).toNat
      (db.listRows u clock.now f tag) (max 0 (f.offset.getD 0)).toNat).map (db.hydrate clock.reading)) := by
  unfold MindDb.list page
  rw [htag]
  show Except.ok _ = _
  rw [List.filter_map]
  have hkeep : f.keeps ∘ db.hydrate clock.reading = fun row => decide (db.meets f row) :=
    funext (fun row => keeps_hydrate db f clock.reading row)
  rw [hkeep]

/-! ## Counting -/

theorem listRows_page (u : Js.Unicode) (db : MindDb) (now : Time) (f : MindListFilter) (tag : Option String)
    (limit offset : Option ℤ) : db.listRows u now { f with limit, offset } tag = db.listRows u now f tag := rfl

/-- With the clock standing still the loop counts by pages. -/
theorem countLoop_eq {u : Js.Unicode} {db : MindDb} {clock : ℕ → ListClock} {f : MindListFilter} {tag : Option String}
    {rows : List MindRow} (htag : f.wantedTag u = .ok tag) (hrows : ∀ n, db.listRows u (clock n).now f tag = rows)
    (fuel n count : ℕ) : db.countLoop u clock f fuel n count =
      .ok (countPages (fun row => decide (db.meets f row)) 500 rows fuel count) := by
  induction fuel generalizing n count with
  | zero => rfl
  | succ fuel ih =>
      have hpage : db.list u (clock n) { f with limit := some 500, offset := some count } =
          .ok ((page (fun row => decide (db.meets f row)) 500 rows count).map (db.hydrate (clock n).reading)) := by
        rw [list_eq (show MindListFilter.wantedTag u { f with limit := some 500, offset := some (count : ℤ) } = _ from htag),
          listRows_page, hrows n]
        rfl
      rw [MindDb.countLoop, hpage, countPages]
      show (if _ then _ else _) = _
      simp only [List.length_map]
      split
      · rfl
      · exact ih _ _

/-- A clock that moves makes a difference to `overdue` only. -/
theorem listRows_now {u : Js.Unicode} {db : MindDb} {f : MindListFilter} {tag : Option String} {now now' : Time}
    (h : f.overdue = true → now = now') : db.listRows u now f tag = db.listRows u now' f tag := by
  cases hoverdue : f.overdue with
  | true => rw [h hoverdue]
  | false =>
      have hwants : db.wants u now f tag = db.wants u now' f tag := by
        funext row
        unfold MindDb.wants
        rw [hoverdue]
        rfl
      unfold MindDb.listRows
      rw [hwants]

/-- The count is the number of items that satisfy the filter exactly if, in the order of the list, none of
them stands behind a page of 500 rows with one that does not. -/
theorem count_iff (u : Js.Unicode) (db : MindDb) (f : MindListFilter) (clock : ℕ → ListClock) (tag : Option String)
    (htag : f.wantedTag u = .ok tag) (hclock : f.overdue = true → ∀ n, (clock n).now = (clock 0).now) :
    ∃ n, db.count u clock f = .ok (some n) ∧
      (n = (db.satisfying u (clock 0).now f tag).length ↔
        FullPages (fun row => decide (db.meets f row)) 500 (db.listRows u (clock 0).now f tag)) := by
  have hrows : ∀ n, db.listRows u (clock n).now f tag = db.listRows u (clock 0).now f tag := fun n =>
    listRows_now (fun h => hclock h n)
  have hperm : (db.listRows u (clock 0).now f tag).Perm (db.items.select (db.wants u (clock 0).now f tag)) :=
    List.perm_insertionSort _ _
  have hlength : (db.listRows u (clock 0).now f tag).length ≤ db.items.rows.length := by
    rw [hperm.length_eq]
    exact List.length_filter_le _ _
  obtain ⟨n, hn⟩ : ∃ n, countPages (fun row => decide (db.meets f row)) 500 (db.listRows u (clock 0).now f tag)
      (db.items.rows.length + 1) 0 = some n := countPages_returns (by decide) (Nat.zero_le _) (by omega)
  refine ⟨n, ?_, ?_⟩
  · rw [MindDb.count, countLoop_eq htag hrows, hn]
  · have hcount := countPages_eq_iff (by decide) hn
    rw [List.drop_zero, Nat.zero_add] at hcount
    rw [← hcount, hperm.countP_eq]
    unfold MindDb.satisfying Table.select
    rw [List.countP_eq_length_filter, List.filter_filter]
    simp only [Bool.and_comm]

/-- The book at place `n` of a shelf. -/
def bookId (n : ℕ) : MindId :=
  String.ofList ("elm-00000".toList ++ [n / 100, n / 10 % 10, n % 10].map (fun d => Char.ofNat (48 + d)))

def book (n : ℕ) : MindRow :=
  ⟨bookId n, "read a book", "", .task, .open, 2, none, none, "agent", 0, -n, none, none⟩

theorem bookId_injOn {n m : ℕ} (hn : n < 1000) (hm : m < 1000) (h : bookId n = bookId m) : n = m := by
  have hdigit : ∀ a < 10, ∀ b < 10, Char.ofNat (48 + a) = Char.ofNat (48 + b) → a = b := by decide
  have hlist := List.append_cancel_left (String.ofList_injective h)
  simp only [List.map_cons, List.map_nil, List.cons.injEq, and_true] at hlist
  have h₁ := hdigit _ (by omega) _ (by omega) hlist.1
  have h₂ := hdigit _ (by omega) _ (by omega) hlist.2.1
  have h₃ := hdigit _ (by omega) _ (by omega) hlist.2.2
  omega

/-- A shelf of books to read, the first behind the second. -/
def shelf (k : ℕ) (hk : k ≤ 1000) : MindDb :=
  { MindDb.empty with
    items := ⟨(List.range k).map book, by
      rw [List.map_map]
      refine List.Nodup.map_on ?_ List.nodup_range
      intro n hn m hm h
      rw [List.mem_range] at hn hm
      exact bookId_injOn (by omega) (by omega) h⟩
    dependencies := ⟨[⟨bookId 0, bookId 1, "agent", 0⟩], List.nodup_singleton _⟩ }

def stillClock (_ : ℕ) : ListClock := ⟨1, 1⟩

/-- Of 501 books 500 can be read, and 499 are counted. -/
theorem ready_miscounted :
    (shelf 501 (by decide)).count Js.Unicode.ascii stillClock { MindListFilter.all with ready := true } = .ok (some 499) ∧
      ((shelf 501 (by decide)).satisfying Js.Unicode.ascii 1 { MindListFilter.all with ready := true } none).length =
        500 := by
  constructor
  · decide +kernel
  · decide +kernel

theorem count_shelf :
    ∃ n, (shelf 2 (by decide)).count Js.Unicode.ascii stillClock { MindListFilter.all with ready := true } = .ok (some n) ∧
      (n = ((shelf 2 (by decide)).satisfying Js.Unicode.ascii 1 { MindListFilter.all with ready := true } none).length ↔
        FullPages (fun row => decide ((shelf 2 (by decide)).meets { MindListFilter.all with ready := true } row)) 500
          ((shelf 2 (by decide)).listRows Js.Unicode.ascii 1 { MindListFilter.all with ready := true } none)) :=
  count_iff Js.Unicode.ascii (shelf 2 (by decide)) { MindListFilter.all with ready := true } stillClock none rfl
    (fun _ _ => rfl)

/-! ## Ready work -/

/-- The order of `ready`: the item that was updated last comes first. -/
def MindDb.latestFirst (db : MindDb) (rows : List MindRow) : List MindRow := orderBy (db.sorts .updatedDesc) rows

/-- The tasks that are open and not archived. -/
def MindDb.openTasks (db : MindDb) : List MindRow :=
  db.latestFirst (db.items.select (fun row => row.archivedAt.isNone && decide (row.status = .open ∧ row.kind = .task)))

/-- The ready items, in order. -/
def MindDb.readyRows (db : MindDb) : List MindRow :=
  db.latestFirst (db.items.select (fun row => row.archivedAt.isNone && decide (db.isReady row)))

/-- How many items are asked for: at least one, at most 500. -/
def readyLimit (limit : Option ℤ) : ℕ := (max 1 (min 500 (limit.getD 100))).toNat

theorem latestFirst_iff {db : MindDb} {a b : MindRow} :
    db.sorts .updatedDesc a b = true ↔ b.updatedAt < a.updatedAt ∨ b.updatedAt = a.updatedAt ∧ b.id ≤ a.id := by
  simp [MindDb.sorts, tieBreak]

theorem latestFirst_sorted (db : MindDb) (rows : List MindRow) :
    (db.latestFirst rows).Pairwise (fun a b => db.sorts .updatedDesc a b = true) := by
  have : Std.Total (fun a b => db.sorts .updatedDesc a b = true) := ⟨fun a b => by
    rw [latestFirst_iff, latestFirst_iff]
    rcases lt_trichotomy a.updatedAt b.updatedAt with h | h | h
    · exact Or.inr (Or.inl h)
    · rcases le_total a.id b.id with hid | hid
      · exact Or.inr (Or.inr ⟨h, hid⟩)
      · exact Or.inl (Or.inr ⟨h.symm, hid⟩)
    · exact Or.inl (Or.inl h)⟩
  have : IsTrans MindRow (fun a b => db.sorts .updatedDesc a b = true) := ⟨fun a b c hab hbc => by
    rw [latestFirst_iff] at hab hbc ⊢
    rcases hab with hab | ⟨hab, hid⟩
    · rcases hbc with hbc | ⟨hbc, _⟩
      · exact Or.inl (hbc.trans hab)
      · exact Or.inl (hbc ▸ hab)
    · rcases hbc with hbc | ⟨hbc, hid'⟩
      · exact Or.inl (hab ▸ hbc)
      · exact Or.inr ⟨hbc.trans hab, hid'.trans hid⟩⟩
  exact List.pairwise_insertionSort _ rows

/-- Sorting and selecting may change places. -/
theorem latestFirst_filter (db : MindDb) (p q : MindRow → Bool) :
    (db.latestFirst (db.items.select p)).filter q = db.latestFirst (db.items.select (fun row => p row && q row)) := by
  have hperm : ((db.latestFirst (db.items.select p)).filter q).Perm
      (db.latestFirst (db.items.select (fun row => p row && q row))) := by
    refine ((List.perm_insertionSort _ _).filter q).trans (List.Perm.trans ?_ (List.perm_insertionSort _ _).symm)
    unfold Table.select
    rw [List.filter_filter]
    simp only [Bool.and_comm, List.Perm.refl]
  refine hperm.eq_of_pairwise ?_ ((latestFirst_sorted db _).filter q) (latestFirst_sorted db _)
  intro a b ha hb hab hba
  have hrow : ∀ {r : MindRow} {p : MindRow → Bool}, r ∈ db.latestFirst (db.items.select p) → r ∈ db.items :=
    fun h => (Table.mem_select.mp (mem_orderBy.mp h)).1
  rw [latestFirst_iff] at hab hba
  refine Table.eq_of_key (hrow (List.mem_filter.mp ha).1) (hrow hb) ?_
  rcases hab with hab | ⟨heq, hid⟩
  · rcases hba with hba | ⟨hba, _⟩
    · exact absurd (hab.trans hba) (lt_irrefl _)
    · exact absurd hab (hba ▸ lt_irrefl _)
  · rcases hba with hba | ⟨_, hid'⟩
    · exact absurd hba (heq ▸ lt_irrefl _)
    · exact le_antisymm hid' hid

theorem readyRows_eq (db : MindDb) : db.readyRows = db.openTasks.filter (fun row => decide (db.isReady row)) := by
  unfold MindDb.readyRows MindDb.openTasks
  rw [latestFirst_filter]
  congr 2
  funext row
  have hopen : db.isReady row → row.status = .open ∧ row.kind = .task := fun h => ⟨h.2.1, h.1⟩
  rw [Bool.and_assoc, Bool.eq_iff_iff]
  simp only [Bool.and_eq_true, decide_eq_true_eq]
  tauto

/-- The rows of `ready` are the open tasks. -/
theorem ready_eq (u : Js.Unicode) (db : MindDb) (clock : ListClock) (limit : Option ℤ) :
    db.ready u clock limit =
      .ok (((db.openTasks.take (readyLimit limit)).filter (fun row => decide (db.isReady row))).map
        (db.hydrate clock.reading)) := by
  have hmeets : ∀ row, db.meets { MindListFilter.all with
      statuses := [.open], kinds := [.task], ready := true, limit := some (limit.getD 100) } row ↔ db.isReady row := by
    intro row
    unfold MindDb.meets
    simp [MindListFilter.all]
  have hrows : db.listRows u clock.now { MindListFilter.all with
      statuses := [.open], kinds := [.task], ready := true, limit := some (limit.getD 100) } none = db.openTasks := by
    unfold MindDb.listRows MindDb.openTasks MindDb.latestFirst
    congr 2
    funext row
    simp [MindDb.wants, MindListFilter.all, queryPattern, Bool.and_assoc]
  unfold MindDb.ready
  rw [list_eq (show MindListFilter.wantedTag u _ = .ok none from rfl), hrows, page]
  simp only [hmeets]
  rfl

theorem readyRows_nodup (db : MindDb) : db.readyRows.Nodup := by
  have hrows : db.items.rows.Nodup := db.items.nodup.of_map
  exact (List.perm_insertionSort _ _).nodup_iff.mpr (hrows.filter _)

/-- `ready` returns the ready items among the first open tasks, at most as many as are asked for: from
the first ready one on, without passing over one. It returns all that are asked for where these stand
among the first open tasks. -/
theorem ready_first (u : Js.Unicode) (db : MindDb) (clock : ListClock) (limit : Option ℤ) :
    ∃ rows, db.ready u clock limit = .ok (rows.map (db.hydrate clock.reading)) ∧
      rows = (db.openTasks.take (readyLimit limit)).filter (fun row => decide (db.isReady row)) ∧
      rows <+: db.readyRows ∧ rows.length ≤ readyLimit limit ∧
      ((∀ row ∈ db.readyRows.take (readyLimit limit), row ∈ db.openTasks.take (readyLimit limit)) →
        rows = db.readyRows.take (readyLimit limit)) := by
  have hready : ∀ row ∈ db.readyRows, decide (db.isReady row) = true := by
    rw [readyRows_eq]
    exact fun row hrow => (List.mem_filter.mp hrow).2
  have hfirst : (db.openTasks.take (readyLimit limit)).filter (fun row => decide (db.isReady row)) <+:
      db.readyRows := by
    rw [readyRows_eq]
    exact (List.take_prefix _ _).filter _
  have hlength : ((db.openTasks.take (readyLimit limit)).filter (fun row => decide (db.isReady row))).length ≤
      readyLimit limit :=
    (List.length_filter_le _ _).trans (List.length_take_le _ _)
  refine ⟨_, ready_eq u db clock limit, rfl, hfirst, hlength, ?_⟩
  intro hstand
  -- the ready rows that are asked for all come back, and each is there once
  have hsubset : db.readyRows.take (readyLimit limit) ⊆
      (db.openTasks.take (readyLimit limit)).filter (fun row => decide (db.isReady row)) := by
    intro row hrow
    exact List.mem_filter.mpr ⟨hstand row hrow, hready row (List.mem_of_mem_take hrow)⟩
  have hmany := (((readyRows_nodup db).sublist (List.take_sublist _ _)).subperm hsubset).length_le
  have hfront := List.prefix_of_prefix_length_le (List.take_prefix (readyLimit limit) db.readyRows) hfirst hmany
  refine (hfront.eq_of_length_le ?_).symm
  rw [List.length_take]
  exact le_min hlength hfirst.length_le

/-- One book. -/
def loneBook : MindDb := { MindDb.empty with items := ⟨[book 0], List.nodup_singleton _⟩ }

/-- Asked for no item, `ready` returns one. -/
theorem ready_of_zero :
    loneBook.ready Js.Unicode.ascii ⟨1, 1⟩ (some 0) = .ok [loneBook.hydrate 1 (book 0)] ∧
      loneBook.readyRows.length = 1 := by
  constructor
  · decide +kernel
  · decide +kernel

end Elpis.Mind
