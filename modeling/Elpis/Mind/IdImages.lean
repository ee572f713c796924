import Mathlib
import Elpis.Mind.IdMigration

/-!
# Images of rows

What the migration makes of one row: its cells that name an item name the item by its new id. The
draws of new ids, the rows written for the items, and the joins on the map, as such images.
-/

namespace Elpis.Mind.IdMigration

open Elpis.Lib.Sql

/-- An item's id as the new one; what is null stays null. -/
def mapped (f : ℤ → String) : Value → Value
  | .integer n => .text (f n)
  | v => v

/-- The row with new ids in these columns. -/
def image (f : ℤ → String) (columns : List String) (row : Row) : Row := fun column =>
  if column ∈ columns then mapped f (row column) else row column

/-- A sandbox is named by its item alone. -/
def sandboxImage (f : ℤ → String) (row : Row) : Row :=
  rowOf (("id", mapped f (row "mind_id")) :: sandboxColumns.map (fun c => (c.name, row c.name)))

/-- A cell is of its column's type, and an integer is one that a number of the language holds. -/
def holds (c : Column) (v : Value) : Bool :=
  match c.type, v with
  | _, .null => true
  | .integer, .integer n => isSafe (.integer n)
  | .text, .text _ => true
  | _, _ => false

/-- The cell names one of these items. -/
def Names (ns : List ℤ) (v : Value) : Prop := ∃ n ∈ ns, v = .integer n

/-! ## New ids -/

/-- New ids for these numbers. -/
structure Assigned (ids : Ids) (f : ℤ → String) (ns : List ℤ) : Prop where
  entries : ids = ns.map (fun n => (n, f n))
  nodup : ns.Nodup
  injective : Set.InjOn f {n | n ∈ ns}

theorem dropWhile_subset {draws used : List String} {id : String} (h : id ∈ draws) (hnew : id ∉ used) :
    id ∈ draws.dropWhile used.contains := by
  induction draws with
  | nil => cases h
  | cons d draws ih =>
      by_cases hd : used.contains d = true
      · rw [List.dropWhile_cons_of_pos hd]
        rcases List.mem_cons.mp h with rfl | h
        · exact absurd (List.contains_iff_mem.mp hd) hnew
        · exact ih h
      · rw [List.dropWhile_cons_of_neg hd]
        exact h

/-- With draws enough, each number is assigned an id of its own. -/
theorem assign_ok {draws used : List String} {ns : List ℤ}
    (h : ns.length ≤ (draws.toFinset \ used.toFinset).card) :
    ∃ ids, assign draws used ns = .ok ids ∧ ids.map Prod.fst = ns ∧ (ids.map Prod.snd).Nodup ∧
      ∀ id ∈ ids.map Prod.snd, id ∈ draws ∧ id ∉ used := by
  induction ns generalizing draws used with
  | nil => exact ⟨[], rfl, rfl, List.nodup_nil, fun _ h => absurd h List.not_mem_nil⟩
  | cons n ns ih =>
      have hmem : ∀ id, id ∈ draws.dropWhile used.contains → id ∈ draws := fun id hid =>
        (List.dropWhile_suffix _).subset hid
      cases hdrop : draws.dropWhile used.contains with
      | nil =>
          have hempty : draws.toFinset \ used.toFinset = ∅ := by
            ext id
            simp only [Finset.mem_sdiff, List.mem_toFinset, Finset.notMem_empty, iff_false, not_and, not_not]
            intro hid
            by_contra hnew
            have hleft := dropWhile_subset hid hnew
            rw [hdrop] at hleft
            cases hleft
          rw [hempty] at h
          cases h
      | cons id rest =>
          have hid : id ∈ draws := hmem id (hdrop ▸ List.mem_cons_self)
          have hfresh : id ∉ used := by
            have hhead := List.head?_dropWhile_not used.contains draws
            rw [hdrop] at hhead
            simpa using hhead
          have hcover : draws.toFinset \ used.toFinset ⊆
              insert id (rest.toFinset \ (id :: used).toFinset) := by
            intro d hd
            simp only [Finset.mem_sdiff, List.mem_toFinset] at hd
            have hleft := dropWhile_subset hd.1 hd.2
            rw [hdrop] at hleft
            by_cases hdid : d = id
            · exact hdid ▸ Finset.mem_insert_self _ _
            · refine Finset.mem_insert_of_mem ?_
              simp only [Finset.mem_sdiff, List.mem_toFinset, List.mem_cons, not_or]
              exact ⟨(List.mem_cons.mp hleft).resolve_left hdid, hdid, hd.2⟩
          have hrest : ns.length ≤ (rest.toFinset \ (id :: used).toFinset).card := by
            have hle := Finset.card_le_card hcover
            have hinsert := Finset.card_insert_le id (rest.toFinset \ (id :: used).toFinset)
            rw [List.length_cons] at h
            omega
          obtain ⟨ids, hassign, hfst, hsnd, hnew⟩ := ih hrest
          refine ⟨(n, id) :: ids, ?_, ?_, ?_, ?_⟩
          · rw [assign, hdrop]
            dsimp only
            rw [hassign]
            rfl
          · rw [List.map_cons, hfst]
          · refine List.nodup_cons.mpr ⟨fun hin => ?_, hsnd⟩
            exact (hnew id hin).2 List.mem_cons_self
          · intro d hd
            rcases List.mem_cons.mp hd with rfl | hd
            · exact ⟨hid, hfresh⟩
            · have := hnew d hd
              refine ⟨hmem d (hdrop ▸ List.mem_cons_of_mem _ this.1), fun hused => ?_⟩
              exact this.2 (List.mem_cons_of_mem _ hused)

/-- An entry is found under its key when no other has that key. -/
theorem lookup_of_mem {ids : Ids} (hkeys : (ids.map Prod.fst).Nodup) {e : ℤ × String} (he : e ∈ ids) :
    ids.lookup e.1 = some e.2 := by
  obtain ⟨before, behind, rfl⟩ := List.append_of_mem he
  refine List.lookup_eq_some_iff.mpr ⟨before, behind, rfl, fun d hd => ?_⟩
  rw [List.map_append, List.map_cons] at hkeys
  have hne := (List.nodup_append.mp hkeys).2.2 d.1 (List.mem_map_of_mem hd) e.1 List.mem_cons_self
  simpa using hne.symm

theorem assigned {draws : List String} {ns : List ℤ} (hnodup : ns.Nodup)
    (h : ns.length ≤ draws.toFinset.card) :
    ∃ ids f, assign draws [] ns = .ok ids ∧ Assigned ids f ns ∧ ∀ n ∈ ns, f n ∈ draws := by
  obtain ⟨ids, hassign, hfst, hsnd, hdrawn⟩ := @assign_ok draws [] ns (by simpa using h)
  have hlookup : ∀ e ∈ ids, (ids.lookup e.1).getD "" = e.2 := fun e he => by
    rw [lookup_of_mem (hfst ▸ hnodup) he, Option.getD_some]
  have hentries : ids = ns.map (fun n => (n, (ids.lookup n).getD "")) := by
    rw [← hfst, List.map_map]
    refine ((List.map_congr_left (fun e he => ?_)).trans (List.map_id _)).symm
    rw [Function.comp_apply, hlookup e he]
    rfl
  have hvalues : ids.map Prod.snd = ns.map (fun n => (ids.lookup n).getD "") := by
    conv_lhs => rw [hentries]
    rw [List.map_map]
    rfl
  refine ⟨ids, fun n => (ids.lookup n).getD "", hassign, ⟨hentries, hnodup, ?_⟩, fun n hn => ?_⟩
  · rw [hvalues] at hsnd
    exact List.inj_on_of_nodup_map hsnd
  · refine (hdrawn _ ?_).1
    rw [hvalues]
    exact List.mem_map_of_mem hn

theorem digit36_elm {n : ℕ} (h : n < 36) :
    ((digit36 n).isDigit || decide ('a' ≤ digit36 n ∧ digit36 n ≤ 'z')) = true := by
  interval_cases n <;> decide

/-- What the generator draws has the form that the map checks. -/
theorem isElm_mindIdOf (value : ℕ) (row : Row) (column : String) (h : row column = .text (mindIdOf value)) :
    isElm column row = true := by
  have hlength : (Nat.digits 36 (value % 36 ^ 8)).length ≤ 8 :=
    (Nat.digits_length_le_iff (by decide) _).mpr (Nat.mod_lt _ (by decide))
  have hlist : (mindIdOf value).toList = "elm-".toList ++
      List.leftpad 8 '0' ((Nat.digits 36 (value % 36 ^ 8)).reverse.map digit36) := by
    simp [mindIdOf]
  have hpad : (List.leftpad 8 '0' ((Nat.digits 36 (value % 36 ^ 8)).reverse.map digit36)).length = 8 := by
    rw [List.length_leftpad, List.length_map, List.length_reverse]
    omega
  have hchars : ∀ c ∈ List.leftpad 8 '0' ((Nat.digits 36 (value % 36 ^ 8)).reverse.map digit36),
      (c.isDigit || decide ('a' ≤ c ∧ c ≤ 'z')) = true := by
    intro c hc
    rw [List.leftpad, List.mem_append] at hc
    rcases hc with hc | hc
    · rw [List.eq_of_mem_replicate hc]
      decide
    · obtain ⟨n, hn, rfl⟩ := List.mem_map.mp hc
      exact digit36_elm (Nat.digits_lt_base (by decide) (List.mem_reverse.mp hn))
  generalize List.leftpad 8 '0' ((Nat.digits 36 (value % 36 ^ 8)).reverse.map digit36) = digits at hlist hpad hchars
  cases digits with
  | nil => cases hpad
  | cons c digits =>
      have hc := hchars c List.mem_cons_self
      unfold isElm
      rw [h]
      dsimp only
      rw [hlist]
      simp only [List.length_cons] at hpad
      simpa [hpad] using hc

/-! ## The rows of the items -/

section Rows
variable {ids : Ids} {f : ℤ → String} {ns : List ℤ} (h : Assigned ids f ns)

include h

theorem Assigned.lookup {n : ℤ} (hn : n ∈ ns) : ids.lookup n = some (f n) := by
  have hentry : (n, f n) ∈ ids := h.entries ▸ List.mem_map_of_mem hn
  have hkeys : ids.map Prod.fst = ns := by
    rw [h.entries, List.map_map]
    exact List.map_id _
  exact lookup_of_mem (hkeys ▸ h.nodup) hentry

theorem Assigned.ref_ok {v : Value} (hv : Names ns v) : ref ids v = .ok (mapped f v) := by
  obtain ⟨n, hn, rfl⟩ := hv
  unfold ref
  simp only [number?, Option.bind_some, h.lookup hn]
  rfl

theorem Assigned.mapped_ne {v w : Value} (hv : Names ns v) (hw : Names ns w) (hne : v ≠ w) :
    mapped f v ≠ mapped f w := by
  obtain ⟨n, hn, rfl⟩ := hv
  obtain ⟨m, hm, rfl⟩ := hw
  intro heq
  exact hne (congrArg Value.integer (h.injective hn hm (Value.text.inj heq)))

end Rows

theorem mapped_ne_null {f : ℤ → String} {v : Value} (h : v ≠ .null) : mapped f v ≠ .null := by
  cases v with
  | null => exact absurd rfl h
  | integer n => exact Value.noConfusion
  | text s => exact Value.noConfusion

/-- A row with these cells, and no others, is the row of these cells. -/
theorem rowOf_eq {cells : List (String × Value)} {row : Row} (hcells : ∀ cell ∈ cells, cell.2 = row cell.1)
    (hrest : ∀ column, column ∉ cells.map Prod.fst → row column = .null) : rowOf cells = row := by
  funext column
  unfold rowOf
  cases hlookup : cells.lookup column with
  | none =>
      refine (hrest column (fun hin => ?_)).symm
      obtain ⟨cell, hcell, rfl⟩ := List.mem_map.mp hin
      simpa using List.lookup_eq_none_iff.mp hlookup cell hcell
  | some v =>
      obtain ⟨before, behind, rfl, -⟩ := List.lookup_eq_some_iff.mp hlookup
      exact hcells (column, v) (by simp)

theorem toText_of_holds {name : String} {v : Value} (h : holds (textColumn name) v = true) (hv : v ≠ .null) :
    toText v = v := by
  cases v with
  | null => exact absurd rfl hv
  | integer n => cases h
  | text s => rfl

theorem toNumber_of_holds {c : Column} {v : Value} (hc : c.type = .integer) (h : holds c v = true)
    (hv : v ≠ .null) : toNumber v = v := by
  cases v with
  | null => exact absurd rfl hv
  | integer n => rfl
  | text s =>
      unfold holds at h
      rw [hc] at h
      cases h

/-- The row of an item is written with its new id and its parent's, and is otherwise as it was. -/
theorem Assigned.itemRow_ok {ids : Ids} {f : ℤ → String} {ns : List ℤ} (h : Assigned ids f ns) {row : Row}
    (hid : Names ns (row "id")) (hparent : row "parent_id" = .null ∨ Names ns (row "parent_id"))
    (hadmits : ∀ c ∈ mindItems.columns, c.Admits (row c.name))
    (hholds : ∀ c ∈ mindItems.columns, holds c (row c.name) = true)
    (hrest : ∀ column, column ∉ mindItems.columns.map Column.name → row column = .null) :
    itemRow ids row = .ok (image f ["id", "parent_id"] row) := by
  have hparent' : orNull (ref ids) (row "parent_id") = .ok (mapped f (row "parent_id")) := by
    unfold orNull
    by_cases hnull : row "parent_id" = .null
    · rw [if_pos hnull, hnull]
      rfl
    · rw [if_neg hnull, h.ref_ok (hparent.resolve_left hnull)]
  have htext : ∀ name, textColumn name ∈ mindItems.columns → toText (row name) = row name := by
    intro name hc
    exact toText_of_holds (hholds _ hc) ((hadmits _ hc).1 rfl)
  have hbody : ∀ name, textColumn name ∈ mindItems.columns → row name ≠ .null := by
    intro name hc
    exact (hadmits _ hc).1 rfl
  have hint : ∀ name, intColumn name ∈ mindItems.columns → toNumber (row name) = row name := by
    intro name hc
    exact toNumber_of_holds rfl (hholds _ hc) ((hadmits _ hc).1 rfl)
  have hnull : ∀ name, intOrNull name ∈ mindItems.columns →
      (if row name = .null then .null else toNumber (row name)) = row name := by
    intro name hc
    by_cases hn : row name = .null
    · rw [if_pos hn, hn]
    · rw [if_neg hn]
      exact toNumber_of_holds rfl (hholds _ hc) hn
  unfold itemRow
  rw [h.ref_ok hid, hparent']
  refine congrArg Except.ok (rowOf_eq ?_ ?_)
  · simp [image, htext "title" (by decide), htext "body" (by decide), htext "kind" (by decide),
      htext "status" (by decide), htext "created_by" (by decide), hbody "body" (by decide),
      hint "priority" (by decide), hint "created_at" (by decide), hint "updated_at" (by decide),
      hnull "due_at" (by decide), hnull "closed_at" (by decide), hnull "archived_at" (by decide)]
  · intro column hcolumn
    have hout : column ∉ mindItems.columns.map Column.name := by
      intro hin
      refine hcolumn ?_
      revert hin
      simp [mindItems, idColumn, itemTexts, itemTimes, textColumn, intColumn, intOrNull]
    have hids : column ∉ ["id", "parent_id"] := by
      intro hin
      refine hcolumn ?_
      revert hin
      simp
      tauto
    unfold image
    rw [if_neg hids, hrest column hout]

/-! ## The joins on the map -/

variable {columns : List String}

section Joins
variable {ids : Ids} {f : ℤ → String} {ns : List ℤ} (h : Assigned ids f ns)

include h

theorem Assigned.found {v : Value} (hv : Names ns v) :
    ∃ m, (ids.map mapRow).filter (fun m => decide (m "legacy_id" = v ∧ v ≠ .null)) = [m] ∧
      m "mind_id" = mapped f v := by
  obtain ⟨n, hn, rfl⟩ := hv
  refine ⟨mapRow (n, f n), ?_, rfl⟩
  have hrows : ids.map mapRow = ns.map (fun n => mapRow (n, f n)) := by
    rw [h.entries, List.map_map]
    rfl
  have hone : ns.filter (fun m => decide (m = n)) = [n] := by
    rw [List.filter_eq, List.count_eq_one_of_mem h.nodup hn]
    rfl
  have hmap : ns.filter ((fun m => decide (m "legacy_id" = Value.integer n ∧ Value.integer n ≠ .null)) ∘
      fun n => mapRow (n, f n)) = [n] := by
    rw [← hone]
    refine List.filter_congr (fun m _ => ?_)
    have hcell : mapRow (m, f m) "legacy_id" = .integer m := rfl
    simp [hcell]
  rw [hrows, List.filter_map, hmap]
  rfl

theorem Assigned.joined_eq {l : Row} (hl : ∀ c ∈ columns, Names ns (l c)) :
    joined (ids.map mapRow) columns l = [image f columns l] := by
  induction columns with
  | nil => rfl
  | cons c columns ih =>
      obtain ⟨m, hfilter, hm⟩ := h.found (hl c List.mem_cons_self)
      rw [joined, hfilter, ih (fun c' hc' => hl c' (List.mem_cons_of_mem _ hc'))]
      simp only [List.flatMap_cons, List.flatMap_nil, List.append_nil, List.map_cons, List.map_nil, hm]
      refine congrArg (fun r => [r]) ?_
      funext column
      by_cases hc : column = c
      · rw [hc, Function.update_self, image, if_pos List.mem_cons_self]
      · rw [Function.update_of_ne hc]
        unfold image
        by_cases hin : column ∈ columns
        · rw [if_pos hin, if_pos (List.mem_cons_of_mem _ hin)]
        · rw [if_neg hin, if_neg (fun h => hin ((List.mem_cons.mp h).resolve_left hc))]

/-- Each row is joined with what it names, once. -/
theorem Assigned.selectJoined_eq {legacy : Relation}
    (hnames : ∀ l ∈ legacy.rows, ∀ c ∈ columns, Names ns (l c))
    (hrest : ∀ l ∈ legacy.rows, ∀ column, column ∉ legacy.columns.map Column.name → l column = .null) :
    selectJoined (ids.map mapRow) columns legacy = legacy.rows.map (image f columns) := by
  unfold selectJoined
  rw [← List.flatMap_pure_eq_map (image f columns)]
  refine List.flatMap_congr (fun l hl => ?_)
  rw [h.joined_eq (hnames l hl)]
  refine congrArg (fun r => [r]) ?_
  funext column
  unfold project
  by_cases hin : column ∈ legacy.columns.map Column.name
  · rw [if_pos hin]
  · rw [if_neg hin, image]
    by_cases hc : column ∈ columns
    · obtain ⟨n, -, hn⟩ := hnames l hl column hc
      rw [hrest l hl column hin] at hn
      cases hn
    · rw [if_neg hc, hrest l hl column hin]

theorem Assigned.selectSandboxes_eq {legacy : List Row} (hnames : ∀ p ∈ legacy, Names ns (p "mind_id")) :
    selectSandboxes (ids.map mapRow) legacy = legacy.map (sandboxImage f) := by
  unfold selectSandboxes
  rw [← List.flatMap_pure_eq_map (sandboxImage f)]
  refine List.flatMap_congr (fun p hp => ?_)
  obtain ⟨m, hfilter, hm⟩ := h.found (hnames p hp)
  rw [hfilter, List.map_singleton, sandboxRow, hm]
  rfl

end Joins

/-! ## Constraints on images -/

section Constraints
variable {ids : Ids} {f : ℤ → String} {ns : List ℤ} (h : Assigned ids f ns)

/-- Null, or the name of one of these items. -/
def NamesOrNull (ns : List ℤ) (v : Value) : Prop := v = .null ∨ Names ns v

include h

theorem Assigned.mapped_ne' {v w : Value} (hv : NamesOrNull ns v) (hw : NamesOrNull ns w) (hne : v ≠ w) :
    mapped f v ≠ mapped f w := by
  rcases hv with rfl | hv
  · rcases hw with rfl | hw
    · exact absurd rfl hne
    · exact (mapped_ne_null hne.symm).symm
  · rcases hw with rfl | hw
    · exact mapped_ne_null hne
    · exact h.mapped_ne hv hw hne

omit h in
theorem image_ne_null {row : Row} {c : String} (hne : row c ≠ .null) :
    image f columns row c ≠ .null := by
  unfold image
  by_cases hc : c ∈ columns
  · rw [if_pos hc]
    exact mapped_ne_null hne
  · rwa [if_neg hc]

omit h in
/-- A relation with the same columns, where those of new ids are no integer keys, admits the images
of the rows that the old one admits. -/
theorem image_admits {rel rel' : Relation} {row : Row} (hrow : rel.Admits row)
    (hcolumns : ∀ c' ∈ rel'.columns, ∃ c ∈ rel.columns, c'.name = c.name ∧ (c'.notNull = true → c.notNull = true) ∧
      (c'.primaryKey = true → c'.type = .integer → c.primaryKey = true ∧ c.type = .integer ∧ c.name ∉ columns))
    (hchecks : ∀ check ∈ rel'.checks, check (image f columns row) = true) :
    rel'.Admits (image f columns row) := by
  refine ⟨fun c' hc' => ?_, hchecks⟩
  obtain ⟨c, hc, hname, hnotNull, hkey⟩ := hcolumns c' hc'
  rw [hname]
  refine ⟨fun hnn => image_ne_null ((hrow.1 c hc).1 (hnotNull hnn)), fun hpk htype => ?_⟩
  obtain ⟨hpk', htype', hout⟩ := hkey hpk htype
  unfold image
  rw [if_neg hout]
  exact (hrow.1 c hc).2 hpk' htype'

theorem Assigned.image_apart {rel rel' : Relation} {r s : Row}
    (hr : ∀ c ∈ columns, NamesOrNull ns (r c)) (hs : ∀ c ∈ columns, NamesOrNull ns (s c))
    (hkeys : ∀ key ∈ rel'.uniques, key ∈ rel.uniques) (hapart : rel.Apart r s) :
    rel'.Apart (image f columns r) (image f columns s) := by
  intro key hkey
  obtain ⟨c, hc, hdiffer⟩ := hapart key (hkeys key hkey)
  refine ⟨c, hc, ?_⟩
  unfold image
  by_cases hin : c ∈ columns
  · rw [if_pos hin, if_pos hin]
    rcases hdiffer with hne | hnull
    · exact Or.inl (h.mapped_ne' (hr c hin) (hs c hin) hne)
    · rw [hnull]
      exact Or.inr rfl
  · rw [if_neg hin, if_neg hin]
    exact hdiffer

theorem Assigned.differ_image {row : Row} {x y : String} (hx : x ∈ columns)
    (hy : y ∈ columns) (hnames : ∀ c ∈ columns, Names ns (row c)) (hdiffer : differ x y row = true) :
    differ x y (image f columns row) = true := by
  obtain ⟨n, hn, hxn⟩ := hnames x hx
  obtain ⟨m, hm, hym⟩ := hnames y hy
  have hne : row x ≠ row y := by
    simp only [differ, decide_eq_true_eq, hxn, hym, reduceCtorEq, false_or] at hdiffer
    rwa [hxn, hym]
  unfold differ image
  rw [if_pos hx, if_pos hy]
  exact decide_eq_true (Or.inr (Or.inr (h.mapped_ne ⟨n, hn, hxn⟩ ⟨m, hm, hym⟩ hne)))

omit h in
theorem sandboxImage_column (p : Row) : ∀ c ∈ sandboxColumns, sandboxImage f p c.name = p c.name := by
  simp [sandboxColumns, sandboxImage, rowOf, List.lookup, textColumn, intColumn, intOrNull, textOrNull]

omit h in
theorem sandboxImage_admits {rel : Relation} {p : Row} (hrow : rel.Admits p)
    (hcolumns : ∀ c ∈ sandboxColumns, c ∈ rel.columns) (hchecks : ∀ check ∈ sandboxChecks, check ∈ rel.checks) :
    sandboxesV16.Admits (sandboxImage f p) := by
  refine ⟨fun c hc => ?_, fun check hcheck => ?_⟩
  · rcases List.mem_append.mp hc with hid | hc
    · rw [List.mem_singleton.mp hid]
      exact ⟨fun h => (Bool.false_ne_true h).elim, fun _ h => by cases h⟩
    · rw [sandboxImage_column p c hc]
      exact hrow.1 c (hcolumns c hc)
  · have hold := hrow.2 check (hchecks check hcheck)
    have hcell := fun c hc => sandboxImage_column (f := f) p c hc
    simp only [sandboxColumns, textColumn, intColumn, intOrNull, textOrNull, List.mem_cons, List.not_mem_nil,
      or_false, forall_eq_or_imp, forall_eq] at hcell
    have hcheck' : check ∈ sandboxChecks := hcheck
    simp only [sandboxChecks, List.mem_cons, List.not_mem_nil, or_false] at hcheck'
    rcases hcheck' with rfl | rfl | rfl | rfl | rfl | rfl <;> simpa [atLeast, oneOf, between, hcell] using hold

theorem Assigned.sandboxImage_apart {rel : Relation} {p q : Row} (hp : Names ns (p "mind_id"))
    (hq : Names ns (q "mind_id")) (hkey : ["mind_id"] ∈ rel.uniques) (hapart : rel.Apart p q) :
    sandboxesV16.Apart (sandboxImage f p) (sandboxImage f q) := by
  obtain ⟨c, hc, hdiffer⟩ := hapart _ hkey
  rw [List.mem_singleton.mp hc] at hdiffer
  have hne : p "mind_id" ≠ q "mind_id" := by
    rcases hdiffer with hne | hnull
    · exact hne
    · obtain ⟨n, -, hn⟩ := hp
      rw [hnull] at hn
      cases hn
  have hids : sandboxImage f p "id" ≠ sandboxImage f q "id" := h.mapped_ne hp hq hne
  intro key hkey
  rw [show sandboxesV16.uniques = [["id"]] from rfl, List.mem_singleton] at hkey
  exact ⟨"id", hkey ▸ List.mem_singleton_self _, Or.inl hids⟩

end Constraints

end Elpis.Mind.IdMigration
