import Elpis.Memory.Consolidator

/-!
# What a consolidation keeps

The pruning removes a backup exactly if five others that it takes for backups of the same file
sort behind it. Whether a call is safe turns on the names that it meets there.
-/

namespace Elpis.Memory

open Elpis.Js Elpis.Lib

/-! ## The rewrite keeps the frontmatter -/

variable {env : Env}

theorem passes_front {model : Model} {front current text : String} {rounds : List ℕ}
    (h : passes env model front rounds current = .ok text) : ∃ body, text = front ++ body := by
  induction rounds generalizing current with
  | nil => cases h
  | cons round rest ih =>
      rw [passes] at h
      cases hpass : pass env model round current with
      | error message =>
          rw [hpass] at h
          cases h
      | ok next =>
          rw [hpass] at h
          change (if _ then _ else _) = _ at h
          by_cases hfits : env.tokens (front ++ next) ≤ env.thresholdTokens
          · rw [if_pos hfits] at h
            cases h
            exact ⟨next, rfl⟩
          · rw [if_neg hfits] at h
            exact ih h

theorem rewrite_front {model : Model} {original text : String}
    (h : rewrite env model original = .ok text) : ∃ body, text = frontmatterOf original ++ body :=
  passes_front h

variable {file original replacement : String}

/-- What has passed the look at the file and the size gate. -/
theorem checked_ok {rewritten : Except String String} {w : World}
    (h : checked env file original rewritten w = .ok replacement) :
    rewritten = .ok replacement ∧
      (∃ present, env.readFile w file = some present ∧ env.digest present = env.digest original) ∧
      env.tokens replacement < env.tokens original ∧ env.tokens replacement ≤ env.thresholdTokens := by
  unfold checked at h
  cases rewritten with
  | error message => cases h
  | ok text =>
      cases hread : env.readFile w file with
      | none =>
          rw [hread] at h
          cases h
      | some present =>
          rw [hread] at h
          change (if _ then _ else _) = _ at h
          by_cases hdigest : env.digest present = env.digest original
          · rw [if_neg (not_not.mpr hdigest)] at h
            change (if _ then _ else _) = _ at h
            by_cases hgate : env.tokens original ≤ env.tokens text ∨ env.thresholdTokens < env.tokens text
            · rw [if_pos hgate] at h
              cases h
            · rw [if_neg hgate] at h
              cases h
              rw [not_or, not_le, not_lt] at hgate
              exact ⟨rfl, ⟨present, rfl, hdigest⟩, hgate.1, hgate.2⟩
          · rw [if_pos hdigest] at h
            cases h

/-! ## The pruning -/

/-- Five names that pass for backups of the file sort behind this one, which passes too. -/
def Outlived (file : String) (names : List String) (name : String) : Prop :=
  isBackupOf file name = true ∧
    5 ≤ (names.filter (fun other => isBackupOf file other && decide (codeUnits name < codeUnits other))).length

instance (file : String) (names : List String) (name : String) : Decidable (Outlived file names name) :=
  inferInstanceAs (Decidable (_ ∧ _))

theorem mem_old {file name : String} {names : List String} (hnodup : names.Nodup) (hname : name ∈ names) :
    name ∈ old file names ↔ Outlived file names name := by
  unfold Outlived
  by_cases hbackup : isBackupOf file name = true
  · have hdesc : (sort (names.filter (isBackupOf file))).reverse.Pairwise
        (fun x y => codeUnits y < codeUnits x) :=
      List.pairwise_reverse.mpr (pairwise_sort_of_nodup (hnodup.filter _))
    have hmem : name ∈ (sort (names.filter (isBackupOf file))).reverse :=
      List.mem_reverse.mpr (mem_sort.mpr (List.mem_filter.mpr ⟨hname, hbackup⟩))
    have hperm : (sort (names.filter (isBackupOf file))).reverse.Perm (names.filter (isBackupOf file)) :=
      (List.reverse_perm _).trans (sort_perm _)
    have hcount := (hperm.filter (fun other => decide (codeUnits name < codeUnits other))).length_eq
    rw [List.filter_filter] at hcount
    rw [old, mem_drop_iff codeUnits 5 hdesc hmem, hcount]
    simp only [hbackup, true_and, Bool.and_comm]
  · simp only [hbackup, Bool.false_eq_true, false_and, iff_false]
    intro h
    have hmem := List.mem_filter.mp (mem_sort.mp (List.mem_reverse.mp (List.mem_of_mem_drop h)))
    exact hbackup hmem.2

theorem mem_removeAll {names : List String} {backups : Backups} {row : String × Bytes} :
    row ∈ removeAll names backups ↔ row ∈ backups ∧ row.1 ∉ names := by
  induction names generalizing backups with
  | nil => simp [removeAll]
  | cons name rest ih =>
      change row ∈ removeAll rest _ ↔ _
      rw [ih, Table.mem_delete]
      simp only [beq_eq_false_iff_ne, ne_eq, List.mem_cons, not_or]
      exact and_assoc

theorem mem_namesOf {backups : Backups} {name : String} :
    name ∈ namesOf backups ↔ ∃ bytes, (name, bytes) ∈ backups := by
  constructor
  · intro h
    obtain ⟨⟨other, bytes⟩, hrow, rfl⟩ := List.mem_map.mp h
    exact ⟨bytes, hrow⟩
  · rintro ⟨bytes, hrow⟩
    exact List.mem_map.mpr ⟨(name, bytes), hrow, rfl⟩

/-- The backups before the pruning. -/
def withBackup (env : Env) (file original : String) (now : ℤ) (w : World) : Backups :=
  w.backups.put (backupName env file original now, encodeUtf8 original)

theorem mem_replaced {now : ℤ} {w : World} {row : String × Bytes} :
    row ∈ (atomicReplace env file original replacement now w).backups ↔
      row ∈ withBackup env file original now w ∧
        ¬Outlived file (namesOf (withBackup env file original now w)) row.1 := by
  change row ∈ removeAll _ (withBackup env file original now w) ↔ _
  rw [mem_removeAll]
  refine and_congr_right (fun hrow => not_congr (mem_old ?_ ?_))
  · exact (withBackup env file original now w).nodup
  · exact mem_namesOf.mpr ⟨row.2, hrow⟩

/-! ## Safe calls -/

/-- A smaller body stands behind the same frontmatter, and what stood there is held as a backup. -/
structure Replaced (env : Env) (before after : Bytes) (backups : Backups) : Prop where
  frontmatter : ∃ body body', before = encodeUtf8 (frontmatterOf (env.decode before)) ++ body ∧
    after = encodeUtf8 (frontmatterOf (env.decode before)) ++ body'
  gate : env.tokens (env.decode after) < env.tokens (env.decode before) ∧
    env.tokens (env.decode after) ≤ env.thresholdTokens
  held : ∃ row ∈ backups, row.2 = before

/-- A call that would have left `w` has left `w'`. -/
structure Safe (env : Env) (file : String) (w w' : World) : Prop where
  kept : w'.files file = w.files file ∨
    ∃ before after, w.files file = some before ∧ w'.files file = some after ∧
      Replaced env before after w'.backups
  others : ∀ other, other ≠ file → env.allowed other = true → ∀ name, w.latest other = some name →
    name ∈ namesOf w.backups → name ∈ namesOf w'.backups

/-- The call gets as far as the replacement of this text. -/
def Replaces (env : Env) (file : String) (force : Bool) (model : Model) (w₀ w : World) (original : String) : Prop :=
  env.allowed file = true ∧ started env file force w₀ = .inr original ∧
    ∃ replacement, checked env file original (rewrite env model original) w = .ok replacement

/-- The names on the disk leave the replacement of the text safe. -/
structure Clear (env : Env) (file original : String) (now : ℤ) (w : World) : Prop where
  /-- The bytes of the frontmatter are those of its text. -/
  frontmatter : ∃ before, w.files file = some before ∧ encodeUtf8 (frontmatterOf original) <+: before
  held : ∃ row ∈ withBackup env file original now w, w.files file = some row.2 ∧
    ¬Outlived file (namesOf (withBackup env file original now w)) row.1
  others : ∀ other, other ≠ file → env.allowed other = true → ∀ name, w.latest other = some name →
    name ∈ namesOf w.backups → ¬Outlived file (namesOf (withBackup env file original now w)) name

theorem encodeUtf8_append (s t : String) : encodeUtf8 (s ++ t) = encodeUtf8 s ++ encodeUtf8 t := by
  unfold encodeUtf8
  simp

theorem decode_encode (env : Env) (text : String) : env.decode (encodeUtf8 text) = text := by
  rw [Env.decode, decodeUtf8_encodeUtf8]
  rfl

/-- A call either changes no file and no backup or replaces the text that it has read. -/
theorem checkNow_cases (env : Env) (file : String) (force : Bool) (model : Model) (now : ℤ) (w₀ w : World) :
    ((¬∃ original, Replaces env file force model w₀ w original) ∧
      (checkNow env file force model now w₀ w).2.files = w.files ∧
      (checkNow env file force model now w₀ w).2.backups = w.backups) ∨
    ∃ original replacement, Replaces env file force model w₀ w original ∧
      checked env file original (rewrite env model original) w = .ok replacement ∧
      (checkNow env file force model now w₀ w).2.files = Function.update w.files file (some (encodeUtf8 replacement)) ∧
      (checkNow env file force model now w₀ w).2.backups =
        (atomicReplace env file original replacement now w).backups := by
  unfold checkNow
  cases hallowed : env.allowed file with
  | false =>
      refine Or.inl ⟨?_, rfl, rfl⟩
      rintro ⟨original, hallowed', -⟩
      exact absurd (hallowed.symm.trans hallowed') Bool.false_ne_true
  | true =>
      cases hstarted : started env file force w₀ with
      | inl answer =>
          refine Or.inl ⟨?_, rfl, rfl⟩
          rintro ⟨original, -, hstarted', -⟩
          cases hstarted.symm.trans hstarted'
      | inr original =>
          cases hchecked : checked env file original (rewrite env model original) w with
          | error message =>
              refine Or.inl ⟨?_, ?_, ?_⟩
              · rintro ⟨original', -, hstarted', replacement, hchecked'⟩
                cases hstarted.symm.trans hstarted'
                cases hchecked.symm.trans hchecked'
              · simp [finished, hchecked]
              · simp [finished, hchecked]
          | ok replacement =>
              refine Or.inr ⟨original, replacement, ⟨hallowed, hstarted, replacement, hchecked⟩, hchecked, ?_, ?_⟩
              · simp [finished, hchecked, atomicReplace]
              · simp [finished, hchecked]

theorem started_read {file original : String} {force : Bool} {w₀ : World}
    (h : started env file force w₀ = .inr original) : env.readFile w₀ file = some original := by
  unfold started at h
  by_cases hoff : env.thresholdTokens = 0
  · rw [if_pos hoff] at h
    cases h
  · rw [if_neg hoff] at h
    cases hread : env.readFile w₀ file with
    | none =>
        rw [hread] at h
        cases h
    | some text =>
        rw [hread] at h
        dsimp only at h
        split_ifs at h
        cases h
        rfl

/-- What the pruning leaves of the names that were there. -/
theorem names_replaced {now : ℤ} {w : World} {name : String}
    (hname : name ∈ namesOf w.backups) :
    name ∈ namesOf (atomicReplace env file original replacement now w).backups ↔
      ¬Outlived file (namesOf (withBackup env file original now w)) name := by
  obtain ⟨bytes, hrow⟩ := mem_namesOf.mp hname
  have hput : ∃ bytes', (name, bytes') ∈ withBackup env file original now w := by
    by_cases hsame : name = backupName env file original now
    · exact ⟨encodeUtf8 original, Table.mem_put.mpr (Or.inl (by rw [hsame]))⟩
    · exact ⟨bytes, Table.mem_put.mpr (Or.inr ⟨hrow, hsame⟩)⟩
  constructor
  · intro h
    obtain ⟨bytes', hkept⟩ := mem_namesOf.mp h
    exact (mem_replaced.mp hkept).2
  · intro h
    obtain ⟨bytes', hrow'⟩ := hput
    exact mem_namesOf.mpr ⟨bytes', mem_replaced.mpr ⟨hrow', h⟩⟩

/-- A call is safe exactly if the names on the disk leave it safe where it comes to a replacement;
the digests of the two texts that the call compares do not collide. -/
theorem checkNow_safe (env : Env) (file : String) (force : Bool) (model : Model) (now : ℤ) (w₀ w : World)
    (hdigest : ∀ original present, env.readFile w₀ file = some original → env.readFile w file = some present →
      env.digest present = env.digest original → present = original) :
    Safe env file w (checkNow env file force model now w₀ w).2 ↔
      ∀ original, Replaces env file force model w₀ w original → Clear env file original now w := by
  rcases checkNow_cases env file force model now w₀ w with ⟨hnot, hfiles, hbackups⟩ |
    ⟨original, replacement, hreplaces, hchecked, hfiles, hbackups⟩
  · refine iff_of_true ⟨Or.inl (by rw [hfiles]), ?_⟩ ?_
    · intro other hne hallowed name hlatest hname
      rw [hbackups]
      exact hname
    · intro original h
      exact absurd ⟨original, h⟩ hnot
  · obtain ⟨hrewrite, ⟨present, hpresent, hsame⟩, hless, hfits⟩ := checked_ok hchecked
    obtain ⟨body', hbody'⟩ := rewrite_front hrewrite
    have heq := hdigest original present (started_read hreplaces.2.1) hpresent hsame
    rw [heq] at hpresent
    obtain ⟨before, hbefore, hdecode⟩ := Option.map_eq_some_iff.mp hpresent
    have hafter : (checkNow env file force model now w₀ w).2.files file = some (encodeUtf8 replacement) := by
      rw [hfiles, Function.update_self]
    have hother : ∀ name ∈ namesOf w.backups,
        (name ∈ namesOf (checkNow env file force model now w₀ w).2.backups ↔
          ¬Outlived file (namesOf (withBackup env file original now w)) name) := by
      intro name hname
      rw [hbackups]
      exact names_replaced hname
    constructor
    · intro hsafe original' h
      cases hreplaces.2.1.symm.trans h.2.1
      rcases hsafe.kept with hkept | ⟨before', after, hbefore', hafter', hreplaced⟩
      · -- the file cannot hold what it held: the text is smaller
        rw [hafter, hbefore] at hkept
        cases hkept
        rw [decode_encode] at hdecode
        rw [hdecode] at hless
        exact absurd hless (lt_irrefl _)
      · cases hbefore.symm.trans hbefore'
        cases hafter.symm.trans hafter'
        obtain ⟨body, _, hfront, -⟩ := hreplaced.frontmatter
        obtain ⟨row, hrow, hbytes⟩ := hreplaced.held
        rw [hbackups, mem_replaced] at hrow
        rw [hdecode] at hfront
        refine ⟨⟨before, hbefore, body, hfront.symm⟩, ⟨row, hrow.1, ?_, hrow.2⟩, ?_⟩
        · rw [hbefore, hbytes]
        · intro other hne hallowed name hlatest hname
          exact (hother name hname).mp (hsafe.others other hne hallowed name hlatest hname)
    · intro hclear
      obtain ⟨⟨before', hbefore', body, hfront⟩, ⟨row, hrow, hbytes, hnot⟩, hothers⟩ := hclear original hreplaces
      cases hbefore.symm.trans hbefore'
      rw [hbefore] at hbytes
      refine ⟨Or.inr ⟨before, encodeUtf8 replacement, hbefore, hafter, ?_, ?_, ?_⟩, ?_⟩
      · refine ⟨body, encodeUtf8 body', ?_, ?_⟩
        · rw [hdecode]
          exact hfront.symm
        · rw [hdecode, hbody', encodeUtf8_append]
      · rw [decode_encode, hdecode]
        exact ⟨hless, hfits⟩
      · refine ⟨row, ?_, (Option.some.inj hbytes).symm⟩
        rw [hbackups]
        exact mem_replaced.mpr ⟨hrow, hnot⟩
      · intro other hne hallowed name hlatest hname
        exact (hother name hname).mpr (hothers other hne hallowed name hlatest hname)

/-! ## Two files of people -/

def smallEnv : Env where
  memoryFile := "MEMORY.md"
  thresholdTokens := 12
  maxChars := 4096
  estimateTokens := id
  digest text := if text = "what was known of a" then
    "f1e0076c1ab590633869a2f226823d6a6eed54e6b4b55e0baaf96f905b668023" else ""
  lossy _ := "\uFFFD"
  accepts _ _ := true

/-- The person file `a.md`, behind five consolidations of `a.md-b.md`. -/
def smallWorld : World where
  files file := if file = "people/a.md" then some (encodeUtf8 "what was known of a") else none
  backups := ⟨[("people_a.md-b.md-2025-09-01T00-00-00-000Z-1.md", []), ("people_a.md-b.md-2025-09-02T00-00-00-000Z-2.md", []),
    ("people_a.md-b.md-2025-09-03T00-00-00-000Z-3.md", []), ("people_a.md-b.md-2025-09-04T00-00-00-000Z-4.md", []),
    ("people_a.md-b.md-2025-09-05T00-00-00-000Z-5.md", [])], by decide⟩
  failedDigests _ := none
  latest file := if file = "people/a.md-b.md" then some "people_a.md-b.md-2025-09-05T00-00-00-000Z-5.md" else none

/-- The backup of the call's own file is the one that is removed. -/
theorem backup_lost : ¬Safe smallEnv "people/a.md" smallWorld
    (checkNow smallEnv "people/a.md" false (fun _ _ _ => .ok "a") 1757500245007 smallWorld smallWorld).2 := by
  intro hsafe
  have hfile : (checkNow smallEnv "people/a.md" false (fun _ _ _ => .ok "a") 1757500245007 smallWorld
      smallWorld).2.files "people/a.md" ≠ smallWorld.files "people/a.md" := by decide +kernel
  rcases checkNow_cases smallEnv "people/a.md" false (fun _ _ _ => .ok "a") 1757500245007 smallWorld smallWorld with
    ⟨-, hfiles, -⟩ | ⟨original, replacement, hreplaces, -, -, hbackups⟩
  · exact hfile (congrFun hfiles _)
  · have hread : smallEnv.readFile smallWorld "people/a.md" = some "what was known of a" := by decide +kernel
    cases (started_read hreplaces.2.1).symm.trans hread
    have hrows : ∀ row ∈ (withBackup smallEnv "people/a.md" "what was known of a" 1757500245007 smallWorld).rows,
        ¬Outlived "people/a.md" (namesOf (withBackup smallEnv "people/a.md" "what was known of a" 1757500245007
          smallWorld)) row.1 → row.2 = [] := by decide +kernel
    rcases hsafe.kept with hkept | ⟨before, after, hbefore, -, hreplaced⟩
    · exact hfile hkept
    · obtain ⟨row, hrow, hbytes⟩ := hreplaced.held
      rw [hbackups, mem_replaced] at hrow
      rw [hrows row hrow.1 hrow.2] at hbytes
      rw [← hbytes] at hbefore
      exact absurd hbefore (by decide +kernel)

/-- A memory file without backups. -/
def memoryWorld : World where
  files _ := some (encodeUtf8 "what was known of a")
  backups := Table.empty
  failedDigests _ := none
  latest _ := none

theorem checkNow_safe_memory : Safe smallEnv "MEMORY.md" memoryWorld
    (checkNow smallEnv "MEMORY.md" false (fun _ _ _ => .ok "a") 1757500245007 memoryWorld memoryWorld).2 := by
  have hdigest : ∀ original present, smallEnv.readFile memoryWorld "MEMORY.md" = some original →
      smallEnv.readFile memoryWorld "MEMORY.md" = some present → smallEnv.digest present = smallEnv.digest original →
      present = original := fun _ _ horiginal hpresent _ => Option.some.inj (hpresent.symm.trans horiginal)
  refine (checkNow_safe _ _ _ _ _ _ _ hdigest).mpr ?_
  rintro original ⟨-, hstarted, -⟩
  have hread : smallEnv.readFile memoryWorld "MEMORY.md" = some "what was known of a" := by decide +kernel
  cases (started_read hstarted).symm.trans hread
  refine ⟨⟨_, rfl, by decide +kernel⟩, ?_, ?_⟩
  · have hnot : ¬Outlived "MEMORY.md" (namesOf (withBackup smallEnv "MEMORY.md" "what was known of a" 1757500245007
        memoryWorld)) (backupName smallEnv "MEMORY.md" "what was known of a" 1757500245007) := by decide +kernel
    exact ⟨_, Table.mem_put.mpr (Or.inl rfl), rfl, hnot⟩
  · intro other _ _ name _ hname
    cases hname

end Elpis.Memory
