import Elpis.Worker.Artifacts

/-!
# What the artifact store keeps

A put writes to two paths, its artifact's and its temporary file's. Neither may be the path of a
stored row: the first is not, since the key has no row; of the second only the names of the keys
can tell.
-/

namespace Elpis.Worker.Artifacts

open Elpis.Js Elpis.Lib

variable {env : Env} {call : Call} {s t : Store} {session key path : String}

/-! ## Paths -/

theorem isSession_length (h : isSession session = true) : session.toList.length = 12 := by
  rw [fits_length h, List.length_append, List.length_replicate]
  rfl

theorem relativePath_inj {session' key' : String} (hs : isSession session = true)
    (hs' : isSession session' = true) (h : relativePath session key = relativePath session' key') :
    session = session' ∧ key = key' := by
  have hlists := congrArg String.toList h
  simp only [relativePath, String.toList_append, List.append_assoc] at hlists
  have hlen : session.toList.length = session'.toList.length := by
    rw [isSession_length hs, isSession_length hs']
  obtain ⟨hsession, hrest⟩ := List.append_inj (List.append_cancel_left hlists) hlen
  exact ⟨String.toList_inj.mp hsession, String.toList_inj.mp (List.append_cancel_left hrest)⟩

theorem artifactPath_ok {destination : String} (h : artifactPath session key = .ok destination) :
    isSession session = true ∧ isArtifactKey key = true ∧ destination = relativePath session key := by
  unfold artifactPath at h
  by_cases hs : isSession session = false
  · rw [if_pos hs] at h
    cases h
  · rw [if_neg hs] at h
    by_cases hk : isArtifactKey key = false
    · rw [if_pos hk] at h
      cases h
    · rw [if_neg hk] at h
      cases h
      exact ⟨by simpa using hs, by simpa using hk, rfl⟩

/-- The temporary file of a key stands where the artifact of a longer key would. -/
theorem relativePath_append (session key suffix : String) :
    relativePath session key ++ suffix = relativePath session (key ++ suffix) :=
  String.append_assoc

/-! ## Sound stores -/

/-- The row's file is there, with its digest and size. -/
def Backed (env : Env) (s : Store) (row : WorkerArtifactReceipt) : Prop :=
  ∃ data, s.files row.relativePath = some data ∧ env.digest data = row.sha256 ∧
    data.length = row.sizeBytes

structure Sound (env : Env) (s : Store) : Prop where
  session : ∀ row ∈ s.rows, isSession row.sessionId = true
  path : ∀ row ∈ s.rows, row.relativePath = relativePath row.sessionId row.key
  backed : ∀ row ∈ s.rows, Backed env s row
  unique : ∀ row ∈ s.rows, ∀ other ∈ s.rows,
    row.sessionId = other.sessionId → row.key = other.key → row = other

/-- The rows of `s` and their files are as they were. -/
structure Extends (s t : Store) : Prop where
  rows : ∀ row ∈ s.rows, row ∈ t.rows
  files : ∀ row ∈ s.rows, t.files row.relativePath = s.files row.relativePath

theorem Extends.refl (s : Store) : Extends s s := ⟨fun _ h => h, fun _ _ => rfl⟩

theorem Extends.trans {u : Store} (h : Extends s t) (h' : Extends t u) : Extends s u where
  rows row hrow := h'.rows row (h.rows row hrow)
  files row hrow := (h'.files row (h.rows row hrow)).trans (h.files row hrow)

variable {row : WorkerArtifactReceipt}

theorem row?_eq_some (h : s.row? session key = some row) :
    row ∈ s.rows ∧ row.sessionId = session ∧ row.key = key := by
  refine ⟨List.mem_of_find?_eq_some h, ?_⟩
  simpa using List.find?_some h

theorem row?_eq_none (h : s.row? session key = none)
    (hrow : row ∈ s.rows) (hsession : row.sessionId = session) : row.key ≠ key := by
  have hnot := List.find?_eq_none.mp h row hrow
  simpa [hsession] using hnot

theorem Sound.row? (hs : Sound env s) (hrow : row ∈ s.rows) :
    s.row? row.sessionId row.key = some row := by
  cases hfound : s.row? row.sessionId row.key with
  | none => exact absurd rfl (row?_eq_none hfound hrow rfl)
  | some other =>
      obtain ⟨hother, hsession, hkey⟩ := row?_eq_some hfound
      rw [hs.unique other hother row hrow hsession hkey]

/-- In a sound store every row can be read. -/
theorem Sound.artifactFile (hs : Sound env s) (hrow : row ∈ s.rows) :
    s.artifactFile env row.sessionId row.key = .ok row := by
  obtain ⟨data, hfile, hdigest, hsize⟩ := hs.backed row hrow
  unfold Store.artifactFile
  rw [hs.row? hrow]
  dsimp only
  rw [hfile]
  dsimp only
  rw [if_neg]
  rintro (h | h)
  · exact h hsize
  · exact h hdigest

/-- A path of a session's directory whose name is no stored key is no row's path. -/
theorem Sound.path_ne (hs : Sound env s) (hsession : isSession session = true)
    (hnone : s.row? session key = none) (hrow : row ∈ s.rows) :
    row.relativePath ≠ relativePath session key := by
  intro h
  rw [hs.path row hrow] at h
  obtain ⟨hsame, hkey⟩ := relativePath_inj (hs.session row hrow) hsession h
  exact row?_eq_none hnone hrow hsame hkey

/-! ## On the way -/

/-- So far only files that belong to no row have changed. -/
structure Untouched (s t : Store) : Prop where
  rows : t.rows = s.rows
  files : ∀ row ∈ s.rows, t.files row.relativePath = s.files row.relativePath

theorem Untouched.refl (s : Store) : Untouched s s := ⟨rfl, fun _ _ => rfl⟩

/-- What a call may leave behind, however it ends. -/
def Kept (env : Env) (s t : Store) : Prop := Sound env t ∧ Extends s t

theorem Untouched.kept (h : Untouched s t) (hs : Sound env s) : Kept env s t := by
  refine ⟨⟨?_, ?_, ?_, ?_⟩, ?_, h.files⟩
  · rw [h.rows]
    exact hs.session
  · rw [h.rows]
    exact hs.path
  · intro row hrow
    rw [h.rows] at hrow
    obtain ⟨data, hfile, hrest⟩ := hs.backed row hrow
    exact ⟨data, (h.files row hrow).trans hfile, hrest⟩
  · rw [h.rows]
    exact hs.unique
  · intro row hrow
    rw [h.rows]
    exact hrow

theorem Untouched.setFile (h : Untouched s t) (hpath : ∀ row ∈ s.rows, row.relativePath ≠ path)
    (data : Option Bytes) : Untouched s (t.setFile path data) where
  rows := h.rows
  files row hrow := by
    show Function.update t.files path data row.relativePath = _
    rw [Function.update_of_ne (hpath row hrow)]
    exact h.files row hrow

theorem Untouched.rename {destination : String} (h : Untouched s t)
    (hpath : ∀ row ∈ s.rows, row.relativePath ≠ path)
    (hdestination : ∀ row ∈ s.rows, row.relativePath ≠ destination) :
    Untouched s (t.rename path destination) :=
  (h.setFile hpath none).setFile hdestination (t.files path)

theorem files_setFile (t : Store) (path : String) (data : Option Bytes) :
    (t.setFile path data).files path = data :=
  Function.update_self ..

theorem mem_insert {row : ℕ → WorkerArtifactReceipt} {hrow : ∀ id, (row id).id = id}
    {other : WorkerArtifactReceipt} :
    other ∈ (t.insert row hrow).rows ↔ other ∈ t.rows ∨ other = row t.rows.next := by
  show other ∈ t.rows.push row hrow ↔ _
  exact AutoTable.mem_push

/-- The artifact's file is at its place and the row comes to it. -/
theorem Untouched.insert (h : Untouched s t) (hs : Sound env s) (hsession : isSession session = true)
    (hnone : s.row? session call.key = none)
    (hfile : t.files (relativePath session call.key) = some call.data) :
    Kept env s (t.insert (artifactRow env call session) (artifactRow_id env call session)) := by
  obtain ⟨ht, hext⟩ := h.kept hs
  have hnone' : ∀ row ∈ t.rows, row.sessionId = session → row.key ≠ call.key := by
    rw [h.rows]
    exact fun row hrow => row?_eq_none hnone hrow
  refine ⟨⟨?_, ?_, ?_, ?_⟩, ?_, hext.files⟩
  · intro row hrow
    rcases mem_insert.mp hrow with hold | rfl
    · exact ht.session row hold
    · exact hsession
  · intro row hrow
    rcases mem_insert.mp hrow with hold | rfl
    · exact ht.path row hold
    · rfl
  · intro row hrow
    rcases mem_insert.mp hrow with hold | rfl
    · exact ht.backed row hold
    · exact ⟨call.data, hfile, rfl, rfl⟩
  · intro row hrow other hother hsame hkey
    rcases mem_insert.mp hrow with hold | rfl <;> rcases mem_insert.mp hother with hold' | rfl
    · exact ht.unique row hold other hold' hsame hkey
    · exact absurd hkey (hnone' row hold hsame)
    · exact absurd hkey.symm (hnone' other hold' hsame.symm)
    · rfl
  · exact fun row hrow => mem_insert.mpr (Or.inl (hext.rows row hrow))

/-! ## The put -/

/-- The statements before the temporary file is there. -/
def beforeTemporary : List Statement :=
  [.resolveSession, .selectSource, .selectExisting, .makeDirectory, .chmodDirectory, .createTemporary]

/-- The session in whose directory a call gets to open a temporary file. -/
def writesFor (env : Env) (s : Store) (call : Call) : Option String :=
  call.session.filter (fun session =>
    decide (checkInput env call = .ok () ∧ checkSource env call = .ok () ∧
      s.row? session call.key = none ∧ isSession session = true ∧
      ∀ st ∈ beforeTemporary, call.faults st = false))

/-- The temporary file of the call is not the file of a stored artifact. -/
def Clear (env : Env) (s : Store) (call : Call) : Prop :=
  ∀ session ∈ writesFor env s call, s.row? session (call.key ++ call.suffix) = none

instance (s : Store) (call : Call) : Decidable (Clear env s call) :=
  inferInstanceAs (Decidable (∀ session ∈ _, _))

/-- The program ends as `P` says, or throws or dies and keeps what `s` has. -/
abbrev Runs {α : Type} (env : Env) (s : Store) (x : ArtifactsM α) (P : α → Store → Prop) (t : Store) : Prop :=
  Crash.wp x (fun a u _ => P a u) (fun _ u _ => Kept env s u) (fun u _ => Kept env s u) t ()

section Rules
variable {α β : Type} {P : β → Store → Prop}

theorem runs_mayThrow {st : Statement} {k : Unit → ArtifactsM β} (ht : Kept env s t)
    (hk : call.faults st = false → Runs env s (k ()) P t) : Runs env s (call.mayThrow st >>= k) P t := by
  apply Crash.wp_bind
  unfold Call.mayThrow
  by_cases hfault : call.faults st = true
  · rw [if_pos hfault]
    exact Crash.wp_throw ht
  · rw [if_neg hfault]
    exact Crash.wp_pure (hk (by simpa using hfault))

theorem runs_ofExcept {x : Except Error α} {k : α → ArtifactsM β} (ht : Kept env s t)
    (hk : ∀ a, x = .ok a → Runs env s (k a) P t) : Runs env s (Crash.ofExcept x >>= k) P t := by
  apply Crash.wp_bind
  exact Crash.wp_ofExcept hk (fun _ _ => ht)

theorem runs_write {f : Store → Store} {k : Unit → ArtifactsM β} (ht : Kept env s t)
    (hk : Runs env s (k ()) P (f t)) : Runs env s (Crash.write f >>= k) P t := by
  apply Crash.wp_bind
  exact Crash.wp_write ht hk

theorem runs_read {f : Store → α} {k : α → ArtifactsM β} (hk : Runs env s (k (f t)) P t) :
    Runs env s (Crash.read (fun u _ => f u) >>= k) P t := by
  apply Crash.wp_bind
  exact Crash.wp_read hk

end Rules

theorem retry_runs {receipt : WorkerArtifactReceipt} (ht : Kept env s t) :
    Runs env s (retry env call session receipt) (fun _ u => Kept env s u) t := by
  apply Crash.wp_ite
  · exact fun _ => Crash.wp_throw ht
  · intro _
    refine runs_mayThrow ht (fun _ => ?_)
    apply runs_read
    exact Crash.wp_ofExcept (fun _ _ => ht) (fun _ _ => ht)

/-- The temporary file is whole in the end, and no stored artifact has changed. -/
theorem writeTemporary_runs (hs : Sound env s) (ht : Untouched s t)
    (hclear : call.faults .createTemporary = false → ∀ row ∈ s.rows, row.relativePath ≠ path) :
    Runs env s (writeTemporary call path)
      (fun _ u => Untouched s u ∧ u.files path = some call.data ∧ call.faults .createTemporary = false) t := by
  refine runs_mayThrow (ht.kept hs) (fun hcreate => ?_)
  have htorn := ht.setFile (hclear hcreate) (some call.torn)
  refine runs_write (ht.kept hs) ?_
  refine runs_mayThrow (htorn.kept hs) (fun _ => ?_)
  apply Crash.wp_write (C := fun u _ => Kept env s u) (htorn.kept hs)
  exact ⟨htorn.setFile (hclear hcreate) (some call.data), files_setFile .., hcreate⟩

/-- The row comes, or the file goes again. -/
theorem insertArtifact_runs (hs : Sound env s) (ht : Untouched s t) (hsession : isSession session = true)
    (hnone : s.row? session call.key = none)
    (hfile : t.files (relativePath session call.key) = some call.data) :
    Runs env s (insertArtifact env call session (relativePath session call.key))
      (fun _ u => Kept env s u) t := by
  apply Crash.wp_bind
  apply Crash.wp_attempt
  apply Crash.wp_bind
  have hfails : Runs env s (do
      call.mayThrow .remove
      Crash.write (·.setFile (relativePath session call.key) none)
      Crash.throw Error.fault) (fun (_ : Unit) u => Kept env s u) t := by
    refine runs_mayThrow (ht.kept hs) (fun _ => ?_)
    refine runs_write (ht.kept hs) ?_
    apply Crash.wp_throw
    exact (ht.setFile (fun row hrow => hs.path_ne hsession hnone hrow) none).kept hs
  unfold Call.mayThrow
  by_cases hfault : call.faults .insert = true
  · rw [if_pos hfault]
    exact Crash.wp_throw hfails
  · rw [if_neg hfault]
    apply Crash.wp_pure
    apply Crash.wp_write (C := fun u _ => Kept env s u) (ht.kept hs)
    exact Crash.wp_pure (ht.insert hs hsession hnone hfile)

theorem storeArtifact_runs (hs : Sound env s) (hnone : s.row? session call.key = none)
    (hclear : isSession session = true →
      (∀ st ∈ [Statement.makeDirectory, .chmodDirectory, .createTemporary], call.faults st = false) →
      s.row? session (call.key ++ call.suffix) = none) :
    Runs env s (storeArtifact env call session) (fun _ u => Kept env s u) s := by
  have hkept := (Untouched.refl s).kept hs
  refine runs_ofExcept hkept (fun destination hpath => ?_)
  obtain ⟨hsession, -, rfl⟩ := artifactPath_ok hpath
  refine runs_mayThrow hkept (fun hmake => ?_)
  refine runs_mayThrow hkept (fun hchmod => ?_)
  rw [relativePath_append]
  apply Crash.wp_bind
  have htemporary : call.faults .createTemporary = false → ∀ row ∈ s.rows,
      row.relativePath ≠ relativePath session (call.key ++ call.suffix) := by
    intro hcreate row hrow
    apply hs.path_ne hsession _ hrow
    exact hclear hsession (by simp [hmake, hchmod, hcreate])
  apply Crash.wp_mono (writeTemporary_runs hs (Untouched.refl s) htemporary) ?_ (fun _ _ _ h => h) (fun _ _ h => h)
  rintro - t ⟨⟩ ⟨ht, hwhole, hcreate⟩
  have hrename := ht.rename (htemporary hcreate) (fun row hrow => hs.path_ne hsession hnone hrow)
  refine runs_mayThrow (ht.kept hs) (fun _ => ?_)
  refine runs_mayThrow (ht.kept hs) (fun _ => ?_)
  refine runs_mayThrow (ht.kept hs) (fun _ => ?_)
  refine runs_mayThrow (ht.kept hs) (fun _ => ?_)
  refine runs_write (ht.kept hs) ?_
  refine runs_mayThrow (hrename.kept hs) (fun _ => ?_)
  apply Crash.wp_bind
  have hfile : (t.rename (relativePath session (call.key ++ call.suffix))
      (relativePath session call.key)).files (relativePath session call.key) = some call.data :=
    (files_setFile ..).trans hwhole
  apply Crash.wp_mono (insertArtifact_runs hs hrename hsession hnone hfile) ?_ (fun _ _ _ h => h) (fun _ _ h => h)
  rintro - u ⟨⟩ hu
  refine runs_mayThrow hu (fun _ => ?_)
  apply runs_read
  exact Crash.wp_ofExcept (fun _ _ => hu) (fun _ _ => hu)

theorem putArtifactForWorker_runs (hs : Sound env s) (hclear : Clear env s call) :
    Runs env s (putArtifactForWorker env call) (fun _ u => Kept env s u) s := by
  have hkept := (Untouched.refl s).kept hs
  refine runs_mayThrow hkept (fun hresolve => ?_)
  refine runs_ofExcept hkept (fun session hbinding => ?_)
  refine runs_ofExcept hkept (fun _ hinput => ?_)
  refine runs_mayThrow hkept (fun hselect => ?_)
  refine runs_ofExcept hkept (fun _ hsource => ?_)
  refine runs_mayThrow hkept (fun hexisting => ?_)
  apply runs_read
  cases hrow : s.row? session call.key with
  | some receipt => exact retry_runs hkept
  | none =>
      apply storeArtifact_runs hs hrow
      intro hsession hfaults
      apply hclear
      have hcall : call.session = some session := by
        cases hcase : call.session with
        | none =>
            rw [hcase] at hbinding
            cases hbinding
        | some other =>
            rw [hcase] at hbinding
            cases hbinding
            rfl
      apply Option.mem_def.mpr
      apply Option.filter_eq_some_iff.mpr
      refine ⟨hcall, decide_eq_true ⟨hinput, hsource, hrow, hsession, ?_⟩⟩
      simpa [beforeTemporary, hresolve, hselect, hexisting] using hfaults

/-! ## Runs -/

theorem step_kept (hs : Sound env s) (hclear : Clear env s call) : Kept env s (step env s call) :=
  Crash.store_of_wp (putArtifactForWorker_runs hs hclear) _

theorem sound_empty (env : Env) (files : String → Option Bytes) : Sound env (Store.empty files) where
  session _ h := absurd h Table.not_mem_empty
  path _ h := absurd h Table.not_mem_empty
  backed _ h := absurd h Table.not_mem_empty
  unique _ h := absurd h Table.not_mem_empty

/-- What the store promises after some calls, `t`, to the store before them, `s`. -/
structure Promise (env : Env) (s t : Store) : Prop where
  backed : ∀ row ∈ t.rows, row.relativePath = relativePath row.sessionId row.key ∧ Backed env t row
  readable : ∀ row ∈ t.rows, t.artifactFile env row.sessionId row.key = .ok row
  bound : ∀ row ∈ t.rows, ∀ other ∈ t.rows,
    row.sessionId = other.sessionId → row.key = other.key → row = other
  kept : ∀ row ∈ s.rows, row ∈ t.rows ∧ t.files row.relativePath = s.files row.relativePath

theorem promise_run (env : Env) (files : String → Option Bytes) (before after : List Call)
    (h : EachStep (step env) (Clear env) (Store.empty files) (before ++ after)) :
    Promise env (run (step env) (Store.empty files) before)
      (run (step env) (Store.empty files) (before ++ after)) := by
  rw [EachStep.append_iff] at h
  have hsound : ∀ u, Sound env u → ∀ calls, EachStep (step env) (Clear env) u calls →
      Kept env u (run (step env) u calls) := by
    intro u hu calls
    induction calls generalizing u with
    | nil => exact fun _ => ⟨hu, Extends.refl u⟩
    | cons call rest ih =>
        rintro ⟨hclear, hrest⟩
        obtain ⟨hnext, hext⟩ := step_kept hu hclear
        obtain ⟨hlast, hext'⟩ := ih _ hnext hrest
        exact ⟨hlast, hext.trans hext'⟩
  obtain ⟨hbefore, -⟩ := hsound _ (sound_empty env files) before h.1
  obtain ⟨hafter, hext⟩ := hsound _ hbefore after h.2
  rw [run_append]
  exact
    { backed := fun row hrow => ⟨hafter.path row hrow, hafter.backed row hrow⟩
      readable := fun _ hrow => hafter.artifactFile hrow
      bound := hafter.unique
      kept := fun row hrow => ⟨hext.rows row hrow, hext.files row hrow⟩ }

/-! ## Two calls -/

def sampleEnv : Env := ⟨100, fun data => toString data⟩

/-- A put that meets nothing, of process 12 at 34. -/
def samplePut (key : String) (data : Bytes) : Call where
  session := some "wrk-abcdefgh"
  source := some (String.ofList (List.replicate 64 '0'))
  key := key
  kind := "unified_patch_gzip"
  sourceSha256 := String.ofList (List.replicate 64 '0')
  data := data
  sha256 := none
  pid := 12
  clock := 34
  createdAt := 34
  faults := fun _ => false
  torn := []
  budget := none

theorem promise_run_puts : Promise sampleEnv
    (run (step sampleEnv) (Store.empty (fun _ => none)) [samplePut "a" [1]])
    (run (step sampleEnv) (Store.empty (fun _ => none)) ([samplePut "a" [1]] ++ [samplePut "b" [2]])) :=
  promise_run sampleEnv (fun _ => none) [samplePut "a" [1]] [samplePut "b" [2]] (by decide)

/-- The put of `a` writes over the artifact `a.12.34.tmp` and renames it away. -/
theorem artifact_lost : ¬Promise sampleEnv
    (run (step sampleEnv) (Store.empty (fun _ => none)) [samplePut "a.12.34.tmp" [1]])
    (run (step sampleEnv) (Store.empty (fun _ => none))
      ([samplePut "a.12.34.tmp" [1]] ++ [samplePut "a" [2]])) := by
  intro h
  have hread : ∀ row ∈ (run (step sampleEnv) (Store.empty (fun _ => none))
      [samplePut "a.12.34.tmp" [1], samplePut "a" [2]]).rows.rows,
      (run (step sampleEnv) (Store.empty (fun _ => none))
        [samplePut "a.12.34.tmp" [1], samplePut "a" [2]]).artifactFile sampleEnv row.sessionId row.key = .ok row :=
    h.readable
  revert hread
  decide

end Elpis.Worker.Artifacts
