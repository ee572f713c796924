import Elpis.Console.ThreadFrames

/-!
# What a console client holds of the Thread

A client that applies sound frames in their order holds the entries without a gap, from each
of its own up to the first entry an early message jumped over (`Holds`).

The two ways into a gap that stays are the ones `Fits` excludes: a snapshot that is merged only
for what early messages share with it, and a page that comes behind a snapshot which replaced
the list it was asked for.
-/

namespace Elpis.Console

open Elpis.Lib

variable {α β : Type}

section Runs

variable {present : ChatMessage α → Option ℕ → String × β} {pool : List (ChatMessage α)}

/-! ## What the client holds -/

theorem eq_of_known {log : List (StreamEntry β)} (hlog : Numbered 0 log) {e e' : StreamEntry β}
    (he : e ∈ log ∨ e ∈ archivedEntries present pool)
    (he' : e' ∈ log ∨ e' ∈ archivedEntries present pool) (hid : e.id = e'.id) : e = e' := by
  have harch : Numbered _ (archivedEntries present pool) := numbered_archivedEntries pool
  have hlen : (archivedEntries present pool).length = _ := length_archivedEntries pool
  rcases he with he | he <;> rcases he' with he' | he'
  · exact hlog.eq_of_id he he' hid
  · have h := (hlog.range he).1
    have h' := (harch.range he').2
    omega
  · have h := (harch.range he).2
    have h' := (hlog.range he').1
    omega
  · exact harch.eq_of_id he he' hid

variable (present pool)

/-- Up to the first entry missed the live part of the list has no gap, and the archived part
has none up to its end. -/
structure Holds (s : Thread β) : Prop where
  known : ∀ e ∈ s.client.messages, e ∈ s.log ∨ e ∈ archivedEntries present pool
  ordered : s.client.messages.Pairwise (fun e e' => e.id < e'.id)
  live : Gapless s.hub.mirrorBase (s.missed.getD (top s.client.messages)) (liveIds s.client.messages)
  old : Gapless (-(pool.length : ℤ)) 0 (oldIds s.client.messages)
  missed : ∀ m ∈ s.missed, 0 < m ∧ m ≤ top s.client.messages
  archived : s.applied = true → s.client.hasMore = false →
    ∀ e ∈ archivedEntries present pool, e ∈ s.client.messages
  first : s.client.startedAt ≠ none → s.applied = true

/-- What every step keeps, as long as the frames fit. -/
structure Inv (s : Thread β) : Prop where
  retains : s.hub.Retains s.log
  log : Numbered 0 s.log
  nextId : (s.log.length : ℤ) = s.hub.nextId
  holds : Holds present pool s
  down : Chain present pool s.log ⟨top s.client.messages, s.applied⟩ s.down
  link : (reach ⟨top s.client.messages, s.applied⟩ s.down).top ≤ s.hub.nextId
  synced : s.hub.hasState = true →
    reach ⟨top s.client.messages, s.applied⟩ s.down = ⟨s.hub.nextId, true⟩
  attached : s.hub.hasState = true → s.hub.generation.isSome = true
  up : ∀ b ∈ s.up, b ≤ top s.client.messages

variable {present pool}

variable {s : Thread β}

theorem Holds.whole (h : Holds present pool s) (hlog : Numbered 0 s.log)
    (hretains : s.hub.Retains s.log) (happlied : s.applied = true) (hmissed : s.missed = none) :
    Whole present pool s where
  ordered := h.ordered
  content := h.known
  complete := by
    intro r hr a ha hpos har b hb hrb
    have hbase := (hretains.numbered.range hr).1
    have hlt : r.id < s.missed.getD (top s.client.messages) := by
      rw [hmissed]
      exact lt_of_le_of_lt hrb (lt_top hb)
    obtain ⟨-, e, he, hid⟩ := h.live a.id ⟨hpos, a, ha, rfl⟩ r.id har hbase hlt
    rwa [← eq_of_known hlog (h.known e he) (Or.inl (hretains.suffix.mem hr)) hid]
  archived := by
    intro hmore
    have harch : Numbered _ (archivedEntries present pool) := numbered_archivedEntries pool
    have hlen : (archivedEntries present pool).length = _ := length_archivedEntries pool
    refine eq_of_pairwise_lt StreamEntry.id (h.ordered.filter _) harch.pairwise (fun e => ?_)
    rw [List.mem_filter, decide_eq_true_eq]
    constructor
    · rintro ⟨he, hneg⟩
      rcases h.known e he with hlive | hold
      · have hpos := (hlog.range hlive).1
        omega
      · exact hold
    · intro he
      have hrange := harch.range he
      exact ⟨h.archived happlied hmore e he, by omega⟩

/-- A step that leaves the list alone, and whose hub retains no entry it did not. -/
theorem Holds.keep {s t : Thread β} (h : Holds present pool s)
    (hmessages : t.client.messages = s.client.messages) (hmore : t.client.hasMore = s.client.hasMore)
    (hstarted : t.client.startedAt = s.client.startedAt) (happlied : t.applied = s.applied)
    (hmissed : t.missed = s.missed) (hlog : ∀ e ∈ s.log, e ∈ t.log)
    (hbase : s.hub.mirrorBase ≤ t.hub.mirrorBase) : Holds present pool t where
  known := by
    rw [hmessages]
    exact fun e he => (h.known e he).imp_left (hlog e)
  ordered := hmessages ▸ h.ordered
  live := by
    rw [hmessages, hmissed]
    exact h.live.mono hbase le_rfl
  old := hmessages ▸ h.old
  missed := by
    rw [hmessages, hmissed]
    exact h.missed
  archived := by
    rw [hmessages, happlied, hmore]
    exact h.archived
  first := by
    rw [hstarted, happlied]
    exact h.first

/-! ## Deliveries -/

/-- The entries of a merge are those of both lists, when the hub knows them all. -/
theorem Inv.mem_merge (h : Inv present pool s) {incoming : List (StreamEntry β)}
    (hknown : ∀ e ∈ incoming, e ∈ s.log ∨ e ∈ archivedEntries present pool) (e : StreamEntry β) :
    e ∈ mergeMessages s.client.messages incoming ↔ e ∈ s.client.messages ∨ e ∈ incoming := by
  refine mem_mergeMessages ?_ e
  have hall : ∀ e ∈ s.client.messages ++ incoming, e ∈ s.log ∨ e ∈ archivedEntries present pool := by
    intro e he
    exact (List.mem_append.mp he).elim (h.holds.known e) (hknown e)
  intro e he e' he' hid
  exact eq_of_known h.log (hall e he) (hall e' he') hid

theorem Inv.merged (h : Inv present pool s) {incoming : List (StreamEntry β)}
    (hknown : ∀ e ∈ incoming, e ∈ s.log ∨ e ∈ archivedEntries present pool) :
    ∀ e ∈ mergeMessages s.client.messages incoming,
      e ∈ s.log ∨ e ∈ archivedEntries present pool := by
  intro e he
  exact ((h.mem_merge hknown e).mp he).elim (h.holds.known e) (hknown e)

variable {rest : List (Packet β)}

theorem deliver_eq {packet : Packet β}
    (hdown : s.down = packet :: rest) :
    s.deliver.down = rest ∧ s.deliver.hub = s.hub ∧ s.deliver.log = s.log ∧ s.deliver.up = s.up ∧
      s.deliver.client = s.client.applyFrame packet.frame := by
  unfold Thread.deliver
  rw [hdown]
  exact ⟨rfl, rfl, rfl, rfl, rfl⟩

/-- A delivery keeps the invariant when the client is where the frame puts it. -/
theorem Inv.deliver (h : Inv present pool s) {packet : Packet β} (hdown : s.down = packet :: rest) (hholds : Holds present pool s.deliver)
    (hcursor : (⟨top s.deliver.client.messages, s.deliver.applied⟩ : Cursor) =
      Cursor.after ⟨top s.client.messages, s.applied⟩ packet) : Inv present pool s.deliver := by
  obtain ⟨hrest, hhub, hlog, hup, -⟩ := deliver_eq hdown
  have hchain := h.down
  have hlink := h.link
  have hsynced := h.synced
  rw [hdown] at hchain hlink hsynced
  have hle := Sound.le_after hchain.1
  rw [← hcursor] at hle
  exact
    { retains := by rw [hhub, hlog]; exact h.retains
      log := by rw [hlog]; exact h.log
      nextId := by rw [hhub, hlog]; exact h.nextId
      holds := hholds
      down := by rw [hcursor, hrest, hlog]; exact hchain.2
      link := by rw [hcursor, hrest, hhub]; exact hlink
      synced := by rw [hcursor, hrest, hhub]; exact hsynced
      attached := by rw [hhub]; exact h.attached
      up := by rw [hup]; exact fun b hb => (h.up b hb).trans hle }

theorem liveIds_singleton (msg : StreamEntry β) (hpos : 0 ≤ msg.id) : liveIds [msg] = {msg.id} := by
  ext n
  simp only [liveIds, Set.mem_ofPred_eq, Set.mem_singleton_iff, List.mem_singleton, exists_eq_left]
  exact ⟨fun hn => hn.2.symm, fun hn => ⟨hn ▸ hpos, hn.symm⟩⟩

/-- A message is the next entry, or an early one that leaves what is below the gap as it is. -/
theorem Inv.deliver_message (h : Inv present pool s) {msg : StreamEntry β}
    {early : Bool} (hdown : s.down = ⟨.message msg, early⟩ :: rest) :
    Inv present pool s.deliver := by
  have hsound := h.down
  rw [hdown] at hsound
  obtain ⟨hlogged, hle, hnext⟩ : msg ∈ s.log ∧ top s.client.messages ≤ msg.id ∧
    (early = false → msg.id = top s.client.messages) := hsound.1
  have hpos : 0 ≤ msg.id := (top_nonneg _).trans hle
  have hknown : ∀ e ∈ [msg], e ∈ s.log ∨ e ∈ archivedEntries present pool := by
    intro e he
    rw [List.mem_singleton.mp he]
    exact Or.inl hlogged
  obtain ⟨-, hhub, hlog, -, hclient⟩ := deliver_eq hdown
  have hmessages : s.deliver.client.messages = mergeMessages s.client.messages [msg] := by
    rw [hclient]
    rfl
  have happlied : s.deliver.applied = s.applied := by
    unfold Thread.deliver
    rw [hdown]
  have hmem := h.mem_merge hknown
  have htop : top (mergeMessages s.client.messages [msg]) = msg.id + 1 := by
    rw [top_eq_of_mem_iff hmem]
    have hone : top [msg] = msg.id + 1 := max_eq_left (by omega : 0 ≤ msg.id + 1)
    rw [hone]
    exact max_eq_right (by omega)
  have hlive := liveIds_of_mem_iff hmem
  rw [liveIds_singleton msg hpos] at hlive
  have hold : oldIds (mergeMessages s.client.messages [msg]) = oldIds s.client.messages := by
    rw [oldIds_of_mem_iff hmem]
    ext n
    simp only [oldIds, Set.mem_union, Set.mem_ofPred_eq, List.mem_singleton, exists_eq_left]
    constructor
    · rintro (hn | ⟨hn, rfl⟩)
      · exact hn
      · omega
    · exact Or.inl
  -- nothing below the limit is new, and the limit moves only with the entry that stands there
  have hbelow : ∀ limit, limit ≤ top s.client.messages →
      Gapless s.hub.mirrorBase limit (liveIds s.client.messages) →
      Gapless s.hub.mirrorBase limit (liveIds (mergeMessages s.client.messages [msg])) := by
    intro limit hlimit hg
    rw [hlive]
    refine hg.union_above ?_
    rintro p rfl
    exact hlimit.trans hle
  have hmissed : s.deliver.missed =
      if early && s.missed.isNone && Thread.jumps s.client.messages msg then
        some (top s.client.messages) else s.missed := by
    unfold Thread.deliver
    rw [hdown]
  refine h.deliver hdown ?_ ?_
  · refine ⟨?_, ?_, ?_, ?_, ?_, ?_, ?_⟩
    · rw [hmessages, hlog]
      exact h.merged hknown
    · rw [hmessages]
      exact pairwise_mergeMessages h.holds.ordered
    · rw [hmessages, hhub, hmissed]
      split
      · rename_i hjump
        have hnone : s.missed = none := by
          simp only [Bool.and_eq_true, Option.isNone_iff_eq_none] at hjump
          exact hjump.1.2
        have hg := h.holds.live
        rw [hnone] at hg
        exact hbelow _ le_rfl hg
      · rename_i hno
        cases hm : s.missed with
        | some m =>
            have hg := h.holds.live
            rw [hm] at hg
            exact hbelow m (h.holds.missed m hm).2 hg
        | none =>
            -- the entry is the next one, or the first one of the process the client holds
            have hg := h.holds.live
            rw [hm] at hg
            rw [Option.getD_none, htop, hlive]
            by_cases hfirst : top s.client.messages = 0
            · have hempty : liveIds s.client.messages = ∅ := by
                refine Set.eq_empty_of_forall_notMem (fun n hn => ?_)
                have hlt := liveIds_lt_top hn
                have hn0 := hn.1
                omega
              rw [hempty, Set.empty_union]
              rintro a rfl n han - hn
              have heq : n = msg.id := by omega
              exact heq
            · have hid : msg.id = top s.client.messages := by
                cases early with
                | false => exact hnext rfl
                | true =>
                    by_contra hne
                    refine hno ?_
                    have htn := top_nonneg s.client.messages
                    simp only [hm, Thread.jumps, Option.isNone_none, Bool.and_self, Bool.true_and,
                      decide_eq_true_eq]
                    omega
              refine hg.union_window (s := msg.id) ?_ ?_ ?_
              · exact hid.le.trans (le_max_left _ _)
              · rintro p rfl
                exact le_rfl
              · intro n hn hlt
                have heq : n = msg.id := by omega
                exact heq
    · rw [hmessages, hold]
      exact h.holds.old
    · rw [hmessages, hmissed, htop]
      intro m hm
      split at hm
      · rename_i hjump
        simp only [Bool.and_eq_true, Thread.jumps, decide_eq_true_eq] at hjump
        have hm' : m = top s.client.messages := (Option.mem_some_iff.mp hm).symm
        rw [hm']
        exact ⟨hjump.2.1, by omega⟩
      · obtain ⟨hm0, hmt⟩ := h.holds.missed m hm
        exact ⟨hm0, by omega⟩
    · rw [hmessages, happlied, hclient]
      intro happlied hmore e he
      exact (hmem e).mpr (Or.inl (h.holds.archived happlied hmore e he))
    · rw [happlied, hclient]
      exact h.holds.first
  · rw [hmessages, htop, happlied]
    rfl

variable {l : List (StreamEntry β)}

theorem mem_liveIds_numbered {x : ℤ} (h : Numbered x l) (hx : 0 ≤ x)
    (n : ℤ) : n ∈ liveIds l ↔ x ≤ n ∧ n < x + l.length := by
  unfold liveIds
  rw [Set.mem_ofPred_eq, h.exists_iff]
  omega

theorem mem_oldIds_numbered {x : ℤ} (h : Numbered x l)
    (hx : x + l.length ≤ 0) (n : ℤ) : n ∈ oldIds l ↔ x ≤ n ∧ n < x + l.length := by
  unfold oldIds
  rw [Set.mem_ofPred_eq, h.exists_iff]
  omega

theorem oldIds_live {x : ℤ} (h : Numbered x l) (hx : 0 ≤ x) :
    oldIds l = ∅ := by
  refine Set.eq_empty_of_forall_notMem ?_
  rintro n ⟨hneg, e, he, rfl⟩
  have hrange := h.range he
  omega

theorem liveIds_old {x : ℤ} (h : Numbered x l) (hx : x + l.length ≤ 0) :
    liveIds l = ∅ := by
  refine Set.eq_empty_of_forall_notMem ?_
  rintro n ⟨hpos, e, he, rfl⟩
  have hrange := h.range he
  omega

/-- A window has no gap up to its end. -/
theorem gapless_liveIds_numbered {x floor : ℤ} (h : Numbered x l)
    (hx : 0 ≤ x) : Gapless floor (x + l.length) (liveIds l) := by
  intro a ha n han _ hn
  rw [mem_liveIds_numbered h hx] at ha ⊢
  omega

/-- An empty archive has nothing to miss. -/
theorem archivedEntries_eq_nil (hpool : pool.length = 0) : archivedEntries present pool = [] := by
  refine List.eq_nil_of_length_eq_zero ?_
  rw [length_archivedEntries, hpool]

/-- A snapshot replaces the list, or fills all that its merge leaves open. -/
theorem Inv.deliver_snapshot (h : Inv present pool s) {started : Option ℕ}
    {page : Hub.Page β} {early : Bool}
    (hdown : s.down = ⟨.snapshot started page, early⟩ :: rest) (hfits : Bridges s started page) :
    Inv present pool s.deliver := by
  have hsound := h.down
  rw [hdown] at hsound
  obtain ⟨hnum, hx, hnil, hlogged, hle, hmore⟩ : Numbered page.oldestId page.messages ∧
    0 ≤ page.oldestId ∧ (page.messages = [] → page.oldestId = 0) ∧ (∀ e ∈ page.messages, e ∈ s.log) ∧
    top s.client.messages ≤ page.oldestId + page.messages.length ∧
    (page.hasMore = false → pool.length = 0) := hsound.1
  obtain ⟨-, hhub, hlog, -, hclient⟩ := deliver_eq hdown
  have happlied : s.deliver.applied = true := by
    unfold Thread.deliver
    rw [hdown]
  have hmissed : s.deliver.missed = none := by
    unfold Thread.deliver
    rw [hdown]
  have htop : top page.messages = page.oldestId + page.messages.length := top_numbered hnum hx hnil
  by_cases hmerges : s.client.merges started page.messages = true
  · have hknown : ∀ e ∈ page.messages, e ∈ s.log ∨ e ∈ archivedEntries present pool :=
      fun e he => Or.inl (hlogged e he)
    have hmem := h.mem_merge hknown
    have hmessages : s.deliver.client.messages = mergeMessages s.client.messages page.messages := by
      rw [hclient]
      exact if_pos hmerges
    have htop' : top (mergeMessages s.client.messages page.messages) =
        page.oldestId + page.messages.length := by
      rw [top_eq_of_mem_iff hmem, htop, max_eq_right hle]
    have hsame : s.client.startedAt ≠ none := by
      simp only [ConsoleState.merges, Bool.and_eq_true, decide_eq_true_eq] at hmerges
      exact hmerges.1.1
    -- what both lists hold is below the top of the one, and in the window of the other
    have hreach : page.oldestId ≤ max (s.missed.getD (top s.client.messages)) s.hub.mirrorBase := by
      cases hm : s.missed with
      | some m => exact hfits hmerges m hm
      | none =>
          simp only [ConsoleState.merges, Bool.and_eq_true, List.any_eq_true, decide_eq_true_eq]
            at hmerges
          obtain ⟨-, e, he, e', he', hid⟩ := hmerges
          have hlow := (hnum.range he).1
          have hhigh := lt_top he'
          exact le_max_of_le_left (by rw [Option.getD_none]; omega)
    refine h.deliver hdown ⟨?_, ?_, ?_, ?_, ?_, ?_, ?_⟩ ?_
    · rw [hmessages, hlog]
      exact h.merged hknown
    · rw [hmessages]
      exact pairwise_mergeMessages h.holds.ordered
    · rw [hmessages, hmissed, hhub, Option.getD_none, htop', liveIds_of_mem_iff hmem]
      refine h.holds.live.union_window hreach ?_ ?_
      · exact fun p hp => ((mem_liveIds_numbered hnum hx p).mp hp).1
      · exact fun n hn hlt => (mem_liveIds_numbered hnum hx n).mpr ⟨hn, hlt⟩
    · rw [hmessages, oldIds_of_mem_iff hmem, oldIds_live hnum hx, Set.union_empty]
      exact h.holds.old
    · rw [hmissed]
      simp
    · rw [hmessages, hclient]
      intro _ hmore e he
      have hkept : s.client.hasMore = false := by simpa [ConsoleState.applyFrame, hmerges] using hmore
      exact (hmem e).mpr (Or.inl (h.holds.archived (h.holds.first hsame) hkept e he))
    · exact fun _ => happlied
    · rw [hmessages, htop', happlied]
      rfl
  · have hmessages : s.deliver.client.messages = page.messages := by
      rw [hclient]
      exact if_neg hmerges
    refine h.deliver hdown ⟨?_, ?_, ?_, ?_, ?_, ?_, ?_⟩ ?_
    · rw [hmessages, hlog]
      exact fun e he => Or.inl (hlogged e he)
    · rw [hmessages]
      exact hnum.pairwise
    · rw [hmessages, hmissed, Option.getD_none, htop]
      exact gapless_liveIds_numbered hnum hx
    · rw [hmessages, oldIds_live hnum hx]
      exact Gapless.empty
    · rw [hmissed]
      simp
    · rw [hclient]
      intro _ hfalse
      have hpage : page.hasMore = false := by simpa [ConsoleState.applyFrame, hmerges] using hfalse
      rw [archivedEntries_eq_nil (hmore hpage)]
      simp
    · exact fun _ => happlied
    · rw [hmessages, htop, happlied]
      rfl

theorem Inv.deliver_sync (h : Inv present pool s) {started : Option ℕ} {early : Bool} (hdown : s.down = ⟨.sync started, early⟩ :: rest) :
    Inv present pool s.deliver := by
  have hsound := h.down
  rw [hdown] at hsound
  have hfirst : s.applied = true := hsound.1
  obtain ⟨-, hhub, hlog, -, hclient⟩ := deliver_eq hdown
  have happlied : s.deliver.applied = s.applied := by
    unfold Thread.deliver
    rw [hdown]
  have hmissed : s.deliver.missed = s.missed := by
    unfold Thread.deliver
    rw [hdown]
  refine h.deliver hdown ⟨?_, ?_, ?_, ?_, ?_, ?_, ?_⟩ ?_
  · rw [hclient, hlog]
    exact h.holds.known
  · rw [hclient]
    exact h.holds.ordered
  · rw [hclient, hhub, hmissed]
    exact h.holds.live
  · rw [hclient]
    exact h.holds.old
  · rw [hclient, hmissed]
    exact h.holds.missed
  · rw [hclient, happlied]
    exact h.holds.archived
  · rw [happlied]
    exact fun _ => hfirst
  · rw [hclient, happlied]
    rfl

/-- What a page adds to a list that reaches down to it. -/
theorem Inv.deliver_history (h : Inv present pool s) {page : Hub.Page β}
    {early : Bool} (hdown : s.down = ⟨.history page, early⟩ :: rest)
    (hfits : Adjoins s page) : Inv present pool s.deliver := by
  have hsound := h.down
  rw [hdown] at hsound
  obtain ⟨hserved, hlow⟩ : Served present pool s.log page ∧
    ∀ e ∈ page.messages, e.id < top s.client.messages := hsound.1
  have hknown : ∀ e ∈ page.messages, e ∈ s.log ∨ e ∈ archivedEntries present pool := by
    cases hserved with
    | mirror x numbered live nonempty known more => exact fun e he => Or.inl (known e he)
    | archive x numbered old known more empty => exact fun e he => Or.inr (known e he)
  have hmem := h.mem_merge hknown
  obtain ⟨-, hhub, hlog, -, hclient⟩ := deliver_eq hdown
  have happlied : s.deliver.applied = s.applied := by
    unfold Thread.deliver
    rw [hdown]
  have hmissed : s.deliver.missed = s.missed := by
    unfold Thread.deliver
    rw [hdown]
  have hmessages : s.deliver.client.messages = mergeMessages s.client.messages page.messages := by
    rw [hclient]
    rfl
  have htop : top (mergeMessages s.client.messages page.messages) = top s.client.messages := by
    rw [top_eq_of_mem_iff hmem]
    exact max_eq_left (top_le.mpr ⟨top_nonneg _, hlow⟩)
  have hlive : Gapless s.hub.mirrorBase (s.missed.getD (top s.client.messages))
      (liveIds s.client.messages ∪ liveIds page.messages) := by
    cases hserved with
    | mirror x numbered live nonempty known more =>
        have hpos : 0 < page.messages.length := List.length_pos_of_ne_nil nonempty
        have hend := pageEnd_eq numbered nonempty
        obtain ⟨e, he, he0, hle⟩ := hfits.2 (by omega) nonempty
        exact h.holds.live.union_page (gapless_liveIds_numbered numbered live)
          ⟨e.id, ⟨he0, e, he, rfl⟩, hend ▸ hle⟩
    | archive x numbered old known more empty =>
        rw [liveIds_old numbered old, Set.union_empty]
        exact h.holds.live
  have hold : Gapless (-(pool.length : ℤ)) 0 (oldIds s.client.messages ∪ oldIds page.messages) := by
    cases hserved with
    | mirror x numbered live nonempty known more =>
        rw [oldIds_live numbered live, Set.union_empty]
        exact h.holds.old
    | archive x numbered old known more empty =>
        by_cases hnil : page.messages = []
        · have hnone : oldIds page.messages = ∅ := by
            rw [hnil]
            simp [oldIds]
          rw [hnone, Set.union_empty]
          exact h.holds.old
        · have hend := pageEnd_eq numbered hnil
          have hpage : Gapless (-(pool.length : ℤ)) (x + page.messages.length)
              (oldIds page.messages) := by
            intro a ha n han _ hn
            rw [mem_oldIds_numbered numbered old] at ha ⊢
            omega
          by_cases hzero : x + page.messages.length = 0
          · rw [hzero] at hpage
            rintro a (ha | ha) n han hn hlt
            · exact Or.inl (h.holds.old a ha n han hn hlt)
            · exact Or.inr (hpage a ha n han hn hlt)
          · obtain ⟨e, he, hle⟩ := hfits.1 (by omega)
            rw [hend] at hle
            exact h.holds.old.union_page hpage
              ⟨e.id, ⟨by omega, e, he, rfl⟩, hle.trans (le_max_left _ _)⟩
  refine h.deliver hdown ⟨?_, ?_, ?_, ?_, ?_, ?_, ?_⟩ ?_
  · rw [hmessages, hlog]
    exact h.merged hknown
  · rw [hmessages]
    exact pairwise_mergeMessages h.holds.ordered
  · rw [hmessages, hmissed, hhub, htop, liveIds_of_mem_iff hmem]
    exact hlive
  · rw [hmessages, oldIds_of_mem_iff hmem]
    exact hold
  · rw [hmessages, hmissed, htop]
    exact h.holds.missed
  · rw [hmessages, hclient]
    intro _ hmore e he
    have hrange := (numbered_archivedEntries pool).range he
    have hlen : (archivedEntries present pool).length = _ := length_archivedEntries pool
    -- an id of the list stands at the beginning of the archive, and there is no gap from there
    have hbegin : pool.length = 0 ∨ ∃ a ∈ oldIds (mergeMessages s.client.messages page.messages),
        a ≤ -(pool.length : ℤ) := by
      rw [oldIds_of_mem_iff hmem]
      cases hserved with
      | mirror x numbered live nonempty known more => exact Or.inl (more hmore)
      | archive x numbered old known more empty =>
          by_cases hnil : page.messages = []
          · refine (empty hnil).imp_right (fun hle => ?_)
            have hend : pageEnd page = page.oldestId := by
              unfold pageEnd
              rw [hnil]
              rfl
            obtain ⟨e', he', hle'⟩ := hfits.1 (by omega)
            exact ⟨e'.id, Or.inl ⟨by omega, e', he', rfl⟩, by omega⟩
          · have hpos : 0 < page.messages.length := List.length_pos_of_ne_nil hnil
            refine Or.inr ⟨x, Or.inr ?_, (more hmore).le⟩
            rw [mem_oldIds_numbered numbered old]
            omega
    rcases hbegin with hzero | ⟨a, ha, hle⟩
    · omega
    · rw [oldIds_of_mem_iff hmem] at ha
      have hin := hold a ha e.id (by omega) hrange.1 (by omega)
      rw [← oldIds_of_mem_iff hmem] at hin
      obtain ⟨-, e', he', hid⟩ := hin
      rwa [← eq_of_known h.log (h.merged hknown e' he') (Or.inr he) hid]
  · rw [happlied, hclient]
    exact h.holds.first
  · rw [hmessages, htop, happlied]
    rfl

end Runs

end Elpis.Console
