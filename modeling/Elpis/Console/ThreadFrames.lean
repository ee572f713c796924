import Elpis.Console.Thread

/-!
# Frames of the Thread under way

What the client's list of messages is behind a merge, and what each frame under way is behind
those before it (`Chain`): a message that is not early is the next entry, a snapshot ends where
the mirror ends, a page ends where the client asked.
-/

namespace Elpis.Console

open Elpis.Lib

variable {α β : Type}

/-! ## Lists of messages -/

variable {messages : List (StreamEntry β)}

theorem top_le {n : ℤ} :
    top messages ≤ n ↔ 0 ≤ n ∧ ∀ e ∈ messages, e.id < n := by
  induction messages with
  | nil => simp [top]
  | cons e rest ih =>
      have hcons : top (e :: rest) = max (e.id + 1) (top rest) := rfl
      rw [hcons, max_le_iff, ih, List.forall_mem_cons, Int.add_one_le_iff]
      tauto

theorem top_nonneg (messages : List (StreamEntry β)) : 0 ≤ top messages :=
  (top_le.mp (le_refl (top messages))).1

theorem lt_top {e : StreamEntry β} (he : e ∈ messages) :
    e.id < top messages :=
  (top_le.mp (le_refl (top messages))).2 e he

/-- What is above the top of no list but this one is the top. -/
theorem top_eq_of_mem_iff {messages before incoming : List (StreamEntry β)}
    (hmem : ∀ e, e ∈ messages ↔ e ∈ before ∨ e ∈ incoming) :
    top messages = max (top before) (top incoming) := by
  refine eq_of_forall_ge_iff (fun n => ?_)
  rw [max_le_iff, top_le, top_le, top_le]
  constructor
  · rintro ⟨hn, h⟩
    exact ⟨⟨hn, fun e he => h e ((hmem e).mpr (Or.inl he))⟩,
      ⟨hn, fun e he => h e ((hmem e).mpr (Or.inr he))⟩⟩
  · rintro ⟨⟨hn, hb⟩, ⟨-, hi⟩⟩
    exact ⟨hn, fun e he => ((hmem e).mp he).elim (hb e) (hi e)⟩

theorem top_numbered {x : ℤ} (h : Numbered x messages)
    (hx : 0 ≤ x) (hnil : messages = [] → x = 0) : top messages = x + messages.length := by
  refine le_antisymm (top_le.mpr ⟨by omega, fun e he => (h.range he).2⟩) ?_
  by_cases hne : messages = []
  · rw [hne, hnil hne]
    exact le_refl 0
  · have hpos : 0 < messages.length := List.length_pos_of_ne_nil hne
    obtain ⟨e, he, hid⟩ := (h.exists_iff (x + messages.length - 1)).mpr (by omega)
    have hlt := lt_top he
    omega

/-- The ids that are not negative: entries of the process. -/
def liveIds (messages : List (StreamEntry β)) : Set ℤ := {n | 0 ≤ n ∧ ∃ e ∈ messages, e.id = n}

/-- The negative ids: archived entries. -/
def oldIds (messages : List (StreamEntry β)) : Set ℤ := {n | n < 0 ∧ ∃ e ∈ messages, e.id = n}

theorem liveIds_of_mem_iff {messages before incoming : List (StreamEntry β)}
    (hmem : ∀ e, e ∈ messages ↔ e ∈ before ∨ e ∈ incoming) :
    liveIds messages = liveIds before ∪ liveIds incoming := by
  ext n
  simp only [liveIds, Set.mem_ofPred_eq, Set.mem_union, hmem]
  grind

theorem oldIds_of_mem_iff {messages before incoming : List (StreamEntry β)}
    (hmem : ∀ e, e ∈ messages ↔ e ∈ before ∨ e ∈ incoming) :
    oldIds messages = oldIds before ∪ oldIds incoming := by
  ext n
  simp only [oldIds, Set.mem_ofPred_eq, Set.mem_union, hmem]
  grind

theorem liveIds_lt_top {n : ℤ} (h : n ∈ liveIds messages) :
    n < top messages := by
  obtain ⟨-, e, he, rfl⟩ := h
  exact lt_top he

variable {before incoming : List (StreamEntry β)}

/-- Where the list is in order, the branch that appends has only smaller ids before. -/
theorem appends_spec
    (hb : before.Pairwise (fun e e' => e.id < e'.id)) (h : appends before incoming = true) :
    ∃ entry, incoming = [entry] ∧ ∀ e ∈ before, e.id < entry.id := by
  rcases incoming with _ | ⟨entry, _ | ⟨next, rest⟩⟩
  · simp [appends] at h
  · refine ⟨entry, rfl, ?_⟩
    rcases List.eq_nil_or_concat before with rfl | ⟨init, last, rfl⟩
    · simp
    · rw [List.concat_eq_append] at *
      have hlast : last.id < entry.id := by simpa [appends] using h
      intro e he
      rcases List.mem_append.mp he with he | he
      · exact ((List.pairwise_append.mp hb).2.2 e he last List.mem_cons_self).trans hlast
      · rw [List.mem_singleton.mp he]
        exact hlast
  · simp [appends] at h

theorem mem_mergeMessages
    (hagree : ∀ e ∈ before ++ incoming, ∀ e' ∈ before ++ incoming, e.id = e'.id → e = e')
    (e : StreamEntry β) : e ∈ mergeMessages before incoming ↔ e ∈ before ∨ e ∈ incoming := by
  unfold mergeMessages
  split
  · exact List.mem_append
  · rw [Table.mem_sorted, Table.mem_ofRows hagree, List.mem_append]

theorem pairwise_mergeMessages
    (hb : before.Pairwise (fun e e' => e.id < e'.id)) :
    (mergeMessages before incoming).Pairwise (fun e e' => e.id < e'.id) := by
  unfold mergeMessages
  split
  · obtain ⟨entry, rfl, hlt⟩ := appends_spec hb ‹_›
    refine List.pairwise_append.mpr ⟨hb, List.pairwise_singleton _ _, ?_⟩
    intro e he e' he'
    rw [List.mem_singleton.mp he']
    exact hlt e he
  · exact Table.pairwise_sorted _

/-! ## What the claims on a frame are -/

/-- The id behind the last one of a page. -/
def pageEnd (page : Hub.Page β) : ℤ :=
  match page.messages.getLast? with
  | some entry => entry.id + 1
  | none => page.oldestId

theorem pageEnd_eq {page : Hub.Page β} {x : ℤ} (h : Numbered x page.messages)
    (hne : page.messages ≠ []) : pageEnd page = x + page.messages.length := by
  unfold pageEnd
  rcases List.eq_nil_or_concat page.messages with hnil | ⟨init, last, hconcat⟩
  · exact absurd hnil hne
  · rw [hconcat, List.concat_eq_append] at h ⊢
    have hlast := (Numbered.append.mp h).2.1
    rw [List.getLast?_concat, List.length_append, List.length_singleton]
    show last.id + 1 = _
    push_cast
    omega

/-- A history page is applied to a list that still reaches down to it. -/
def Adjoins (s : Thread β) (page : Hub.Page β) : Prop :=
  (pageEnd page < 0 → ∃ e ∈ s.client.messages, e.id ≤ pageEnd page) ∧
    (0 < pageEnd page → page.messages ≠ [] →
      ∃ e ∈ s.client.messages, 0 ≤ e.id ∧ e.id ≤ max (pageEnd page) s.hub.mirrorBase)

/-- A snapshot that is merged reaches back to the first entry the client missed. -/
def Bridges (s : Thread β) (startedAt : Option ℕ) (page : Hub.Page β) : Prop :=
  s.client.merges startedAt page.messages = true →
    ∀ m ∈ s.missed, page.oldestId ≤ max m s.hub.mirrorBase

/-- The frame that is delivered next finds the list it is merged into. -/
def Fits (s : Thread β) : Event α β → Prop
  | .deliver =>
      match s.down with
      | ⟨.snapshot startedAt page, _⟩ :: _ => Bridges s startedAt page
      | ⟨.history page, _⟩ :: _ => Adjoins s page
      | _ => True
  | _ => True

/-- The message that is delivered next jumps over no entry. -/
def Follows (s : Thread β) : Event α β → Prop
  | .deliver =>
      match s.down with
      | ⟨.message msg, early⟩ :: _ => (early && Thread.jumps s.client.messages msg) = false
      | _ => True
  | _ => True

section Runs

variable (present : ChatMessage α → Option ℕ → String × β) (pool : List (ChatMessage α))

/-- The client's list is in the order of the ids, has the hub's entries, misses none that the
hub retains between those it holds, and has the whole archive when there is no more to ask. -/
structure Whole (s : Thread β) : Prop where
  ordered : s.client.messages.Pairwise (fun e e' => e.id < e'.id)
  content : ∀ e ∈ s.client.messages, e ∈ s.log ∨ e ∈ archivedEntries present pool
  complete : ∀ r ∈ s.hub.mirror, ∀ a ∈ s.client.messages, 0 ≤ a.id → a.id ≤ r.id →
    ∀ b ∈ s.client.messages, r.id ≤ b.id → r ∈ s.client.messages
  archived : s.client.hasMore = false →
    s.client.messages.filter (fun e => decide (e.id < 0)) = archivedEntries present pool

/-! ## Frames under way -/

/-- Where a client is behind the frames it has applied. -/
structure Cursor where
  top : ℤ
  applied : Bool

def Cursor.after (c : Cursor) (packet : Packet β) : Cursor :=
  match packet.frame with
  | .message msg => ⟨msg.id + 1, c.applied⟩
  | .snapshot _ page => ⟨page.oldestId + page.messages.length, true⟩
  | _ => c

/-- A page out of the mirror, or out of the archive. -/
inductive Served (log : List (StreamEntry β)) (page : Hub.Page β) : Prop
  | mirror (x : ℤ) (numbered : Numbered x page.messages) (live : 0 ≤ x) (nonempty : page.messages ≠ [])
      (known : ∀ e ∈ page.messages, e ∈ log) (more : page.hasMore = false → pool.length = 0)
  | archive (x : ℤ) (numbered : Numbered x page.messages) (old : x + page.messages.length ≤ 0)
      (known : ∀ e ∈ page.messages, e ∈ archivedEntries present pool)
      (more : page.hasMore = false → x = -(pool.length : ℤ))
      (empty : page.messages = [] → pool.length = 0 ∨ page.oldestId ≤ -(pool.length : ℤ))

/-- What a frame is when it comes to a client at the cursor. -/
def Sound (log : List (StreamEntry β)) (c : Cursor) (packet : Packet β) : Prop :=
  match packet.frame with
  | .message msg => msg ∈ log ∧ c.top ≤ msg.id ∧ (packet.early = false → msg.id = c.top)
  | .snapshot _ page =>
      Numbered page.oldestId page.messages ∧ 0 ≤ page.oldestId ∧
        (page.messages = [] → page.oldestId = 0) ∧ (∀ e ∈ page.messages, e ∈ log) ∧
        c.top ≤ page.oldestId + page.messages.length ∧ (page.hasMore = false → pool.length = 0)
  | .history page => Served present pool log page ∧ ∀ e ∈ page.messages, e.id < c.top
  | .sync _ => c.applied = true

def Chain (log : List (StreamEntry β)) : Cursor → List (Packet β) → Prop
  | _, [] => True
  | c, packet :: rest => Sound present pool log c packet ∧ Chain log (c.after packet) rest

def reach (c : Cursor) (packets : List (Packet β)) : Cursor := packets.foldl Cursor.after c

variable {present pool}

variable {log log' : List (StreamEntry β)}

theorem Served.mono {page : Hub.Page β}
    (hsub : ∀ e ∈ log, e ∈ log') (h : Served present pool log page) : Served present pool log' page := by
  cases h with
  | mirror x numbered live nonempty known more =>
      exact .mirror x numbered live nonempty (fun e he => hsub e (known e he)) more
  | archive x numbered old known more empty => exact .archive x numbered old known more empty

theorem Sound.mono {c : Cursor} {packet : Packet β}
    (hsub : ∀ e ∈ log, e ∈ log') (h : Sound present pool log c packet) :
    Sound present pool log' c packet := by
  unfold Sound at h ⊢
  cases hframe : packet.frame with
  | message msg =>
      rw [hframe] at h
      exact ⟨hsub _ h.1, h.2⟩
  | snapshot started page =>
      rw [hframe] at h
      obtain ⟨hnum, hold, hnil, hknown, hrest⟩ := h
      exact ⟨hnum, hold, hnil, fun e he => hsub e (hknown e he), hrest⟩
  | history page =>
      rw [hframe] at h
      exact ⟨h.1.mono hsub, h.2⟩
  | sync started =>
      rw [hframe] at h
      exact h

variable {packets : List (Packet β)}

theorem Chain.mono (hsub : ∀ e ∈ log, e ∈ log') {c : Cursor} (h : Chain present pool log c packets) :
    Chain present pool log' c packets := by
  induction packets generalizing c with
  | nil => trivial
  | cons packet rest ih => exact ⟨h.1.mono hsub, ih h.2⟩

theorem chain_append {log : List (StreamEntry β)} {c : Cursor}
    {packet : Packet β} : Chain present pool log c (packets ++ [packet]) ↔
      Chain present pool log c packets ∧ Sound present pool log (reach c packets) packet := by
  induction packets generalizing c with
  | nil => simp [Chain, reach]
  | cons p rest ih => rw [List.cons_append, Chain, Chain, ih, and_assoc]; rfl

theorem reach_append (c : Cursor) (packets : List (Packet β)) (packet : Packet β) :
    reach c (packets ++ [packet]) = (reach c packets).after packet := by
  simp [reach]

theorem Sound.le_after {log : List (StreamEntry β)} {c : Cursor} {packet : Packet β}
    (h : Sound present pool log c packet) : c.top ≤ (c.after packet).top := by
  unfold Sound at h
  unfold Cursor.after
  cases hframe : packet.frame with
  | message msg =>
      rw [hframe] at h
      have hle := h.2.1
      show c.top ≤ msg.id + 1
      omega
  | snapshot started page =>
      rw [hframe] at h
      exact h.2.2.2.2.1
  | history page => exact le_refl _
  | sync started => exact le_refl _

theorem Chain.le_reach {log : List (StreamEntry β)} {c : Cursor}
    (h : Chain present pool log c packets) : c.top ≤ (reach c packets).top := by
  induction packets generalizing c with
  | nil => exact le_refl _
  | cons packet rest ih => exact (Sound.le_after h.1).trans (ih h.2)

end Runs

end Elpis.Console
