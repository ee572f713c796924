import Elpis.Llm.Checkpoint
import Mathlib.Data.List.TakeWhile

/-!
# Calls and results across the boundary

Results stand right behind the assistant message that called for them. The boundary of a
start never falls in front of a result, except in one place: behind the last message, when
the results that are already there fill the budget of the kept tail. A call of that batch
whose result is still to come is then folded away, and its result arrives after the start.
`compaction_pairs` says that this is the only case.
-/

namespace Elpis.Llm

open Elpis.Lib

def isTool (m : ChatMessage) : Bool := decide (m.role = .tool)

/-! ## Paired histories -/

/-- The message at `i` is the result of a call of the assistant message at `j`, with
nothing but results in between. -/
structure Answers (messages : List ChatMessage) (i j : ℕ) : Prop where
  lt : j < i
  result : ∃ m, messages[i]? = some m ∧ m.role = .tool ∧
    ∃ a, messages[j]? = some a ∧ a.role = .assistant ∧
      ∃ call ∈ a.toolCalls, m.toolCallId = some call.id
  between : ∀ k m, j < k → k < i → messages[k]? = some m → m.role = .tool

/-- Every tool message answers a call of the closest assistant message before it. -/
def Paired (messages : List ChatMessage) : Prop :=
  ∀ i m, messages[i]? = some m → m.role = .tool → ∃ j, Answers messages i j

/-- The first `b` messages can go without parting a result from its call. -/
def Whole (messages : List ChatMessage) (b : ℕ) : Prop :=
  ∀ i j, Answers messages i j → (j < b ↔ i < b)

variable {messages : List ChatMessage} {b : ℕ}

/-- A cut parts a call from its result exactly when it falls in front of a result. -/
theorem whole_iff (h : Paired messages) :
    Whole messages b ↔ ∀ m, messages[b]? = some m → m.role ≠ .tool := by
  constructor
  · intro hwhole m hm hrole
    obtain ⟨j, hj⟩ := h b m hm hrole
    exact absurd ((hwhole b j hj).mp hj.lt) (Nat.lt_irrefl b)
  · intro hcut i j hij
    refine ⟨?_, fun hi => hij.lt.trans hi⟩
    intro hj
    by_contra hi
    rcases Nat.lt_or_ge b i with hbi | hbi
    · -- the cut is between the call and the result
      obtain ⟨m, hm, -⟩ := hij.result
      have hlt : b < messages.length := hbi.trans (List.getElem?_eq_some_iff.mp hm).1
      exact hcut _ (List.getElem?_eq_getElem hlt)
        (hij.between b _ hj hbi (List.getElem?_eq_getElem hlt))
    · have hib : i = b := by omega
      obtain ⟨m, hm, hrole, -⟩ := hij.result
      rw [hib] at hm
      exact hcut m hm hrole

/-! ## What the boundary looks at -/

/-- What of a message the pairing depends on. -/
def shape (m : ChatMessage) : Role × List ToolCall × Option String :=
  (m.role, m.toolCalls, m.toolCallId)

theorem shape_evicted (m : ChatMessage) : shape (evicted m) = shape m := rfl

theorem skipTools_eq (p : ChatMessage → Bool) :
    ∀ (rest : List ChatMessage) (b : ℕ),
      skipTools p rest b ≤ b + (rest.takeWhile isTool).length
  | [], b => le_rfl
  | m :: rest, b => by
      unfold skipTools
      split
      · rename_i hm
        have hrest := skipTools_eq p rest (b + 1)
        rw [List.takeWhile_cons_of_pos (by simpa [isTool] using hm.1), List.length_cons]
        omega
      · exact Nat.le_add_right _ _

theorem skipTools_all :
    ∀ (rest : List ChatMessage) (b : ℕ),
      skipTools (fun _ => true) rest b = b + (rest.takeWhile isTool).length
  | [], b => rfl
  | m :: rest, b => by
      unfold skipTools
      by_cases hm : m.role = .tool
      · rw [if_pos ⟨hm, rfl⟩, skipTools_all rest (b + 1),
          List.takeWhile_cons_of_pos (by simpa [isTool] using hm), List.length_cons]
        omega
      · rw [if_neg (fun h => hm h.1), List.takeWhile_cons_of_neg (by simpa [isTool] using hm)]
        rfl

/-- The leading results of a list, after some of them are dropped. -/
theorem takeWhile_drop_length {rest : List ChatMessage} {k : ℕ}
    (hk : k ≤ (rest.takeWhile isTool).length) :
    ((rest.drop k).takeWhile isTool).length = (rest.takeWhile isTool).length - k := by
  induction k generalizing rest with
  | zero => rfl
  | succ k ih =>
      cases rest with
      | nil =>
          simp at hk
      | cons m rest =>
          by_cases hm : isTool m = true
          · rw [List.takeWhile_cons_of_pos hm, List.length_cons] at hk ⊢
            rw [List.drop_succ_cons, ih (by omega)]
            omega
          · rw [List.takeWhile_cons_of_neg hm] at hk
            simp at hk

/-- The boundary moves past the results it stands in front of. -/
theorem enforcePairIntegrity_eq {messages : List ChatMessage} {b : ℕ} (hb : b ≤ messages.length) :
    enforcePairIntegrity messages b = b + ((messages.drop b).takeWhile isTool).length := by
  have hown : skipOwnResults messages b ≤ b + ((messages.drop b).takeWhile isTool).length := by
    unfold skipOwnResults
    split
    · split
      · split
        · exact skipTools_eq _ _ _
        · exact Nat.le_add_right _ _
      · exact Nat.le_add_right _ _
    · exact Nat.le_add_right _ _
  have hlo := (skipOwnResults_bounds hb).1
  obtain ⟨k, hk⟩ := Nat.exists_eq_add_of_le hlo
  unfold enforcePairIntegrity
  dsimp only
  rw [skipTools_all, hk, ← List.drop_drop, takeWhile_drop_length (by omega)]
  omega

/-- The results at the end of a history, the newest first. -/
def trailingTools (messages : List ChatMessage) : List ChatMessage :=
  messages.reverse.takeWhile isTool

def tokens (ratio : Ratio) (ms : List ChatMessage) : ℤ :=
  (ms.map (fun m => (estimateSentTokens m ratio : ℤ))).sum

theorem tokens_nonneg (ratio : Ratio) (ms : List ChatMessage) : 0 ≤ tokens ratio ms := by
  unfold tokens
  refine List.sum_nonneg ?_
  intro x hx
  obtain ⟨m, -, rfl⟩ := List.mem_map.mp hx
  exact Int.natCast_nonneg _

theorem walkBack_lt (ratio : Ratio) (keepTokens : ℤ) :
    ∀ (acc : ℤ) (rest : List ChatMessage), rest ≠ [] →
      walkBack ratio keepTokens acc rest < rest.length
  | _, [], h => absurd rfl h
  | acc, m :: rest, _ => by
      unfold walkBack
      rw [List.length_cons]
      split
      · exact Nat.lt_succ_self _
      · exact Nat.lt_succ_of_le (walkBack_le ratio keepTokens _ rest)

/-- The walk ends inside the first part exactly when that part fills the budget. -/
theorem walkBack_append_iff (ratio : Ratio) (keepTokens : ℤ) {rest : List ChatMessage}
    (hrest : rest ≠ []) :
    ∀ (acc : ℤ) (ts : List ChatMessage),
      rest.length ≤ walkBack ratio keepTokens acc (ts ++ rest) ↔
        ts ≠ [] ∧ keepTokens ≤ acc + tokens ratio ts
  | acc, [] => by
      have hlt := walkBack_lt ratio keepTokens acc rest hrest
      rw [List.nil_append]
      constructor
      · intro h
        omega
      · intro h
        exact absurd rfl h.1
  | acc, m :: ts => by
      have htokens : tokens ratio (m :: ts) = estimateSentTokens m ratio + tokens ratio ts := by
        simp [tokens]
      have hnonneg := tokens_nonneg ratio ts
      rw [List.cons_append, walkBack, htokens]
      by_cases hstop : keepTokens ≤ acc + estimateSentTokens m ratio
      · rw [if_pos hstop, List.length_append]
        constructor
        · intro _
          exact ⟨List.cons_ne_nil _ _, by omega⟩
        · intro _
          omega
      · rw [if_neg hstop, walkBack_append_iff ratio keepTokens hrest]
        constructor
        · rintro ⟨-, h⟩
          exact ⟨List.cons_ne_nil _ _, by omega⟩
        · rintro ⟨-, h⟩
          refine ⟨?_, by omega⟩
          rintro rfl
          simp only [tokens, List.map_nil, List.sum_nil] at h
          omega

/-! ## Where the boundary of a start falls -/

theorem getElem?_takeWhile_length {p : ChatMessage → Bool} (l : List ChatMessage) :
    l[(l.takeWhile p).length]? = (l.dropWhile p).head? := by
  have hsplit : l.takeWhile p ++ l.dropWhile p = l := List.takeWhile_append_dropWhile
  calc l[(l.takeWhile p).length]?
      = (l.takeWhile p ++ l.dropWhile p)[(l.takeWhile p).length]? := by rw [hsplit]
    _ = (l.dropWhile p)[0]? := by
        rw [List.getElem?_append_right (le_refl _), Nat.sub_self]
    _ = (l.dropWhile p).head? := List.head?_eq_getElem?.symm

/-- Inside the history, the boundary stands in front of no result. -/
theorem enforcePairIntegrity_not_tool {w : ℕ} (hw : w ≤ messages.length) {m : ChatMessage}
    (hm : messages[enforcePairIntegrity messages w]? = some m) : m.role ≠ .tool := by
  rw [enforcePairIntegrity_eq hw, ← List.getElem?_drop, getElem?_takeWhile_length] at hm
  have hhead := List.head?_dropWhile_not isTool (messages.drop w)
  rw [hm] at hhead
  simpa [isTool] using hhead

/-- The boundary is behind the last message exactly when only results follow it. -/
theorem enforcePairIntegrity_eq_length_iff {w : ℕ} (hw : w ≤ messages.length) :
    enforcePairIntegrity messages w = messages.length ↔
      ∀ m ∈ messages.drop w, isTool m = true := by
  have hlen : (messages.drop w).length = messages.length - w := List.length_drop
  have hle : ((messages.drop w).takeWhile isTool).length ≤ (messages.drop w).length :=
    (List.takeWhile_sublist isTool).length_le
  rw [enforcePairIntegrity_eq hw]
  constructor
  · intro h
    have hall : (messages.drop w).takeWhile isTool = messages.drop w :=
      (List.takeWhile_sublist isTool).eq_of_length (by omega)
    exact List.takeWhile_eq_self_iff.mp hall
  · intro h
    rw [List.takeWhile_eq_self_iff.mpr h]
    omega

/-- A history that does not begin with a result, cut at its trailing results. -/
theorem boundary_eq_length_iff (cfg : CompactorConfig) (ratio : Ratio)
    (hne : ∃ m ∈ messages, isTool m = false) :
    cfg.boundary messages ratio = messages.length ↔
      trailingTools messages ≠ [] ∧
        cfg.keepTokens ≤ tokens ratio (trailingTools messages) := by
  have hsplit : trailingTools messages ++ messages.reverse.dropWhile isTool = messages.reverse :=
    List.takeWhile_append_dropWhile
  obtain ⟨last, before, hrest⟩ : ∃ last before,
      messages.reverse.dropWhile isTool = last :: before := by
    cases hd : messages.reverse.dropWhile isTool with
    | nil =>
        obtain ⟨m, hm, htool⟩ := hne
        have := List.dropWhile_eq_nil_iff.mp hd m (List.mem_reverse.mpr hm)
        rw [htool] at this
        cases this
    | cons last before => exact ⟨last, before, rfl⟩
  have hlast : isTool last = false := by
    have hhead := List.head?_dropWhile_not isTool messages.reverse
    rw [hrest] at hhead
    exact hhead
  rw [hrest] at hsplit
  -- the history: what comes before, the last message that is no result, the results
  have hmessages : messages = before.reverse ++ last :: (trailingTools messages).reverse := by
    have h := congrArg List.reverse hsplit
    rw [List.reverse_reverse, List.reverse_append, List.reverse_cons, List.append_assoc] at h
    exact h.symm
  have hwalk := walkBack_append_iff ratio cfg.keepTokens (List.cons_ne_nil last before) 0
    (trailingTools messages)
  rw [hsplit, zero_add] at hwalk
  have hw := walkKeepBoundary_le messages cfg.keepTokens ratio
  unfold CompactorConfig.boundary
  rw [enforcePairIntegrity_eq_length_iff hw, ← hwalk]
  show (∀ m ∈ messages.drop (walkKeepBoundary messages cfg.keepTokens ratio), isTool m = true) ↔
    (last :: before).length ≤ walkKeepBoundary messages cfg.keepTokens ratio
  generalize walkKeepBoundary messages cfg.keepTokens ratio = w
  constructor
  · intro hall
    by_contra hlt
    have hwle : w ≤ before.reverse.length := by
      rw [List.length_reverse]
      rw [List.length_cons] at hlt
      omega
    have hmem : last ∈ messages.drop w := by
      rw [hmessages, List.drop_append_of_le_length hwle]
      exact List.mem_append_right _ List.mem_cons_self
    rw [hall last hmem] at hlast
    cases hlast
  · intro hle m hm
    rw [List.length_cons] at hle
    have hmem : m ∈ (trailingTools messages).reverse := by
      have hcut : before.reverse ++ last :: (trailingTools messages).reverse =
          (before.reverse ++ [last]) ++ (trailingTools messages).reverse := by
        rw [List.append_assoc]
        rfl
      rw [hmessages, hcut, List.drop_append, List.drop_eq_nil_of_le, List.nil_append] at hm
      · exact List.mem_of_mem_drop hm
      · rw [List.length_append, List.length_reverse]
        exact hle
    exact List.mem_takeWhile_imp (List.mem_reverse.mp hmem)

/-- A paired history does not begin with a result. -/
theorem Paired.head (h : Paired messages) {m : ChatMessage} (hm : messages[0]? = some m) :
    isTool m = false := by
  by_contra htool
  obtain ⟨j, hj⟩ := h 0 m hm (by simpa [isTool] using htool)
  exact absurd hj.lt (Nat.not_lt_zero j)

/-- **The cut of a start.** With what was appended later, the boundary parts a result from
its call exactly when a result is appended first and the results before it fill the budget. -/
theorem whole_boundary_iff (cfg : CompactorConfig) (ratio : Ratio)
    {old appended : List ChatMessage} (hne : old ≠ []) (h : Paired (old ++ appended)) :
    Whole (old ++ appended) (cfg.boundary old ratio) ↔
      (∀ m, appended.head? = some m → m.role ≠ .tool) ∨ trailingTools old = [] ∨
        tokens ratio (trailingTools old) < cfg.keepTokens := by
  have hfirst : ∃ m ∈ old, isTool m = false := by
    cases old with
    | nil => exact absurd rfl hne
    | cons m old => exact ⟨m, List.mem_cons_self, h.head rfl⟩
  have hend := boundary_eq_length_iff cfg ratio hfirst
  have hle := boundary_le cfg old ratio
  rw [whole_iff h]
  rcases Nat.lt_or_ge (cfg.boundary old ratio) old.length with hlt | hge
  · -- inside the old history
    have hcut : ∀ m, (old ++ appended)[cfg.boundary old ratio]? = some m → m.role ≠ .tool := by
      intro m hm
      rw [List.getElem?_append_left hlt] at hm
      exact enforcePairIntegrity_not_tool (walkKeepBoundary_le _ _ _) hm
    refine ⟨fun _ => Or.inr ?_, fun _ => hcut⟩
    by_contra hcon
    rw [not_or, not_lt] at hcon
    exact hlt.ne (hend.mpr hcon)
  · have heq : cfg.boundary old ratio = old.length := le_antisymm hle hge
    obtain ⟨htrail, hkeep⟩ := hend.mp heq
    rw [heq, List.getElem?_append_right (le_refl _), Nat.sub_self, ← List.head?_eq_getElem?]
    constructor
    · intro hcut
      exact Or.inl hcut
    · rintro (hcut | hnil | hlt)
      · exact hcut
      · exact absurd hnil htrail
      · omega

/-! ## The rebuilt history -/

theorem evictContextResourceBodies_shape :
    ∀ (fresh : ℕ) (es : List Entry),
      ((evictContextResourceBodies fresh es).map Entry.message).map shape =
        (es.map Entry.message).map shape
  | _, [] => rfl
  | fresh, e :: es => by
      have hhead : shape (if e.message.contextResources ≠ [] then
          (⟨fresh, evicted e.message⟩ : Entry) else e).message = shape e.message := by
        split
        · exact shape_evicted e.message
        · rfl
      simp only [evictContextResourceBodies, List.map_cons, hhead,
        evictContextResourceBodies_shape (fresh + 1) es]

/-- Up to its bodies, a rebuilt history is what follows the cut, between the summary and
the notice. -/
theorem rebuilt_shape (fresh b : ℕ) (summary : String) {old appended : List Entry}
    (hb : b ≤ old.length) :
    ((rebuilt fresh b old.length summary (old ++ appended)).map Entry.message).map shape =
      shape (summaryMessage summary b) ::
        (((old ++ appended).map Entry.message).drop b).map shape ++
          [shape (compactionNotice b)] := by
  have hmin : min old.length (old ++ appended).length = old.length := by
    rw [List.length_append]
    omega
  have hdrop : ((old ++ appended).map Entry.message).drop b =
      (old.drop b).map Entry.message ++ appended.map Entry.message := by
    rw [← List.map_drop, List.drop_append_of_le_length hb, List.map_append]
  rw [hdrop]
  simp only [rebuilt, hmin, List.take_left, List.drop_left, List.map_cons, List.map_append,
    List.cons_append, List.append_assoc, evictContextResourceBodies_shape, List.map_nil]

/-- Between two messages that are no results, the rest of a paired history is paired when
the cut is not in front of a result. -/
theorem Paired.wrap {full next : List ChatMessage} {b : ℕ} {first last : ChatMessage}
    (h : Paired full) (hcut : Whole full b)
    (hnext : next.map shape = shape first :: (full.drop b).map shape ++ [shape last])
    (hfirst : first.role ≠ .tool) (hlast : last.role ≠ .tool) : Paired next := by
  have hget : ∀ k : ℕ, next[k]?.map shape =
      (shape first :: (full.drop b).map shape ++ [shape last])[k]? := by
    intro k
    rw [← hnext, List.getElem?_map]
  have hinner : ∀ k : ℕ, k < (full.drop b).length → next[k + 1]?.map shape = full[b + k]?.map shape := by
    intro k hk
    rw [hget, List.cons_append, List.getElem?_cons_succ,
      List.getElem?_append_left (by rwa [List.length_map]), List.getElem?_map, List.getElem?_drop]
  intro i m hm hrole
  have hi := hget i
  rw [hm] at hi
  cases i with
  | zero =>
      have hshape : shape m = shape first := Option.some.inj hi
      exact absurd ((congrArg Prod.fst hshape).symm.trans hrole) hfirst
  | succ k =>
      rcases Nat.lt_or_ge k (full.drop b).length with hk | hk
      · -- a result of the kept tail
        have hm' := hinner k hk
        rw [hm] at hm'
        obtain ⟨m', hfull, hshape⟩ := Option.map_eq_some_iff.mp hm'.symm
        have hrole' : m'.role = .tool := (congrArg Prod.fst hshape).trans hrole
        obtain ⟨j, hj⟩ := h (b + k) m' hfull hrole'
        have hbj : b ≤ j := by
          by_contra hlt
          exact absurd ((hcut _ _ hj).mp (Nat.lt_of_not_le hlt)) (by omega)
        have hjk := hj.lt
        refine ⟨j - b + 1, ?_, ?_, ?_⟩
        · omega
        · obtain ⟨m₁, hm₁, -, a, ha, harole, call, hcall, hid⟩ := hj.result
          rw [hfull] at hm₁
          cases hm₁
          have ha' := hinner (j - b) (by omega)
          rw [Nat.add_sub_cancel' hbj, ha] at ha'
          obtain ⟨a', hnexta, hashape⟩ := Option.map_eq_some_iff.mp ha'
          have hcalls : a'.toolCalls = a.toolCalls := congrArg (fun x => x.2.1) hashape
          have hmid : m.toolCallId = m'.toolCallId := (congrArg (fun x => x.2.2) hshape).symm
          exact ⟨m, hm, hrole, a', hnexta, (congrArg Prod.fst hashape).trans harole, call,
            hcalls ▸ hcall, hmid.trans hid⟩
        · intro x y hxj hxi hy
          obtain ⟨x', rfl⟩ : ∃ x', x = x' + 1 := ⟨x - 1, by omega⟩
          have hx' := hinner x' (by omega)
          rw [hy] at hx'
          obtain ⟨y', hfully, hyshape⟩ := Option.map_eq_some_iff.mp hx'.symm
          have htool := hj.between (b + x') y' (by omega) (by omega) hfully
          exact (congrArg Prod.fst hyshape).symm.trans htool
      · -- the notice
        rw [List.cons_append, List.getElem?_cons_succ,
          List.getElem?_append_right (by rwa [List.length_map])] at hi
        have hmem := List.mem_of_getElem? hi.symm
        have hshape : shape m = shape last := List.mem_singleton.mp hmem
        exact absurd ((congrArg Prod.fst hshape).symm.trans hrole) hlast

/-! ## From a start to its checkpoint -/

/-- After a start, until the next one: its record, or nothing to apply. -/
structure Pending (cfg : CompactorConfig) (ratio : Ratio) (history : List Entry)
    (s : CompactorState) : Prop where
  runs : RunsInv s
  quiet : s.running = true → s.resultSummary = none
  record : Records cfg ratio history s ∨ (s.resultSummary = none ∧ s.running = false)

variable {cfg : CompactorConfig} {ratio : Ratio} {history : List Entry} {s : CompactorState}

theorem Pending.settle (h : Pending cfg ratio history s) (run : ℕ)
    (outcome : Except String String) : Pending cfg ratio history (settle s run outcome) := by
  have hinv := h.runs.settle run outcome
  rcases settle_cases s run outcome with ⟨heq, -⟩ | ⟨r, hr, -, heq⟩
  · rw [heq]
    exact h
  · rw [heq] at hinv ⊢
    rcases settleAttempt_cases s r outcome with
      ⟨-, heq⟩ | ⟨-, error, heq⟩ | ⟨-, error, heq⟩ | ⟨hepoch, summary, -, heq⟩
    · rw [heq] at hinv ⊢
      exact ⟨hinv, h.quiet, h.record.imp_left (fun h => h.of_same rfl rfl rfl)⟩
    · rw [heq] at hinv ⊢
      exact ⟨hinv, h.quiet, h.record.imp_left (fun h => h.of_same rfl rfl rfl)⟩
    · rw [heq] at hinv ⊢
      exact ⟨hinv, fun hrun => (by cases hrun),
        h.record.imp (fun h => h.of_same rfl rfl rfl) (fun h => ⟨h.1, rfl⟩)⟩
    · rw [heq] at hinv ⊢
      refine ⟨hinv, fun hrun => (by cases hrun), ?_⟩
      rcases h.record with hrec | ⟨-, hidle⟩
      · exact Or.inl (hrec.of_same rfl rfl rfl)
      · exact absurd (hidle.symm.trans (h.runs.counts r hr hepoch)) Bool.false_ne_true

theorem Pending.step (h : Pending cfg ratio history s) {e : CompactorEvent}
    (he : ∀ ratio history, e ≠ .start ratio history) :
    Pending cfg ratio history (step cfg s e) := by
  cases e with
  | start ratio history => exact absurd rfl (he ratio history)
  | settle run outcome => exact h.settle run outcome
  | apply fresh messages =>
      have hinv : RunsInv (Llm.step cfg s (.apply fresh messages)) := h.runs.step _
      simp only [Llm.step, applyCompaction] at hinv ⊢
      cases hres : s.resultSummary with
      | none => exact h
      | some summary =>
          have hidle : s.running = false := by
            by_contra hrun
            have hnone := h.quiet (by simpa using hrun)
            rw [hres] at hnone
            cases hnone
          rw [hres] at hinv
          dsimp only at hinv ⊢
          split at hinv
          · rename_i hm
            rw [if_pos hm]
            exact ⟨hinv, fun _ => rfl, Or.inr ⟨rfl, hidle⟩⟩
          · rename_i hm
            rw [if_neg hm]
            exact ⟨hinv, fun _ => rfl, Or.inr ⟨rfl, hidle⟩⟩
  | reset => exact ⟨h.runs.step .reset, fun _ => rfl, Or.inr ⟨rfl, rfl⟩⟩

theorem Pending.run (h : Pending cfg ratio history s) :
    ∀ {later : List CompactorEvent}, (∀ e ∈ later, ∀ ratio history, e ≠ .start ratio history) →
      Pending cfg ratio history (run (Llm.step cfg) s later) := by
  intro later
  induction later generalizing s with
  | nil => exact fun _ => h
  | cons e later ih =>
      intro hlater
      exact ih (h.step (hlater e List.mem_cons_self))
        (fun e' he' => hlater e' (List.mem_cons_of_mem _ he'))

theorem Pending.start (hinv : RunsInv s) (hstart : (start cfg ratio history s).1 = .started) :
    Pending cfg ratio history (start cfg ratio history s).2 := by
  have hafter : RunsInv (Llm.start cfg ratio history s).2 := hinv.start ratio history
  obtain ⟨-, -, minChars, heq⟩ := start_started hstart
  rw [heq] at hafter ⊢
  exact ⟨hafter, fun _ => rfl, Or.inl ⟨rfl, rfl, rfl⟩⟩

/-- A checkpoint that rebuilds uses the record of the start. -/
theorem Pending.applied (h : Pending cfg ratio history s) {fresh : ℕ} {messages next : List Entry}
    (happly : (applyCompaction cfg fresh messages s).1 = some next) :
    ∃ summary, next = rebuilt fresh (cfg.boundary (history.map Entry.message) ratio)
      history.length summary messages := by
  unfold applyCompaction at happly
  cases hres : s.resultSummary with
  | none =>
      rw [hres] at happly
      cases happly
  | some summary =>
      rw [hres] at happly
      dsimp only at happly
      split at happly
      · rcases h.record with hrec | ⟨hnone, -⟩
        · rw [hrec.boundary, hrec.length] at happly
          exact ⟨summary, (Option.some.inj happly).symm⟩
        · rw [hres] at hnone
          cases hnone
      · cases happly

/-- **Calls and results stay together, but for one case.** A start of a paired history, and
any events up to the checkpoint that rebuilds it with a continuation that keeps it paired.
No result lost its call and no call its result, if and only if the continuation does not
begin with a result, or the results at the end of the history are none or below the budget
of the kept tail. -/
theorem compaction_pairs (cfg : CompactorConfig) (before later : List CompactorEvent)
    (ratio : Ratio) (history appended : List Entry) (fresh : ℕ) (next : List Entry)
    (hpaired : Paired ((history ++ appended).map Entry.message))
    (hstart : (start cfg ratio history
      (run (step cfg) CompactorState.init before)).1 = .started)
    (hlater : ∀ e ∈ later, ∀ ratio history, e ≠ .start ratio history)
    (happly : (applyCompaction cfg fresh (history ++ appended)
      (run (step cfg) CompactorState.init
        (before ++ .start ratio history :: later))).1 = some next) :
    (Paired (next.map Entry.message) ∧
      Whole ((history ++ appended).map Entry.message)
        (cfg.boundary (history.map Entry.message) ratio)) ↔
      (∀ e, appended.head? = some e → e.message.role ≠ .tool) ∨
        trailingTools (history.map Entry.message) = [] ∨
        tokens ratio (trailingTools (history.map Entry.message)) < cfg.keepTokens := by
  rw [run_append, run_cons] at happly
  have hpending := (Pending.start (runsInv_run before) hstart).run hlater
  obtain ⟨summary, rfl⟩ := hpending.applied happly
  -- a start that folds something has messages
  have hne : history.map Entry.message ≠ [] := by
    intro hnil
    obtain ⟨-, hfold, -⟩ := start_started hstart
    rw [hnil] at hfold
    exact hfold rfl
  have hcut : Whole ((history ++ appended).map Entry.message)
        (cfg.boundary (history.map Entry.message) ratio) ↔
      (∀ e, appended.head? = some e → e.message.role ≠ .tool) ∨
        trailingTools (history.map Entry.message) = [] ∨
        tokens ratio (trailingTools (history.map Entry.message)) < cfg.keepTokens := by
    rw [List.map_append] at hpaired ⊢
    rw [whole_boundary_iff cfg ratio hne hpaired, List.head?_map]
    simp only [Option.map_eq_some_iff, forall_exists_index, and_imp, forall_apply_eq_imp_iff₂]
  rw [← hcut]
  constructor
  · intro h
    exact h.2
  · intro hwhole
    refine ⟨?_, hwhole⟩
    have hle := boundary_le cfg (history.map Entry.message) ratio
    rw [List.length_map] at hle
    refine hpaired.wrap hwhole (rebuilt_shape fresh _ summary hle) ?_ ?_
    · exact fun h => (by cases h)
    · exact fun h => (by cases h)

/-! ### A batch of two calls, compacted between its results -/

/-- A kept tail of at most `keepTokens`, no budget for the request, and texts and digests
as plain concatenations. -/
def plainConfig (keepTokens : ℤ) : CompactorConfig where
  keepTokens := keepTokens
  summaryInputBudget := none
  summarizePrompt := ""
  tailReminder := ""
  serializeHistory ms := String.join (ms.map (fun m => m.content ++ "\n"))
  prefixFingerprint ms := String.join (ms.map (fun m => m.content ++ "\n"))

def fourChars : Ratio := ⟨4, by decide⟩

/-- A request, an assistant message with two calls, and the result of the first. -/
def halfBatch : List Entry :=
  [⟨0, { role := .user, content := "please run both checks" }⟩,
    ⟨1, { role := .assistant, content := "",
          toolCalls := [⟨"c1", "run", "first"⟩, ⟨"c2", "run", "second"⟩] }⟩,
    ⟨2, { role := .tool, content := "first done", toolCallId := some "c1" }⟩]

/-- The result of the second call. -/
def otherHalf : List Entry :=
  [⟨3, { role := .tool, content := "second done", toolCallId := some "c2" }⟩]

/-- The summary arrives between the two. -/
def summaryArrives : List CompactorEvent :=
  [.settle 0 (.ok "two checks were asked for and the first is done")]

theorem halfBatch_paired : Paired ((halfBatch ++ otherHalf).map Entry.message) := by
  have hbetween : ∀ i, i ≤ 3 → ∀ k m, 1 < k → k < i →
      ((halfBatch ++ otherHalf).map Entry.message)[k]? = some m → m.role = .tool := by
    intro i hi k m hk hki hm
    have hk2 : k = 2 := by omega
    rw [hk2] at hm
    cases hm
    rfl
  intro i m hm hrole
  have hlt : i < 4 := (List.getElem?_eq_some_iff.mp hm).1
  obtain rfl | rfl | rfl | rfl : i = 0 ∨ i = 1 ∨ i = 2 ∨ i = 3 := by omega
  · cases hm
    cases hrole
  · cases hm
    cases hrole
  · refine ⟨1, by decide, ⟨m, hm, hrole, _, rfl, rfl, ⟨"c1", "run", "first"⟩, by decide, ?_⟩,
      hbetween 2 (by decide)⟩
    cases hm
    rfl
  · refine ⟨1, by decide, ⟨m, hm, hrole, _, rfl, rfl, ⟨"c2", "run", "second"⟩, by decide, ?_⟩,
      hbetween 3 (by decide)⟩
    cases hm
    rfl

/-- What the checkpoint makes of the batch with the kept tail `keepTokens`. -/
def rebuiltBatch (keepTokens : ℤ) : List Entry :=
  ((applyCompaction (plainConfig keepTokens) 10 (halfBatch ++ otherHalf)
    (run (step (plainConfig keepTokens)) CompactorState.init
      ([] ++ .start fourChars halfBatch :: summaryArrives))).1).getD []

/-- With a kept tail of one token the second result stands alone in the new history. -/
theorem compaction_orphans_result :
    ¬∀ (cfg : CompactorConfig) (before later : List CompactorEvent) (ratio : Ratio)
      (history appended : List Entry) (fresh : ℕ) (next : List Entry),
      Paired ((history ++ appended).map Entry.message) →
      (start cfg ratio history (run (step cfg) CompactorState.init before)).1 = .started →
      (∀ e ∈ later, ∀ ratio history, e ≠ .start ratio history) →
      (applyCompaction cfg fresh (history ++ appended)
        (run (step cfg) CompactorState.init
          (before ++ .start ratio history :: later))).1 = some next →
      Paired (next.map Entry.message) ∧
        Whole ((history ++ appended).map Entry.message)
          (cfg.boundary (history.map Entry.message) ratio) := by
  intro h
  have hpaired : Paired ((rebuiltBatch 1).map Entry.message) := by
    refine (h (plainConfig 1) [] summaryArrives fourChars halfBatch otherHalf 10
      (rebuiltBatch 1) halfBatch_paired (by decide +kernel) ?_ (by decide +kernel)).1
    intro e he
    rw [List.mem_singleton.mp he]
    intro ratio history hcon
    cases hcon
  have hroles : ((rebuiltBatch 1).map Entry.message).map (fun m => m.role) =
      [.system, .tool, .user] := by decide +kernel
  have hrole : ∀ (i : ℕ) m, ((rebuiltBatch 1).map Entry.message)[i]? = some m →
      ([.system, .tool, .user] : List Role)[i]? = some m.role := by
    intro i m hm
    rw [← hroles, List.getElem?_map, hm]
    rfl
  obtain ⟨m, hm, hmrole⟩ : ∃ m, ((rebuiltBatch 1).map Entry.message)[1]? = some m ∧
      m.role = .tool := by
    have hlen : 1 < ((rebuiltBatch 1).map Entry.message).length := by
      rw [← List.length_map, hroles]
      decide
    refine ⟨_, List.getElem?_eq_getElem hlen, ?_⟩
    exact (Option.some.inj (hrole 1 _ (List.getElem?_eq_getElem hlen))).symm
  obtain ⟨j, hj⟩ := hpaired 1 m hm hmrole
  have hj0 : j = 0 := Nat.lt_one_iff.mp hj.lt
  obtain ⟨-, -, -, a, ha, harole, -⟩ := hj.result
  rw [hj0] at ha
  have hsystem := hrole 0 a ha
  rw [harole] at hsystem
  cases hsystem

/-- With a kept tail of ten tokens the whole batch stays. -/
theorem compaction_pairs_kept :
    Paired ((rebuiltBatch 10).map Entry.message) ∧
      Whole ((halfBatch ++ otherHalf).map Entry.message)
        ((plainConfig 10).boundary (halfBatch.map Entry.message) fourChars) := by
  refine (compaction_pairs (plainConfig 10) [] summaryArrives fourChars halfBatch otherHalf 10
    (rebuiltBatch 10) halfBatch_paired (by decide +kernel) ?_ (by decide +kernel)).mpr
    (Or.inr (Or.inr (by decide +kernel)))
  intro e he
  rw [List.mem_singleton.mp he]
  intro ratio history hcon
  cases hcon

end Elpis.Llm
