import Elpis.Kernel.Provenance

/-!
# Run handles are single-use

What the calls of an authority gave out is read off the trace: the tokens that were issued
for a call of a batch, and the handles a token was exchanged for. The invariant ties both
to the tables of the authority. A token stands for one call of one committed batch because
its index went into `issued`, and it gives one handle because `accept` marks it as used.
-/

namespace Elpis.Kernel.Provenance

open Elpis.Js Elpis.Lib

variable {sha256 : String → String} {s s' : State} {t : List Entry} {y : System}

/-! ## What was given out -/

def tokenOf (prepared : ℕ) (callIndex : Js.Num) : Entry → Option ℕ
  | (.issue p n, .ok (.token token)) => if p = prepared ∧ n = callIndex then some token else none
  | _ => none

/-- The tokens issued for the call `callIndex` of the batch `prepared`. -/
def tokensFor (t : List Entry) (prepared : ℕ) (callIndex : Js.Num) : List ℕ :=
  t.filterMap (tokenOf prepared callIndex)

def handleOf (token : ℕ) : Entry → Option ℕ
  | (.accept tok, .ok (.handle handle)) => if tok = token then some handle else none
  | _ => none

/-- The handles `token` was exchanged for. -/
def handlesFor (t : List Entry) (token : ℕ) : List ℕ := t.filterMap (handleOf token)

/-- The run handles accepted for the call `callIndex` of the batch `prepared`. -/
def acceptedHandles (t : List Entry) (prepared : ℕ) (callIndex : Js.Num) : List ℕ :=
  (tokensFor t prepared callIndex).flatMap (handlesFor t)

/-- The batch was committed. -/
def Committed (t : List Entry) (prepared : ℕ) : Prop := (Call.commit prepared, .ok .done) ∈ t

theorem tokensFor_snoc {p : ℕ} {n : Js.Num} {e : Entry} :
    tokensFor (t ++ [e]) p n = tokensFor t p n ++ (tokenOf p n e).toList := by
  unfold tokensFor
  rw [List.filterMap_append]
  cases h : tokenOf p n e <;> simp [h]

theorem handlesFor_snoc {tok : ℕ} {e : Entry} :
    handlesFor (t ++ [e]) tok = handlesFor t tok ++ (handleOf tok e).toList := by
  unfold handlesFor
  rw [List.filterMap_append]
  cases h : handleOf tok e <;> simp [h]

theorem Committed.snoc {p : ℕ} {e : Entry} (h : Committed t p) : Committed (t ++ [e]) p :=
  List.mem_append_left _ h

/-! ## What a call does -/

/-- Everything a call that returns can do to the authority. -/
inductive Effect (s : State) : Call → Reply → State → Prop where
  | prepared (id : String) (calls : Option (List Slot)) (x : PreparedState) (batchId : String)
      (hobject : x.object = s.heap) (hopen : x.committed = false) (hnone : x.issued = []) :
      Effect s (.prepare id calls) (.prepared s.heap x.record)
        { s with preparedStates := s.preparedStates.put x
                 batchIds := s.batchIds ++ [batchId]
                 heap := s.heap + 1 }
  | committed (x : PreparedState) (hx : x ∈ s.preparedStates) (hopen : x.committed = false) :
      Effect s (.commit x.object) .done
        { s with preparedStates := s.preparedStates.put { x with committed := true } }
  | issued (x : PreparedState) (n : Js.Num) (k : ℕ) (call : ResidentToolCallSnapshot)
      (hx : x ∈ s.preparedStates) (hcommitted : x.committed = true)
      (hcall : callAt x.calls n = some (k, call)) (hnew : k ∉ x.issued) :
      Effect s (.issue x.object n) (.token s.heap)
        { s with preparedStates := s.preparedStates.put { x with issued := x.issued ++ [k] }
                 tokenStates := s.tokenStates.put ⟨s.heap, call, false⟩
                 heap := s.heap + 1 }
  | accepted (x : TokenState) (hx : x ∈ s.tokenStates) (hunused : x.used = false) :
      Effect s (.accept x.object) (.handle s.heap)
        { s with tokenStates := s.tokenStates.put { x with used := true }
                 handleStates := s.handleStates.put ⟨s.heap, x.snapshot, .active⟩
                 heap := s.heap + 1 }
  | resolved (x : HandleState) (hx : x ∈ s.handleStates) (hactive : x.lifecycle = .active) :
      Effect s (.resolveActive x.object) (.snapshot x.snapshot) s
  | looked (x : HandleState) (hx : x ∈ s.handleStates) :
      Effect s (.lifecycle x.object) (.lifecycle x.lifecycle) s
  | detached (x : HandleState) (hx : x ∈ s.handleStates) (hactive : x.lifecycle = .active) :
      Effect s (.detach x.object) .done
        { s with handleStates := s.handleStates.put { x with lifecycle := .detached } }
  | closed (x : HandleState) (hx : x ∈ s.handleStates) :
      Effect s (.close x.object) .done
        { s with handleStates := s.handleStates.put { x with lifecycle := .closed } }
  | closedBefore (x : HandleState) (hx : x ∈ s.handleStates) (hclosed : x.lifecycle = .closed) :
      Effect s (.close x.object) .done s
  | foreign : Effect s .foreign .done { s with heap := s.heap + 1 }

/-- A call returns with one of these effects, or it throws and changes nothing. -/
theorem answer_spec (sha256 : String → String) (s : State) (c : Call) :
    Tx.wp (answer sha256 c) (fun r s' => Effect s c r s') (fun _ s' => s' = s) s := by
  cases c with
  | prepare id calls =>
      simp only [answer, prepare, newObject, Tx.wp_bind, Tx.wp_read, Tx.wp_ensure, Tx.wp_ofExcept,
        Tx.wp_write, Tx.wp_pure]
      refine ⟨fun _ => ⟨fun snapshots _ => ?_, fun _ _ => trivial⟩, fun _ => trivial⟩
      exact .prepared id calls ⟨s.heap, _, snapshots, false, []⟩ _ rfl rfl rfl
  | commit p =>
      simp only [answer, commit, requirePrepared, Tx.wp_bind, Tx.wp_read, Tx.wp_require,
        Tx.wp_ensure, Tx.wp_write, Tx.wp_pure]
      refine ⟨fun x hx => ⟨fun hopen => ?_, fun _ => trivial⟩, fun _ => trivial⟩
      obtain ⟨hmem, rfl⟩ := Table.get?_eq_some.mp hx
      exact .committed x hmem hopen
  | issue p n =>
      simp only [answer, issue, requirePrepared, newObject, Tx.wp_bind, Tx.wp_read, Tx.wp_require,
        Tx.wp_ensure, Tx.wp_write, Tx.wp_pure]
      refine ⟨fun x hx => ⟨fun hcommitted => ⟨fun found hcall => ⟨fun hnew => ?_, fun _ => trivial⟩,
        fun _ => trivial⟩, fun _ => trivial⟩, fun _ => trivial⟩
      obtain ⟨hmem, rfl⟩ := Table.get?_eq_some.mp hx
      exact .issued x n found.1 found.2 hmem hcommitted hcall hnew
  | accept tok =>
      simp only [answer, accept, newObject, Tx.wp_bind, Tx.wp_read, Tx.wp_require, Tx.wp_ensure,
        Tx.wp_write, Tx.wp_pure]
      refine ⟨fun x hx => ⟨fun hunused => ?_, fun _ => trivial⟩, fun _ => trivial⟩
      obtain ⟨hmem, rfl⟩ := Table.get?_eq_some.mp hx
      exact .accepted x hmem hunused
  | resolveActive h =>
      simp only [answer, resolveActive, requireHandle, Tx.wp_bind, Tx.wp_read, Tx.wp_require,
        Tx.wp_ensure, Tx.wp_pure]
      refine ⟨fun x hx => ⟨fun hactive => ?_, fun _ => trivial⟩, fun _ => trivial⟩
      obtain ⟨hmem, rfl⟩ := Table.get?_eq_some.mp hx
      exact .resolved x hmem hactive
  | lifecycle h =>
      simp only [answer, lifecycle, requireHandle, Tx.wp_bind, Tx.wp_read, Tx.wp_require, Tx.wp_pure]
      refine ⟨fun x hx => ?_, fun _ => trivial⟩
      obtain ⟨hmem, rfl⟩ := Table.get?_eq_some.mp hx
      exact .looked x hmem
  | detach h =>
      simp only [answer, detach, requireHandle, Tx.wp_bind, Tx.wp_read, Tx.wp_require, Tx.wp_ensure,
        Tx.wp_write, Tx.wp_pure]
      refine ⟨fun x hx => ⟨fun hactive => ?_, fun _ => trivial⟩, fun _ => trivial⟩
      obtain ⟨hmem, rfl⟩ := Table.get?_eq_some.mp hx
      exact .detached x hmem hactive
  | close h =>
      simp only [answer, close, requireHandle, Tx.wp_bind, Tx.wp_read, Tx.wp_require, Tx.wp_when,
        Tx.wp_write, Tx.wp_pure]
      refine ⟨fun x hx => ⟨fun _ => ?_, fun hclosed => ?_⟩, fun _ => trivial⟩
      · obtain ⟨hmem, rfl⟩ := Table.get?_eq_some.mp hx
        exact .closed x hmem
      · obtain ⟨hmem, rfl⟩ := Table.get?_eq_some.mp hx
        exact .closedBefore x hmem (not_not.mp hclosed)
  | foreign =>
      simp only [answer, newObject, Tx.wp_bind, Tx.wp_read, Tx.wp_write, Tx.wp_pure]
      exact .foreign

/-- What the next call adds to the trace, and what it does. -/
theorem step_cases (sha256 : String → String) (y : System) (c : Call) :
    (∃ e, step sha256 y c = ⟨y.state, y.trace ++ [(c, .error e)]⟩) ∨
      ∃ r s', Effect y.state c r s' ∧ step sha256 y c = ⟨s', y.trace ++ [(c, .ok r)]⟩ := by
  have hspec := Tx.wp_iff.mp (answer_spec sha256 y.state c)
  unfold step
  rcases hm : answer sha256 c y.state with ⟨e | r, s'⟩
  · exact Or.inl ⟨e, by rw [hspec.2 e s' hm]⟩
  · exact Or.inr ⟨r, s', hspec.1 r s' hm, rfl⟩

/-! ## The invariant -/

/-- The tables know what the trace gave out, and the trace shows where each entry of the
tables comes from. -/
structure Inv (s : State) (t : List Entry) : Prop where
  preparedBelow : ∀ x ∈ s.preparedStates, x.object < s.heap
  tokensBelow : ∀ x ∈ s.tokenStates, x.object < s.heap
  handlesBelow : ∀ x ∈ s.handleStates, x.object < s.heap
  committed : ∀ x ∈ s.preparedStates, x.committed = true → Committed t x.object
  oneToken : ∀ p n, (tokensFor t p n).length ≤ 1
  onePair : ∀ {tok p n p' n'}, tok ∈ tokensFor t p n → tok ∈ tokensFor t p' n' → p = p' ∧ n = n'
  issuedAfter : ∀ {tok p n}, tok ∈ tokensFor t p n → Committed t p
  issued : ∀ {tok p n}, tok ∈ tokensFor t p n →
    ∃ x ∈ s.preparedStates, x.object = p ∧
      ∃ k call, callAt x.calls n = some (k, call) ∧ k ∈ x.issued
  tokenKept : ∀ {tok p n}, tok ∈ tokensFor t p n → ∃ x ∈ s.tokenStates, x.object = tok
  tokenKnown : ∀ x ∈ s.tokenStates, ∃ p n, x.object ∈ tokensFor t p n
  oneHandle : ∀ tok, (handlesFor t tok).length ≤ 1
  spent : ∀ {tok h}, h ∈ handlesFor t tok → ∃ x ∈ s.tokenStates, x.object = tok ∧ x.used = true
  handleKnown : ∀ x ∈ s.handleStates, ∃ tok, x.object ∈ handlesFor t tok

theorem Inv.init : Inv State.init [] where
  preparedBelow _ hx := absurd hx Table.not_mem_empty
  tokensBelow _ hx := absurd hx Table.not_mem_empty
  handlesBelow _ hx := absurd hx Table.not_mem_empty
  committed _ hx := absurd hx Table.not_mem_empty
  oneToken _ _ := Nat.zero_le 1
  onePair h := absurd h List.not_mem_nil
  issuedAfter h := absurd h List.not_mem_nil
  issued h := absurd h List.not_mem_nil
  tokenKept h := absurd h List.not_mem_nil
  tokenKnown _ hx := absurd hx Table.not_mem_empty
  oneHandle _ := Nat.zero_le 1
  spent h := absurd h List.not_mem_nil
  handleKnown _ hx := absurd hx Table.not_mem_empty

namespace Inv

/-- An entry that gives out neither a token nor a handle. -/
theorem quiet (h : Inv s t) {e : Entry} (htok : ∀ p n, tokenOf p n e = none)
    (hhandle : ∀ tok, handleOf tok e = none) : Inv s (t ++ [e]) := by
  have htokens : ∀ p n, tokensFor (t ++ [e]) p n = tokensFor t p n := by
    intro p n
    rw [tokensFor_snoc, htok, Option.toList_none, List.append_nil]
  have hhandles : ∀ tok, handlesFor (t ++ [e]) tok = handlesFor t tok := by
    intro tok
    rw [handlesFor_snoc, hhandle, Option.toList_none, List.append_nil]
  exact
    { preparedBelow := h.preparedBelow
      tokensBelow := h.tokensBelow
      handlesBelow := h.handlesBelow
      committed := fun x hx hc => (h.committed x hx hc).snoc
      oneToken := fun p n => by rw [htokens]; exact h.oneToken p n
      onePair := by simp only [htokens]; exact h.onePair
      issuedAfter := by simp only [htokens]; exact fun htok => (h.issuedAfter htok).snoc
      issued := by simp only [htokens]; exact h.issued
      tokenKept := by simp only [htokens]; exact h.tokenKept
      tokenKnown := by simp only [htokens]; exact h.tokenKnown
      oneHandle := fun tok => by rw [hhandles]; exact h.oneHandle tok
      spent := by simp only [hhandles]; exact h.spent
      handleKnown := by simp only [hhandles]; exact h.handleKnown }

/-- More addresses are in use. -/
theorem alloc (h : Inv s t) (ids : List String) :
    Inv { s with batchIds := ids, heap := s.heap + 1 } t where
  preparedBelow x hx := Nat.lt_succ_of_lt (h.preparedBelow x hx)
  tokensBelow x hx := Nat.lt_succ_of_lt (h.tokensBelow x hx)
  handlesBelow x hx := Nat.lt_succ_of_lt (h.handlesBelow x hx)
  committed := h.committed
  oneToken := h.oneToken
  onePair := h.onePair
  issuedAfter := h.issuedAfter
  issued := h.issued
  tokenKept := h.tokenKept
  tokenKnown := h.tokenKnown
  oneHandle := h.oneHandle
  spent := h.spent
  handleKnown := h.handleKnown

/-- A batch is written: a new one, or an old one that lost none of its calls and indices. -/
theorem putPrepared (h : Inv s t) (x' : PreparedState) (hbelow : x'.object < s.heap)
    (hc : x'.committed = true → Committed t x'.object)
    (hgrow : ∀ x ∈ s.preparedStates, x.object = x'.object →
      x'.calls = x.calls ∧ x.issued ⊆ x'.issued) :
    Inv { s with preparedStates := s.preparedStates.put x' } t where
  preparedBelow x hx := by
    rcases Table.mem_put.mp hx with rfl | ⟨hx, _⟩
    · exact hbelow
    · exact h.preparedBelow x hx
  tokensBelow := h.tokensBelow
  handlesBelow := h.handlesBelow
  committed x hx hcx := by
    rcases Table.mem_put.mp hx with rfl | ⟨hx, _⟩
    · exact hc hcx
    · exact h.committed x hx hcx
  oneToken := h.oneToken
  onePair := h.onePair
  issuedAfter := h.issuedAfter
  issued {tok p n} htok := by
    obtain ⟨x, hx, hp, k, call, hcall, hk⟩ := h.issued htok
    by_cases hsame : x.object = x'.object
    · obtain ⟨hcalls, hsub⟩ := hgrow x hx hsame
      exact ⟨x', Table.mem_put.mpr (Or.inl rfl), hsame.symm.trans hp, k, call, hcalls ▸ hcall, hsub hk⟩
    · exact ⟨x, Table.mem_put.mpr (Or.inr ⟨hx, hsame⟩), hp, k, call, hcall, hk⟩
  tokenKept := h.tokenKept
  tokenKnown := h.tokenKnown
  oneHandle := h.oneHandle
  spent := h.spent
  handleKnown := h.handleKnown

theorem putHandle (h : Inv s t) {x' : HandleState} (hbelow : x'.object < s.heap)
    (hknown : ∃ tok, x'.object ∈ handlesFor t tok) :
    Inv { s with handleStates := s.handleStates.put x' } t where
  preparedBelow := h.preparedBelow
  tokensBelow := h.tokensBelow
  handlesBelow x hx := by
    rcases Table.mem_put.mp hx with rfl | ⟨hx, _⟩
    · exact hbelow
    · exact h.handlesBelow x hx
  committed := h.committed
  oneToken := h.oneToken
  onePair := h.onePair
  issuedAfter := h.issuedAfter
  issued := h.issued
  tokenKept := h.tokenKept
  tokenKnown := h.tokenKnown
  oneHandle := h.oneHandle
  spent := h.spent
  handleKnown x hx := by
    rcases Table.mem_put.mp hx with rfl | ⟨hx, _⟩
    · exact hknown
    · exact h.handleKnown x hx

theorem token_lt (h : Inv s t) {tok p : ℕ} {n : Js.Num} (htok : tok ∈ tokensFor t p n) :
    tok < s.heap := by
  obtain ⟨x, hx, rfl⟩ := h.tokenKept htok
  exact h.tokensBelow x hx

theorem issue (h : Inv s t) {x : PreparedState} {n : Js.Num} {k : ℕ} {call : ResidentToolCallSnapshot}
    (hx : x ∈ s.preparedStates) (hc : x.committed = true)
    (hcall : callAt x.calls n = some (k, call)) (hnew : k ∉ x.issued) :
    Inv { s with preparedStates := s.preparedStates.put { x with issued := x.issued ++ [k] }
                 tokenStates := s.tokenStates.put ⟨s.heap, call, false⟩
                 heap := s.heap + 1 }
      (t ++ [(.issue x.object n, .ok (.token s.heap))]) := by
  have hnone : tokensFor t x.object n = [] := by
    rw [List.eq_nil_iff_forall_not_mem]
    intro tok htok
    obtain ⟨x₀, hx₀, hp, k₀, call₀, hcall₀, hk₀⟩ := h.issued htok
    obtain rfl := Table.eq_of_key hx₀ hx hp
    rw [hcall₀] at hcall
    cases hcall
    exact hnew hk₀
  have htokens : ∀ {tok p m}, tok ∈ tokensFor (t ++ [(.issue x.object n, .ok (.token s.heap))]) p m ↔
      tok ∈ tokensFor t p m ∨ p = x.object ∧ m = n ∧ tok = s.heap := by
    intro tok p m
    rw [tokensFor_snoc, List.mem_append]
    by_cases hsame : x.object = p ∧ n = m
    · obtain ⟨rfl, rfl⟩ := hsame
      simp [tokenOf]
    · simp only [tokenOf, if_neg hsame, Option.toList_none, List.not_mem_nil, or_false]
      constructor
      · exact Or.inl
      · rintro (htok | ⟨rfl, rfl, _⟩)
        · exact htok
        · exact absurd ⟨rfl, rfl⟩ hsame
  have hhandles : ∀ tok, handlesFor (t ++ [(.issue x.object n, .ok (.token s.heap))]) tok =
      handlesFor t tok := by
    intro tok
    rw [handlesFor_snoc]
    exact List.append_nil _
  have hold : ∀ x₀ ∈ s.tokenStates, x₀ ∈ s.tokenStates.put ⟨s.heap, call, false⟩ := fun x₀ hx₀ =>
    Table.mem_put.mpr (Or.inr ⟨hx₀, (h.tokensBelow x₀ hx₀).ne⟩)
  constructor
  case preparedBelow =>
    intro x₀ hx₀
    rcases Table.mem_put.mp hx₀ with rfl | ⟨hx₀, _⟩
    · exact Nat.lt_succ_of_lt (h.preparedBelow x hx)
    · exact Nat.lt_succ_of_lt (h.preparedBelow x₀ hx₀)
  case tokensBelow =>
    intro x₀ hx₀
    rcases Table.mem_put.mp hx₀ with rfl | ⟨hx₀, _⟩
    · exact Nat.lt_succ_self _
    · exact Nat.lt_succ_of_lt (h.tokensBelow x₀ hx₀)
  case handlesBelow => exact fun x₀ hx₀ => Nat.lt_succ_of_lt (h.handlesBelow x₀ hx₀)
  case committed =>
    intro x₀ hx₀ hc₀
    rcases Table.mem_put.mp hx₀ with rfl | ⟨hx₀, _⟩
    · exact (h.committed x hx hc).snoc
    · exact (h.committed x₀ hx₀ hc₀).snoc
  case oneToken =>
    intro p m
    by_cases hsame : x.object = p ∧ n = m
    · obtain ⟨rfl, rfl⟩ := hsame
      simp [tokensFor_snoc, hnone, tokenOf]
    · rw [tokensFor_snoc]
      simp only [tokenOf, if_neg hsame, Option.toList_none, List.append_nil]
      exact h.oneToken p m
  case onePair =>
    intro tok p m p' m' htok htok'
    -- a token below the heap is an old one
    rcases htokens.mp htok with hin | ⟨hp, hm, heq⟩ <;>
      rcases htokens.mp htok' with hin' | ⟨hp', hm', heq'⟩
    · exact h.onePair hin hin'
    · exact absurd heq' (h.token_lt hin).ne
    · exact absurd heq (h.token_lt hin').ne
    · exact ⟨hp.trans hp'.symm, hm.trans hm'.symm⟩
  case issuedAfter =>
    intro tok p m htok
    rcases htokens.mp htok with htok | ⟨rfl, rfl, rfl⟩
    · exact (h.issuedAfter htok).snoc
    · exact (h.committed x hx hc).snoc
  case issued =>
    intro tok p m htok
    rcases htokens.mp htok with htok | ⟨rfl, rfl, rfl⟩
    · obtain ⟨x₀, hx₀, rfl, k₀, call₀, hcall₀, hk₀⟩ := h.issued htok
      by_cases hsame : x₀.object = x.object
      · obtain rfl := Table.eq_of_key hx₀ hx hsame
        exact ⟨_, Table.mem_put.mpr (Or.inl rfl), rfl, k₀, call₀, hcall₀, List.mem_append_left _ hk₀⟩
      · exact ⟨x₀, Table.mem_put.mpr (Or.inr ⟨hx₀, hsame⟩), rfl, k₀, call₀, hcall₀, hk₀⟩
    · exact ⟨_, Table.mem_put.mpr (Or.inl rfl), rfl, k, call, hcall, by simp⟩
  case tokenKept =>
    intro tok p m htok
    rcases htokens.mp htok with htok | ⟨rfl, rfl, rfl⟩
    · obtain ⟨x₀, hx₀, rfl⟩ := h.tokenKept htok
      exact ⟨x₀, hold x₀ hx₀, rfl⟩
    · exact ⟨_, Table.mem_put.mpr (Or.inl rfl), rfl⟩
  case tokenKnown =>
    intro x₀ hx₀
    rcases Table.mem_put.mp hx₀ with rfl | ⟨hx₀, _⟩
    · exact ⟨x.object, n, htokens.mpr (Or.inr ⟨rfl, rfl, rfl⟩)⟩
    · obtain ⟨p, m, htok⟩ := h.tokenKnown x₀ hx₀
      exact ⟨p, m, htokens.mpr (Or.inl htok)⟩
  case oneHandle =>
    intro tok
    rw [hhandles]
    exact h.oneHandle tok
  case spent =>
    intro tok hd hhd
    rw [hhandles] at hhd
    obtain ⟨x₀, hx₀, rfl, hused⟩ := h.spent hhd
    exact ⟨x₀, hold x₀ hx₀, rfl, hused⟩
  case handleKnown =>
    simp only [hhandles]
    exact h.handleKnown

theorem accept (h : Inv s t) {x : TokenState} (hx : x ∈ s.tokenStates) (hunused : x.used = false) :
    Inv { s with tokenStates := s.tokenStates.put { x with used := true }
                 handleStates := s.handleStates.put ⟨s.heap, x.snapshot, .active⟩
                 heap := s.heap + 1 }
      (t ++ [(.accept x.object, .ok (.handle s.heap))]) := by
  have hnone : handlesFor t x.object = [] := by
    rw [List.eq_nil_iff_forall_not_mem]
    intro hd hhd
    obtain ⟨x₀, hx₀, hobject, hused⟩ := h.spent hhd
    obtain rfl := Table.eq_of_key hx₀ hx hobject
    rw [hunused] at hused
    cases hused
  have hhandles : ∀ {hd tok},
      hd ∈ handlesFor (t ++ [(.accept x.object, .ok (.handle s.heap))]) tok ↔
        hd ∈ handlesFor t tok ∨ tok = x.object ∧ hd = s.heap := by
    intro hd tok
    rw [handlesFor_snoc, List.mem_append]
    by_cases hsame : x.object = tok
    · subst hsame
      simp [handleOf]
    · simp [handleOf, hsame, Ne.symm hsame]
  have htokens : ∀ p n, tokensFor (t ++ [(.accept x.object, .ok (.handle s.heap))]) p n =
      tokensFor t p n := by
    intro p n
    rw [tokensFor_snoc]
    exact List.append_nil _
  have hold : ∀ x₀ ∈ s.tokenStates,
      ∃ x₁ ∈ s.tokenStates.put { x with used := true }, x₁.object = x₀.object ∧
        (x₀.used = true → x₁.used = true) := by
    intro x₀ hx₀
    by_cases hsame : x₀.object = x.object
    · exact ⟨_, Table.mem_put.mpr (Or.inl rfl), hsame.symm, fun _ => rfl⟩
    · exact ⟨x₀, Table.mem_put.mpr (Or.inr ⟨hx₀, hsame⟩), rfl, id⟩
  constructor
  case preparedBelow => exact fun x₀ hx₀ => Nat.lt_succ_of_lt (h.preparedBelow x₀ hx₀)
  case tokensBelow =>
    intro x₀ hx₀
    rcases Table.mem_put.mp hx₀ with rfl | ⟨hx₀, _⟩
    · exact Nat.lt_succ_of_lt (h.tokensBelow x hx)
    · exact Nat.lt_succ_of_lt (h.tokensBelow x₀ hx₀)
  case handlesBelow =>
    intro x₀ hx₀
    rcases Table.mem_put.mp hx₀ with rfl | ⟨hx₀, _⟩
    · exact Nat.lt_succ_self _
    · exact Nat.lt_succ_of_lt (h.handlesBelow x₀ hx₀)
  case committed => exact fun x₀ hx₀ hc₀ => (h.committed x₀ hx₀ hc₀).snoc
  case oneToken =>
    intro p n
    rw [htokens]
    exact h.oneToken p n
  case onePair =>
    simp only [htokens]
    exact h.onePair
  case issuedAfter =>
    simp only [htokens]
    exact fun htok => (h.issuedAfter htok).snoc
  case issued =>
    simp only [htokens]
    exact h.issued
  case tokenKept =>
    intro tok p n htok
    rw [htokens] at htok
    obtain ⟨x₀, hx₀, rfl⟩ := h.tokenKept htok
    obtain ⟨x₁, hx₁, hobject, _⟩ := hold x₀ hx₀
    exact ⟨x₁, hx₁, hobject⟩
  case tokenKnown =>
    intro x₀ hx₀
    simp only [htokens]
    rcases Table.mem_put.mp hx₀ with rfl | ⟨hx₀, _⟩
    · exact h.tokenKnown x hx
    · exact h.tokenKnown x₀ hx₀
  case oneHandle =>
    intro tok
    by_cases hsame : x.object = tok
    · subst hsame
      simp [handlesFor_snoc, hnone, handleOf]
    · rw [handlesFor_snoc]
      simp only [handleOf, if_neg hsame, Option.toList_none, List.append_nil]
      exact h.oneHandle tok
  case spent =>
    intro tok hd hhd
    rcases hhandles.mp hhd with hhd | ⟨rfl, _⟩
    · obtain ⟨x₀, hx₀, rfl, hused⟩ := h.spent hhd
      obtain ⟨x₁, hx₁, hobject, hused₁⟩ := hold x₀ hx₀
      exact ⟨x₁, hx₁, hobject, hused₁ hused⟩
    · exact ⟨_, Table.mem_put.mpr (Or.inl rfl), rfl, rfl⟩
  case handleKnown =>
    intro x₀ hx₀
    rcases Table.mem_put.mp hx₀ with rfl | ⟨hx₀, _⟩
    · exact ⟨x.object, hhandles.mpr (Or.inr ⟨rfl, rfl⟩)⟩
    · obtain ⟨tok, hhd⟩ := h.handleKnown x₀ hx₀
      exact ⟨tok, hhandles.mpr (Or.inl hhd)⟩

end Inv

/-- A call that returns keeps the invariant. -/
theorem Effect.inv {c : Call} {r : Reply} (he : Effect s c r s') (h : Inv s t) :
    Inv s' (t ++ [(c, .ok r)]) := by
  cases he with
  | prepared id calls x batchId hobject hopen hnone =>
      have hquiet := (h.alloc (s.batchIds ++ [batchId])).quiet
        (e := (.prepare id calls, .ok (.prepared s.heap x.record))) (fun _ _ => rfl) (fun _ => rfl)
      refine hquiet.putPrepared x ?_ ?_ ?_
      · show x.object < s.heap + 1
        exact hobject ▸ Nat.lt_succ_self s.heap
      · intro hc
        rw [hopen] at hc
        cases hc
      · intro x₀ hx₀ hsame
        exact absurd (hsame.trans hobject) (h.preparedBelow x₀ hx₀).ne
  | committed x hx hopen =>
      have hquiet := h.quiet (e := (.commit x.object, .ok .done)) (fun _ _ => rfl) (fun _ => rfl)
      refine hquiet.putPrepared { x with committed := true } (h.preparedBelow x hx) (fun _ => by simp [Committed]) ?_
      intro x₀ hx₀ hsame
      obtain rfl := Table.eq_of_key hx₀ hx hsame
      exact ⟨rfl, List.Subset.refl _⟩
  | issued x n k call hx hcommitted hcall hnew => exact h.issue hx hcommitted hcall hnew
  | accepted x hx hunused => exact h.accept hx hunused
  | resolved x hx hactive => exact h.quiet (fun _ _ => rfl) (fun _ => rfl)
  | looked x hx => exact h.quiet (fun _ _ => rfl) (fun _ => rfl)
  | detached x hx hactive =>
      have hquiet := h.quiet (e := (.detach x.object, .ok .done)) (fun _ _ => rfl) (fun _ => rfl)
      exact hquiet.putHandle (hquiet.handlesBelow x hx) (hquiet.handleKnown x hx)
  | closed x hx =>
      have hquiet := h.quiet (e := (.close x.object, .ok .done)) (fun _ _ => rfl) (fun _ => rfl)
      exact hquiet.putHandle (hquiet.handlesBelow x hx) (hquiet.handleKnown x hx)
  | closedBefore x hx hclosed => exact h.quiet (fun _ _ => rfl) (fun _ => rfl)
  | foreign => exact (h.alloc s.batchIds).quiet (fun _ _ => rfl) (fun _ => rfl)

theorem step_inv (y : System) (c : Call) (h : Inv y.state y.trace) :
    Inv (step sha256 y c).state (step sha256 y c).trace := by
  rcases step_cases sha256 y c with ⟨e, he⟩ | ⟨r, s', heffect, he⟩
  · rw [he]
    exact h.quiet (fun p n => by cases c <;> rfl) (fun tok => by cases c <;> rfl)
  · rw [he]
    exact heffect.inv h

theorem after_inv (cs : List Call) : Inv (after sha256 cs).state (after sha256 cs).trace :=
  run_inv (I := fun y : System => Inv y.state y.trace) step_inv cs Inv.init

/-! ## Every run -/

/-- A place of the trace is the end of a shorter run. -/
theorem trace_split {cs : List Call} {pre post : List Entry} {e : Entry}
    (h : (after sha256 cs).trace = pre ++ e :: post) :
    ∃ cs₁ c cs₂, cs = cs₁ ++ c :: cs₂ ∧ (after sha256 cs₁).trace = pre ∧
      e = (c, (answer sha256 c (after sha256 cs₁).state).1) := by
  induction cs using List.reverseRecOn generalizing post with
  | nil => simp [after, System.init] at h
  | append_singleton cs c ih =>
      have hlast : (after sha256 (cs ++ [c])).trace =
          (after sha256 cs).trace ++ [(c, (answer sha256 c (after sha256 cs).state).1)] := by
        unfold after
        rw [run_append]
        rfl
      rw [hlast] at h
      rcases List.eq_nil_or_concat post with rfl | ⟨post, e', rfl⟩
      · obtain ⟨htrace, he⟩ := List.append_inj' h rfl
        exact ⟨cs, c, [], rfl, htrace, (List.cons.inj he).1.symm⟩
      · rw [List.concat_eq_append, ← List.cons_append, ← List.append_assoc] at h
        obtain ⟨cs₁, c', cs₂, rfl, htrace, he⟩ := ih (List.append_inj' h rfl).1
        exact ⟨cs₁, c', cs₂ ++ [c], by simp, htrace, he⟩

theorem tokensFor_mono {p : ℕ} {n : Js.Num} {pre post : List Entry} {tok : ℕ}
    (h : tok ∈ tokensFor pre p n) : tok ∈ tokensFor (pre ++ post) p n := by
  unfold tokensFor
  rw [List.filterMap_append]
  exact List.mem_append_left _ h

/-- The state of a handle, for the handles there are. -/
def lifecycleOf (s : State) (handle : ℕ) : Option ResidentRunLifecycle :=
  (s.handleStates.get? handle).map HandleState.lifecycle

/-- What one call may do to a handle. -/
inductive Moves : Option ResidentRunLifecycle → Option ResidentRunLifecycle → Prop where
  | stays (l : Option ResidentRunLifecycle) : Moves l l
  | accepted : Moves none (some .active)
  | detached : Moves (some .active) (some .detached)
  | closedActive : Moves (some .active) (some .closed)
  | closedDetached : Moves (some .detached) (some .closed)

theorem lifecycleOf_put {x : HandleState} (handle : ℕ) :
    lifecycleOf { s with handleStates := s.handleStates.put x } handle =
      if handle = x.object then some x.lifecycle else lifecycleOf s handle := by
  unfold lifecycleOf
  rw [Table.get?_put]
  split
  · rfl
  · rfl

theorem lifecycleOf_mem {x : HandleState} (hx : x ∈ s.handleStates) :
    lifecycleOf s x.object = some x.lifecycle := by
  unfold lifecycleOf
  rw [Table.get?_key hx]
  rfl

theorem Effect.moves {c : Call} {r : Reply} (he : Effect s c r s') (h : Inv s t) (handle : ℕ) :
    Moves (lifecycleOf s handle) (lifecycleOf s' handle) := by
  cases he with
  | accepted x hx hunused =>
      show Moves _ (lifecycleOf { s with handleStates := s.handleStates.put _ } handle)
      rw [lifecycleOf_put]
      split
      · rename_i hnew
        have hnone : s.handleStates.get? handle = none := by
          rw [Table.get?_eq_none]
          intro x₀ hx₀ hsame
          exact absurd (hsame.trans hnew) (h.handlesBelow x₀ hx₀).ne
        have hno : lifecycleOf s handle = none := by
          unfold lifecycleOf
          rw [hnone]
          rfl
        rw [hno]
        exact .accepted
      · exact .stays _
  | detached x hx hactive =>
      rw [lifecycleOf_put]
      split
      · rename_i hsame
        subst hsame
        rw [lifecycleOf_mem hx, hactive]
        exact .detached
      · exact .stays _
  | closed x hx =>
      rw [lifecycleOf_put]
      split
      · rename_i hsame
        subst hsame
        rw [lifecycleOf_mem hx]
        cases x.lifecycle with
        | active => exact .closedActive
        | detached => exact .closedDetached
        | closed => exact .stays _
      · exact .stays _
  | prepared => exact .stays _
  | committed => exact .stays _
  | issued => exact .stays _
  | resolved => exact .stays _
  | looked => exact .stays _
  | closedBefore => exact .stays _
  | foreign => exact .stays _

theorem step_moves {y : System} (h : Inv y.state y.trace) (c : Call) (handle : ℕ) :
    Moves (lifecycleOf y.state handle) (lifecycleOf (step sha256 y c).state handle) := by
  rcases step_cases sha256 y c with ⟨e, he⟩ | ⟨r, s', heffect, he⟩
  · rw [he]
    exact .stays _
  · rw [he]
    exact heffect.moves h handle

/-- The handle a call is about. -/
def Call.handle? : Call → Option ℕ
  | .resolveActive h | .lifecycle h | .detach h | .close h => some h
  | _ => none

theorem answer_effect {c : Call} {r : Reply} (h : (answer sha256 c s).1 = .ok r) :
    ∃ s', Effect s c r s' :=
  ⟨_, (Tx.wp_iff.mp (answer_spec sha256 s c)).1 r _ (Prod.ext h rfl)⟩

/-- In every run of an authority: a call of a batch has at most one accepted handle, for a
token that was issued for it after the batch was committed; a handle is active, then
detached or closed, and closed for good; `resolveActive` answers for an active handle only;
and a call succeeds only on a handle that an earlier `accept` gave out. -/
theorem run_handles_single_use (sha256 : String → String) (cs : List Call) :
    let y := after sha256 cs
    (∀ p n, (acceptedHandles y.trace p n).length ≤ 1) ∧
    (∀ pre tok h post, y.trace = pre ++ (.accept tok, .ok (.handle h)) :: post →
      (∃ p n, tok ∈ tokensFor pre p n) ∧
        ∀ p n, tok ∈ tokensFor y.trace p n → tok ∈ tokensFor pre p n ∧ Committed pre p) ∧
    (∀ c h, Moves (lifecycleOf y.state h) (lifecycleOf (step sha256 y c).state h)) ∧
    (∀ h r, (answer sha256 (.resolveActive h) y.state).1 = .ok r →
      lifecycleOf y.state h = some .active) ∧
    ∀ c h r, c.handle? = some h → (answer sha256 c y.state).1 = .ok r →
      ∃ tok, h ∈ handlesFor y.trace tok := by
  have hinv : Inv (after sha256 cs).state (after sha256 cs).trace := after_inv cs
  refine ⟨?_, ?_, fun c h => step_moves hinv c h, ?_, ?_⟩
  · -- at most one token, and at most one handle for it
    intro p n
    have htoken := hinv.oneToken p n
    unfold acceptedHandles
    match htokens : tokensFor (after sha256 cs).trace p n, htoken with
    | [], _ => exact Nat.zero_le 1
    | [tok], _ =>
        rw [List.flatMap_singleton]
        exact hinv.oneHandle tok
  · intro pre tok h post hsplit
    obtain ⟨cs₁, c, cs₂, -, rfl, he⟩ := trace_split hsplit
    obtain ⟨rfl, hanswer⟩ := Prod.mk.inj he
    have hinv₁ : Inv (after sha256 cs₁).state (after sha256 cs₁).trace := after_inv cs₁
    obtain ⟨s', heffect⟩ := answer_effect hanswer.symm
    cases heffect with
    | accepted x hx hunused =>
        obtain ⟨p, n, htok⟩ := hinv₁.tokenKnown x hx
        refine ⟨⟨p, n, htok⟩, fun p' n' htok' => ?_⟩
        rw [hsplit] at hinv
        obtain ⟨rfl, rfl⟩ := hinv.onePair (tokensFor_mono htok) (hsplit ▸ htok')
        exact ⟨htok, hinv₁.issuedAfter htok⟩
  · intro h r hanswer
    obtain ⟨s', heffect⟩ := answer_effect hanswer
    cases heffect with
    | resolved x hx hactive => rw [lifecycleOf_mem hx, hactive]
  · intro c h r hc hanswer
    obtain ⟨s', heffect⟩ := answer_effect hanswer
    cases heffect with
    | resolved x hx => cases hc; exact hinv.handleKnown x hx
    | looked x hx => cases hc; exact hinv.handleKnown x hx
    | detached x hx => cases hc; exact hinv.handleKnown x hx
    | closed x hx => cases hc; exact hinv.handleKnown x hx
    | closedBefore x hx => cases hc; exact hinv.handleKnown x hx
    | _ => cases hc

end Elpis.Kernel.Provenance
