import Elpis.Gateway.Authorize
import Elpis.Store.Sessions

/-!
# What the model is sent of its reasoning

`endsTurn` and `prepareForApi` of `src/llm/llm.ts`. Before a request the reasoning of completed turns
is left out, up to the last message that ended a turn. Whether a message ended a turn is decided by
what follows it up to the next assistant message, and what has been found once stays found: so a
longer history only moves the boundary forward, and the prefix that was sent before is sent again.
-/

namespace Elpis.Llm.Projection

open Elpis.Kernel (Role ToolCall)
open Elpis.Lib.JsonText (word)
open Elpis.Gateway.LlmProxy (jsonParse)

/-- `ChatMessage`, with the two fields that the transcript does not keep. -/
structure ChatMessage extends Store.ChatMessage where
  contentParts : Option (List String) := none
  ephemeral : Option Bool := none

/-! ## Turns -/

def toolStatusLine (content : String) : List Char :=
  let lines := content.toList.splitOn '\n'
  (lines.find? (fun l => "[run".toList.isPrefixOf l)).getD (lines.headD [])

/-- The result of a call among the messages behind it, before the next assistant message. -/
def toolResultOf (id : String) : List ChatMessage → Option ChatMessage
  | [] => none
  | candidate :: rest =>
      if candidate.role = .assistant then none
      else if candidate.role = .tool ∧ candidate.toolCallId = some id then some candidate
      else toolResultOf id rest

/-- The run has a wake that reached the scheduler. -/
def yielded (toolResult : ChatMessage) : Bool :=
  match toolResult.run with
  | none => false
  | some run =>
      run.ok && run.wake.any (fun wake => wake.taskId.isSome &&
        (decide (wake.state = .armed) || decide (wake.state = .preempted) || decide (wake.state = .fired)))

/-- The arguments of an old call say `end: true`. -/
def legacyEnd (arguments : String) : Bool :=
  match jsonParse (Js.codeUnits (if arguments = "" then "\x7b\x7d" else arguments)) with
  | some (.obj fields) =>
      match fields.lookup (word "end") with
      | some (.bool b) => b
      | _ => false
  | _ => false

/-- `endsTurn` of a message, with the messages behind it. -/
def endsTurnBefore (message : ChatMessage) (behind : List ChatMessage) : Bool :=
  if message.role ≠ .assistant then false
  else match (message.toolCalls.getD []).getLast? with
    | none => true
    | some last =>
        match toolResultOf last.id behind with
        | none => false
        | some toolResult =>
            yielded toolResult ||
              legacyEnd last.arguments && "[run ok".toList.isPrefixOf (toolStatusLine toolResult.content)

/-- `endsTurn(messages, i)`. -/
def endsTurn (messages : List ChatMessage) (i : ℕ) : Bool :=
  match messages.drop i with
  | [] => false
  | message :: behind => endsTurnBefore message behind

/-! ## The projection -/

/-- The last message that ended a turn, looked for from the end. -/
def reasoningBoundary (messages : List ChatMessage) : Option ℕ :=
  (List.range messages.length).reverse.find? (endsTurn messages)

/-- `!m.reasoning_content` does not hold. -/
def ChatMessage.hasReasoning (m : ChatMessage) : Bool := m.reasoningContent.any (fun text => decide (text ≠ ""))

/-- `const { reasoning_content: _drop, ...rest } = m`. -/
def ChatMessage.rest (m : ChatMessage) : ChatMessage := { m with reasoningContent := none }

def prepareForApi (messages : List ChatMessage) : List ChatMessage :=
  messages.mapIdx (fun i m =>
    if m.hasReasoning = false ∨ (reasoningBoundary messages).all (fun boundary => decide (boundary < i)) then m
    else m.rest)

/-! ## A longer history -/

section Append
variable {messages later : List ChatMessage}

theorem toolResultOf_append {id : String} {result : ChatMessage} (h : toolResultOf id messages = some result) :
    toolResultOf id (messages ++ later) = some result := by
  induction messages with
  | nil => cases h
  | cons m messages ih =>
      rw [List.cons_append, toolResultOf]
      rw [toolResultOf] at h
      split_ifs at h ⊢ with hassistant htool
      · exact h
      · exact ih h

theorem endsTurnBefore_append {message : ChatMessage} (h : endsTurnBefore message messages = true) :
    endsTurnBefore message (messages ++ later) = true := by
  rw [endsTurnBefore] at h ⊢
  by_cases hrole : message.role = .assistant
  · rw [if_neg (not_not.mpr hrole)] at h ⊢
    cases hlast : (message.toolCalls.getD []).getLast? with
    | none => rfl
    | some last =>
        rw [hlast] at h
        cases hresult : toolResultOf last.id messages with
        | none =>
            -- the turn is not ended by a call without a result
            simp only [hresult] at h
            cases h
        | some result =>
            simp only [hresult] at h
            simp only [toolResultOf_append hresult]
            exact h
  · rw [if_pos hrole] at h
    cases h

theorem endsTurn_lt {i : ℕ} (h : endsTurn messages i = true) : i < messages.length := by
  by_contra hi
  rw [endsTurn, List.drop_eq_nil_of_le (not_lt.mp hi)] at h
  cases h

/-- A message that ended a turn has ended it whatever follows. -/
theorem endsTurn_append {i : ℕ} (h : endsTurn messages i = true) : endsTurn (messages ++ later) i = true := by
  have hi : i < messages.length := endsTurn_lt h
  rw [endsTurn, List.drop_eq_getElem_cons hi] at h
  rw [endsTurn, List.drop_append_of_le_length hi.le, List.drop_eq_getElem_cons hi]
  exact endsTurnBefore_append h

end Append

/-! ## The boundary -/

section Boundary
variable {messages : List ChatMessage}

/-- The boundary is the last message that ended a turn. -/
theorem reasoningBoundary_eq_some {b : ℕ} : reasoningBoundary messages = some b ↔
    endsTurn messages b = true ∧ ∀ j, endsTurn messages j = true → j ≤ b := by
  have hfind : ∀ n, (List.range n).reverse.find? (endsTurn messages) = some b ↔
      b < n ∧ endsTurn messages b = true ∧ ∀ j < n, endsTurn messages j = true → j ≤ b := by
    intro n
    induction n with
    | zero => simp
    | succ n ih =>
        rw [List.range_succ, List.reverse_append, List.reverse_singleton, List.singleton_append, List.find?_cons]
        cases hn : endsTurn messages n with
        | true =>
            constructor
            · rintro ⟨⟩
              exact ⟨Nat.lt_succ_self b, hn, fun j hj _ => Nat.lt_succ_iff.mp hj⟩
            · rintro ⟨hb, -, hlast⟩
              rw [Nat.le_antisymm (hlast n (Nat.lt_succ_self n) hn) (Nat.lt_succ_iff.mp hb)]
        | false =>
            rw [ih]
            constructor
            · rintro ⟨hb, hends, hlast⟩
              refine ⟨hb.trans (Nat.lt_succ_self n), hends, fun j hj hj' => ?_⟩
              rcases Nat.lt_succ_iff_lt_or_eq.mp hj with hj | rfl
              · exact hlast j hj hj'
              · rw [hn] at hj'
                cases hj'
            · rintro ⟨hb, hends, hlast⟩
              have hne : b ≠ n := by
                rintro rfl
                rw [hn] at hends
                cases hends
              exact ⟨by omega, hends, fun j hj => hlast j (hj.trans (Nat.lt_succ_self n))⟩
  rw [reasoningBoundary, hfind]
  constructor
  · rintro ⟨-, hends, hlast⟩
    exact ⟨hends, fun j hj => hlast j (endsTurn_lt hj) hj⟩
  · rintro ⟨hends, hlast⟩
    exact ⟨endsTurn_lt hends, hends, fun j _ => hlast j⟩

/-- Some message from here on ended a turn. -/
def Completed (messages : List ChatMessage) (i : ℕ) : Prop := ∃ j, i ≤ j ∧ endsTurn messages j = true

theorem reasoningBoundary_eq_none : reasoningBoundary messages = none ↔ ∀ j, endsTurn messages j = false := by
  rw [reasoningBoundary, List.find?_eq_none]
  constructor
  · intro h j
    by_contra hj
    rw [Bool.not_eq_false] at hj
    exact h j (List.mem_reverse.mpr (List.mem_range.mpr (endsTurn_lt hj))) hj
  · intro h j _
    rw [h j]
    exact Bool.false_ne_true

/-- A message is behind the boundary exactly when neither it nor one after it ended a turn. -/
theorem behind_boundary (messages : List ChatMessage) (i : ℕ) :
    (reasoningBoundary messages).all (fun boundary => decide (boundary < i)) = true ↔
      ¬ Completed messages i := by
  cases hb : reasoningBoundary messages with
  | none =>
      refine iff_of_true rfl ?_
      rintro ⟨j, -, hj⟩
      rw [reasoningBoundary_eq_none.mp hb j] at hj
      cases hj
  | some b =>
      obtain ⟨hends, hlast⟩ := reasoningBoundary_eq_some.mp hb
      simp only [Option.all_some, decide_eq_true_eq]
      constructor
      · rintro h ⟨j, hij, hj⟩
        exact absurd (hlast j hj) (by omega)
      · intro h
        by_contra hi
        exact h ⟨b, not_lt.mp hi, hends⟩

theorem Completed.append {i : ℕ} (h : Completed messages i) (later : List ChatMessage) :
    Completed (messages ++ later) i := by
  obtain ⟨j, hij, hj⟩ := h
  exact ⟨j, hij, endsTurn_append hj⟩

end Boundary

/-! ## Whether a turn ended does not depend on its reasoning -/

section Rest
variable {messages messages' : List ChatMessage}

theorem toolResultOf_rest (id : String) (messages : List ChatMessage) :
    toolResultOf id (messages.map ChatMessage.rest) = (toolResultOf id messages).map ChatMessage.rest := by
  induction messages with
  | nil => rfl
  | cons m messages ih =>
      rw [List.map_cons, toolResultOf, toolResultOf, ih]
      change (if m.role = .assistant then none else
        if m.role = .tool ∧ m.toolCallId = some id then some m.rest else _) = _
      split_ifs <;> rfl

theorem endsTurnBefore_rest (m : ChatMessage) (messages : List ChatMessage) :
    endsTurnBefore m.rest (messages.map ChatMessage.rest) = endsTurnBefore m messages := by
  unfold endsTurnBefore
  change (if m.role ≠ .assistant then false else match (m.toolCalls.getD []).getLast? with
    | none => true
    | some last => _) = _
  cases (m.toolCalls.getD []).getLast? with
  | none => rfl
  | some last =>
      simp only [toolResultOf_rest]
      cases toolResultOf last.id messages <;> rfl

theorem endsTurn_rest (messages : List ChatMessage) (i : ℕ) :
    endsTurn (messages.map ChatMessage.rest) i = endsTurn messages i := by
  rw [endsTurn, endsTurn, ← List.map_drop]
  cases messages.drop i with
  | nil => rfl
  | cons m behind => exact endsTurnBefore_rest m behind

theorem completed_congr (h : messages.map ChatMessage.rest = messages'.map ChatMessage.rest) (i : ℕ) :
    Completed messages i ↔ Completed messages' i := by
  unfold Completed
  simp only [← endsTurn_rest messages, ← endsTurn_rest messages', h]

end Rest

/-! ## The projection of a history -/

section Projection
variable {messages : List ChatMessage}

open Classical in
theorem getElem?_prepareForApi (messages : List ChatMessage) (i : ℕ) :
    (prepareForApi messages)[i]? =
      messages[i]?.map (fun m => if Completed messages i ∧ m.hasReasoning = true then m.rest else m) := by
  rw [prepareForApi, List.getElem?_mapIdx]
  refine congrArg (fun f => messages[i]?.map f) (funext fun m => ?_)
  have hbehind := behind_boundary messages i
  by_cases hc : Completed messages i <;> cases m.hasReasoning <;> simp [hc, hbehind]

theorem length_prepareForApi (messages : List ChatMessage) :
    (prepareForApi messages).length = messages.length := List.length_mapIdx

theorem prepareForApi_rest (messages : List ChatMessage) :
    (prepareForApi messages).map ChatMessage.rest = messages.map ChatMessage.rest := by
  refine List.ext_getElem? fun i => ?_
  rw [List.getElem?_map, List.getElem?_map, getElem?_prepareForApi, Option.map_map]
  refine congrArg (fun f => messages[i]?.map f) (funext fun m => ?_)
  simp only [Function.comp]
  split_ifs <;> rfl

/-- What is left has no reasoning that another pass would leave out. -/
theorem prepareForApi_idem (messages : List ChatMessage) :
    prepareForApi (prepareForApi messages) = prepareForApi messages := by
  refine List.ext_getElem? fun i => ?_
  have hcompleted : Completed (prepareForApi messages) i ↔ Completed messages i :=
    completed_congr (prepareForApi_rest messages) i
  rw [getElem?_prepareForApi (prepareForApi messages), getElem?_prepareForApi messages, Option.map_map]
  refine congrArg (fun f => messages[i]?.map f) (funext fun m => ?_)
  rw [Function.comp, hcompleted]
  by_cases hremoved : Completed messages i ∧ m.hasReasoning = true
  · rw [if_pos hremoved]
    exact if_neg (fun h => Bool.false_ne_true h.2)
  · rw [if_neg hremoved, if_neg hremoved]

end Projection

/-- Exactly the reasoning up to the last message that ended a turn is left out, and nothing else
changes; a projection is projected to itself; and appended messages bring no reasoning back and leave
the projection up to the last turn's end as it was. -/
theorem prepareForApi_spec (messages : List ChatMessage) :
    (∀ (i : ℕ) (m : ChatMessage), messages[i]? = some m →
      ((∃ j, i ≤ j ∧ endsTurn messages j = true) →
        (prepareForApi messages)[i]? = some (if m.hasReasoning = true then m.rest else m)) ∧
      ((∀ j, i ≤ j → endsTurn messages j = false) → (prepareForApi messages)[i]? = some m)) ∧
    (prepareForApi messages).length = messages.length ∧
    prepareForApi (prepareForApi messages) = prepareForApi messages ∧
    ∀ later : List ChatMessage,
      (∀ (i : ℕ) (m : ChatMessage), messages[i]? = some m → (prepareForApi messages)[i]? ≠ some m →
        (prepareForApi (messages ++ later))[i]? = (prepareForApi messages)[i]?) ∧
      ∀ b, endsTurn messages b = true →
        (prepareForApi (messages ++ later)).take (b + 1) = (prepareForApi messages).take (b + 1) := by
  classical
  have hkept : ∀ (ms : List ChatMessage) (i : ℕ) (m : ChatMessage), ms[i]? = some m →
      (prepareForApi ms)[i]? = some (if Completed ms i ∧ m.hasReasoning = true then m.rest else m) := by
    intro ms i m hm
    rw [getElem?_prepareForApi, hm, Option.map_some]
  refine ⟨fun i m hm => ⟨fun hends => ?_, fun hno => ?_⟩, length_prepareForApi messages, ?_,
    fun later => ⟨fun i m hm hchanged => ?_, fun b hb => ?_⟩⟩
  · have hc : Completed messages i := hends
    rw [hkept messages i m hm]
    simp only [hc, true_and]
  · rw [hkept messages i m hm, if_neg]
    rintro ⟨⟨j, hij, hj⟩, -⟩
    rw [hno j hij] at hj
    cases hj
  · exact prepareForApi_idem messages
  · have hm' : (messages ++ later)[i]? = some m := by
      rw [List.getElem?_append_left (List.getElem?_eq_some_iff.mp hm).1, hm]
    have hremoved : Completed messages i ∧ m.hasReasoning = true := by
      by_contra hkeep
      exact hchanged (by rw [hkept messages i m hm, if_neg hkeep])
    rw [hkept _ i m hm, hkept _ i m hm', if_pos hremoved, if_pos ⟨hremoved.1.append later, hremoved.2⟩]
  · refine List.ext_getElem? fun i => ?_
    rw [List.getElem?_take, List.getElem?_take]
    by_cases hi : i < b + 1
    · have hc : Completed messages i := ⟨b, Nat.lt_succ_iff.mp hi, hb⟩
      have hlt : i < messages.length := lt_of_le_of_lt (Nat.lt_succ_iff.mp hi) (endsTurn_lt hb)
      rw [if_pos hi, if_pos hi, getElem?_prepareForApi, getElem?_prepareForApi,
        List.getElem?_append_left hlt]
      simp only [hc, hc.append later]
    · rw [if_neg hi, if_neg hi]

end Elpis.Llm.Projection
